import Mathlib.Algebra.GroupWithZero.Nat
import Mathlib.Data.List.Basic
import Aloe.Modrep.Streams

/-!
# Bit fields in a packet

Model of `pack_bits` and `unpack_bits` of `gen_libs/base/pack.c`. A packet has one bit in each
`char`; a field is written with its high bit first. `Holds` says which fields lie in the packet
from a place on: a list of fields that is packed is held, and a field that is held is what is
unpacked there.
-/

namespace Aloe.Modrep

open Lib List BitVec

/-- A C `int`, by its bits. -/
abbrev CInt : Type := BitVec 32

/-- A packet of `cap` `char`s, and the place of the pointer in it. -/
structure BitBuffer where
  cells : ℕ → Char8
  cap : ℕ
  pos : ℕ

/-- Bit `k` of a word as a `char`. -/
def bitChar (value : CInt) (k : ℕ) : Char8 := ((value >>> k) &&& 1).setWidth 8

/-- `pack_bits`; `none` where a bit is written outside the packet. -/
def packBits (value : CInt) (nofBits : ℕ) (b : BitBuffer) : Option BitBuffer :=
  (storeRange b.cap b.pos nofBits (fun i => bitChar value (nofBits - i - 1)) b.cells).map
    fun cells => { b with cells := cells, pos := b.pos + nofBits }

/-- `unpack_bits`; `none` where a bit is read outside the packet. -/
def unpackBits (nofBits : ℕ) (b : BitBuffer) : Option (CInt × BitBuffer) :=
  if ∀ i < nofBits, b.pos + i < b.cap then
    some ((List.range nofBits).foldl (fun value i =>
        value ||| ((b.cells (b.pos + i)).signExtend 32 <<< (nofBits - i - 1))) 0,
      { b with pos := b.pos + nofBits })
  else none

/-! ## A field that is packed and unpacked -/

lemma getLsbD_foldl_or {w : ℕ} (f : ℕ → BitVec w) (n j : ℕ) :
    ((List.range n).foldl (fun acc i => acc ||| f i) 0).getLsbD j = true ↔
      ∃ i < n, (f i).getLsbD j = true := by
  induction n with
  | zero => simp
  | succ n ih =>
    rw [range_succ, foldl_append, foldl_cons, foldl_nil, getLsbD_or, Bool.or_eq_true, ih]
    constructor
    · grind
    · grind

lemma bitChar_eq (value : CInt) (k : ℕ) : bitChar value k = if value.getLsbD k then 1 else 0 := by
  apply eq_of_getLsbD_eq
  intro i hi
  rw [bitChar, getLsbD_setWidth, getLsbD_and, getLsbD_ushiftRight]
  cases hbit : value.getLsbD k <;> rcases i with _ | i <;> simp_all

lemma getLsbD_signExtend_bitChar (value : CInt) (k j : ℕ) :
    (((bitChar value k).signExtend 32) <<< k).getLsbD j = true ↔
      j = k ∧ value.getLsbD k = true := by
  rw [bitChar_eq]
  cases hbit : value.getLsbD k with
  | false => simp
  | true =>
    have hk : k < 32 := lt_of_getLsbD hbit
    rw [if_pos rfl, show (1 : Char8).signExtend 32 = 1#32 from rfl, getLsbD_shiftLeft, getLsbD_one]
    simp only [Bool.and_eq_true, decide_eq_true_eq, Bool.not_eq_true', decide_eq_false_iff_not,
      and_true]
    omega

lemma foldl_bitChar {value : CInt} {n : ℕ} (h : value.toNat < 2 ^ n) :
    (List.range n).foldl (fun acc i =>
      acc ||| ((bitChar value (n - i - 1)).signExtend 32 <<< (n - i - 1))) 0 = value := by
  apply eq_of_getLsbD_eq
  intro j hj
  rw [Bool.eq_iff_iff, getLsbD_foldl_or]
  constructor
  · rintro ⟨i, -, hbit⟩
    obtain ⟨rfl, hvalue⟩ := (getLsbD_signExtend_bitChar ..).mp hbit
    exact hvalue
  · intro hbit
    have hlt : j < n := by
      by_contra hge
      have hzero : value.getLsbD j = false :=
        Nat.testBit_lt_two_pow (h.trans_le (Nat.pow_le_pow_right (by decide) (not_lt.mp hge)))
      rw [hzero] at hbit
      cases hbit
    refine ⟨n - j - 1, by omega, (getLsbD_signExtend_bitChar ..).mpr ⟨by omega, ?_⟩⟩
    rwa [show n - (n - j - 1) - 1 = j by omega]

/-! ## The fields of a packet -/

/-- The fields lie one after the other from `pos` on; a field is a value and a number of bits. -/
def Holds (cells : ℕ → Char8) : ℕ → List (CInt × ℕ) → Prop
  | _, [] => True
  | pos, (value, n) :: fs =>
    (∀ i < n, cells (pos + i) = bitChar value (n - i - 1)) ∧ Holds cells (pos + n) fs

def fieldBits (fs : List (CInt × ℕ)) : ℕ := (fs.map Prod.snd).sum

@[simp] lemma fieldBits_nil : fieldBits [] = 0 := rfl

@[simp] lemma fieldBits_cons (f : CInt × ℕ) (fs : List (CInt × ℕ)) :
    fieldBits (f :: fs) = f.2 + fieldBits fs := sum_cons

@[simp] lemma fieldBits_append (fs gs : List (CInt × ℕ)) :
    fieldBits (fs ++ gs) = fieldBits fs + fieldBits gs := by
  rw [fieldBits, map_append, sum_append, fieldBits, fieldBits]

section Fields

variable {cells cells' : ℕ → Char8} {pos : ℕ} {fs gs : List (CInt × ℕ)} {b : BitBuffer} {n : ℕ}

lemma packBits_spec (value : CInt) (hcap : b.pos + n ≤ b.cap) :
    ∃ cells, packBits value n b = some { b with cells := cells, pos := b.pos + n } ∧
      Holds cells b.pos [(value, n)] ∧ ∀ j, j < b.pos → cells j = b.cells j := by
  obtain ⟨cells, hcells, hval, hrest⟩ :=
    storeRange_spec hcap (fun i => bitChar value (n - i - 1)) b.cells
  refine ⟨cells, by rw [packBits, hcells, Option.map_some], ⟨hval, trivial⟩, fun j hj => ?_⟩
  exact hrest j (.inl hj)

lemma unpackBits_of_holds {value : CInt}
    (h : Holds b.cells b.pos [(value, n)]) (hvalue : value.toNat < 2 ^ n)
    (hcap : b.pos + n ≤ b.cap) :
    unpackBits n b = some (value, { b with pos := b.pos + n }) := by
  have hfold : (List.range n).foldl (fun v i =>
      v ||| ((b.cells (b.pos + i)).signExtend 32 <<< (n - i - 1))) 0 = value := by
    refine (foldl_ext _ _ _ fun v i hi => ?_).trans (foldl_bitChar hvalue)
    rw [h.1 i (mem_range.mp hi)]
  rw [unpackBits, if_pos fun i hi => by omega, hfold]

end Fields

/-! ## Programs over a packet -/

inductive Stop where
  | ret (code : ℤ)
  | fault
deriving DecidableEq, Repr

/-- A program over a packet and an object of type `σ`. -/
abbrev BitProg (σ α : Type) : Type := EStateM Stop (BitBuffer × σ) α

variable {σ : Type}

def pack (value : CInt) (nofBits : ℕ) : BitProg σ Unit := fun (b, s) =>
  match packBits value nofBits b with
  | some b' => .ok () (b', s)
  | none => .error .fault (b, s)

def unpack (nofBits : ℕ) (store : CInt → σ → σ) : BitProg σ Unit := fun (b, s) =>
  match unpackBits nofBits b with
  | some (value, b') => .ok () (b', store value s)
  | none => .error .fault (b, s)

def passed : BitProg σ ℕ := fun (b, s) => .ok b.pos (b, s)

end Aloe.Modrep
