import Mathlib.Tactic.Common

/-!
# A flat byte memory

Memory is a total map from addresses to bytes. `memcpy` writes a block,
`bytesAt` reads one; a block is read back as it was written, and blocks that do
not overlap do not interfere.
-/

namespace Aloe.Lib.Memory

open List

abbrev Mem : Type := ℕ → UInt8

/-- The `len` bytes from address `off`. -/
def bytesAt (d : Mem) (off len : ℕ) : List UInt8 := (List.range len).map fun k => d (off + k)

/-- Writes the block `bs` at address `off`. -/
def memcpy (d : Mem) (off : ℕ) (bs : List UInt8) : Mem := fun a =>
  if off ≤ a ∧ a < off + bs.length then bs.getD (a - off) 0 else d a

variable {d : Mem} {off off' len : ℕ} {bs : List UInt8}

@[simp] lemma length_bytesAt : (bytesAt d off len).length = len := by
  simp [bytesAt]

lemma bytesAt_congr {d' : Mem} (h : ∀ k < len, d (off + k) = d' (off + k)) :
    bytesAt d off len = bytesAt d' off len := by
  unfold bytesAt
  apply map_congr_left
  intro k hk
  exact h k (mem_range.mp hk)

lemma bytesAt_add (len' : ℕ) :
    bytesAt d off (len + len') = bytesAt d off len ++ bytesAt d (off + len) len' := by
  simp only [bytesAt, range_add, map_append, map_map]
  refine congrArg _ (map_congr_left fun k _ => ?_)
  rw [Function.comp_apply, Nat.add_assoc]

lemma take_drop_bytesAt {r n : ℕ} (h : r + n ≤ len) :
    ((bytesAt d off len).drop r).take n = bytesAt d (off + r) n := by
  obtain ⟨k, rfl⟩ := Nat.exists_eq_add_of_le h
  rw [Nat.add_assoc, bytesAt_add, drop_left' length_bytesAt, bytesAt_add, take_left' length_bytesAt]

@[simp] lemma bytesAt_memcpy : bytesAt (memcpy d off bs) off bs.length = bs := by
  apply ext_getElem
  · simp
  · intro k hk hk'
    simp only [bytesAt, getElem_map, getElem_range, memcpy]
    rw [if_pos ⟨by omega, by omega⟩]
    simp [List.getD, hk']

lemma bytesAt_memcpy_of_disjoint (h : off' + len ≤ off ∨ off + bs.length ≤ off') :
    bytesAt (memcpy d off bs) off' len = bytesAt d off' len := by
  apply bytesAt_congr
  intro k hk
  unfold memcpy
  rw [if_neg (by omega)]

end Aloe.Lib.Memory
