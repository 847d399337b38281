import Mathlib.Data.Fin.VecNotation
import Aloe.Lib.Store

/-!
# Three streams in one

The rate matchers take the output of a rate 1/3 coder apart into its three streams and put three
streams together again. Both modules have the same `char_unwrap` and `float_wrap`; the sizes of
the arrays are theirs.
-/

namespace Aloe.Modrep

open Lib

/-- A `char` of the transmitter: a bit, or `DUMMYBIT`. -/
abbrev Char8 := BitVec 8

def dummyBit : Char8 := 2

/-- `intceil`: the quotient rounded up, for a positive dividend. -/
def intceil (x y : ℕ) : ℕ := (x - 1) / y + 1

instance three_neZero : @NeZero ℕ Zero.ofOfNat0 3 := ⟨by decide⟩

abbrev Streams (α : Type) := Fin 3 → ℕ → α

variable {α β : Type}

def eachStream (f : Fin 3 → Option β) : Option (Fin 3 → β) :=
  (f 0).bind fun a => (f 1).bind fun b => (f 2).map fun c => ![a, b, c]

variable {f : Fin 3 → Option β} {n cap : ℕ}

lemma eachStream_eq_some {g : Fin 3 → β} (h : ∀ s, f s = some (g s)) : eachStream f = some g := by
  rw [eachStream, h 0, h 1, h 2]
  refine congrArg some (funext fun s => ?_)
  match s with
  | 0 => rfl
  | 1 => rfl
  | 2 => rfl

lemma eachStream_spec {Q : Fin 3 → β → Prop}
    (h : ∀ s, ∃ b, f s = some b ∧ Q s b) : ∃ g, eachStream f = some g ∧ ∀ s, Q s (g s) := by
  choose g hg hQ using h
  exact ⟨g, eachStream_eq_some hg, hQ⟩

/-- `char_unwrap` into arrays of `cap` cells, with the length it returns. -/
def charUnwrap (cap : ℕ) (input : ℕ → α) (out : Streams α) (insize : ℕ) :
    Option (Streams α × ℕ) :=
  (eachStream fun s =>
    storeRange cap 0 (insize / 3) (fun i => input (3 * i + s)) (out s)).map
    fun out => (out, insize / 3)

def floatWrap (cap : ℕ) (inp : Streams α) (out : ℕ → α) (insize : ℕ) : Option (ℕ → α) :=
  storeAll cap (List.range insize ×ˢ List.finRange 3) (fun p => 3 * p.1 + p.2)
    (fun p => inp p.2 p.1) out

lemma charUnwrap_spec (hcap : n ≤ cap) (input : ℕ → α) (out : Streams α) :
    ∃ v, charUnwrap cap input out (3 * n) = some (v, n) ∧
      ∀ s, ∀ i < n, v s i = input (3 * i + s) := by
  have hn : 3 * n / 3 = n := Nat.mul_div_cancel_left n (by decide)
  obtain ⟨v, hv, hspec⟩ := eachStream_spec fun s =>
    storeRange_zero hcap (fun i => input (3 * i + s)) (out s)
  refine ⟨v, ?_, fun s => (hspec s).1⟩
  rw [charUnwrap, hn, hv]
  rfl

lemma floatWrap_spec (hcap : 3 * n ≤ cap) (inp : Streams α) (out : ℕ → α) :
    ∃ b, floatWrap cap inp out n = some b ∧ (∀ s : Fin 3, ∀ i < n, b (3 * i + s) = inp s i) ∧
      ∀ p, 3 * n ≤ p → b p = out p := by
  have hin : ∀ p ∈ List.range n ×ˢ List.finRange 3, 3 * p.1 + p.2 < 3 * n := by
    intro p hp
    have hrow := List.mem_range.mp (List.mem_product.mp hp).1
    omega
  obtain ⟨b, hb, hval, hrest⟩ := storeAll_spec (List.range n ×ˢ List.finRange 3)
    (fun p => 3 * p.1 + p.2) (fun p => inp p.2 p.1) out (fun p hp =>
    (hin p hp).trans_le hcap) fun p _ q _ h =>
      Prod.ext (by omega) (Fin.ext (by omega))
  exact ⟨b, hb, fun s i hi => hval (i, s) (by simp [hi]),
    fun p hp => hrest p fun q hq => ((hin q hq).trans_le hp).ne⟩

/-! ## Buffers with dummies -/

/-- The first `n` cells of `w` hold what `f` says: bit `p` of `g`, or a dummy at a gap. -/
structure Filled (f : ℕ → Option ℕ) (n : ℕ) (g w : ℕ → Char8) : Prop where
  gap : ∀ {c}, c < n → f c = none → w c = dummyBit
  bit : ∀ {c p}, c < n → f c = some p → w c = g p ∧ w c ≠ dummyBit

end Aloe.Modrep
