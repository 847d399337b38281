import Aloe.Lib.Memory
import Mathlib.Algebra.GroupWithZero.Nat

/-!
# The multiplexer

`work` of `modrep_osld/gen_mux`, with `mux` of `gen_libs/utils/mux.c`. The count that the options
look at goes up for every port, with data or without: `check_all` never refuses, and `exclusive`
refuses whenever there are two ports (`work_meets_iff`).
-/

namespace Aloe.Modrep.GenMux

open Lib.Memory List

/-- An input interface: its block, and how many samples have been received. -/
structure Input where
  data : Mem
  samples : ℕ

def Input.received (sampleSz : ℕ) (i : Input) : List UInt8 :=
    bytesAt i.data 0 (sampleSz * i.samples)

/-- One round of `mux`, on the output and the offset `r`; `initialize` leaves no padding. -/
def muxStep (sampleSz : ℕ) (s : Mem × ℕ) (i : Input) : Mem × ℕ :=
  (memcpy s.1 (s.2 * sampleSz) (i.received sampleSz), s.2 + i.samples)

def mux (sampleSz : ℕ) (inputs : List Input) (output : Mem) : Mem :=
  (inputs.foldl (muxStep sampleSz) (output, 0)).1

structure Config where
  sampleSz : ℕ
  exclusive : ℤ
  checkAll : ℤ

/-- What `work` returns and the output, `none` where it is not ready. -/
def work (c : Config) (inputs : List Input) (out : Option Mem) : ℤ × Option Mem :=
  let nofActiveInputs := inputs.foldl (fun n _ => n + 1) 0
  if c.exclusive ≠ 0 ∧ 1 < nofActiveInputs then (-1, out)
  else if c.checkAll ≠ 0 ∧ nofActiveInputs < inputs.length then (-1, out)
  else match out with
    | none => (-1, none)
    | some output =>
      let outLen := (inputs.map Input.samples).sum
      (outLen, some (if outLen ≠ 0 then mux c.sampleSz inputs output else output))

variable (c : Config) (inputs : List Input) (output : Mem)

/-- The options ask for an error: two inputs with data, or one without. -/
def Refuses : Prop :=
  c.exclusive ≠ 0 ∧ 1 < inputs.countP (0 < ·.samples) ∨
    c.checkAll ≠ 0 ∧ ∃ i ∈ inputs, i.samples = 0

/-- An error exactly where the options ask for one, and else the inputs in port order. -/
def Meets : Prop :=
  ((work c inputs (some output)).1 = -1 ↔ Refuses c inputs) ∧
    (¬ Refuses c inputs → ∃ n out, work c inputs (some output) = (Nat.cast n, some out) ∧
      n = (inputs.map Input.samples).sum ∧
      bytesAt out 0 (c.sampleSz * n) = inputs.flatMap (Input.received c.sampleSz))

variable {inputs output}

/-- **Run lemma.** The output holds what it held up to `r`, and then the inputs. -/
theorem mux_run (sz r : ℕ) : ∃ out n, inputs.foldl (muxStep sz) (output, r) = (out, r + n) ∧
    n = (inputs.map Input.samples).sum ∧ bytesAt out 0 (sz * (r + n)) =
      bytesAt output 0 (sz * r) ++ inputs.flatMap (Input.received sz) := by
  induction inputs generalizing output r with
  | nil => exact ⟨output, 0, rfl, rfl, by simp⟩
  | cons i inputs ih =>
    obtain ⟨out, n, hrun, hn, hout⟩ := @ih (memcpy output (r * sz) (i.received sz)) (r + i.samples)
    have hlen : (i.received sz).length = sz * i.samples := length_bytesAt
    rw [Nat.mul_comm r, Nat.mul_add sz r, bytesAt_add,
      bytesAt_memcpy_of_disjoint (.inl (by omega)), ← hlen, Nat.zero_add, bytesAt_memcpy] at hout
    exact ⟨out, i.samples + n, by rw [foldl_cons, ← Nat.add_assoc]; exact hrun, by simp [hn],
      by rw [← Nat.add_assoc]; simpa using hout⟩

lemma work_of_ok (hok : ¬(c.exclusive ≠ 0 ∧ 1 < inputs.length)) :
    ∃ n out, work c inputs (some output) = (Nat.cast n, some out) ∧
      n = (inputs.map Input.samples).sum ∧
      bytesAt out 0 (c.sampleSz * n) = inputs.flatMap (Input.received c.sampleSz) := by
  obtain ⟨out, n, hrun, hn, hout⟩ := @mux_run inputs output c.sampleSz 0
  refine ⟨n, if n ≠ 0 then out else output, ?_, hn, ?_⟩
  · simp [work, mux, hrun, ← hn, hok]
  · split_ifs with hzero
    · simpa [bytesAt] using hout
    · rw [not_not.mp hzero] at hout ⊢
      simpa [bytesAt] using hout

/-- **The multiplexer** does what its options ask for exactly if they ask for an error where
`exclusive` is set and there are two ports, and for none elsewhere. -/
theorem work_meets_iff (c : Config) (inputs : List Input) (output : Mem) : Meets c inputs output ↔
      if c.exclusive ≠ 0 ∧ 1 < inputs.length then Refuses c inputs
      else c.checkAll = 0 ∨ ∀ i ∈ inputs, i.samples ≠ 0 := by
  split_ifs with hports
  · have hwork : work c inputs (some output) = (-1, some output) := by simp [work, hports]
    rw [Meets, hwork]
    exact ⟨fun h => h.1.mp rfl, fun h => ⟨iff_of_true rfl h, absurd h⟩⟩
  · have hok := @work_of_ok c inputs output hports
    have hreturns : (work c inputs (some output)).1 ≠ -1 := by
      obtain ⟨n, out, hwork, -⟩ := hok
      rw [hwork]
      exact fun h => Int.noConfusion h
    have hfew : ¬(c.exclusive ≠ 0 ∧ 1 < inputs.countP (0 < ·.samples)) := fun h =>
      hports ⟨h.1, Nat.lt_of_lt_of_le h.2 countP_le_length⟩
    have hrefuses : ¬ Refuses c inputs ↔ c.checkAll = 0 ∨ ∀ i ∈ inputs, i.samples ≠ 0 := by
      rw [Refuses, or_iff_right hfew]
      simp [Decidable.or_iff_not_imp_left]
    rw [← hrefuses]
    exact ⟨fun h hno => hreturns (h.1.mpr hno), fun h => ⟨iff_of_false hreturns h, fun _ => hok⟩⟩

/-- `exclusive`, and one of two inputs has data. -/
theorem work_refuses_one : ¬ Meets ⟨1, 1, 0⟩ [⟨fun _ => 7, 3⟩, ⟨fun _ => 0, 0⟩] fun _ => 0 := by
  intro h
  have hrefuses := h.1.mp rfl
  simp [Refuses] at hrefuses

end Aloe.Modrep.GenMux
