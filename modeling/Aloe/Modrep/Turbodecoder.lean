import Mathlib.Tactic.Common

/-!
# The windows of the turbo decoder

Model of the window loop of `DEC_RSC`: where `compute_alfa_full` and `compute_alfa_end` write their
log-likelihoods, which does not depend on the values. A window that ends in the tail is taken as a
full one, whose guard is never written: the last bits of some block lengths get no log-likelihood.
-/

namespace Aloe.Modrep.Turbodecoder

def sw : ℕ := 150

def gw : ℕ := 10

def tail : ℕ := 3

/-- The positions that `compute_alfa_end` writes, from `output` on. -/
def computeAlfaEnd (n output : ℕ) : List ℕ := List.range' output n

/-- The positions that `compute_alfa_full` writes. -/
def computeAlfaFull (output : ℕ) : List ℕ := List.range' output sw

/-- The `while` loop of `DEC_RSC`: the positions written, in their order. -/
def windows (longCb : ℕ) : ℕ → ℕ → ℕ → Option (List ℕ)
  | 0, _, _ => none
  | fuel + 1, start, stop =>
    if start < longCb + tail + 1 then
      let written := if longCb + tail + 1 < sw + gw + start then
          computeAlfaEnd (longCb + tail - start - tail) start
        else computeAlfaFull start
      let start := if stop - longCb < gw ∧ longCb < stop then stop else stop - gw
      let stop := stop + sw
      let stop := if longCb + tail + 1 < stop then longCb + tail + 1 else stop
      (windows longCb fuel start stop).map (written ++ ·)
    else some []

def decRsc (fuel longCb : ℕ) : Option (List ℕ) :=
  windows longCb fuel 0 (if longCb < sw + gw then longCb + tail + 1 else sw + gw)

/-- The last window ends in the tail. -/
def Gap (longCb : ℕ) : Prop := 156 ≤ longCb ∧ 6 ≤ longCb % 150 ∧ longCb % 150 < 10

variable {longCb fuel start stop : ℕ}

lemma windows_succ (h : start < longCb + 4) : windows longCb (fuel + 1) start stop =
    (windows longCb fuel (if stop - longCb < 10 ∧ longCb < stop then stop else stop - 10)
      (if longCb + 4 < stop + 150 then longCb + 4 else stop + 150)).map
        ((if longCb + 4 < 160 + start then List.range' start (longCb + 3 - start - 3)
          else List.range' start 150) ++ ·) :=
  if_pos h

lemma windows_end : windows longCb (fuel + 1) (longCb + 4) stop = some [] :=
  if_neg (Nat.lt_irrefl _)

/-- Once the end is in the tail nothing more is written. -/
theorem windows_tail (hlo : longCb < start) (hhi : start ≤ longCb + 4) :
    windows longCb (fuel + 2) start (longCb + 4) = some [] := by
  rcases Nat.lt_or_eq_of_le hhi with hlt | rfl
  · rw [windows_succ hlt, if_pos (by omega), if_pos (by omega), if_pos (by omega), windows_end,
      show longCb + 3 - start - 3 = 0 by omega]
    rfl
  · exact windows_end

/-- From the window `k` on. -/
theorem windows_eq {k : ℕ} (hk : k = 0 ∨ 150 * k + 10 ≤ longCb)
    (hstop : 150 * k + 160 ≤ longCb ∧ stop = 150 * k + 160 ∨
      longCb < 150 * k + 160 ∧ longCb < stop ∧ stop ≤ longCb + 4) (hfuel : longCb + 3 ≤ fuel + k) :
    ∃ n, windows longCb fuel (150 * k) stop = some (List.range' (150 * k) n) ∧
      150 * k + n ≤ longCb ∧ (150 * k + n = longCb ↔ ¬ Gap longCb) := by
  induction fuel generalizing k stop with
  | zero => omega
  | succ fuel ih =>
    rw [windows_succ (by omega)]
    rcases hstop with ⟨hfull, rfl⟩ | ⟨hlast, hlo, hhi⟩
    · have hnext : 150 * k + 150 = 150 * (k + 1) := rfl
      rw [if_neg (by omega), if_neg (by omega), Nat.add_sub_assoc (by decide), hnext]
      generalize hs : ite (longCb + 4 < 150 * k + 160 + 150) _ _ = stop
      obtain ⟨n, hn, hle⟩ :=
        @ih stop (k + 1) (.inr (by omega)) (by split_ifs at hs <;> omega) (by omega)
      rw [hn, ← hnext]
      exact ⟨150 + n, congrArg some List.range'_append_1, by rwa [← Nat.add_assoc]⟩
    · obtain ⟨fuel, rfl⟩ : ∃ n, fuel = n + 2 := ⟨fuel - 2, by omega⟩
      have htail : stop - longCb < 10 ∧ longCb < stop := by omega
      have hend : longCb + 4 < stop + 150 := by omega
      rw [if_pos htail, if_pos hend, windows_tail hlo hhi, Option.map_some, List.append_nil]
      unfold Gap
      split
      · exact ⟨_, rfl, by omega, by omega⟩
      · exact ⟨150, rfl, by omega, by omega⟩

/-- **The loop ends, and writes from position 0 on without a hole**: up to the end of the block
exactly if no window ends in the tail. -/
theorem decRsc_covers_iff (longCb : ℕ) : ∃ fuel n, n ≤ longCb ∧
    decRsc fuel longCb = some (List.range n) ∧
      ((∀ p < longCb, p ∈ List.range n) ↔ ¬ Gap longCb) := by
  obtain ⟨n, hn, hle, hiff⟩ := @windows_eq longCb (longCb + 3)
    (if longCb < 160 then longCb + 4 else 160) 0 (.inl rfl) (by split_ifs <;> omega) (by omega)
  rw [Nat.mul_zero, Nat.zero_add] at hle hiff
  refine ⟨_, n, hle, hn.trans (by rw [List.range_eq_range']), ?_⟩
  rw [← hiff]
  simp only [List.mem_range]
  refine ⟨fun h => ?_, fun h p hp => h ▸ hp⟩
  have hlast := h (longCb - 1)
  omega

theorem decRsc_gap : ∃ positions, decRsc 3 156 = some positions ∧ 150 ∉ positions :=
  ⟨List.range 150, rfl, by decide⟩

end Aloe.Modrep.Turbodecoder
