import Mathlib.Tactic.Linarith

/-!
# Slots, times and the absolute timer

`rtdal_time.c` converts a time to its slot number and back, with 64-bit intermediates and casts to
`int`; the conversions compose to the identity (`tstamp_conversions`). `rtdal_timer.c` adds the
period to the target of every sleep and carries one second at most, so that a period above a second
leaves `tv_nsec` out of its range (`absolute_timer_iff`).
-/

namespace Aloe.Rtdal.Time

open Function Int

/-! ## Slot numbers -/

/-- `struct timeval`, for which `time_t` is another name; a `long` has 64 bits. -/
structure Timeval where
  tvSec : Int64
  tvUsec : Int64
deriving DecidableEq

def rtdalTimeToTstamp (tsLenUs : Int32) (tdata : Timeval) : Int32 :=
  let x := tdata.tvSec * 1000000 + tdata.tvUsec
  (x / tsLenUs.toInt64).toInt32

def tstampToTime (tsLenUs tstamp : Int32) : Timeval :=
  let x := tstamp.toInt64 * tsLenUs.toInt64
  let sec := (x / 1000000).toInt32.toInt64
  ⟨sec, (x - sec * 1000000).toInt32.toInt64⟩

namespace Timeval

abbrev Normalised (t : Timeval) : Prop := 0 ≤ t.tvUsec.toInt ∧ t.tvUsec.toInt < 1000000

/-- The order of normalised times. -/
def NotAfter (a b : Timeval) : Prop := a.tvSec < b.tvSec ∨ a.tvSec = b.tvSec ∧ a.tvUsec ≤ b.tvUsec

def usecs (t : Timeval) : ℤ := t.tvSec.toInt * 1000000 + t.tvUsec.toInt

/-- The slot number, before it is cast to `int`. -/
def slot (tsLenUs : Int32) (t : Timeval) : ℤ := t.usecs.tdiv tsLenUs.toInt

lemma usecs_mono {a b : Timeval} (ha : a.Normalised) (hb : b.Normalised) (h : a.NotAfter b) :
    a.usecs ≤ b.usecs := by
  obtain ⟨ha0, ha1⟩ := ha
  obtain ⟨hb0, hb1⟩ := hb
  unfold usecs
  rcases h with hlt | ⟨heq, hle⟩
  · have := Int64.lt_iff_toInt_lt.mp hlt
    omega
  · have := Int64.le_iff_toInt_le.mp hle
    rw [heq]
    omega

end Timeval

abbrev FitsInt (n : ℤ) : Prop := -2 ^ 31 ≤ n ∧ n < 2 ^ 31

lemma bmod_long {n : ℤ} (h0 : -2 ^ 63 ≤ n) (h1 : n < 2 ^ 63) : n.bmod (2 ^ 64) = n :=
  bmod_eq_of_le (by omega) (by omega)

lemma bmod_int {n : ℤ} (h : FitsInt n) : n.bmod (2 ^ 32) = n := by
  obtain ⟨h0, h1⟩ := h
  exact bmod_eq_of_le (by omega) (by omega)

lemma toInt_million : (1000000 : Int64).toInt = 1000000 := rfl

section

variable {ts t : Int32} {a b : Timeval} (hts : 0 < ts.toInt)
include hts

-- A slot number that fits an `int` keeps the dividend far from the ends of the 64-bit range.
lemma toInt_rtdalTimeToTstamp (hn : a.Normalised) (hfits : FitsInt (a.slot ts)) :
    (rtdalTimeToTstamp ts a).toInt = a.slot ts := by
  obtain ⟨hlo, hhi⟩ : -2 ^ 62 ≤ a.usecs ∧ a.usecs < 2 ^ 62 := by
    have hlt := Int32.toInt_lt ts
    have hmod := tmod_add_mul_tdiv a.usecs ts.toInt
    have hpos := tmod_lt_of_pos a.usecs hts
    have hneg := lt_tmod_of_pos a.usecs hts
    have hlo := mul_le_mul_of_nonneg_left hfits.1 hts.le
    have hhi := mul_le_mul_of_nonneg_left (le_sub_one_of_lt hfits.2) hts.le
    unfold Timeval.slot at hlo hhi
    omega
  obtain ⟨hn0, hn1⟩ := hn
  have hx : (a.tvSec * 1000000 + a.tvUsec).toInt = a.usecs := by
    unfold Timeval.usecs at hlo hhi ⊢
    simp (disch := omega) only [Int64.toInt_add, Int64.toInt_mul, toInt_million, bmod_long]
  obtain ⟨h0, h1⟩ := id hfits
  unfold rtdalTimeToTstamp
  rw [Int64.toInt_toInt32, Int64.toInt_div, hx, Int32.toInt_toInt64, ← Timeval.slot,
    bmod_long (by omega) (by omega), bmod_int hfits]

lemma tstampToTime_spec (ht : 0 ≤ t.toInt) (hfits : t.toInt * ts.toInt / 1000000 < 2 ^ 31) :
    (tstampToTime ts t).Normalised ∧ (tstampToTime ts t).usecs = t.toInt * ts.toInt := by
  have hx0 : 0 ≤ t.toInt * ts.toInt := mul_nonneg ht hts.le
  have hx : (t.toInt64 * ts.toInt64).toInt = t.toInt * ts.toInt := by
    rw [Int64.toInt_mul, Int32.toInt_toInt64, Int32.toInt_toInt64, bmod_long] <;> omega
  have hsec : (t.toInt64 * ts.toInt64 / 1000000).toInt32.toInt64.toInt =
      t.toInt * ts.toInt / 1000000 := by
    rw [Int32.toInt_toInt64, Int64.toInt_toInt32, Int64.toInt_div, hx, toInt_million,
      tdiv_eq_ediv_of_nonneg hx0, bmod_long (by omega) (by omega), bmod_int]
    constructor <;> omega
  have husec : (tstampToTime ts t).tvUsec.toInt = t.toInt * ts.toInt % 1000000 := by
    rw [tstampToTime, Int32.toInt_toInt64, Int64.toInt_toInt32, Int64.toInt_sub, hx,
      Int64.toInt_mul, hsec, toInt_million]
    simp (disch := omega) only [bmod_long]
    rw [bmod_int]
    · omega
    · constructor <;> omega
  unfold Timeval.Normalised Timeval.usecs
  rw [husec, tstampToTime, hsec]
  omega

theorem tstamp_conversions : (∀ t : Int32, 0 ≤ t.toInt → t.toInt * ts.toInt / 1000000 < 2 ^ 31 →
      (tstampToTime ts t).Normalised ∧ rtdalTimeToTstamp ts (tstampToTime ts t) = t) ∧
    ∀ a b : Timeval, a.Normalised → b.Normalised → FitsInt (a.slot ts) → FitsInt (b.slot ts) →
      a.NotAfter b → rtdalTimeToTstamp ts a ≤ rtdalTimeToTstamp ts b := by
  refine ⟨fun t ht hfits => ?_, fun a b ha hb hfa hfb hab => ?_⟩
  · obtain ⟨hn, husecs⟩ := tstampToTime_spec hts ht hfits
    have hslot : (tstampToTime ts t).slot ts = t.toInt := by
      rw [Timeval.slot, husecs, mul_tdiv_cancel _ hts.ne']
    refine ⟨hn, Int32.toInt_inj.mp ?_⟩
    rw [toInt_rtdalTimeToTstamp hts hn, hslot]
    rw [hslot]
    exact ⟨Int32.le_toInt t, Int32.toInt_lt t⟩
  · rw [Int32.le_iff_toInt_le, toInt_rtdalTimeToTstamp hts ha hfa,
      toInt_rtdalTimeToTstamp hts hb hfb]
    exact Int.tdiv_le_tdiv hts (Timeval.usecs_mono ha hb hab)

end

theorem tstamp_conversions_milli :
    ((tstampToTime 1000 2500).Normalised ∧ rtdalTimeToTstamp 1000 (tstampToTime 1000 2500) = 2500) ∧
    rtdalTimeToTstamp 1000 ⟨0, 999999⟩ ≤ rtdalTimeToTstamp 1000 ⟨2, 5⟩ := by
  have hts : 0 < (1000 : Int32).toInt := by decide
  obtain ⟨hround, hmono⟩ := tstamp_conversions hts
  exact ⟨hround 2500 (by decide) (by decide), hmono _ _ (by decide) (by decide) (by decide)
    (by decide) (.inl (by decide))⟩

/-! ## The timer -/

/-- `struct timespec`; no run comes near the end of 64-bit seconds. -/
structure Timespec where
  tvSec : ℤ
  tvNsec : ℤ
deriving DecidableEq

def timespecAddUs (t : Timespec) (us : ℤ) : Timespec :=
  if 1000000000 ≤ t.tvNsec + us then ⟨t.tvSec + 1, t.tvNsec + us - 1000000000⟩
  else ⟨t.tvSec, t.tvNsec + us⟩

/-- `next` of the timer, the local `n`, and the targets `period_function` has been called with. -/
structure Loop where
  next : Timespec
  n : ℕ
  calls : List Timespec

/-- One round of the loop of `nanoclock_timer_run_thread`. -/
def wakeUp (period : ℤ) (multiple : ℕ) (s : Loop) : Loop :=
  let next := timespecAddUs s.next period
  if multiple ≤ s.n + 1 then ⟨next, 0, s.calls ++ [next]⟩ else ⟨next, s.n + 1, s.calls⟩

/-- The first `k` rounds, from the time that the clock or the futex has put into `next`. -/
def nanoclockTimerRunThread (period : ℤ) (multiple : ℕ) (start : Timespec) (k : ℕ) : Loop :=
  (wakeUp period multiple)^[k] ⟨start, 0, []⟩

namespace Timespec

abbrev Normalised (t : Timespec) : Prop := 0 ≤ t.tvNsec ∧ t.tvNsec < 1000000000

def nsecs (t : Timespec) : ℤ := t.tvSec * 1000000000 + t.tvNsec

end Timespec

/-- What the timer is for: after `k` wake-ups the target is `k` periods on, as a normalised time,
and the function has been called at every `multiple`-th of them. -/
def OnTime (period : ℤ) (multiple : ℕ) (start : Timespec) (k : ℕ) : Prop :=
  let s := nanoclockTimerRunThread period multiple start k
  s.next.nsecs = start.nsecs + k * period ∧ s.next.Normalised ∧ s.calls.length = k / multiple

section

variable {period : ℤ} {multiple : ℕ} {start : Timespec}

lemma next_wakeUp (s : Loop) : (wakeUp period multiple s).next = timespecAddUs s.next period := by
  unfold wakeUp
  split <;> rfl

/-- What every round adds to a measure of the target adds up. -/
theorem run_induction {P : ℕ → Timespec → Prop} (h0 : P 0 start)
    (hstep : ∀ k t, P k t → P (k + 1) (timespecAddUs t period)) (k : ℕ) :
    P k (nanoclockTimerRunThread period multiple start k).next := by
  induction k with
  | zero => exact h0
  | succ k ih =>
    rw [nanoclockTimerRunThread, iterate_succ_apply', next_wakeUp]
    exact hstep k _ ih

lemma calls_run (hmult : 1 ≤ multiple) (k : ℕ) :
    let s := nanoclockTimerRunThread period multiple start k
    s.n < multiple ∧ s.calls.length * multiple + s.n = k := by
  induction k with
  | zero => exact ⟨hmult, by simp [nanoclockTimerRunThread]⟩
  | succ k ih =>
    obtain ⟨hlt, hsum⟩ := ih
    simp only [nanoclockTimerRunThread, iterate_succ_apply'] at hlt hsum ⊢
    generalize (wakeUp period multiple)^[k] _ = s at hlt hsum ⊢
    unfold wakeUp
    split
    · simp only [List.length_append, List.length_singleton, Nat.succ_mul]
      omega
    · dsimp only
      omega

theorem absolute_timer_iff (hperiod : 0 < period) (hmult : 1 ≤ multiple)
    (hstart : start.Normalised) :
    (∀ k, OnTime period multiple start k) ↔ period ≤ 1000000000 := by
  obtain ⟨hs0, hs1⟩ := hstart
  constructor
  · intro h
    by_contra hlong
    -- A round takes a second away at most, so `tv_nsec` grows by the rest of the period.
    have hstep (k : ℕ) (t : Timespec) (ih : start.tvNsec + k * (period - 1000000000) ≤ t.tvNsec) :
        start.tvNsec + (k + 1 : ℕ) * (period - 1000000000) ≤ (timespecAddUs t period).tvNsec := by
      unfold timespecAddUs
      push_cast
      split <;> dsimp only <;> linarith
    have hend := (h 1000000000).2.1.2
    have hdrift := hend.trans_le' (run_induction
      (P := fun k t => start.tvNsec + k * (period - 1000000000) ≤ t.tvNsec) (by simp) hstep _)
    push_cast at hdrift
    linarith
  · intro hshort k
    refine ⟨run_induction (P := fun k t => t.nsecs = start.nsecs + k * period) (by simp) ?_ k,
      run_induction (P := fun _ t => t.Normalised) ⟨hs0, hs1⟩ ?_ k, ?_⟩
    · intro k t ih
      unfold timespecAddUs Timespec.nsecs at *
      push_cast
      split <;> dsimp only <;> linarith
    · rintro k t ⟨h0, h1⟩
      unfold timespecAddUs Timespec.Normalised
      split <;> dsimp only <;> omega
    · obtain ⟨hlt, hsum⟩ := calls_run hmult k
      exact ((Nat.div_mod_unique hmult).mpr ⟨by linarith, hlt⟩).1.symm

theorem absolute_timer_milli : OnTime 1000000 2 ⟨0, 0⟩ 7 :=
  (absolute_timer_iff (by decide) (by decide) (by decide)).mpr (by decide) 7

theorem denormal_target : ¬ (nanoclockTimerRunThread 2000000000 1 ⟨0, 0⟩ 1).next.Normalised := by
  decide

end

end Aloe.Rtdal.Time
