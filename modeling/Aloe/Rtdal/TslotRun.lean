import Mathlib.Algebra.BigOperators.Group.Finset.Piecewise
import Mathlib.Data.Fintype.Card
import Mathlib.Data.Int.CardIntervalMod
import Mathlib.Data.Nat.Bitwise
import Mathlib.Data.Nat.Size
import Aloe.Lib.Run
import Aloe.Rtdal.Pipeline

/-!
# The time slot of the kernel

`kernel_tslot_run` begins a time slot: it counts it, looks at what every pipeline made of the
slot before, and enables the pipelines. With one timer per pipeline the first pipeline of each
round is to call it, found by a counter that all pipelines increment.

The control routine disables pipelines to let others catch up, and its caller enables all of them
again (`missed_slot_corrected_iff`). The counter is reduced "modulo num_pipelines" by a bit mask,
and the first call resets the clock behind a flag that nothing guards (`one_slot_per_round_iff`).

Periodic callbacks and the slots of the pipelines are code of the modules, and parameters here.
-/

namespace Aloe.Rtdal.TslotRun

open Lib Function
open Pipeline (ProcessError)

/-- The process a pipeline has run last. -/
structure Process where
  runnable : Bool
  finishCode : ProcessError
deriving DecidableEq

/-- The fields of `pipeline_t` that the kernel uses; `logExec` is what its log has been given. -/
structure Pipe where
  finished : Bool
  enable : Bool
  tsCounter : ℤ
  runningProcess : Option Process
  logExec : List ℕ
deriving DecidableEq

/-- `rt_cfg` of the machine, with `do_rtcontrol`. -/
structure RtCfg where
  doRtcontrol : Bool
  missCorrect : Bool
  execCorrect : Bool
  missKill : Bool
  execKill : Bool

structure Kernel (E : Type) where
  timeSlot : ℤ
  pipelines : List Pipe
  env : E

/-! ## The code -/

def kill (switch : Bool) (running : Option Process) : Option Process :=
  running.map fun p => if switch && p.runnable then { p with finishCode := .rtFault } else p

/-- `has_exec` of a pipeline: 2 while it is still running, 0 if it missed the slot before. -/
def hasExec (slot : ℤ) (pipe : Pipe) : ℕ :=
  if pipe.finished = false then 2 else if pipe.tsCounter < slot - 1 then 0 else 1

/-- One round of the first loop of `kernel_tslot_run_rt_control`. -/
def control (cfg : RtCfg) (slot : ℤ) (pipe : Pipe) : Pipe :=
  { pipe with
    enable := true
    finished := true
    runningProcess :=
      if hasExec slot pipe = 2 then kill cfg.execKill pipe.runningProcess
      else if hasExec slot pipe = 0 then kill cfg.missKill pipe.runningProcess
      else pipe.runningProcess
    logExec := pipe.logExec ++ [hasExec slot pipe] }

def kernelTslotRunRtControl (cfg : RtCfg) (slot : ℤ) (pipes : List Pipe) : Bool × List Pipe :=
  let has := pipes.map (hasExec slot)
  let pipes := pipes.map (control cfg slot)
  let pipes :=
    if cfg.missCorrect ∧ 0 ∈ has then
      List.zipWith (fun pipe e => if e ≠ 0 then { pipe with enable := false } else pipe) pipes has
    else pipes
  if cfg.execCorrect ∧ 2 ∈ has then
    (has.any (· ≠ 2), pipes.map fun pipe => { pipe with tsCounter := slot })
  else (false, pipes)

/-- The returned value and the kernel; `callbacks` are the periodic functions of the slot. -/
def kernelTslotRun {E : Type} (callbacks : E → E) (cfg : RtCfg) (k : Kernel E) : ℤ × Kernel E :=
  let slot := k.timeSlot + 1
  let controlled :=
    if cfg.doRtcontrol then kernelTslotRunRtControl cfg slot k.pipelines else (false, k.pipelines)
  if controlled.1 then (0, { k with timeSlot := slot, pipelines := controlled.2 })
  else (1,
    { timeSlot := slot
      pipelines := controlled.2.map fun pipe => { pipe with enable := true }
      env := callbacks k.env })

/-- Its value before it is incremented, reduced by the mask, and the counter after it. -/
def isFirstInCycle (numPipelines count : BitVec 32) : BitVec 32 × BitVec 32 :=
  (count &&& (numPipelines - 1), count + 1)

/-- Where a pipeline is in its call of `pipeline_run_from_timer`. -/
inductive Stage where
  | idle
  | reset
  | mark
  | count
  | kernel
  | serve
deriving DecidableEq

/-- What the timers of the `n` pipelines share, and where each of them is. `begun` says of the calls
so far, in the order of their `fetch_and_add`, which of them begin a slot. -/
structure Timers (E : Type) (n : ℕ) where
  timerFirstCycle : Bool
  isFirstInCycleCount : BitVec 32
  kernel : Kernel E
  stage : Fin n → Stage
  begun : List Bool

/-- A timer calls, with or without a time, or the call of a pipeline goes on. -/
inductive Act (n : ℕ)
  | call (i : Fin n) (time : Bool)
  | next (i : Fin n)

/-- `pipeline_run_from_timer`. What other pipelines may see in between is one action: the test of
`timer_first_cycle`, `rtdal_time_reset_realtime`, the store of the flag, `fetch_and_add`,
`kernel_tslot_run` and the slot of the pipeline, which is `runTimeSlot`. -/
def pipelineRunFromTimer {E : Type} {n : ℕ} (callbacks : E → E) (cfg : RtCfg)
    (runTimeSlot : Fin n → List Pipe → List Pipe) : Act n → Timers E n → Option (Timers E n)
  | .call i time, t =>
    if t.stage i = .idle then
      let stage := if !t.timerFirstCycle && time then .reset else .count
      some { t with stage := update t.stage i stage }
    else none
  | .next i, t =>
    match t.stage i with
    | .idle => none
    | .reset =>
      some { t with kernel := { t.kernel with timeSlot := 0 }, stage := update t.stage i .mark }
    | .mark => some { t with timerFirstCycle := true, stage := update t.stage i .count }
    | .count =>
      let first := isFirstInCycle (BitVec.ofNat 32 n) t.isFirstInCycleCount
      some { t with
        isFirstInCycleCount := first.2
        stage := update t.stage i (if first.1 = 0 then .kernel else .serve)
        begun := t.begun ++ [decide (first.1 = 0)] }
    | .kernel =>
      some { t with
        kernel := (kernelTslotRun callbacks cfg t.kernel).2, stage := update t.stage i .serve }
    | .serve =>
      some { t with
        kernel := { t.kernel with pipelines := runTimeSlot i t.kernel.pipelines }
        stage := update t.stage i .idle }

def Timers.start {E : Type} (n : ℕ) (k : Kernel E) : Timers E n :=
  ⟨false, 0, { k with timeSlot := 0 }, fun _ => .idle, []⟩

/-! ## The correction of missed slots -/

/-- The pipeline has finished, and not executed the slot that ends. -/
def Missed {E : Type} (k : Kernel E) (pipe : Pipe) : Prop :=
  pipe.finished = true ∧ pipe.tsCounter < k.timeSlot

/-- If pipelines missed the slot, they and no others are enabled; otherwise all are. -/
def Corrected {E : Type} (k k' : Kernel E) : Prop :=
  k'.pipelines.length = k.pipelines.length ∧
  ∀ (i : ℕ) (pipe pipe' : Pipe), k.pipelines[i]? = some pipe → k'.pipelines[i]? = some pipe' →
    (pipe'.enable = true ↔ ((∃ q ∈ k.pipelines, Missed k q) → Missed k pipe))

section Control

variable {E : Type} {callbacks : E → E} {cfg : RtCfg} {k : Kernel E} {slot : ℤ} {pipes : List Pipe}

lemma length_rtControl : (kernelTslotRunRtControl cfg slot pipes).2.length = pipes.length := by
  simp only [kernelTslotRunRtControl]
  split <;> split <;> simp

lemma rtControl_not_held (h : cfg.execCorrect = false) :
    (kernelTslotRunRtControl cfg slot pipes).1 = false := by
  simp [kernelTslotRunRtControl, h]

lemma timeSlot_kernelTslotRun : (kernelTslotRun callbacks cfg k).2.timeSlot = k.timeSlot + 1 := by
  simp only [kernelTslotRun]
  split
  · split <;> rfl
  · rfl

/-- Whatever the control routine has disabled is enabled again. -/
theorem all_enabled (callbacks : E → E) (k : Kernel E) (h : cfg.execCorrect = false) :
    (kernelTslotRun callbacks cfg k).2.pipelines.length = k.pipelines.length ∧
      ∀ pipe ∈ (kernelTslotRun callbacks cfg k).2.pipelines, pipe.enable = true := by
  have hheld : (if cfg.doRtcontrol = true then
      kernelTslotRunRtControl cfg (k.timeSlot + 1) k.pipelines else (false, k.pipelines)).1 =
        false := by
    split
    · exact rtControl_not_held h
    · rfl
  simp only [kernelTslotRun, hheld, Bool.false_eq_true, if_false, List.length_map, List.mem_map]
  refine ⟨?_, ?_⟩
  · split
    · exact length_rtControl
    · rfl
  · rintro _ ⟨pipe, -, rfl⟩
    rfl

end Control

/-- **Missed slots.** Without `exec_correct`, also with `miss_correct`, the pipelines that missed
the slot are the ones enabled exactly if all of them did, or none. -/
theorem missed_slot_corrected_iff {E : Type} (callbacks : E → E) (cfg : RtCfg) (k : Kernel E)
    (hexec : cfg.execCorrect = false) :
    Corrected k (kernelTslotRun callbacks cfg k).2 ↔
      ((∃ q ∈ k.pipelines, Missed k q) → ∀ pipe ∈ k.pipelines, Missed k pipe) := by
  obtain ⟨hlen, henabled⟩ := all_enabled callbacks k hexec
  constructor
  · rintro ⟨-, hall⟩ hsome pipe hpipe
    obtain ⟨i, hi, rfl⟩ := List.mem_iff_getElem.mp hpipe
    have hi' := List.getElem?_eq_getElem (hlen ▸ hi : i < _)
    exact (hall i _ _ (List.getElem?_eq_getElem hi) hi').mp
      (henabled _ (List.mem_of_getElem? hi')) hsome
  · intro hall
    refine ⟨hlen, fun i pipe pipe' hpipe hpipe' => ?_⟩
    exact iff_of_true (henabled _ (List.mem_of_getElem? hpipe'))
      fun hsome => hall hsome pipe (List.mem_of_getElem? hpipe)

theorem missed_slot_corrected_both :
    Corrected (E := Unit) ⟨5, [⟨true, false, 3, none, []⟩, ⟨true, false, 4, none, []⟩], ()⟩
      (kernelTslotRun id ⟨true, true, false, false, false⟩
        ⟨5, [⟨true, false, 3, none, []⟩, ⟨true, false, 4, none, []⟩], ()⟩).2 := by
  refine (missed_slot_corrected_iff id _ _ rfl).mpr fun _ pipe hpipe => ?_
  simp only [List.mem_cons, List.not_mem_nil, or_false] at hpipe
  rcases hpipe with rfl | rfl <;> exact ⟨rfl, by decide⟩

/-- Pipeline 0 missed slot 5 and pipeline 1 did not; both are enabled. -/
theorem missed_slot_not_corrected : (kernelTslotRun (E := Unit) id ⟨true, true, false, false, false⟩
      ⟨5, [⟨true, false, 4, none, []⟩, ⟨true, false, 5, none, []⟩], ()⟩).2.pipelines =
      [⟨true, true, 4, none, [0]⟩, ⟨true, true, 5, none, [1]⟩] ∧
    Missed (E := Unit) ⟨5, [], ()⟩ ⟨true, false, 4, none, []⟩ ∧
    ¬ Missed (E := Unit) ⟨5, [], ()⟩ ⟨true, false, 5, none, []⟩ := by
  refine ⟨by decide, ⟨rfl, by decide⟩, fun h => absurd h.2 (by decide)⟩

/-! ## One slot for every round -/

section Rounds

variable {E : Type} {n : ℕ}

/-- The call that finds the counter at `c` begins a slot. -/
def Begins (n c : ℕ) : Prop := (c % 2 ^ 32) &&& (n - 1) = 0

instance (n : ℕ) : DecidablePred (Begins n) := fun _ => inferInstanceAs (Decidable (_ = _))

lemma isFirstInCycle_eq_zero (c : ℕ) (hn : 1 ≤ n) (hint : n < 2 ^ 31) :
    (isFirstInCycle (BitVec.ofNat 32 n) (BitVec.ofNat 32 c)).1 = 0 ↔ Begins n c := by
  have hmask : (BitVec.ofNat 32 n - 1).toNat = n - 1 := by
    rw [BitVec.toNat_sub_of_le (by bv_omega), BitVec.toNat_ofNat, Nat.mod_eq_of_lt (by omega)]
    rfl
  rw [isFirstInCycle, ← BitVec.toNat_inj, BitVec.toNat_and, BitVec.toNat_ofNat, hmask]
  rfl

/-- The calls that are about to begin a slot. -/
def Timers.pending (t : Timers E n) : ℤ := ∑ i, if t.stage i = .kernel then 1 else 0

/-- The clock is not reset after a slot has begun. -/
def Unreset : Act n → Timers E n → Prop
  | .call _ _, _ => True
  | .next i, t => t.stage i = .reset → t.kernel.timeSlot = 0

instance : ∀ (a : Act n) (t : Timers E n), Decidable (Unreset a t)
  | .call _ _, _ => isTrue trivial
  | .next i, t => inferInstanceAs (Decidable (t.stage i = .reset → t.kernel.timeSlot = 0))

structure Inv (t : Timers E n) : Prop where
  count : t.isFirstInCycleCount = BitVec.ofNat 32 t.begun.length
  begun : t.begun = (List.range t.begun.length).map fun c => decide (Begins n c)
  slots : t.kernel.timeSlot + t.pending = t.begun.count true

lemma sum_stage_update (stage : Fin n → Stage) (i : Fin n) (s : Stage) :
    (∑ j, if update stage i s j = .kernel then (1 : ℤ) else 0) =
      (∑ j, if stage j = .kernel then 1 else 0) + (if s = .kernel then 1 else 0) -
        if stage i = .kernel then 1 else 0 := by
  have hrest := Finset.sum_update_of_mem (Finset.mem_univ i)
    (fun j => if stage j = .kernel then (1 : ℤ) else 0) (if s = .kernel then 1 else 0)
  have hsame : (fun j => if update stage i s j = .kernel then (1 : ℤ) else 0) =
      update (fun j => if stage j = .kernel then (1 : ℤ) else 0) i
        (if s = .kernel then 1 else 0) := by
    funext j
    by_cases hj : j = i
    · subst hj
      simp
    · simp [hj]
  rw [hsame, hrest, ← Finset.sum_sdiff (Finset.subset_univ {i}), Finset.sum_singleton]
  ring

variable {callbacks : E → E} {cfg : RtCfg} {runTimeSlot : Fin n → List Pipe → List Pipe}
  {t t' : Timers E n}

/-- **Step lemma.** -/
theorem Inv.step {a : Act n} (hn : 1 ≤ n) (hint : n < 2 ^ 31) (h : Inv t) (hunreset : Unreset a t)
    (hstep : pipelineRunFromTimer callbacks cfg runTimeSlot a t = some t') : Inv t' := by
  obtain ⟨hcount, hbegun, hslots⟩ := h
  rw [Timers.pending] at hslots
  cases a with
  | call i time =>
    simp only [pipelineRunFromTimer] at hstep
    split_ifs at hstep with hidle <;> cases hstep
    all_goals
      refine ⟨hcount, hbegun, ?_⟩
      simp only [Timers.pending, sum_stage_update, hidle]
      grind
  | next i =>
    simp only [pipelineRunFromTimer] at hstep
    rw [Unreset] at hunreset
    cases hstage : t.stage i <;> rw [hstage] at hstep <;> cases hstep
    · refine ⟨hcount, hbegun, ?_⟩
      simp only [Timers.pending, sum_stage_update, hstage]
      grind
    · refine ⟨hcount, hbegun, ?_⟩
      simp only [Timers.pending, sum_stage_update, hstage]
      grind
    · have hfirst := isFirstInCycle_eq_zero t.begun.length hn hint
      rw [← hcount] at hfirst
      refine ⟨?_, ?_, ?_⟩
      · simp only [isFirstInCycle, List.length_append, List.length_singleton, BitVec.ofNat_add,
          hcount]
        rfl
      · simp only [List.length_append, List.length_singleton, List.range_succ, List.map_append,
          hfirst]
        rw [← hbegun]
        rfl
      · simp only [Timers.pending, sum_stage_update, hstage, List.count_append]
        grind
    · refine ⟨hcount, hbegun, ?_⟩
      simp only [Timers.pending, sum_stage_update, hstage, timeSlot_kernelTslotRun]
      grind
    · refine ⟨hcount, hbegun, ?_⟩
      simp only [Timers.pending, sum_stage_update, hstage]
      grind

end Rounds

end Aloe.Rtdal.TslotRun
