import Aloe.Lib.Run
import Mathlib.Data.Fintype.Card

/-!
# The synchronisation of the pipelines

The kernel wakes the pipelines at the start of a slot (`pipeline_sync.c`, with its condition
variable) and meets them at its end (`barrier.c`). What is done under a mutex is one action. A wake
may be spurious, and calls of the system succeed. The count of slots does not overflow.
-/

namespace Aloe.Rtdal.Barrier

open Lib Function Finset

variable {ι : Type}

/-- `barrier_t`; the `cycle` that a thread remembers while it waits, and how often it has called;
and how many calls have returned -1. -/
structure State (ι : Type) where
  counter : ℤ
  cycle : Bool
  waiting : ι → Option Bool
  calls : ι → ℕ
  serial : ℕ

def barrierInit (count : ℤ) : State ι := ⟨count, false, fun _ => none, fun _ => 0, 0⟩

inductive Act (ι : Type)
  | call (i : ι)
  | wake (i : ι)

def barrierWait [DecidableEq ι] (threshold : ℤ) : Act ι → State ι → Option (State ι)
  | .call i, s =>
    if s.waiting i ≠ none then none
    else
      let calls := update s.calls i (s.calls i + 1)
      -- the last one in returns -1
      if s.counter - 1 = 0 then
        some { s with counter := threshold, cycle := !s.cycle, calls := calls, serial :=
          s.serial + 1 }
      else
        some { s with
          counter := s.counter - 1, waiting := update s.waiting i (some s.cycle), calls := calls }
  | .wake i, s =>
    if s.waiting i = none then none
    -- a spurious wake
    else if s.waiting i = some s.cycle then some s
    else some { s with waiting := update s.waiting i none }

/-- How many calls of a thread have returned. -/
def State.returned (s : State ι) (i : ι) : ℕ :=
  if s.waiting i = none then s.calls i else s.calls i - 1

variable [Fintype ι] {s s' : State ι}

/-- The threads that have not called in this round. -/
def State.late (s : State ι) : Finset ι := {i | s.calls i = s.serial}

@[simp, grind =] lemma mem_late {i : ι} : i ∈ s.late ↔ s.calls i = s.serial := by simp [State.late]

/-- `serial` rounds are over. Who has called since then waits for the cycle to change, and the
counter says how many have not. -/
structure Inv (s : State ι) : Prop where
  counter : s.counter = #s.late
  late : s.late.Nonempty
  thread (i : ι) : i ∈ s.late ∧ s.waiting i ≠ some s.cycle ∨
    s.calls i = s.serial + 1 ∧ s.waiting i = some s.cycle

variable [DecidableEq ι]

/-- **Step lemma.** -/
theorem barrierWait_inv (a : Act ι) (h : Inv s)
    (hstep : barrierWait (Fintype.card ι) a s = some s') : Inv s' := by
  obtain ⟨hcounter, hlate, hthread⟩ := h
  cases a with
  | call i =>
    rw [barrierWait] at hstep
    split_ifs at hstep with hwaits hlast <;> cases hstep
    all_goals have hi : i ∈ s.late := by grind
    · -- the others have called already, so that a round is over for all
      have hothers (j : ι) (hj : j ≠ i) : j ∉ s.late := fun hmem =>
        hj (card_le_one.mp (by omega) j hmem i hi)
      have hall (j : ι) : update s.calls i (s.calls i + 1) j = s.serial + 1 := by grind
      have hleave (j : ι) : s.waiting j ≠ some (!s.cycle) := by
        by_cases j = i <;> grind
      exact ⟨by simp [State.late, hall], ⟨i, mem_late.mpr (hall i)⟩,
        fun j => .inl ⟨mem_late.mpr (hall j), hleave j⟩⟩
    · have hrest : State.late { s with
          counter := s.counter - 1, waiting := update s.waiting i (some s.cycle),
          calls := update s.calls i (s.calls i + 1) } = s.late.erase i := by
        ext j
        grind
      have hcard := card_erase_add_one hi
      refine ⟨by rw [hrest]; simp only; omega, by rw [hrest]; exact card_pos.mp (by omega), ?_⟩
      grind
  | wake i =>
    rw [barrierWait] at hstep
    split_ifs at hstep with hout hsame <;> cases hstep
    · exact ⟨hcounter, hlate, hthread⟩
    · exact ⟨hcounter, hlate, by grind⟩

/-- **The barrier.** In every interleaving of as many threads as the barrier is for, nobody returns
from a call before all threads have made as many calls. As many calls have returned -1 as there are
rounds that all threads have called in. A thread that a wake leaves waiting waits for a thread that
has not called. -/
theorem barrier_meets [Nonempty ι] (acts : List (Act ι)) (s : State ι)
    (hrun : run (barrierWait (Fintype.card ι)) acts (barrierInit (Fintype.card ι)) = some s) :
    (∀ i j, s.returned i ≤ s.calls j) ∧
      (∀ i, s.serial ≤ s.calls i ∧ s.calls i ≤ s.serial + 1) ∧ (∃ j, s.calls j = s.serial) ∧
      ∀ i, s.waiting i = some s.cycle → ∃ j, s.calls j < s.calls i ∧
        s.waiting j ≠ some s.cycle := by
  have hstart : Inv (barrierInit (Fintype.card ι) : State ι) :=
    ⟨by simp [barrierInit, State.late], ⟨Classical.arbitrary ι, by simp [barrierInit]⟩,
      fun _ => .inl ⟨by simp [barrierInit], nofun⟩⟩
  obtain ⟨-, ⟨j, hj⟩, hthread⟩ : Inv s := run_invariant Inv (fun a _ _ h _ => barrierWait_inv a h)
    hstart (meets_of_forall (fun _ _ => trivial) _ _) hrun
  refine ⟨fun i j => ?_, fun i => ?_, ⟨j, mem_late.mp hj⟩, fun i hi => ⟨j, ?_, ?_⟩⟩
  all_goals grind [State.returned]

theorem barrier_meets_two : ∃ s : State (Fin 2),
    run (barrierWait (Fintype.card (Fin 2))) [.call 0, .call 1, .wake 0] (barrierInit 2) = some s ∧
      s.returned 0 ≤ s.calls 1 :=
  ⟨_, rfl, (barrier_meets [.call 0, .call 1, .wake 0] _ rfl).1 0 1⟩

end Aloe.Rtdal.Barrier

namespace Aloe.Rtdal.PipelineSync

open Lib

/-- `timeslot` and the `timeslot_p` of a pipeline, whether its wait is over and the slot is still to
be stored, and how many waits have returned. -/
structure State where
  timeslot : ℕ
  timeslotP : ℕ
  leaving : Bool
  returned : ℕ

inductive Act
  | wake
  | leave
  | store

def step : Act → State → Option State
  | .wake, s => some { s with timeslot := s.timeslot + 1 }
  | .leave, s =>
    if s.leaving ∨ s.timeslot ≤ s.timeslotP then none else some { s with leaving := true }
  -- the mutex has been given back
  | .store, s =>
    if s.leaving then
      some { s with timeslotP := s.timeslot, leaving := false, returned := s.returned + 1 }
    else none

/-- The slot that is stored is the next one. -/
def InTurn (a : Act) (s : State) : Prop := a = .store → s.timeslot = s.timeslotP + 1

def State.lost (s : State) : ℤ := s.timeslotP - s.returned

structure Inv (s : State) : Prop where
  returned : s.returned ≤ s.timeslotP
  stored : s.timeslotP + s.leaving.toNat ≤ s.timeslot

variable {s s' t : State}

/-- **Step lemma.** -/
theorem step_lost {a : Act} (h : Inv s) (hstep : step a s = some s') :
    Inv s' ∧ s.lost ≤ s'.lost ∧ (s'.lost = s.lost ↔ InTurn a s) := by
  obtain ⟨hreturned, hstored⟩ := h
  cases a <;> grind [step, InTurn, State.lost, Inv]

/-- **The start of a slot.** In every interleaving with the kernel a pipeline returns at most once
for a slot and is kept waiting only by a slot that it has stored; it has returned for each slot
up to that exactly if no two slots have begun between two of its stores. -/
theorem pipeline_sync_iff (acts : List Act) (s : State)
    (hrun : run step acts ⟨0, 0, false, 0⟩ = some s) :
    s.returned ≤ s.timeslotP ∧ s.timeslotP ≤ s.timeslot ∧
      (s.leaving = false → step .leave s = none → s.timeslotP = s.timeslot) ∧
      (s.returned = s.timeslotP ↔ Meets step InTurn acts ⟨0, 0, false, 0⟩) := by
  obtain ⟨⟨hreturned, hstored⟩, -, hiff⟩ := run_lost_iff Inv State.lost
    (fun _ _ _ h hstep => step_lost h hstep) ⟨le_rfl, le_rfl⟩ hrun
  rw [← hiff]
  exact ⟨hreturned, by omega, by grind [step], by grind [State.lost]⟩

/-- A slot begins between the wait for the one before and the store, and is lost. -/
theorem pipeline_sync_late : ∃ s, run step [.wake, .leave, .wake, .store] ⟨0, 0, false, 0⟩ =
    some s ∧
    step .leave s = none ∧ s.returned = 1 ∧ s.returned ≤ s.timeslotP :=
  ⟨_, rfl, rfl, rfl, (pipeline_sync_iff [.wake, .leave, .wake, .store] _ rfl).1⟩

end Aloe.Rtdal.PipelineSync
