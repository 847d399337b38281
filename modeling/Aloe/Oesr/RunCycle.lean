import Mathlib.Data.List.Basic
import Mathlib.Data.Nat.Basic

/-!
# The cycle of a module

Model of `_run_cycle` in `oesr_api_static/oesr_static.c`, of `rtdal_process_run` and
`rtdal_process_stop`, of the pipeline's visit to a process, and of the branch of
`nod_waveform_status_new` for `RUN`, `STEP` and `PAUSE`. Each module follows the announced status
when the pipeline visits it, and withdraws when it has nothing to execute. `Run` succeeds: after an
error the node stops the waveform.
-/

namespace Aloe.Oesr.Exec

open List

/-- `waveform_status_enum`. -/
inductive Status where
  | parsed
  | loaded
  | init
  | run
  | step
  | pause
  | stop
deriving DecidableEq, Repr

/-- `waveform_status_is_valid`, the manager's check of a command. -/
def waveformStatusIsValid (cur new : Status) : Bool :=
  match new with
  | .parsed | .loaded => false
  | .init => cur = .loaded
  | .run => cur = .pause ∨ cur = .init ∨ cur = .step
  | .step => cur = .run ∨ cur = .init ∨ cur = .pause ∨ cur = .step
  | .pause => cur = .run ∨ cur = .step
  | .stop => true

/-- `nod_module_t` with its process. `ran` collects the slots in which the module has
executed, the newest first, each with the number of calls of `Run`. -/
structure NodModule where
  status : Status
  changingStatus : Bool
  runnable : Bool
  ran : List (ℕ × ℕ)
deriving DecidableEq, Repr

structure NodWaveform where
  curStatus : Status
  nextTimeslot : ℕ
  tslotMultiplicity : ℕ
  modules : List NodModule
deriving DecidableEq, Repr

/-! ## A module -/

namespace NodModule

def ackLoaded (cur : Status) (m : NodModule) : NodModule :=
  if cur = .loaded ∧ m.status = .parsed then { m with status := .loaded } else m

/-- The change to the status of the waveform, if its slot has come. A step is one cycle in
status `RUN`. -/
def changeStatus (cur : Status) (next slot : ℕ) (m : NodModule) : NodModule :=
  if m.changingStatus = false ∧ m.status ≠ cur ∧ next ≤ slot then
    match cur with
    | .step => { m with status := if m.status = .run then .step else .run }
    | .pause => { m with status := .pause }
    | .run => { m with status := .run }
    | _ => m
  else m

/-- The execution of a module in status `RUN`; any other one withdraws. -/
def execute (multiplicity slot : ℕ) (m : NodModule) : NodModule :=
  if m.changingStatus = false ∧ m.status = .run then { m with ran := (slot, multiplicity) :: m.ran }
  else { m with runnable := false }

def runCycle (cur : Status) (next multiplicity slot : ℕ) (m : NodModule) : NodModule :=
  ((m.ackLoaded cur).changeStatus cur next slot).execute multiplicity slot

def visit (cur : Status) (next multiplicity slot : ℕ) (m : NodModule) : NodModule :=
  if m.runnable then m.runCycle cur next multiplicity slot else m

end NodModule

/-! ## A waveform -/

namespace NodWaveform

def pass (w : NodWaveform) (slot : ℕ) (order : List ℕ) : NodWaveform :=
  { w with modules := order.foldl (fun ms i =>
      ms.modify i (NodModule.visit w.curStatus w.nextTimeslot w.tslotMultiplicity slot)) w.modules }

def passes (w : NodWaveform) (ps : List (ℕ × List ℕ)) : NodWaveform :=
  ps.foldl (fun w p => w.pass p.1 p.2) w

def resetStep (w : NodWaveform) : NodWaveform :=
  if w.curStatus = .step then
    { w with modules := w.modules.map fun m =>
        { m with status := .pause, changingStatus := false } }
  else w

def commandSlot (next now : ℕ) : ℕ := if next = 0 then now else next

/-- `nod_waveform_status_new` for `RUN`, `STEP` and `PAUSE`. -/
def statusNew (w : NodWaveform) (new : Status) (next now : ℕ) : NodWaveform :=
  let w := w.resetStep
  { w with
    modules := w.modules.map fun m => { m with runnable := true, changingStatus := false }
    curStatus := new
    nextTimeslot := commandSlot next now }

end NodWaveform

/-! ## One visit -/

section Visit

open NodModule

variable {m : NodModule} {cur : Status} {next multiplicity slot : ℕ}

lemma visit_of_not_runnable (h : m.runnable = false) : m.visit cur next multiplicity slot = m := by
  rw [visit, h]
  rfl

lemma runCycle_of_ne_loaded (hcur : cur ≠ .loaded) : m.runCycle cur next multiplicity slot =
      (m.changeStatus cur next slot).execute multiplicity slot := by
  rw [runCycle, ackLoaded, if_neg fun h => hcur h.1]

lemma runCycle_changingStatus (hcur : cur ≠ .loaded) :
    (m.runCycle cur next multiplicity slot).changingStatus = m.changingStatus := by
  have hchange : (m.changeStatus cur next slot).changingStatus = m.changingStatus := by
    cases cur <;> exact apply_ite NodModule.changingStatus _ _ _ |>.trans (ite_self _)
  rw [runCycle_of_ne_loaded hcur, ← hchange]
  unfold execute
  split_ifs <;> rfl

section

variable (hrunnable : m.runnable = true)
include hrunnable

lemma visit_of_runnable (hcur : cur ≠ .loaded) :
    m.visit cur next multiplicity slot =
      (m.changeStatus cur next slot).execute multiplicity slot := by
  rw [visit, if_pos hrunnable, runCycle_of_ne_loaded hcur]

variable (hchanging : m.changingStatus = false)
include hchanging

lemma visit_running (hrun : m.status = .run) :
    m.visit .run next multiplicity slot = { m with ran := (slot, multiplicity) :: m.ran } := by
  rw [visit_of_runnable hrunnable (by decide), changeStatus,
    if_neg fun h => h.2.1 hrun, execute, if_pos ⟨hchanging, hrun⟩]

lemma visit_starting (hrun : m.status ≠ .run) (hslot : next ≤ slot) :
    m.visit .run next multiplicity slot =
      { m with status := .run, ran := (slot, multiplicity) :: m.ran } := by
  rw [visit_of_runnable hrunnable (by decide), changeStatus, if_pos ⟨hchanging, hrun, hslot⟩]
  exact if_pos ⟨hchanging, rfl⟩

lemma visit_step_begin (hrun : m.status ≠ .run) (hstep : m.status ≠ .step)
    (hslot : next ≤ slot) :
    m.visit .step next multiplicity slot =
      { m with status := .run, ran := (slot, multiplicity) :: m.ran } := by
  have hchange : m.changeStatus .step next slot = { m with status := .run } := by
    unfold changeStatus
    rw [if_pos ⟨hchanging, hstep, hslot⟩]
    simp only [if_neg hrun]
  rw [visit_of_runnable hrunnable (by decide), hchange]
  exact if_pos ⟨hchanging, rfl⟩

lemma visit_step_end (hrun : m.status = .run) (hslot : next ≤ slot) :
    m.visit .step next multiplicity slot = { m with status := .step, runnable := false } := by
  have hstep : m.status ≠ .step := by rw [hrun]; decide
  have hchange : m.changeStatus .step next slot = { m with status := .step } := by
    unfold changeStatus
    rw [if_pos ⟨hchanging, hstep, hslot⟩]
    simp only [if_pos hrun]
  rw [visit_of_runnable hrunnable (by decide), hchange]
  exact if_neg fun h => Status.noConfusion h.2

lemma visit_pausing (hpause : m.status ≠ .pause) (hslot : next ≤ slot) :
    m.visit .pause next multiplicity slot = { m with status := .pause, runnable := false } := by
  rw [visit_of_runnable hrunnable (by decide), changeStatus, if_pos ⟨hchanging, hpause, hslot⟩]
  exact if_neg fun h => Status.noConfusion h.2

end

lemma visit_idle (hcur : cur ≠ .loaded)
    (hchange : ¬(m.changingStatus = false ∧ m.status ≠ cur ∧ next ≤ slot))
    (hrun : m.status ≠ .run) :
    m.visit cur next multiplicity slot = { m with runnable := false } := by
  by_cases hrunnable : m.runnable = true
  · have hsame : m.changeStatus cur next slot = m := if_neg hchange
    rw [visit_of_runnable hrunnable hcur, hsame, execute, if_neg fun h => hrun h.2]
  · have hrunnable := Bool.eq_false_iff.mpr hrunnable
    rw [visit_of_not_runnable hrunnable, ← hrunnable]

lemma visit_early (hcur : cur ≠ .loaded) (hrun : m.status ≠ .run) (hslot : slot < next) :
    m.visit cur next multiplicity slot = { m with runnable := false } :=
  visit_idle hcur (fun h => absurd h.2.2 (Nat.not_le_of_lt hslot)) hrun

lemma visit_settled (hcur : cur ≠ .loaded) (hrun : cur ≠ .run) (hstatus : m.status = cur) :
    m.visit cur next multiplicity slot = { m with runnable := false } :=
  visit_idle hcur (fun h => h.2.1 hstatus) (hstatus ▸ hrun)

end Visit

/-! ## The visits of one module -/

section Projection

def visitSlots (ps : List (ℕ × List ℕ)) (i : ℕ) : List ℕ :=
  ps.flatMap fun p => List.replicate (p.2.count i) p.1

def NodModule.visits (cur : Status) (next multiplicity : ℕ) (slots : List ℕ) (m : NodModule) :
    NodModule :=
  slots.foldl (fun m slot => m.visit cur next multiplicity slot) m

lemma visits_append {cur : Status} {next multiplicity : ℕ} {ss ts : List ℕ} {m : NodModule} :
    m.visits cur next multiplicity (ss ++ ts) =
      (m.visits cur next multiplicity ss).visits cur next multiplicity ts :=
  foldl_append

lemma pass_modules (w : NodWaveform) (slot : ℕ) (order : List ℕ) (i : ℕ) :
    (w.pass slot order).modules[i]? = (w.modules[i]?).map (NodModule.visits w.curStatus
      w.nextTimeslot w.tslotMultiplicity (List.replicate (order.count i) slot)) := by
  obtain ⟨cur, next, multiplicity, ms⟩ := w
  unfold NodWaveform.pass
  simp only
  induction order generalizing ms with
  | nil =>
    exact Option.map_id'.symm
  | cons j order ih =>
    rw [foldl_cons, ih, getElem?_modify]
    rcases eq_or_ne j i with rfl | hne
    · rw [count_cons_self, replicate_succ]
      cases ms[j]? with
      | none => rfl
      | some m => simp [NodModule.visits]
    · rw [count_cons_of_ne hne]
      cases ms[i]? with
      | none => rfl
      | some m => simp [hne]

lemma passes_modules (w : NodWaveform) (ps : List (ℕ × List ℕ)) (i : ℕ) :
    (w.passes ps).modules[i]? = (w.modules[i]?).map (NodModule.visits w.curStatus
      w.nextTimeslot w.tslotMultiplicity (visitSlots ps i)) := by
  induction ps generalizing w with
  | nil => exact Option.map_id'.symm
  | cons p ps ih =>
    have hnext : w.passes (p :: ps) = (w.pass p.1 p.2).passes ps := rfl
    have hslots : visitSlots (p :: ps) i =
      List.replicate (p.2.count i) p.1 ++ visitSlots ps i := rfl
    rw [hnext, ih, pass_modules, Option.map_map, hslots]
    congr 1
    funext m
    exact visits_append.symm

lemma pass_length (w : NodWaveform) (slot : ℕ) (order : List ℕ) :
    (w.pass slot order).modules.length = w.modules.length := by
  obtain ⟨cur, next, multiplicity, ms⟩ := w
  unfold NodWaveform.pass
  simp only
  induction order generalizing ms with
  | nil => rfl
  | cons j order ih => rw [foldl_cons, ih, length_modify]

lemma passes_frame (w : NodWaveform) (ps : List (ℕ × List ℕ)) :
    (w.passes ps).curStatus = w.curStatus ∧ (w.passes ps).tslotMultiplicity = w.tslotMultiplicity ∧
      (w.passes ps).modules.length = w.modules.length := by
  induction ps generalizing w with
  | nil => exact ⟨rfl, rfl, rfl⟩
  | cons p ps ih =>
    obtain ⟨hcur, hmult, hlength⟩ := ih (w.pass p.1 p.2)
    exact ⟨hcur, hmult, hlength.trans (pass_length w p.1 p.2)⟩

end Projection

end Aloe.Oesr.Exec
