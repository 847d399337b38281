import Aloe.Lib.Run
import Aloe.Oesr.RunCycle

/-!
# A status command between the cycles of the modules

The branch of `nod_waveform_status_new` for `RUN`, `STEP` and `PAUSE` as its single steps,
interleaved with cycles of runnable modules. The command makes the modules runnable before it
publishes the new status, so a module that has its cycle between the two sees the old status
and withdraws.
-/

namespace Aloe.Oesr.Exec

open Lib List NodModule NodWaveform

inductive Act where
  | reset (i : ℕ)
  | setRun (i : ℕ)
  | clear (i : ℕ)
  | copy
  | cycle (i slot : ℕ)
deriving DecidableEq, Repr

namespace Act

def isCommand : Act → Bool
  | .cycle _ _ => false
  | _ => true

end Act

def commandSteps (cur : Status) (n : ℕ) : List Act :=
  (if cur = .step then (List.range n).map .reset else []) ++ (List.range n).map .setRun ++
    (List.range n).map .clear ++ [.copy]

namespace NodModule

def reset (m : NodModule) : NodModule := { m with status := .pause, changingStatus := false }

def setRun (m : NodModule) : NodModule := { m with runnable := true }

def clear (m : NodModule) : NodModule := { m with changingStatus := false }

end NodModule

namespace NodWaveform

def modifyModule (w : NodWaveform) (i : ℕ) (f : NodModule → NodModule) : NodWaveform :=
  { w with modules := w.modules.modify i f }

/-- One step of the command to `new` in slot `next`, or one cycle of a runnable module. -/
def act (new : Status) (next : ℕ) : Act → NodWaveform → Option NodWaveform
  | .reset i, w => some (w.modifyModule i .reset)
  | .setRun i, w => some (w.modifyModule i .setRun)
  | .clear i, w => some (w.modifyModule i .clear)
  | .copy, w => some { w with curStatus := new, nextTimeslot := next }
  | .cycle i slot, w =>
    if (w.modules[i]?).any (·.runnable) then
      some (w.modifyModule i (.runCycle w.curStatus w.nextTimeslot w.tslotMultiplicity slot))
    else none

end NodWaveform

/-! ## The cycles of one module -/

namespace NodModule

def cycle (cur : Status) (next multiplicity slot : ℕ) (m : NodModule) : Option NodModule :=
  if m.runnable then some (m.visit cur next multiplicity slot) else none

def stepStatus : ℕ → Status
  | 0 => .pause
  | 1 => .run
  | _ => .step

end NodModule

section Cycles

variable {m m' : NodModule} {cur new : Status} {next multiplicity slot : ℕ} {slots : List ℕ}

lemma cycle_eq_some : m.cycle cur next multiplicity slot = some m' ↔
      m.runnable = true ∧ m.visit cur next multiplicity slot = m' := by
  unfold cycle
  split_ifs with h <;> simp [h]

lemma cycles_settled (hloaded : cur ≠ .loaded) (hrun : cur ≠ .run) (hstatus : m.status = cur)
    (hcycles : run (cycle cur next multiplicity) slots m = some m') :
    m'.status = cur ∧ (m'.runnable = true ↔ m.runnable = true ∧ slots = []) := by
  cases slots with
  | nil =>
    cases hcycles
    simpa using hstatus
  | cons slot slots =>
    obtain ⟨m1, hm1, hrest⟩ := run_cons_eq_some.mp hcycles
    obtain ⟨-, rfl⟩ := cycle_eq_some.mp hm1
    rw [visit_settled hloaded hrun hstatus] at hrest
    cases slots with
    | nil =>
      cases hrest
      simpa using hstatus
    | cons slot slots =>
      obtain ⟨m2, hm2, -⟩ := run_cons_eq_some.mp hrest
      exact absurd (cycle_eq_some.mp hm2).1 Bool.false_ne_true

variable {r : ℕ}

lemma cycle_step (hstatus : m.status = stepStatus r)
    (hchanging : m.changingStatus = false) (hslot : next ≤ slot)
    (hcycle : m.cycle .step next multiplicity slot = some m') :
    m'.status = stepStatus (r + 1) ∧ m'.changingStatus = false ∧ (m'.runnable = true ↔ r = 0) := by
  obtain ⟨hrunnable, rfl⟩ := cycle_eq_some.mp hcycle
  match r with
  | 0 =>
    rw [visit_step_begin hrunnable hchanging (by rw [hstatus]; decide) (by rw [hstatus]; decide)
      hslot]
    simp [stepStatus, hchanging, hrunnable]
  | 1 =>
    rw [visit_step_end hrunnable hchanging hstatus hslot]
    simp [stepStatus, hchanging]
  | r + 2 =>
    have hstep : m.status = .step := hstatus
    rw [visit_settled (by decide) (by decide) hstep]
    simp [hstep, stepStatus, hchanging]

lemma cycles_step (hstatus : m.status = stepStatus r)
    (hchanging : m.changingStatus = false) (hslots : ∀ slot ∈ slots, next ≤ slot)
    (hcycles : run (cycle .step next multiplicity) slots m = some m') :
    m'.status = stepStatus (r + slots.length) ∧
      (m'.runnable = true ↔ m.runnable = true ∧ (slots = [] ∨ r + slots.length ≤ 1)) := by
  induction slots generalizing m r with
  | nil =>
    cases hcycles
    simpa using hstatus
  | cons slot slots ih =>
    obtain ⟨m1, hm1, hrest⟩ := run_cons_eq_some.mp hcycles
    obtain ⟨hstatus1, hchanging1, hrunnable1⟩ :=
      cycle_step hstatus hchanging (hslots slot mem_cons_self) hm1
    obtain ⟨hstatus', hrunnable'⟩ := ih hstatus1 hchanging1
      (fun s hs => hslots s (mem_cons_of_mem _ hs)) hrest
    have hcount : r + 1 + slots.length = r + (slot :: slots).length := by
      rw [length_cons]
      omega
    rw [hcount] at hstatus' hrunnable'
    refine ⟨hstatus', hrunnable'.trans ?_⟩
    rw [hrunnable1, ← hcount, ← length_eq_zero_iff]
    simp only [(cycle_eq_some.mp hm1).1, reduceCtorEq, false_or, true_and]
    omega

section

variable (hnew : new = .run ∨ new = .step) (hchanging : m.changingStatus = false)
include hnew hchanging

lemma cycle_published
    (hslot : next ≤ slot) (hcycle : m.cycle new next multiplicity slot = some m') :
    m'.status = new ∨ m'.runnable = true := by
  obtain ⟨hrunnable, rfl⟩ := cycle_eq_some.mp hcycle
  by_cases hrun : m.status = .run
  · rcases hnew with rfl | rfl
    · rw [visit_running hrunnable hchanging hrun]
      exact .inl hrun
    · rw [visit_step_end hrunnable hchanging hrun hslot]
      exact .inl rfl
  · rcases hnew with rfl | rfl
    · rw [visit_starting hrunnable hchanging hrun hslot]
      exact .inl rfl
    · by_cases hstep : m.status = .step
      · rw [visit_settled (by decide) (by decide) hstep]
        exact .inl hstep
      · rw [visit_step_begin hrunnable hchanging hrun hstep hslot]
        exact .inr hrunnable

lemma cycles_published (hslots : ∀ slot ∈ slots, next ≤ slot)
    (hcycles : run (cycle new next multiplicity) slots m = some m') :
    (m'.status = new ∨ m'.runnable = true) ↔ (m.status = new ∨ m.runnable = true) := by
  induction slots generalizing m with
  | nil =>
    cases hcycles
    exact Iff.rfl
  | cons slot slots ih =>
    obtain ⟨m1, hm1, hrest⟩ := run_cons_eq_some.mp hcycles
    have hslot := hslots slot mem_cons_self
    obtain ⟨hrunnable, hvisit⟩ := cycle_eq_some.mp hm1
    have hchanging1 : m1.changingStatus = false := by
      have hloaded : new ≠ .loaded := by rcases hnew with rfl | rfl <;> decide
      rw [← hvisit, visit, if_pos hrunnable, runCycle_changingStatus hloaded, hchanging]
    have hrest' := ih hchanging1 (fun s hs => hslots s (mem_cons_of_mem _ hs)) hrest
    exact iff_of_true (hrest'.mpr (cycle_published hnew hchanging hslot hm1)) (.inr hrunnable)

end

end Cycles

/-! ## One module in an interleaving -/

def Act.slotOf (i : ℕ) : Act → Option ℕ
  | .cycle j slot => if j = i then some slot else none
  | _ => none

def cyclesOf (i : ℕ) (acts : List Act) : List ℕ := acts.filterMap (Act.slotOf i)

/-- The command does not touch status and flags of module `i` here, nor the waveform's status. -/
def Act.Quiet (i : ℕ) (a : Act) : Prop := a ≠ .reset i ∧ a ≠ .setRun i ∧ a ≠ .copy

section Projection

variable {w w' : NodWaveform} {m : NodModule} {new : Status} {next i : ℕ}
  {f : NodModule → NodModule}

lemma modifyModule_of_ne {j : ℕ} (hne : j ≠ i) : (w.modifyModule j f).modules[i]? = w.modules[i]? :=
  getElem?_modify_ne f _ hne

lemma modifyModule_self (hm : w.modules[i]? = some m) :
    (w.modifyModule i f).modules[i]? = some (f m) := by
  show (w.modules.modify i f)[i]? = some (f m)
  rw [getElem?_modify_eq, hm]
  rfl

/-- The waveform's own fields are those of `w`. -/
def SameStatus (w w' : NodWaveform) : Prop :=
  w'.curStatus = w.curStatus ∧ w'.nextTimeslot = w.nextTimeslot ∧
    w'.tslotMultiplicity = w.tslotMultiplicity

lemma act_quiet {a : Act} (hloaded : w.curStatus ≠ .loaded) (hquiet : a.Quiet i)
    (hact : w.act new next a = some w') (hm : w.modules[i]? = some m)
    (hchanging : m.changingStatus = false) :
    SameStatus w w' ∧ ∃ m', w'.modules[i]? = some m' ∧ m'.changingStatus = false ∧
      run (cycle w.curStatus w.nextTimeslot w.tslotMultiplicity) (a.slotOf i).toList m =
        some m' := by
  cases a with
  | reset j =>
    cases hact
    have hne : j ≠ i := fun h => hquiet.1 (h ▸ rfl)
    exact ⟨⟨rfl, rfl, rfl⟩, m, (modifyModule_of_ne hne).trans hm, hchanging, rfl⟩
  | setRun j =>
    cases hact
    have hne : j ≠ i := fun h => hquiet.2.1 (h ▸ rfl)
    exact ⟨⟨rfl, rfl, rfl⟩, m, (modifyModule_of_ne hne).trans hm, hchanging, rfl⟩
  | clear j =>
    cases hact
    refine ⟨⟨rfl, rfl, rfl⟩, m, ?_, hchanging, rfl⟩
    rcases eq_or_ne j i with rfl | hne
    · rw [modifyModule_self hm, clear, ← hchanging]
    · exact (modifyModule_of_ne hne).trans hm
  | copy => exact absurd rfl hquiet.2.2
  | cycle j slot =>
    simp only [act] at hact
    split_ifs at hact with hrunnable
    cases hact
    refine ⟨⟨rfl, rfl, rfl⟩, ?_⟩
    rcases eq_or_ne j i with rfl | hne
    · rw [hm, Option.any_some] at hrunnable
      have hvisit : m.runCycle w.curStatus w.nextTimeslot w.tslotMultiplicity slot =
        m.visit w.curStatus w.nextTimeslot w.tslotMultiplicity slot := (if_pos hrunnable).symm
      refine ⟨_, modifyModule_self hm, (runCycle_changingStatus hloaded).trans hchanging, ?_⟩
      rw [Act.slotOf, if_pos rfl, hvisit]
      exact run_cons_eq_some.mpr ⟨_, cycle_eq_some.mpr ⟨hrunnable, rfl⟩, rfl⟩
    · refine ⟨m, (modifyModule_of_ne hne).trans hm, hchanging, ?_⟩
      rw [Act.slotOf, if_neg hne]
      rfl

lemma run_quiet {acts : List Act} (hloaded : w.curStatus ≠ .loaded)
    (hquiet : ∀ a ∈ acts, a.Quiet i) (hrun : run (act new next) acts w = some w')
    (hm : w.modules[i]? = some m) (hchanging : m.changingStatus = false) :
    SameStatus w w' ∧ ∃ m', w'.modules[i]? = some m' ∧ m'.changingStatus = false ∧
      run (cycle w.curStatus w.nextTimeslot w.tslotMultiplicity) (cyclesOf i acts) m = some m' := by
  induction acts generalizing w m with
  | nil =>
    cases hrun
    exact ⟨⟨rfl, rfl, rfl⟩, m, hm, hchanging, rfl⟩
  | cons a acts ih =>
    obtain ⟨w1, hact, hrest⟩ := run_cons_eq_some.mp hrun
    obtain ⟨⟨hcur, hnext, hmult⟩, m1, hm1, hchanging1, hcycle⟩ :=
      act_quiet hloaded (hquiet a mem_cons_self) hact hm hchanging
    obtain ⟨hsame, m', hm', hchanging', hcycles⟩ := ih (hcur ▸ hloaded)
      (fun b hb => hquiet b (mem_cons_of_mem _ hb)) hrest hm1 hchanging1
    rw [hcur, hnext, hmult] at hcycles
    unfold SameStatus at hsame
    rw [hcur, hnext, hmult] at hsame
    refine ⟨hsame, m', hm', hchanging', ?_⟩
    have hsplit : cyclesOf i (a :: acts) = (a.slotOf i).toList ++ cyclesOf i acts := by
      unfold cyclesOf
      rw [filterMap_cons]
      cases a.slotOf i <;> rfl
    rw [hsplit]
    exact run_append_eq_some.mpr ⟨m1, hcycle, hcycles⟩

end Projection

/-! ## The order of the steps -/

/-- The actions from the first `a` on, up to the `b` after it. -/
def between (a b : Act) (acts : List Act) : List Act := (acts.dropWhile (· ≠ a)).takeWhile (· ≠ b)

variable {a : Act} {acts : List Act} {i n : ℕ}

lemma between_eq {b : Act} {before middle after : List Act} (hab : a ≠ b) (ha : a ∉ before)
    (hb : b ∉ middle) : between a b (before ++ a :: (middle ++ b :: after)) = a :: middle := by
  have hbefore : ∀ x ∈ before, decide (x ≠ a) = true := fun x hx =>
    decide_eq_true fun h => ha (h ▸ hx)
  have hmiddle : ∀ x ∈ middle, decide (x ≠ b) = true := fun x hx =>
    decide_eq_true fun h => hb (h ▸ hx)
  unfold between
  rw [dropWhile_append_of_pos hbefore, dropWhile_cons_of_neg (by simp),
    takeWhile_cons_of_pos (by simpa using hab), takeWhile_append_of_pos hmiddle,
    takeWhile_cons_of_neg (by simp), append_nil]

variable {steps : List Act}

lemma mem_of_filter_eq
    (h : acts.filter Act.isCommand = steps) (ha : a ∈ acts) (hcommand : a.isCommand = true) :
    a ∈ steps :=
  h ▸ mem_filter.mpr ⟨ha, hcommand⟩

lemma quiet_of_filter_eq (h : acts.filter Act.isCommand = steps) (hreset : .reset i ∉ steps)
    (hset : .setRun i ∉ steps) (hcopy : .copy ∉ steps) : ∀ a ∈ acts, a.Quiet i := by
  intro a ha
  refine ⟨?_, ?_, ?_⟩ <;> rintro rfl
  · exact hreset (mem_of_filter_eq h ha rfl)
  · exact hset (mem_of_filter_eq h ha rfl)
  · exact hcopy (mem_of_filter_eq h ha rfl)

lemma range_split (hi : i < n) :
    ∃ before after, List.range n = before ++ i :: after ∧ i ∉ before ∧ i ∉ after := by
  obtain ⟨before, after, hsplit, hbefore⟩ := eq_append_cons_of_mem (mem_range.mpr hi)
  have hnodup := nodup_range (n := n)
  rw [hsplit, nodup_append, nodup_cons] at hnodup
  exact ⟨before, after, hsplit, hbefore, hnodup.2.1.1⟩

lemma split_at {x : Act} {pre post : List Act} (h : acts.filter Act.isCommand = pre ++ x :: post) :
    ∃ before after, acts = before ++ x :: after ∧ before.filter Act.isCommand = pre ∧
      after.filter Act.isCommand = post := by
  obtain ⟨before, rest, rfl, hbefore, hrest⟩ := filter_eq_append_iff.mp h
  obtain ⟨gap, after, rfl, hgap, -, hafter⟩ := filter_eq_cons_iff.mp hrest
  refine ⟨before ++ gap, after, by simp, ?_, hafter⟩
  rw [filter_append, hbefore, filter_eq_nil_iff.mpr hgap, append_nil]

lemma split_setRun {cur : Status} (hi : i < n)
    (h : acts.filter Act.isCommand = commandSteps cur n) :
    ∃ before middle after, acts = before ++ .setRun i :: (middle ++ .copy :: after) ∧
      (∃ pre : List ℕ, i ∉ pre ∧ before.filter Act.isCommand =
        (if cur = .step then (List.range n).map .reset else []) ++ pre.map .setRun) ∧
      (∀ a ∈ middle, a.Quiet i) ∧ ∀ a ∈ after, a.Quiet i := by
  obtain ⟨pre, post, hrange, hpre, hpost⟩ := range_split hi
  have hsteps : commandSteps cur n =
      ((if cur = .step then (List.range n).map .reset else []) ++ pre.map .setRun) ++
        .setRun i :: ((post.map .setRun ++ (List.range n).map .clear) ++ [.copy]) := by
    unfold commandSteps
    nth_rewrite 2 [hrange]
    simp
  rw [hsteps] at h
  obtain ⟨before, rest, rfl, hbefore, hrest⟩ := split_at h
  obtain ⟨middle, after, rfl, hmiddle, hafter⟩ := split_at hrest
  refine ⟨before, middle, after, rfl, ⟨pre, hpre, hbefore⟩, ?_, ?_⟩
  · exact quiet_of_filter_eq hmiddle (by simp) (by simpa using hpost) (by simp)
  · exact quiet_of_filter_eq hafter (by simp) (by simp) (by simp)

lemma split_reset {pre : List ℕ} (hi : i < n) (hpre : i ∉ pre)
    (h : acts.filter Act.isCommand = (List.range n).map .reset ++ pre.map .setRun) :
    ∃ before after, acts = before ++ .reset i :: after ∧
      (∀ a ∈ before, a.Quiet i) ∧ ∀ a ∈ after, a.Quiet i := by
  obtain ⟨lower, upper, hrange, hlower, hupper⟩ := range_split hi
  have hsteps : (List.range n).map Act.reset ++ pre.map .setRun =
      lower.map .reset ++ .reset i :: (upper.map .reset ++ pre.map .setRun) := by
    rw [hrange]
    simp
  rw [hsteps] at h
  obtain ⟨before, after, rfl, hbefore, hafter⟩ := split_at h
  refine ⟨before, after, rfl, ?_, ?_⟩
  · exact quiet_of_filter_eq hbefore (by simpa using hlower) (by simp) (by simp)
  · exact quiet_of_filter_eq hafter (by simpa using hupper) (by simpa using hpre) (by simp)

/-! ## The start -/

/-- Module `i` has no cycle between being made runnable and the copy of the new status. After a
step it may have one, if it had none since its reset, and for another step any number. -/
def StartKept (cur new : Status) (acts : List Act) (i : ℕ) : Prop :=
  let early := (cyclesOf i (between (.reset i) (.setRun i) acts)).length
  let armed := (cyclesOf i (between (.setRun i) .copy acts)).length
  armed = 0 ∨ (cur = .step ∧ (new = .step ∨ early + armed ≤ 1))

instance (cur new : Status) (acts : List Act) (i : ℕ) : Decidable (StartKept cur new acts i) := by
  unfold StartKept
  infer_instance

lemma mem_of_mem_cyclesOf {slot : ℕ} (h : slot ∈ cyclesOf i acts) : .cycle i slot ∈ acts := by
  obtain ⟨a, ha, hslot⟩ := mem_filterMap.mp h
  cases a with
  | cycle j s =>
    rw [Act.slotOf] at hslot
    split_ifs at hslot with hj
    cases hslot
    exact hj ▸ ha
  | _ => cases hslot

section Start

variable {w w' : NodWaveform} {m : NodModule} {new : Status} {next i : ℕ}

lemma run_armed {middle after : List Act} (hloaded : w.curStatus ≠ .loaded)
    (hnew : new = .run ∨ new = .step) (hm : w.modules[i]? = some m)
    (hchanging : m.changingStatus = false) (hmiddle : ∀ a ∈ middle, a.Quiet i)
    (hafter : ∀ a ∈ after, a.Quiet i) (hslots : ∀ slot, .cycle i slot ∈ after → next ≤ slot)
    (hrun : run (act new next) (.setRun i :: (middle ++ .copy :: after)) w = some w') :
    ∃ m1 m', run (cycle w.curStatus w.nextTimeslot w.tslotMultiplicity)
        (cyclesOf i middle) m.setRun = some m1 ∧ w'.modules[i]? = some m' ∧
      ((m'.status = new ∨ m'.runnable = true) ↔ (m1.status = new ∨ m1.runnable = true)) := by
  obtain ⟨w0, hset, hrun⟩ := run_cons_eq_some.mp hrun
  cases hset
  obtain ⟨w1, hrun1, hrest⟩ := run_append_eq_some.mp hrun
  obtain ⟨-, m1, hm1, hchanging1, hcycles⟩ :=
    run_quiet (w := w.modifyModule i .setRun) hloaded hmiddle hrun1 (modifyModule_self hm) hchanging
  obtain ⟨w2, hcopy, hrest⟩ := run_cons_eq_some.mp hrest
  cases hcopy
  have hloaded' : new ≠ .loaded := by rcases hnew with rfl | rfl <;> decide
  obtain ⟨-, m', hm', -, hcycles'⟩ := run_quiet (m := m1) hloaded' hafter hrest hm1 hchanging1
  exact ⟨m1, m', hcycles, hm', cycles_published hnew hchanging1
    (fun slot hslot => hslots slot (mem_of_mem_cyclesOf hslot)) hcycles'⟩

lemma run_reset {first early : List Act} (hcur : w.curStatus = .step)
    (hm : w.modules[i]? = some m) (hchanging : m.changingStatus = false)
    (hfirst : ∀ a ∈ first, a.Quiet i) (hearly : ∀ a ∈ early, a.Quiet i)
    (hslots : ∀ slot, .cycle i slot ∈ early → w.nextTimeslot ≤ slot)
    (hrun : run (act new next) (first ++ .reset i :: early) w = some w') :
    SameStatus w w' ∧ ∃ m', w'.modules[i]? = some m' ∧ m'.changingStatus = false ∧
      m'.status = stepStatus (cyclesOf i early).length := by
  have hloaded : w.curStatus ≠ .loaded := by rw [hcur]; decide
  obtain ⟨w1, hrun1, hrest⟩ := run_append_eq_some.mp hrun
  obtain ⟨⟨hcur1, hnext1, hmult1⟩, m1, hm1, -, -⟩ := run_quiet hloaded hfirst hrun1 hm hchanging
  obtain ⟨w2, hreset, hrest⟩ := run_cons_eq_some.mp hrest
  cases hreset
  obtain ⟨⟨hcur', hnext', hmult'⟩, m', hm', hchanging', hcycles⟩ :=
    run_quiet (m := m1.reset) (hcur1 ▸ hloaded) hearly hrest (modifyModule_self hm1) rfl
  refine ⟨⟨hcur'.trans hcur1, hnext'.trans hnext1, hmult'.trans hmult1⟩, m', hm', hchanging', ?_⟩
  rw [show (w1.modifyModule i .reset).curStatus = .step from hcur1.trans hcur,
    show (w1.modifyModule i .reset).nextTimeslot = w.nextTimeslot from hnext1] at hcycles
  have hstep := (cycles_step (r := 0) (m := m1.reset) rfl rfl
    (fun slot hslot => hslots slot (mem_of_mem_cyclesOf hslot)) hcycles).1
  rwa [Nat.zero_add] at hstep

section

variable {acts : List Act} (hnew : new = .run ∨ new = .step) (hm : w.modules[i]? = some m)
  (hchanging : m.changingStatus = false)
  (hsteps : acts.filter Act.isCommand = commandSteps w.curStatus w.modules.length)
  (hrun : run (act new next) acts w = some w')
include hnew hm hchanging hsteps hrun

lemma run_command_idle (hcur : w.curStatus = .init ∨ w.curStatus = .pause)
    (hstatus : m.status = w.curStatus) (hslots : ∀ slot, .cycle i slot ∈ acts → next ≤ slot) :
    ∃ m', w'.modules[i]? = some m' ∧
      ((m'.status = new ∨ m'.runnable = true) ↔ StartKept w.curStatus new acts i) := by
  have hi : i < w.modules.length := (List.getElem?_eq_some_iff.mp hm).1
  have hloaded : w.curStatus ≠ .loaded := by rcases hcur with h | h <;> rw [h] <;> decide
  have hidle : w.curStatus ≠ .run := by rcases hcur with h | h <;> rw [h] <;> decide
  have hstep : w.curStatus ≠ .step := by rcases hcur with h | h <;> rw [h] <;> decide
  have hne : w.curStatus ≠ new := by
    rcases hnew with rfl | rfl
    · exact hidle
    · exact hstep
  obtain ⟨before, middle, after, rfl, ⟨pre, hpre, hbefore⟩, hmiddle, hafter⟩ :=
    split_setRun hi hsteps
  rw [if_neg hstep, nil_append] at hbefore
  have hquiet : ∀ a ∈ before, a.Quiet i :=
    quiet_of_filter_eq hbefore (by simp) (by simpa using hpre) (by simp)
  obtain ⟨w1, hrun1, hrest⟩ := run_append_eq_some.mp hrun
  obtain ⟨⟨hcur1, hnext1, hmult1⟩, m1, hm1, hchanging1, hcycles1⟩ :=
    run_quiet hloaded hquiet hrun1 hm hchanging
  obtain ⟨hstatus1, -⟩ := cycles_settled hloaded hidle hstatus hcycles1
  obtain ⟨m2, m', hcycles2, hm', hiff⟩ := run_armed (hcur1 ▸ hloaded) hnew hm1 hchanging1 hmiddle
    hafter (fun slot hslot => hslots slot (by simp [hslot])) hrest
  have hsettled := cycles_settled (m := m1.setRun) (hcur1 ▸ hloaded) (hcur1 ▸ hidle)
    (hstatus1.trans hcur1.symm) hcycles2
  refine ⟨m', hm', hiff.trans ?_⟩
  have hbetween : between (.setRun i) .copy (before ++ .setRun i :: (middle ++ .copy :: after)) =
      .setRun i :: middle :=
    between_eq (by simp) (fun h => (hquiet _ h).2.1 rfl) (fun h => (hmiddle _ h).2.2 rfl)
  have hcur2 : m2.status = w.curStatus := hsettled.1.trans hcur1
  unfold StartKept
  rw [hbetween, hcur2, hsettled.2]
  simp [hne, hstep, cyclesOf, Act.slotOf, setRun]

lemma run_command_step (hcur : w.curStatus = .step)
    (hslots : ∀ slot, .cycle i slot ∈ acts → w.nextTimeslot ≤ slot ∧ next ≤ slot) :
    ∃ m', w'.modules[i]? = some m' ∧
      ((m'.status = new ∨ m'.runnable = true) ↔ StartKept w.curStatus new acts i) := by
  have hi : i < w.modules.length := (List.getElem?_eq_some_iff.mp hm).1
  obtain ⟨before, middle, after, rfl, ⟨pre, hpre, hbefore⟩, hmiddle, hafter⟩ :=
    split_setRun hi hsteps
  rw [if_pos hcur] at hbefore
  obtain ⟨first, early, rfl, hfirst, hearly⟩ := split_reset hi hpre hbefore
  obtain ⟨w1, hrun1, hrest⟩ := run_append_eq_some.mp hrun
  obtain ⟨⟨hcur1, hnext1, -⟩, m1, hm1, hchanging1, hstatus1⟩ := run_reset hcur hm hchanging hfirst
    hearly (fun slot hslot => (hslots slot (by simp [hslot])).1) hrun1
  obtain ⟨m2, m', hcycles, hm', hiff⟩ := run_armed (by rw [hcur1, hcur]; decide) hnew hm1 hchanging1
    hmiddle hafter (fun slot hslot => (hslots slot (by simp [hslot])).2) hrest
  rw [hcur1, hcur, hnext1] at hcycles
  obtain ⟨hstatus2, hrunnable2⟩ := cycles_step (m := m1.setRun) hstatus1 hchanging1
    (fun slot hslot => (hslots slot (by simp [mem_of_mem_cyclesOf hslot])).1) hcycles
  refine ⟨m', hm', hiff.trans ?_⟩
  have hreset : between (.reset i) (.setRun i)
      (first ++ .reset i :: early ++ .setRun i :: (middle ++ .copy :: after)) =
        .reset i :: early := by
    rw [append_assoc, cons_append]
    exact between_eq (by simp) (fun h => (hfirst _ h).1 rfl) (fun h => (hearly _ h).2.1 rfl)
  have harmed : between (.setRun i) .copy
      (first ++ .reset i :: early ++ .setRun i :: (middle ++ .copy :: after)) =
        .setRun i :: middle := by
    refine between_eq (by simp) (fun h => ?_) (fun h => (hmiddle _ h).2.2 rfl)
    rcases mem_append.mp h with h | h
    · exact (hfirst _ h).2.1 rfl
    · rcases mem_cons.mp h with h | h
      · cases h
      · exact (hearly _ h).2.1 rfl
  have hsetRun : m1.setRun.runnable = true := rfl
  unfold StartKept
  rw [hreset, harmed, hstatus2, hrunnable2, hcur, hsetRun, ← length_eq_zero_iff]
  show _ ↔ (cyclesOf i middle).length = 0 ∨
    Status.step = .step ∧ (new = .step ∨ (cyclesOf i early).length + (cyclesOf i middle).length ≤ 1)
  generalize (cyclesOf i early).length = t
  generalize (cyclesOf i middle).length = v
  -- `RUN` is the status in the middle of the step only, `STEP` from its end on.
  rcases hnew with rfl | rfl <;> match h : t + v with
    | 0 => simp [stepStatus]
    | 1 => simp [stepStatus]
    | n + 2 => simp [stepStatus]

end

end Start

lemma act_length {w w' : NodWaveform} {new : Status} {next : ℕ}
    (h : w.act new next a = some w') : w'.modules.length = w.modules.length := by
  cases a with
  | copy =>
    cases h
    rfl
  | cycle i slot =>
    simp only [act] at h
    split_ifs at h
    cases h
    exact length_modify _ _ _
  | _ =>
    cases h
    exact length_modify _ _ _

/-- **No start is lost, in any interleaving, exactly if no module has its cycle at the wrong
moment.** -/
theorem command_keeps_start_iff (w w' : NodWaveform) (new : Status) (next : ℕ) (acts : List Act)
    (hcur : w.curStatus = .init ∨ w.curStatus = .pause ∨ w.curStatus = .step)
    (hnew : new = .run ∨ new = .step)
    (hmodules : ∀ m ∈ w.modules, m.status = w.curStatus ∧ m.changingStatus = false)
    (hsteps : acts.filter Act.isCommand = commandSteps w.curStatus w.modules.length)
    (hslots : ∀ i slot, .cycle i slot ∈ acts →
      (w.curStatus = .step → w.nextTimeslot ≤ slot) ∧ next ≤ slot)
    (hrun : run (NodWaveform.act new next) acts w = some w') :
    (∀ m ∈ w'.modules, m.status = new ∨ m.runnable = true) ↔
      ∀ i < w.modules.length, StartKept w.curStatus new acts i := by
  have hmodule : ∀ i < w.modules.length, ∃ m', w'.modules[i]? = some m' ∧
      ((m'.status = new ∨ m'.runnable = true) ↔ StartKept w.curStatus new acts i) := by
    intro i hi
    have hm : w.modules[i]? = some w.modules[i] := getElem?_eq_getElem hi
    obtain ⟨hstatus, hchanging⟩ := hmodules _ (getElem_mem hi)
    rcases hcur with h | h | h
    · exact run_command_idle hnew hm hchanging hsteps hrun (.inl h) hstatus
        fun slot hslot => (hslots i slot hslot).2
    · exact run_command_idle hnew hm hchanging hsteps hrun (.inr h) hstatus
        fun slot hslot => (hslots i slot hslot).2
    · exact run_command_step hnew hm hchanging hsteps hrun h
        fun slot hslot => (hslots i slot hslot).imp (fun hafter => hafter h) id
  have hlength : w'.modules.length = w.modules.length := by
    have hmeets : Meets (NodWaveform.act new next) (fun _ _ => True) acts w :=
      meets_of_forall (fun _ _ => trivial) acts w
    exact run_invariant (fun v => v.modules.length = w.modules.length)
      (fun a s s' hs _ hact => (act_length hact).trans hs) rfl hmeets hrun
  constructor
  · intro h i hi
    obtain ⟨m', hm', hiff⟩ := hmodule i hi
    exact hiff.mp (h m' (mem_of_getElem? hm'))
  · intro h m' hmem
    obtain ⟨i, hi, hget⟩ := mem_iff_getElem.mp hmem
    rw [hlength] at hi
    obtain ⟨m'', hm'', hiff⟩ := hmodule i hi
    have heq : m'' = m' := by
      rw [getElem?_eq_getElem (hlength ▸ hi), hget] at hm''
      exact (Option.some.inj hm'').symm
    exact heq ▸ hiff.mpr (h i hi)

def steppedPair : NodWaveform where
  curStatus := .step
  nextTimeslot := 0
  tslotMultiplicity := 1
  modules := [⟨.step, false, false, []⟩, ⟨.step, false, false, []⟩]

/-- `RUN` after a step; module 0 has one cycle between its arming and the copy. -/
def resumeActs : List Act :=
  [.reset 0, .reset 1, .setRun 0, .cycle 0 4, .setRun 1, .clear 0, .clear 1, .copy, .cycle 1 5]

theorem command_keeps_start_resumed : run (NodWaveform.act .run 3) resumeActs steppedPair =
        some ⟨.run, 3, 1, [⟨.run, false, true, [(4, 1)]⟩, ⟨.run, false, true, [(5, 1)]⟩]⟩ ∧
      ∀ m ∈ [(⟨.run, false, true, [(4, 1)]⟩ : NodModule), ⟨.run, false, true, [(5, 1)]⟩],
        m.status = .run ∨ m.runnable = true := by
  refine ⟨by decide, ?_⟩
  exact (command_keeps_start_iff steppedPair
    ⟨.run, 3, 1, [⟨.run, false, true, [(4, 1)]⟩, ⟨.run, false, true, [(5, 1)]⟩]⟩ .run 3 resumeActs
    (.inr (.inr rfl)) (.inl rfl) (by decide) (by decide)
    (by simp [resumeActs, steppedPair]; omega) (by decide)).mpr (by decide)

theorem command_loses_start :
    [Act.setRun 0, .cycle 0 4, .clear 0, .copy].filter Act.isCommand = commandSteps .pause 1 ∧
      run (NodWaveform.act .run 3) [.setRun 0, .cycle 0 4, .clear 0, .copy]
          ⟨.pause, 0, 1, [⟨.pause, false, false, []⟩]⟩ =
        some ⟨.run, 3, 1, [⟨.pause, false, false, []⟩]⟩ ∧
      ¬ ∀ m ∈ [(⟨.pause, false, false, []⟩ : NodModule)], m.status = .run ∨ m.runnable = true := by
  decide

end Aloe.Oesr.Exec
