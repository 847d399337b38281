import Aloe.Oesr.RunCycle

/-!
# Commands and slots

`RUN` for a slot `T` that is still to come: a module that is first visited from `T` on starts there,
one that is visited before withdraws, and nothing makes it runnable again until the next command.

Then sequences of commands, each followed by at least two slots in which every module is visited.
`STEP` makes the modules execute in one slot, by lending them the status `RUN` for a cycle; a module
that is in `RUN` already looks like one whose step is over, and does not execute.
-/

namespace Aloe.Oesr.Exec

open List NodWaveform

def executed (multiplicity : ℕ) (slots : List ℕ) : List (ℕ × ℕ) :=
  (slots.map fun slot => (slot, multiplicity)).reverse

lemma executed_cons (multiplicity slot : ℕ) (slots : List ℕ) :
    executed multiplicity (slot :: slots) = executed multiplicity slots ++ [(slot, multiplicity)] :=
  reverse_cons

/-! ## Many visits -/

section Visits

variable {m : NodModule} {cur : Status} {next multiplicity : ℕ}

lemma visits_of_not_runnable (slots : List ℕ) (h : m.runnable = false) :
    m.visits cur next multiplicity slots = m := by
  induction slots with
  | nil => rfl
  | cons slot slots ih =>
    show (m.visit cur next multiplicity slot).visits cur next multiplicity slots = m
    rw [visit_of_not_runnable h]
    exact ih

lemma visits_running (slots : List ℕ) (hrun : m.status = .run)
    (hchanging : m.changingStatus = false) (hrunnable : m.runnable = true) :
    m.visits .run next multiplicity slots =
      { m with ran := executed multiplicity slots ++ m.ran } := by
  induction slots generalizing m with
  | nil => rfl
  | cons slot slots ih =>
    show (m.visit .run next multiplicity slot).visits .run next multiplicity slots = _
    rw [visit_running hrunnable hchanging hrun, executed_cons, append_assoc]
    exact ih (m := { m with ran := (slot, multiplicity) :: m.ran }) hrun hchanging hrunnable

lemma visits_starting {slot : ℕ} (slots : List ℕ) (hrun : m.status ≠ .run)
    (hchanging : m.changingStatus = false) (hrunnable : m.runnable = true) (hslot : next ≤ slot) :
    m.visits .run next multiplicity (slot :: slots) =
      { m with status := .run, ran := executed multiplicity (slot :: slots) ++ m.ran } := by
  show (m.visit .run next multiplicity slot).visits .run next multiplicity slots = _
  rw [visit_starting hrunnable hchanging hrun hslot, executed_cons, append_assoc]
  exact visits_running (m := { m with status := .run, ran := (slot, multiplicity) :: m.ran }) slots
    rfl hchanging hrunnable

lemma visits_early {slot : ℕ} (slots : List ℕ) (hcur : cur ≠ .loaded) (hrun : m.status ≠ .run)
    (hslot : slot < next) :
    m.visits cur next multiplicity (slot :: slots) = { m with runnable := false } := by
  show (m.visit cur next multiplicity slot).visits cur next multiplicity slots = _
  rw [visit_early hcur hrun hslot]
  exact visits_of_not_runnable slots rfl

end Visits

lemma visitSlots_pairwise {ps : List (ℕ × List ℕ)} (i : ℕ)
    (hps : ps.Pairwise fun p q => p.1 < q.1) : (visitSlots ps i).Pairwise (· ≤ ·) := by
  unfold visitSlots
  rw [pairwise_flatMap]
  refine ⟨fun p _ => pairwise_replicate.mpr (.inr le_rfl), hps.imp ?_⟩
  intro p q hpq s hs t ht
  rw [eq_of_mem_replicate hs, eq_of_mem_replicate ht]
  exact le_of_lt hpq

/-! ## The start -/

def NodModule.commanded (m : NodModule) : NodModule :=
  { m with runnable := true, changingStatus := false }

lemma statusNew_modules_of_ne_step {w : NodWaveform} {new : Status} {next now : ℕ}
    (h : w.curStatus ≠ .step) :
    (w.statusNew new next now).modules = w.modules.map NodModule.commanded := by
  unfold NodWaveform.statusNew NodWaveform.resetStep
  rw [if_neg h]
  rfl

/-- From `w` to `w'` each module has executed in exactly those of the slots it was visited in
that are not before `T`, and if there is one it runs and stays in the pipeline. -/
def StartedAt (T : ℕ) (ps : List (ℕ × List ℕ)) (w w' : NodWaveform) : Prop :=
  ∀ i m m', w.modules[i]? = some m → w'.modules[i]? = some m' →
    m'.ran = executed w.tslotMultiplicity ((visitSlots ps i).filter fun s => T ≤ s) ++ m.ran ∧
      ((∃ s ∈ visitSlots ps i, T ≤ s) → m'.status = .run ∧ m'.runnable = true)

/-- The first visit is not before `T`, or every visit is. -/
def NotVisitedEarly (T : ℕ) (slots : List ℕ) : Prop :=
  (∀ s ∈ slots.head?, T ≤ s) ∨ ∀ s ∈ slots, s < T

instance (T : ℕ) (slots : List ℕ) : Decidable (NotVisitedEarly T slots) := by
  unfold NotVisitedEarly
  infer_instance

/-- One module starts in the first visited slot from `T` on and executes from then on exactly when
it was not visited before. -/
theorem visits_started_iff {m : NodModule} {T multiplicity : ℕ} {slots : List ℕ}
    (hrun : m.status ≠ .run) (hslots : slots.Pairwise (· ≤ ·)) :
    let m' := m.commanded.visits .run T multiplicity slots
    (m'.ran = executed multiplicity (slots.filter fun s => T ≤ s) ++ m.ran ∧
      ((∃ s ∈ slots, T ≤ s) → m'.status = .run ∧ m'.runnable = true)) ↔
      NotVisitedEarly T slots := by
  intro m'
  cases slots with
  | nil =>
    refine ⟨fun _ => .inr fun s hs => absurd hs not_mem_nil, fun _ => ⟨rfl, ?_⟩⟩
    rintro ⟨s, hs, _⟩
    exact absurd hs not_mem_nil
  | cons s slots =>
    have hfirst : ∀ t ∈ s :: slots, s ≤ t := by
      rintro t ht
      rcases mem_cons.mp ht with rfl | ht
      · exact le_rfl
      · exact rel_of_pairwise_cons hslots ht
    rcases le_or_gt T s with hs | hs
    · have hm' : m' = { m.commanded with
          status := .run, ran := executed multiplicity (s :: slots) ++ m.ran } :=
        visits_starting slots hrun rfl rfl hs
      have hall : (s :: slots).filter (fun s => T ≤ s) = s :: slots :=
        filter_eq_self.mpr fun t ht => decide_eq_true (le_trans hs (hfirst t ht))
      rw [hm', hall]
      exact iff_of_true ⟨rfl, fun _ => ⟨rfl, rfl⟩⟩
        (.inl fun t ht => (Option.some.inj ht) ▸ hs)
    · have hm' : m' = { m.commanded with runnable := false } :=
        visits_early slots (by decide) hrun hs
      rw [hm']
      constructor
      · rintro ⟨-, hruns⟩
        -- a visit from T on would have found the module runnable
        refine .inr fun t ht => lt_of_not_ge fun hT => ?_
        exact absurd (hruns ⟨t, ht, hT⟩).2 Bool.false_ne_true
      · rintro (hhead | hbefore)
        · exact absurd (hhead s rfl) (not_le.mpr hs)
        · have hnone : (s :: slots).filter (fun s => T ≤ s) = [] :=
            filter_eq_nil_iff.mpr fun t ht hT =>
              absurd (of_decide_eq_true hT) (not_le.mpr (hbefore t ht))
          rw [hnone]
          refine ⟨rfl, ?_⟩
          rintro ⟨t, ht, hT⟩
          exact absurd hT (not_le.mpr (hbefore t ht))

/-- **A scheduled start is on time exactly for the modules that are not visited early.** -/
theorem statusNew_run_started_iff (w : NodWaveform) (next now : ℕ) (ps : List (ℕ × List ℕ))
    (hcur : w.curStatus = .init ∨ w.curStatus = .pause)
    (hmodules : ∀ m ∈ w.modules, m.status = w.curStatus) (hps : ps.Pairwise fun p q => p.1 < q.1) :
    StartedAt (NodWaveform.commandSlot next now) ps w ((w.statusNew .run next now).passes ps) ↔
      ∀ i < w.modules.length,
        NotVisitedEarly (NodWaveform.commandSlot next now) (visitSlots ps i) := by
  have hstep : w.curStatus ≠ .step := by
    rcases hcur with h | h <;> rw [h] <;> decide
  have hrun : w.curStatus ≠ .run := by
    rcases hcur with h | h <;> rw [h] <;> decide
  have hafter : ∀ i (m : NodModule), w.modules[i]? = some m →
      ((w.statusNew .run next now).passes ps).modules[i]? = some (m.commanded.visits .run
        (NodWaveform.commandSlot next now) w.tslotMultiplicity (visitSlots ps i)) := by
    intro i m hi
    have hmult : (w.statusNew .run next now).tslotMultiplicity = w.tslotMultiplicity := by
      unfold NodWaveform.statusNew NodWaveform.resetStep
      rw [if_neg hstep]
    rw [passes_modules, statusNew_modules_of_ne_step hstep, getElem?_map, hi, hmult]
    rfl
  have hmodule : ∀ i (m : NodModule), w.modules[i]? = some m → m.status ≠ .run := fun i m hi =>
    hmodules m (mem_of_getElem? hi) ▸ hrun
  constructor
  · intro h i hi
    have hm : w.modules[i]? = some w.modules[i] := getElem?_eq_getElem hi
    exact (visits_started_iff (hmodule i _ hm) (visitSlots_pairwise i hps)).mp
      (h i _ _ hm (hafter i _ hm))
  · intro h i m m' hm hm'
    rw [hafter i m hm, Option.some.injEq] at hm'
    have hi : i < w.modules.length := (List.getElem?_eq_some_iff.mp hm).1
    exact hm' ▸ (visits_started_iff (hmodule i m hm) (visitSlots_pairwise i hps)).mpr (h i hi)

def pausedPair : NodWaveform where
  curStatus := .pause
  nextTimeslot := 0
  tslotMultiplicity := 2
  modules := [⟨.pause, false, false, []⟩, ⟨.pause, false, false, []⟩]

theorem statusNew_run_started_pair : StartedAt 5 [(5, [0, 1]), (6, [1, 0])] pausedPair
      ((pausedPair.statusNew .run 5 4).passes [(5, [0, 1]), (6, [1, 0])]) :=
  (statusNew_run_started_iff pausedPair 5 4 [(5, [0, 1]), (6, [1, 0])] (.inr rfl) (by decide)
    (by decide)).mpr (by decide)

/-- Commanded in slot 4 to start in slot 6, visited from slot 5 on: the modules withdraw in
slot 5 and do not execute in slots 6 and 7. -/
theorem statusNew_run_never_started :
    ((pausedPair.statusNew .run 6 4).passes [(5, [0, 1]), (6, [0, 1]), (7, [0, 1])]).modules =
        pausedPair.modules ∧
      ¬ StartedAt 6 [(5, [0, 1]), (6, [0, 1]), (7, [0, 1])] pausedPair
        ((pausedPair.statusNew .run 6 4).passes [(5, [0, 1]), (6, [0, 1]), (7, [0, 1])]) := by
  refine ⟨by decide, fun h => ?_⟩
  have hfirst := (h 0 _ _ rfl rfl).1
  revert hfirst
  decide

/-! ## Sequences of commands -/

structure Command where
  new : Status
  next : ℕ
  now : ℕ
  slots : List (ℕ × List ℕ)
deriving DecidableEq, Repr

namespace Command

def managerStatus (c : Command) : Status := if c.new = .stop then .parsed else c.new

/-- The slot of the command has come, two slots pass, and each of the `n` modules is visited
once in each slot. -/
def Elapses (n : ℕ) (c : Command) : Prop :=
  2 ≤ c.slots.length ∧ ∀ p ∈ c.slots, NodWaveform.commandSlot c.next c.now ≤ p.1 ∧
    ∀ i < n, p.2.count i = 1

instance (n : ℕ) (c : Command) : Decidable (c.Elapses n) := by
  unfold Elapses
  infer_instance

end Command

def Accepted : Status → List Command → Prop
  | _, [] => True
  | cur, c :: cs => waveformStatusIsValid cur c.new = true ∧ Accepted c.managerStatus cs

instance decidableAccepted : ∀ cur cs, Decidable (Accepted cur cs)
  | _, [] => isTrue trivial
  | cur, c :: cs =>
    have := decidableAccepted c.managerStatus cs
    inferInstanceAs (Decidable (waveformStatusIsValid cur c.new = true ∧ _))

namespace NodWaveform

/-- A command and the slots after it; `STOP` removes the modules. -/
def command (w : NodWaveform) (c : Command) : NodWaveform :=
  if c.new = .stop then { w with curStatus := .stop, modules := [] }
  else (w.statusNew c.new c.next c.now).passes c.slots

end NodWaveform

/-- What a command makes module `i` execute. -/
def ExecutesAs (c : Command) (multiplicity i : ℕ) (m m' : NodModule) : Prop :=
  match c.new with
  | .run => m'.ran = executed multiplicity (visitSlots c.slots i) ++ m.ran
  | .step => ∃ slot ∈ visitSlots c.slots i, m'.ran = (slot, multiplicity) :: m.ran
  | .pause => m'.ran = m.ran
  | _ => True

def Obeyed (w : NodWaveform) (c : Command) : Prop :=
  ∀ i m m', w.modules[i]? = some m → (w.command c).modules[i]? = some m' →
    ExecutesAs c w.tslotMultiplicity i m m'

def AllObeyed : NodWaveform → List Command → Prop
  | _, [] => True
  | w, c :: cs => Obeyed w c ∧ AllObeyed (w.command c) cs

/-! ## One module and one command -/

/-- The module after the command, in a waveform that had the status `cur`. -/
def NodModule.commandedFrom (cur : Status) (m : NodModule) : NodModule :=
  { m with status := if cur = .step then .pause else m.status
           runnable := true
           changingStatus := false }

section Module

variable {m : NodModule} {cur : Status} {next multiplicity s t : ℕ} {slots : List ℕ}

lemma commandedFrom_status_ne_run (hstatus : m.status = cur) (hrun : cur ≠ .run) :
    (m.commandedFrom cur).status ≠ .run := by
  show (if cur = .step then Status.pause else m.status) ≠ .run
  split_ifs
  · decide
  · exact hstatus ▸ hrun

lemma commandedFrom_status_ne_step (hstatus : m.status = cur) :
    (m.commandedFrom cur).status ≠ .step := by
  show (if cur = .step then Status.pause else m.status) ≠ .step
  split_ifs with hstep
  · decide
  · exact hstatus ▸ hstep

lemma visits_run (hstatus : m.status = cur) (hrun : cur ≠ .run) (hslot : next ≤ s) :
    (m.commandedFrom cur).visits .run next multiplicity (s :: slots) = { m.commandedFrom cur with
        status := .run, ran := executed multiplicity (s :: slots) ++ m.ran } :=
  visits_starting slots (commandedFrom_status_ne_run hstatus hrun) rfl rfl hslot

lemma visits_pause (hslot : next ≤ s) :
    (m.commandedFrom cur).visits .pause next multiplicity (s :: slots) =
      { m with status := .pause, runnable := false, changingStatus := false } := by
  show ((m.commandedFrom cur).visit .pause next multiplicity s).visits .pause next multiplicity
    slots = _
  have hfirst : (m.commandedFrom cur).visit .pause next multiplicity s =
      { m with status := .pause, runnable := false, changingStatus := false } := by
    by_cases hpause : (m.commandedFrom cur).status = .pause
    · rw [visit_settled (by decide) (by decide) hpause, ← hpause]
      rfl
    · exact visit_pausing rfl rfl hpause hslot
  rw [hfirst]
  exact visits_of_not_runnable slots rfl

lemma visits_step (hstatus : m.status = cur) (hrun : cur ≠ .run) (hs : next ≤ s) (ht : next ≤ t) :
    (m.commandedFrom cur).visits .step next multiplicity (s :: t :: slots) =
      { m with status := .step, runnable := false, changingStatus := false,
               ran := (s, multiplicity) :: m.ran } := by
  show (((m.commandedFrom cur).visit .step next multiplicity s).visit .step next multiplicity
    t).visits .step next multiplicity slots = _
  rw [visit_step_begin rfl rfl (commandedFrom_status_ne_run hstatus hrun)
    (commandedFrom_status_ne_step hstatus) hs, visit_step_end rfl rfl rfl ht]
  exact visits_of_not_runnable slots rfl

lemma visits_step_of_run (hstatus : m.status = .run) (hs : next ≤ s) :
    (m.commandedFrom .run).visits .step next multiplicity (s :: slots) =
      { m with status := .step, runnable := false, changingStatus := false } := by
  show ((m.commandedFrom .run).visit .step next multiplicity s).visits .step next multiplicity
    slots = _
  rw [visit_step_end (m := m.commandedFrom .run) rfl rfl hstatus hs]
  exact visits_of_not_runnable slots rfl

end Module

/-! ## The waveform and one command -/

section Waveform

variable {w : NodWaveform} {c : Command} {i n : ℕ}

lemma statusNew_modules (new : Status) (next now : ℕ) :
    (w.statusNew new next now).modules = w.modules.map (NodModule.commandedFrom w.curStatus) := by
  unfold statusNew resetStep NodModule.commandedFrom
  split_ifs
  · exact map_map
  · rfl

lemma statusNew_tslotMultiplicity (new : Status) (next now : ℕ) :
    (w.statusNew new next now).tslotMultiplicity = w.tslotMultiplicity := by
  unfold statusNew resetStep
  split_ifs <;> rfl

lemma visitSlots_of_elapses (hc : c.Elapses n) (hi : i < n) :
    visitSlots c.slots i = c.slots.map Prod.fst := by
  have hone : ∀ p ∈ c.slots, List.replicate (p.2.count i) p.1 = [p.1] := by
    intro p hp
    rw [(hc.2 p hp).2 i hi]
    rfl
  unfold visitSlots
  rw [flatMap_congr hone, map_eq_flatMap]

lemma visitSlots_eq_cons (hc : c.Elapses n) (hi : i < n) :
    ∃ s t slots, visitSlots c.slots i = s :: t :: slots ∧
      commandSlot c.next c.now ≤ s ∧ commandSlot c.next c.now ≤ t := by
  rw [visitSlots_of_elapses hc hi]
  obtain ⟨hlength, hslots⟩ := hc
  match hps : c.slots with
  | [] => simp [hps] at hlength
  | [_] => simp [hps] at hlength
  | p :: q :: ps =>
    exact ⟨p.1, q.1, ps.map Prod.fst, rfl, (hslots p (by simp [hps])).1,
      (hslots q (by simp [hps])).1⟩

/-- **One command.** The modules take the new status, and execute as the command says unless it
is a `STEP` from `RUN`. -/
theorem command_module {m : NodModule} (hnew : c.new = .run ∨ c.new = .step ∨ c.new = .pause)
    (hvalid : waveformStatusIsValid w.curStatus c.new = true) (hm : w.modules[i]? = some m)
    (hstatus : m.status = w.curStatus) (hc : c.Elapses w.modules.length) :
    ∃ m', (w.command c).modules[i]? = some m' ∧ m'.status = c.new ∧
      (ExecutesAs c w.tslotMultiplicity i m m' ↔ ¬(w.curStatus = .run ∧ c.new = .step)) := by
  have hi : i < w.modules.length := (List.getElem?_eq_some_iff.mp hm).1
  have hstop : c.new ≠ .stop := by rcases hnew with h | h | h <;> rw [h] <;> decide
  obtain ⟨s, t, slots, hslots, hs, ht⟩ := visitSlots_eq_cons hc hi
  have hafter : (w.command c).modules[i]? = some ((m.commandedFrom w.curStatus).visits c.new
      (commandSlot c.next c.now) w.tslotMultiplicity (s :: t :: slots)) := by
    rw [command, if_neg hstop, passes_modules, statusNew_modules, getElem?_map, hm,
      statusNew_tslotMultiplicity, hslots]
    rfl
  refine ⟨_, hafter, ?_⟩
  unfold ExecutesAs
  rcases hnew with h | h | h <;> rw [h] at hvalid ⊢ <;> simp only [hslots]
  · have hrun : w.curStatus ≠ .run := by
      intro hrun
      rw [hrun] at hvalid
      exact absurd hvalid (by decide)
    rw [visits_run hstatus hrun hs]
    simp
  · by_cases hrun : w.curStatus = .run
    · rw [hrun, visits_step_of_run (hstatus.trans hrun) hs]
      simp
    · rw [visits_step hstatus hrun hs ht]
      simp [hrun]
  · rw [visits_pause hs]
    simp

/-- Between two commands: the waveform is removed and its manager has it as parsed, or its `n`
modules have the status that the manager has, too. -/
def Settled (n : ℕ) (cur : Status) (w : NodWaveform) : Prop := (cur = .parsed ∧ w.modules = []) ∨
    (w.curStatus = cur ∧ cur ≠ .loaded ∧ w.modules.length = n ∧ ∀ m ∈ w.modules, m.status = cur)

lemma valid_cases {cur new : Status} (hloaded : cur ≠ .loaded)
    (hvalid : waveformStatusIsValid cur new = true) :
    new = .stop ∨ (cur ≠ .parsed ∧ (new = .run ∨ new = .step ∨ new = .pause)) := by
  revert hloaded hvalid
  cases cur <;> cases new <;> decide

lemma command_stop (hstop : c.new = .stop) :
    Settled n c.managerStatus (w.command c) ∧ Obeyed w c := by
  have hempty : (w.command c).modules = [] := by rw [command, if_pos hstop]
  refine ⟨.inl ⟨if_pos hstop, hempty⟩, ?_⟩
  intro i m m' hm hm'
  rw [hempty] at hm'
  cases hm'

lemma command_settled {cur : Status} (hn : 0 < n) (hw : Settled n cur w)
    (hvalid : waveformStatusIsValid cur c.new = true) (hc : c.Elapses n) :
    Settled n c.managerStatus (w.command c) ∧ (Obeyed w c ↔ ¬(cur = .run ∧ c.new = .step)) := by
  have hloaded : cur ≠ .loaded := by
    rcases hw with ⟨rfl, -⟩ | ⟨-, h, -⟩
    · decide
    · exact h
  rcases valid_cases hloaded hvalid with hstop | ⟨hparsed, hnew⟩
  · have hobeyed := command_stop (w := w) (n := n) hstop
    exact ⟨hobeyed.1, iff_of_true hobeyed.2 fun h => absurd (hstop.symm.trans h.2) (by decide)⟩
  · rcases hw with ⟨rfl, -⟩ | ⟨rfl, -, rfl, hstatus⟩
    · exact absurd rfl hparsed
    have hstop : c.new ≠ .stop := by rcases hnew with h | h | h <;> rw [h] <;> decide
    have hcommand : w.command c = (w.statusNew c.new c.next c.now).passes c.slots := if_neg hstop
    obtain ⟨hcur', -, hlength'⟩ := passes_frame (w.statusNew c.new c.next c.now) c.slots
    rw [← hcommand] at hcur' hlength'
    rw [statusNew_modules, length_map] at hlength'
    have hmodule := fun i m (hm : w.modules[i]? = some m) =>
      command_module hnew hvalid hm (hstatus m (mem_of_getElem? hm)) hc
    refine ⟨.inr ⟨hcur'.trans (if_neg hstop).symm, ?_, hlength', ?_⟩, ?_, ?_⟩
    · rw [Command.managerStatus, if_neg hstop]
      rcases hnew with h | h | h <;> rw [h] <;> decide
    · intro m' hm'
      obtain ⟨i, hi, rfl⟩ := mem_iff_getElem.mp hm'
      obtain ⟨m'', hm'', hnew', -⟩ := hmodule i _ (getElem?_eq_getElem (hlength' ▸ hi))
      rw [getElem?_eq_getElem hi, Option.some.injEq] at hm''
      rw [hm'', hnew', Command.managerStatus, if_neg hstop]
    · -- the first module shows whether the command is obeyed
      intro hobeyed
      have hm := getElem?_eq_getElem hn
      obtain ⟨m', hm', -, hiff⟩ := hmodule 0 _ hm
      exact hiff.mp (hobeyed 0 _ m' hm hm')
    · intro hfine i m m' hm hm'
      obtain ⟨m'', hm'', -, hiff⟩ := hmodule i m hm
      rw [hm', Option.some.injEq] at hm''
      exact hm'' ▸ hiff.mpr hfine

end Waveform

/-! ## Runs -/

def NotStepInRun (a b : Status) : Prop := ¬(a = .run ∧ b = .step)

instance (a b : Status) : Decidable (NotStepInRun a b) := by
  unfold NotStepInRun
  infer_instance

lemma allObeyed_iff_of_settled {n : ℕ} (hn : 0 < n) {cs : List Command} {w : NodWaveform}
    {cur prev : Status} (hw : Settled n cur w) (hprev : prev = .run ↔ cur = .run)
    (haccepted : Accepted cur cs) (helapse : ∀ c ∈ cs, c.Elapses n) :
    AllObeyed w cs ↔ (prev :: cs.map Command.new).IsChain NotStepInRun := by
  induction cs generalizing w cur prev with
  | nil => simp [AllObeyed]
  | cons c cs ih =>
    obtain ⟨hsettled, hobeyed⟩ := command_settled hn hw haccepted.1 (helapse c mem_cons_self)
    have hprev' : c.new = .run ↔ c.managerStatus = .run := by
      unfold Command.managerStatus
      split_ifs with hstop
      · rw [hstop]
        decide
      · rfl
    rw [map_cons, isChain_cons_cons, AllObeyed, hobeyed,
      ih hsettled hprev' haccepted.2 fun d hd => helapse d (mem_cons_of_mem _ hd),
      NotStepInRun, hprev]

/-- **Every command of an accepted sequence is obeyed exactly if no `STEP` is given in `RUN`.** -/
theorem commands_obeyed_iff (w : NodWaveform) (cs : List Command) (hinit : w.curStatus = .init)
    (hmodules : ∀ m ∈ w.modules, m.status = .init) (hsome : 0 < w.modules.length)
    (haccepted : Accepted .init cs) (helapse : ∀ c ∈ cs, c.Elapses w.modules.length) :
    AllObeyed w cs ↔ (.init :: cs.map Command.new).IsChain NotStepInRun :=
  allObeyed_iff_of_settled hsome (.inr ⟨hinit, by decide, rfl, hmodules⟩) Iff.rfl haccepted
    helapse

def initPair : NodWaveform where
  curStatus := .init
  nextTimeslot := 0
  tslotMultiplicity := 2
  modules := [⟨.init, false, false, []⟩, ⟨.init, false, false, []⟩]

theorem commands_obeyed_steps : AllObeyed initPair
      [⟨.step, 0, 1, [(1, [0, 1]), (2, [1, 0])]⟩, ⟨.step, 0, 3, [(3, [0, 1]), (4, [0, 1])]⟩,
        ⟨.run, 0, 5, [(5, [0, 1]), (6, [0, 1])]⟩, ⟨.pause, 7, 7, [(7, [0, 1]), (8, [0, 1])]⟩] :=
  (commands_obeyed_iff initPair _ rfl (by decide) (by decide) (by decide) (by decide)).mpr
    (by decide)

theorem commands_step_in_run : Accepted .init [⟨.run, 0, 1, [(1, [0, 1]), (2, [0, 1])]⟩,
        ⟨.step, 0, 3, [(3, [0, 1]), (4, [0, 1])]⟩] ∧
      ((initPair.command ⟨.run, 0, 1, [(1, [0, 1]), (2, [0, 1])]⟩).command
          ⟨.step, 0, 3, [(3, [0, 1]), (4, [0, 1])]⟩).modules =
        [⟨.step, false, false, [(2, 2), (1, 2)]⟩, ⟨.step, false, false, [(2, 2), (1, 2)]⟩] ∧
      ¬ Obeyed (initPair.command ⟨.run, 0, 1, [(1, [0, 1]), (2, [0, 1])]⟩)
          ⟨.step, 0, 3, [(3, [0, 1]), (4, [0, 1])]⟩ := by
  refine ⟨by decide, by decide, fun h => ?_⟩
  obtain ⟨slot, -, hran⟩ := h 0 ⟨.run, false, true, [(2, 2), (1, 2)]⟩
    ⟨.step, false, false, [(2, 2), (1, 2)]⟩ (by decide) (by decide)
  exact absurd (congrArg List.length hran) (by simp)

end Aloe.Oesr.Exec
