import Mathlib.Tactic.IntervalCases
import Aloe.Oesr.SkeletonInit

/-!
# The initialisation thread and its trials

`nod_waveform_status_init_thread` of `oesr/src/node/nod_waveform.c`, with modules of which only the
values that their `Init` returns are known. A module that is not ready is tried again in the next
pass, and there are three passes. The limit is tested before the number of modules that are ready:
where the last one gets ready in the last visit of the third pass, the thread still returns failure.
-/

namespace Aloe.Oesr.InitTable

open Lib Function Skeleton

/-! ## The thread -/

/-- What the thread touches of a `nod_module_t`, with the calls of `nod_module_init` so far. -/
structure Module where
  status : Exec.Status
  changingStatus : Bool
  calls : ℕ

abbrev State : Type := ℕ → Module

abbrev Prog : Type → Type := EStateM Empty State

/-- The functions `module->init`, by what `Init` returns in their calls; `none` for a null
pointer. -/
abbrev Inits : Type := ℕ → Option (ℕ → ℤ)

def setModule (i : ℕ) (f : Module → Module) : Prog Unit := fun s => .ok () (update s i (f (s i)))

/-- `_call_init`, where `Init` returns `value`. -/
def callInit (i : ℕ) (value : ℤ) : Prog ℤ := do
  setModule i fun m => { m with changingStatus := true }
  if value < 0 then return -1
  else if value = 0 then return 0
  else
    setModule i fun m => { m with changingStatus := false, status := .init }
    return 1

def nodModuleInit (inits : Inits) (i : ℕ) : Prog ℤ := fun s =>
  let s' := update s i { s i with calls := (s i).calls + 1 }
  match inits i with
  | none => .ok (-1) s'
  | some init => callInit i (init (s i).calls) s'

def initJobs (inits : Inits) (nofModules : ℕ) : Poll Empty State where
  number := nofModules
  rounds := 3
  isDone := fun i s => (s i).status = .init
  attempt := fun i => Skeleton.answerOf <$> nodModuleInit inits i

def nodWaveformStatusInitThread (inits : Inits) (nofModules : ℕ) : Prog Bool := do
  return (← (initJobs inits nofModules).loop (3 * nofModules) 0 0 0).getD false

/-! ## The statement -/

/-- What call `k` of `nod_module_init` returns for module `i`, up to its size. -/
def resultOf (inits : Inits) (i k : ℕ) : ℤ :=
  match inits i with
  | none => -1
  | some init => init k

/-- From modules that have not been called the thread succeeds exactly if no call returns a negative
value and every module a positive one in its first three calls; then all are in `INIT`. No module is
called a fourth time, or after it succeeded. -/
def Initiates (inits : Inits) (nofModules : ℕ) (s : State) : Prop :=
  ∃ result s', nodWaveformStatusInitThread inits nofModules s = .ok result s' ∧
    (result = true ↔ (∀ i < nofModules, ∀ k < (s' i).calls, 0 ≤ resultOf inits i k) ∧
      ∀ i < nofModules, ∃ k < 3, 0 < resultOf inits i k) ∧
    (result = true → ∀ i < nofModules, (s' i).status = .init) ∧
    ∀ i < nofModules, (s' i).calls ≤ 3 ∧ ∀ k, k + 1 < (s' i).calls → resultOf inits i k ≤ 0

/-- A module gets ready in call `k`: it was not ready before. -/
def ReadyIn (inits : Inits) (i k : ℕ) : Prop :=
  0 < resultOf inits i k ∧ ∀ j < k, resultOf inits i j = 0

/-! ## One module -/

/-- A module after `visits` passes of the thread: it is in `INIT` since its last call, or it has not
been ready in any of them. -/
def Visited (inits : Inits) (i visits : ℕ) (m : Module) : Prop :=
  (m.status = .init ∧ ∃ k < visits, m.calls = k + 1 ∧ ReadyIn inits i k) ∨
    (m.status ≠ .init ∧ m.calls = visits ∧ ∀ k < visits, resultOf inits i k = 0)

variable {inits : Inits} {nofModules i j visits : ℕ} {s s' : State} {m : Module}
  (h : Visited inits i visits m)

include h in
lemma Visited.succ_of_init (hinit : m.status = .init) : Visited inits i (visits + 1) m := by
  rcases h with ⟨-, k, hk, hcalls, hready⟩ | ⟨hne, -⟩
  · exact .inl ⟨hinit, k, by omega, hcalls, hready⟩
  · exact absurd hinit hne

include h in
lemma Visited.calls_le : m.calls ≤ visits := by
  rcases h with ⟨-, k, hk, hcalls, -⟩ | ⟨-, hcalls, -⟩ <;> omega

variable {k : ℕ}

include h in
lemma Visited.le_zero (hk : k + 1 < m.calls) : resultOf inits i k = 0 := by
  rcases h with ⟨-, k', hk', hcalls, hready⟩ | ⟨-, hcalls, hzero⟩
  · exact hready.2 k (by omega)
  · exact hzero k (by omega)

include h in
lemma Visited.nonneg (hk : k < m.calls) : 0 ≤ resultOf inits i k := by
  rcases h with ⟨-, k', hk', hcalls, hready⟩ | ⟨-, hcalls, hzero⟩
  · rcases Nat.lt_succ_iff_lt_or_eq.mp (hcalls ▸ hk) with hlt | rfl
    · exact (hready.2 k hlt).ge
    · exact hready.1.le
  · exact (hzero k (by omega)).ge

lemma attempt_none (hinit : inits i = none) : (initJobs inits nofModules).attempt i s =
      .ok .fails (update s i { s i with calls := (s i).calls + 1 }) := by
  show (answerOf <$> nodModuleInit inits i) s = _
  simp only [Functor.map, EStateM.map, nodModuleInit, hinit]
  rfl

lemma attempt_some {init : ℕ → ℤ} (hinit : inits i = some init) :
    (initJobs inits nofModules).attempt i s = .ok (answerOf (init (s i).calls)) (update s i
        { status := if 0 < init (s i).calls then .init else (s i).status
          changingStatus := decide (init (s i).calls ≤ 0)
          calls := (s i).calls + 1 }) := by
  show (answerOf <$> nodModuleInit inits i) s = _
  simp only [Functor.map, EStateM.map, nodModuleInit, hinit, callInit, bind, EStateM.bind,
    setModule,
    update_self, update_idem]
  rcases lt_trichotomy (init (s i).calls) 0 with hneg | hzero | hpos
  · simp [hneg, hneg.le, hneg.not_gt, answerOf, pure, EStateM.pure]
  · simp [hzero, answerOf, pure, EStateM.pure]
  · simp [hpos, hpos.not_gt, hpos.not_ge, hpos.ne', answerOf, pure, EStateM.pure,
      EStateM.bind, setModule]

lemma attempt_visited (hstatus : (s i).status ≠ .init) (hi : Visited inits i visits (s i)) :
    ∃ answer m, (initJobs inits nofModules).attempt i s = .ok answer (update s i m) ∧
      m.calls = visits + 1 ∧ (∀ k < visits, resultOf inits i k = 0) ∧
      (answer = .fails ∧ resultOf inits i visits < 0 ∨
        answer ≠ .fails ∧ Visited inits i (visits + 1) m ∧
        (m.status = .init ↔ answer = .done)) := by
  obtain ⟨hcalls, hzero⟩ : (s i).calls = visits ∧ ∀ k < visits, resultOf inits i k = 0 := by
    rcases hi with ⟨hinit, -⟩ | ⟨-, hcalls, hzero⟩
    · exact absurd hinit hstatus
    · exact ⟨hcalls, hzero⟩
  cases hinit : inits i with
  | none =>
    refine ⟨_, _, attempt_none hinit, by rw [hcalls], hzero, .inl ⟨rfl, ?_⟩⟩
    rw [resultOf, hinit]
    show (-1 : ℤ) < 0
    decide
  | some init =>
    have hresult : resultOf inits i visits = init (s i).calls := by rw [resultOf, hinit, hcalls]
    refine ⟨_, _, attempt_some hinit, by rw [hcalls], hzero, ?_⟩
    rw [← hresult]
    rcases lt_trichotomy (resultOf inits i visits) 0 with hneg | hz | hpos
    · exact .inl ⟨if_pos hneg, hneg⟩
    · refine .inr ⟨by simp [hz, answerOf], .inr ⟨?_, by rw [hcalls], ?_⟩, ?_⟩
      · rw [hz, if_neg (lt_irrefl 0)]
        exact hstatus
      · intro k hk
        rcases Nat.lt_succ_iff_lt_or_eq.mp hk with hlt | rfl
        · exact hzero k hlt
        · exact hz
      · simp [hz, hstatus, answerOf]
    · refine .inr ⟨by simp [hpos.not_gt, hpos.ne', answerOf],
        .inl ⟨if_pos hpos, visits, by omega, by rw [hcalls], hpos, hzero⟩, ?_⟩
      simp [hpos, hpos.not_gt, hpos.ne', answerOf]

/-! ## The passes -/

/-- The modules at module `i` of a pass. -/
def AtPass (inits : Inits) (nofModules round i : ℕ) (s : State) : Prop :=
  ∀ j < nofModules, Visited inits j (passes round i j) (s j)

variable {round : ℕ}

lemma AtPass.modified (h : AtPass inits nofModules round i s) (hm : Visited inits i (round + 1) m) :
    AtPass inits nofModules round (i + 1) (update s i m) := by
  intro j hj
  by_cases hji : j = i
  · subst hji
    rwa [update_self, passes_succ_self]
  · rw [update_of_ne hji, passes_succ_of_ne hji]
    exact h j hj

lemma AtPass.pass (h : AtPass inits nofModules round i s) (hi : i < nofModules)
    (hinit : (s i).status = .init) : AtPass inits nofModules round (i + 1) s := by
  have hown := h i hi
  rw [passes_self] at hown
  have hupdate := h.modified (hown.succ_of_init hinit)
  rwa [update_eq_self] at hupdate

lemma AtPass.next (h : AtPass inits nofModules round nofModules s) :
    AtPass inits nofModules (round + 1) 0 s := by
  intro j hj
  rw [passes_round hj]
  exact h j hj

lemma loop_ends (inits : Inits) (hn : 0 < nofModules)
    (hs : ∀ i < nofModules, (s i).status ≠ .init ∧ (s i).calls = 0) :
    ∃ result s', nodWaveformStatusInitThread inits nofModules s = .ok result s' ∧
      (initJobs inits nofModules).Ends (AtPass inits nofModules) result s' := by
  have hstart : AtPass inits nofModules 0 0 s := fun j hj =>
    .inr ⟨(hs j hj).1, (hs j hj).2, fun k hk => absurd hk (Nat.not_lt_zero k)⟩
  have hcount : 0 = (initJobs inits nofModules).doneCount s :=
    (Poll.doneCount_eq_zero fun j hj => decide_eq_false (hs j hj).1).symm
  obtain ⟨result, s', hloop, hends⟩ : ∃ result s',
      (initJobs inits nofModules).loop (3 * nofModules) 0 0 0 s = .ok (some result) s' ∧
        (initJobs inits nofModules).Ends (AtPass inits nofModules) result s' := by
    refine Poll.loop_ends ?_ ?_ ?_ hn (show 0 < 3 by decide) ?_ hstart hcount
    · intro round i s hi h hopen
      have hstatus : (s i).status ≠ .init := of_decide_eq_false hopen
      have hown := h i hi
      rw [passes_self] at hown
      obtain ⟨answer, m, hattempt, -, -, hcases⟩ := attempt_visited hstatus hown
      refine ⟨answer, _, hattempt, fun hfails => ?_⟩
      obtain ⟨-, hm, hdone⟩ := hcases.resolve_left fun hfail => hfails hfail.1
      refine ⟨h.modified hm, ?_, fun j _ hj => ?_⟩
      · show decide ((update s i m i).status = .init) = true ↔ _
        rw [update_self, decide_eq_true_iff]
        exact hdone
      · show decide ((update s i m j).status = .init) = decide ((s j).status = .init)
        rw [update_of_ne hj]
    · exact fun round i s hi h hdone => h.pass hi (of_decide_eq_true hdone)
    · exact fun round s h => h.next
    · show 3 * nofModules ≤ _
      omega
  refine ⟨result, s', ?_, hends⟩
  show (do return (← (initJobs inits nofModules).loop (3 * nofModules) 0 0 0).getD false :
    Prog Bool) s = _
  rw [bind_of_ok hloop]
  rfl

def AllReady (inits : Inits) (nofModules : ℕ) : Prop := ∀ i < nofModules, ∃ k < 3, ReadyIn inits i k

def ReadyTooLate (inits : Inits) (nofModules : ℕ) : Prop :=
  AllReady inits nofModules ∧ resultOf inits (nofModules - 1) 0 = 0 ∧
    resultOf inits (nofModules - 1) 1 = 0

include h in
lemma Visited.init_of_pos (hk : k < visits) (hpos : 0 < resultOf inits i k) : m.status = .init := by
  rcases h with ⟨hinit, -⟩ | ⟨-, -, hzero⟩
  · exact hinit
  · exact absurd (hzero k hk) hpos.ne'

include h in
lemma Visited.readyIn (hinit : m.status = .init) : ∃ k < visits, ReadyIn inits i k := by
  rcases h with ⟨-, k, hk, -, hready⟩ | ⟨hne, -⟩
  · exact ⟨k, hk, hready⟩
  · exact absurd hinit hne

/-! ## The result -/

lemma initiates_of_success (hi : i < nofModules) (hround : round < 3)
    (h : AtPass inits nofModules round i s') (hall : ∀ j < nofModules, (s' j).status = .init)
    (hrun : nodWaveformStatusInitThread inits nofModules s = .ok true s') :
    Initiates inits nofModules s ∧ ¬ ReadyTooLate inits nofModules := by
  have hpasses := fun j => passes_le round i j
  refine ⟨⟨true, s', hrun, iff_of_true rfl ⟨?_, ?_⟩, fun _ => hall, ?_⟩, ?_⟩
  · exact fun j hj k hk => (h j hj).nonneg hk
  · intro j hj
    obtain ⟨k, hk, hready⟩ := (h j hj).readyIn (hall j hj)
    have := hpasses j
    exact ⟨k, by omega, hready.1⟩
  · intro j hj
    have := hpasses j
    have := (h j hj).calls_le
    exact ⟨by omega, fun k hk => ((h j hj).le_zero hk).le⟩
  · rintro ⟨-, hzero, hone⟩
    have hlast : nofModules - 1 < nofModules := by omega
    obtain ⟨k, hk, hready⟩ := (h _ hlast).readyIn (hall _ hlast)
    -- the last module has been visited twice at most
    have hk2 : k < 2 := by
      rw [passes, if_neg (by omega)] at hk
      omega
    have hpos := hready.1
    interval_cases k
    · exact hpos.ne' hzero
    · exact hpos.ne' hone

lemma initiates_of_failure {s1 : State} (hi : i < nofModules) (hround : round < 3)
    (h : AtPass inits nofModules round i s1) (hstatus : (s1 i).status ≠ .init)
    (hattempt : (initJobs inits nofModules).attempt i s1 = .ok .fails s')
    (hrun : nodWaveformStatusInitThread inits nofModules s = .ok false s') :
    Initiates inits nofModules s ∧ ¬ ReadyTooLate inits nofModules := by
  have hown := h i hi
  rw [passes_self] at hown
  obtain ⟨answer, m, hrun', hcalls, hzero, hcases⟩ := attempt_visited hstatus hown
  obtain ⟨rfl, rfl⟩ := EStateM.Result.ok.inj (hattempt.symm.trans hrun')
  have hneg : resultOf inits i round < 0 := by
    rcases hcases with ⟨-, hneg⟩ | ⟨hne, -⟩
    · exact hneg
    · exact absurd rfl hne
  have hself : update s1 i m i = m := update_self ..
  refine ⟨⟨false, _, hrun, iff_of_false Bool.false_ne_true ?_,
    fun hsuccess => absurd hsuccess Bool.false_ne_true, ?_⟩, ?_⟩
  · rintro ⟨hnonneg, -⟩
    exact absurd (hnonneg i hi round (by rw [hself]; omega)) (by omega)
  · intro j hj
    by_cases hji : j = i
    · subst hji
      rw [hself]
      exact ⟨by omega, fun k hk => (hzero k (by omega)).le⟩
    · rw [update_of_ne hji]
      have := passes_le round i j
      have := (h j hj).calls_le
      exact ⟨by omega, fun k hk => ((h j hj).le_zero hk).le⟩
  · rintro ⟨hall, -⟩
    obtain ⟨k, -, hpos, hbefore⟩ := hall i hi
    rcases lt_trichotomy k round with hlt | rfl | hgt
    · exact hpos.ne' (hzero k hlt)
    · exact absurd hneg hpos.not_gt
    · exact hneg.ne (hbefore round hgt)

lemma initiates_iff_of_exhausted {s1 : State} (hi : i + 1 = nofModules)
    (h : AtPass inits nofModules 2 i s1) (hopen : ∃ j < nofModules, (s1 j).status ≠ .init)
    (h' : AtPass inits nofModules 2 (i + 1) s')
    (hrun : nodWaveformStatusInitThread inits nofModules s = .ok false s') :
    Initiates inits nofModules s ↔ ¬ ReadyTooLate inits nofModules := by
  have hthree : ∀ j < nofModules, Visited inits j 3 (s' j) := by
    intro j hj
    have hj' := h' j hj
    rwa [passes, if_pos (by omega)] at hj'
  have hcalls : ∀ j < nofModules, (s' j).calls ≤ 3 ∧
      ∀ k, k + 1 < (s' j).calls → resultOf inits j k ≤ 0 := fun j hj =>
    ⟨(hthree j hj).calls_le, fun k hk => ((hthree j hj).le_zero hk).le⟩
  constructor
  · rintro ⟨result, s'', hrun', hiff, -⟩ ⟨hall, -⟩
    obtain ⟨rfl, rfl⟩ := EStateM.Result.ok.inj (hrun.symm.trans hrun')
    refine Bool.false_ne_true (hiff.mpr ⟨fun j hj k hk => (hthree j hj).nonneg hk, ?_⟩)
    intro j hj
    obtain ⟨k, hk, hready⟩ := hall j hj
    exact ⟨k, hk, hready.1⟩
  · intro hnot
    refine ⟨false, s', hrun, iff_of_false Bool.false_ne_true ?_,
      fun hsuccess => absurd hsuccess Bool.false_ne_true, hcalls⟩
    rintro ⟨-, hpos⟩
    refine hnot ⟨?_, ?_⟩
    · intro j hj
      obtain ⟨k, hk, hposk⟩ := hpos j hj
      exact (hthree j hj).readyIn ((hthree j hj).init_of_pos hk hposk)
    · -- the module that was not ready before the last visit is the last one
      obtain ⟨j, hj, hstatus⟩ := hopen
      have hvisited := h j hj
      rw [passes] at hvisited
      obtain ⟨k, hk, hposk⟩ := hpos j hj
      have hlast : j = nofModules - 1 := by
        by_contra hne
        rw [if_pos (by omega)] at hvisited
        exact hstatus (hvisited.init_of_pos hk hposk)
      rw [if_neg (by omega)] at hvisited
      rcases hvisited with ⟨hinit, -⟩ | ⟨-, -, hzero⟩
      · exact absurd hinit hstatus
      · rw [← hlast]
        exact ⟨hzero 0 (by decide), hzero 1 (by decide)⟩

theorem init_thread_initiates_iff (inits : Inits) (nofModules : ℕ) (hn : 1 ≤ nofModules)
    (s : State) (hs : ∀ i < nofModules, (s i).status ≠ .init ∧ (s i).calls = 0) :
    Initiates inits nofModules s ↔ ¬ ReadyTooLate inits nofModules := by
  obtain ⟨result, s', hrun, hends⟩ := loop_ends inits hn hs
  cases hends with
  | success hi hround h hall =>
    have hinit : ∀ j < nofModules, (s' j).status = .init := fun j hj =>
      of_decide_eq_true (hall j hj)
    obtain ⟨hinitiates, hnot⟩ := initiates_of_success hi hround h hinit hrun
    exact iff_of_true hinitiates hnot
  | failure hi hround h hopen hattempt =>
    obtain ⟨hinitiates, hnot⟩ := initiates_of_failure hi hround h (of_decide_eq_false hopen)
      hattempt hrun
    exact iff_of_true hinitiates hnot
  | exhausted hi hround h hopen h' =>
    obtain rfl : _ = 2 := Nat.succ.inj hround
    obtain ⟨j, hj, hj'⟩ := hopen
    exact initiates_iff_of_exhausted hi h ⟨j, hj, of_decide_eq_false hj'⟩ h' hrun

def loaded : State := fun _ => ⟨.loaded, false, 0⟩

theorem init_thread_initiates_two :
    Initiates (fun i => some fun k => if i ≤ k then 1 else 0) 2 loaded :=
  (init_thread_initiates_iff (fun i => some fun k => if i ≤ k then 1 else 0) 2 (by decide) loaded
    (fun _ _ => ⟨Exec.Status.noConfusion, rfl⟩)).mpr fun h => absurd h.2.2 (by decide)

theorem init_thread_fails_when_ready : ∃ s',
    nodWaveformStatusInitThread (fun _ => some fun k => if k = 2 then 1 else 0) 1 loaded =
      .ok false s' ∧ (s' 0).status = .init ∧
    ¬ Initiates (fun _ => some fun k => if k = 2 then 1 else 0) 1 loaded := by
  refine ⟨_, rfl, rfl, ?_⟩
  rintro ⟨result, s', hrun, hiff, -⟩
  obtain ⟨rfl, rfl⟩ := EStateM.Result.ok.inj hrun
  exact Bool.false_ne_true (hiff.mpr (by decide))

end Aloe.Oesr.InitTable
