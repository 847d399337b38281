import Aloe.Oesr.InitWiring

/-!
# Initialisation converges

After one pass of `nod_waveform_status_init_thread` over the modules every output has its queue, so
in a second one every module finds its inputs: the modules are jobs of two halves (`Poll.TwoPhase`).
The rest is room for the ports and a connection for every input (`init_converges_iff`).
-/

namespace Aloe.Oesr.Skeleton

open Lib List Option

/-! ## A module -/

/-- The first half of `Init` of module `k` is done: its outputs have their queues. -/
def Ready (w : Waveform) (k : ℕ) (s : State) : Prop :=
  ∀ m, w[k]? = some m → ∀ q < m.nofOutputItf, ∀ out, m.outputs[q]? = some out →
    out.physicItfId = 0 → (s.modules k).hwOutput q ≠ none

section Modules

variable {runtime : Runtime} {w : Waveform} {i : ℕ} {m : Module} {s s' : State} {k : ℕ}

lemma hwOutput_of_published {y : ℕ × ℕ} {n : ℕ} (h : (board s).published y = some n) :
    (s.modules y.1).hwOutput y.2 = some (.queue n) := by
  simp only [board] at h
  unfold queueNumber at h
  split at h
  · rename_i n' hhw
    rw [hhw, some.inj h]
  · cases h

lemma Touches.hwOutput_ne_none (h : Touches w i s s') (hinv : Inv w s) {q : ℕ}
    {out : Interface} (hk : w[k]? = some m) (hout : m.outputs[q]? = some out)
    (hinternal : out.physicItfId = 0) (hthere : (s.modules k).hwOutput q ≠ none) :
    (s'.modules k).hwOutput q ≠ none := by
  rcases (hinv.modules k m hk).made q out hout hinternal with ⟨-, hnone⟩ | ⟨-, n, hn⟩
  · exact absurd hnone hthere
  · have hpub : (board s).published (k, q) = some n := by simp [board, hn, queueNumber]
    rw [hwOutput_of_published (h.steps.published_of hpub)]
    exact some_ne_none _

lemma Ready.mono (h : Ready w k s) (hinv : Inv w s) (htouches : Touches w i s s') :
    Ready w k s' := by
  intro m hk q hq out hout hinternal
  exact htouches.hwOutput_ne_none hinv hk hout hinternal (h m hk q hq out hout hinternal)

lemma initOutputs_run (hob : Obliging runtime w) (h : Inv w s) (hi : w[i]? = some m)
    (hmem : (s.modules i).memOk = true) :
    ∃ s', (List.range m.nofOutputItf).forM (initOutput runtime w i m) s = .ok () s' ∧
      Touches w i s s' ∧ Inv w s' ∧ Ready w i s' := by
  have hround : ∀ n < m.nofOutputItf, ∀ s1,
      (Touches w i s s1 ∧ Inv w s1 ∧ ∀ q < n, ∀ out, m.outputs[q]? = some out →
        out.physicItfId = 0 → (s1.modules i).hwOutput q ≠ none) →
      ∃ s2, initOutput runtime w i m n s1 = .ok () s2 ∧
        Touches w i s s2 ∧ Inv w s2 ∧ ∀ q < n + 1, ∀ out, m.outputs[q]? = some out →
          out.physicItfId = 0 → (s2.modules i).hwOutput q ≠ none := by
    rintro n - s1 ⟨htouches, hinv, hall⟩
    obtain ⟨s2, hrun, hdone⟩ := initOutput_run hob hinv hi (htouches.memOk hmem) n
    refine ⟨s2, hrun, htouches.trans hdone.touches, hdone.inv, fun q hq out hout hinternal => ?_⟩
    rcases Nat.lt_succ_iff_lt_or_eq.mp hq with hlt | rfl
    · exact hdone.touches.hwOutput_ne_none hinv hi hout hinternal
        (hall q hlt out hout hinternal)
    · exact hdone.made out hout hinternal
  obtain ⟨s', hrun, htouches, hinv, hall⟩ := forM_range_run _ hround
    ⟨.refl, h, fun q hq => absurd hq (Nat.not_lt_zero q)⟩
  refine ⟨s', hrun, htouches, hinv, fun m' hi' => ?_⟩
  obtain rfl : m = m' := some.inj (hi.symm.trans hi')
  exact hall

/-- How `init_interfaces` of module `i` ends: with all inputs, before a queue that is not there
yet, or before an input with nothing to read from. -/
inductive Ends (w : Waveform) (i : ℕ) (m : Module) (s : State) :
    EStateM.Result Exit State ℤ → Prop
  | finds {s' : State} (hall : ∀ p < m.nofInputItf, (s'.modules i).inputs p = true)
      (htouches : Touches w i s s') (hinv : Inv w s') (hready : Ready w i s') :
      Ends w i m s (.ok 1 s')
  | waits {s' : State} (hwaits : ¬ ∀ k, Ready w k s)
      (htouches : Touches w i s s') (hinv : Inv w s') (hready : Ready w i s') :
      Ends w i m s (.error (.ret 0) s')
  | refuses {s' : State} {p : ℕ} (hp : p < m.nofInputItf) (hopen : ¬ Usable w (i, p))
      (htouches : Touches w i s s') (hinv : Inv w s') :
      Ends w i m s (.error (.ret (-1)) s')

variable (hrec : Reciprocal w) (huses : UsesConnected w) (hob : Obliging runtime w)

include hrec huses hob in
lemma initInterfaces_ends (h : Inv w s) (hi : w[i]? = some m) (hmem : (s.modules i).memOk = true) :
    Ends w i m s (initInterfaces runtime w i m s) := by
  obtain ⟨s1, hrun1, htouches1, hinv1, hready1⟩ := initOutputs_run hob h hi hmem
  obtain ⟨s2, hrun2, htouches2, hinv2⟩ := initCtrl_run runtime hrec hinv1 hi (htouches1.memOk hmem)
  have htouches := htouches1.trans htouches2
  have hround : ∀ n < m.nofInputItf, ∀ s3,
      (Touches w i s s3 ∧ Inv w s3 ∧ Ready w i s3 ∧ ∀ p < n, (s3.modules i).inputs p = true) →
      (∃ s4, initInput runtime w i m n s3 = .ok () s4 ∧ Touches w i s s4 ∧ Inv w s4 ∧
        Ready w i s4 ∧ ∀ p < n + 1, (s4.modules i).inputs p = true) ∨
      ∃ e s4, initInput runtime w i m n s3 = .error e s4 ∧ Ends w i m s (.error e s4) := by
    rintro n hn s3 ⟨htouches, hinv, hready, hall⟩
    obtain ⟨s4, htouches', hinv', hkept, hcases⟩ :=
      initInput_run runtime hrec hinv hi (htouches.memOk hmem) n
    have htouches4 := htouches.trans htouches'
    have hready4 := hready.mono hinv htouches'
    rcases hcases with ⟨hrun, hown⟩ | ⟨hrun, y, hconn, hnone⟩ | ⟨hrun, hopen⟩
    · grind
    · refine .inr ⟨_, s4, hrun, .waits (fun hallReady => ?_) htouches4 hinv' hready4⟩
      obtain ⟨sender, out, receiver, -, hy, hout, hx, -, hinternal, -⟩ := id hconn
      have hlt := (huses y _ hconn sender receiver hy hx).1
      exact (hallReady y.1).mono h htouches sender hy y.2 hlt out hout hinternal hnone
    · exact .inr ⟨_, s4, hrun, .refuses hn hopen htouches4 hinv'⟩
  rw [initInterfaces, bind_of_ok hrun1, bind_of_ok hrun2]
  rcases forM_range_cases _ (fun e s4 => Ends w i m s (.error e s4)) hround
      ⟨htouches, hinv2, hready1.mono hinv1 htouches2, fun p hp => absurd hp (Nat.not_lt_zero p)⟩
    with ⟨s3, hrun3, htouches3, hinv3, hready3, hall⟩ | ⟨e, s3, hrun3, hends⟩
  · rw [bind_of_ok hrun3]
    exact .finds hall htouches3 hinv3 hready3
  · rw [bind_of_error hrun3]
    exact hends

lemma initMemory_run (h : Inv w s) :
    ∃ s', initMemory i s = .ok () s' ∧ Touches w i s s' ∧ Inv w s' ∧
      (s'.modules i).memOk = true := by
  refine ⟨_, rfl, ?_⟩
  cases hmem : (s.modules i).memOk with
  | true =>
    rw [← and_assoc]
    refine ⟨h.inner ?_ ?_ ?_ (fun m hi => ?_) ?_ ?_, ?_⟩
    all_goals simp [hmem]
    exact h.modules i m hi
  | false =>
    rw [← and_assoc]
    refine ⟨h.inner ?_ ?_ ?_ (fun m hi => ?_) ?_ ?_, ?_⟩
    all_goals simp [hmem]
    have hlocal := h.modules i m hi
    have hclear := hlocal.cleared hmem
    refine ⟨fun q out hout hinternal => ?_, nofun, nofun, hlocal.checked, fun hstatus => ?_⟩
    · rcases hlocal.made q out hout hinternal with ⟨-, hnone⟩ | ⟨hyes, -⟩
      · exact .inl ⟨rfl, hnone⟩
      · exact absurd ((hclear q).2.symm.trans hyes) nofun
    · obtain ⟨hcheck, hall⟩ := hlocal.finished hstatus
      exact ⟨hcheck, fun p hp => (hclear p).1.symm.trans (hall p hp)⟩

lemma callInitialize_run (hob : Obliging runtime w) (h : Inv w s) (hi : w[i]? = some m) :
    ∃ s', callInitialize i m s = .ok () s' ∧ Touches w i s s' ∧ Inv w s' := by
  have hzero := hob.initializeValue m (mem_of_getElem? hi) (s.modules i).calls
  refine ⟨s.modify i fun ms => { ms with calls := ms.calls + 1 }, ?_, ?_⟩
  · rw [callInitialize, bind_of_ok moduleState_run, bind_of_ok (setModule_run _), if_pos hzero]
    rfl
  · exact h.quiet ⟨rfl, rfl, rfl, rfl, rfl, rfl, rfl⟩

lemma checkConfiguration_run (h : Inv w s) (hi : w[i]? = some m) :
    (∃ s', checkConfiguration i m s = .ok () s' ∧ Touches w i s s' ∧ Inv w s' ∧
      (s'.modules i).checkOk = true) ∨
    (checkConfiguration i m s = .error (.ret (-1)) s ∧ ¬ Fits w i m) := by
  cases hcheck : (s.modules i).checkOk with
  | true =>
    refine .inl ⟨s, ?_, .refl, h, hcheck⟩
    rw [checkConfiguration, bind_of_ok moduleState_run, if_pos hcheck]
    rfl
  | false =>
    by_cases hmany : maxInputs < m.nofInputItf ∨ maxOutputs < m.nofOutputItf
    · refine .inr ⟨?_, fun hfits => ?_⟩
      · rw [checkConfiguration, bind_of_ok moduleState_run, hcheck, if_neg nofun, if_pos hmany]
        rfl
      · have := hfits.1
        have := hfits.2.1
        omega
    · refine .inl ⟨s.modify i fun ms => { ms with checkOk := true }, ?_, ?_⟩
      · rw [checkConfiguration, bind_of_ok moduleState_run, hcheck, if_neg nofun, if_neg hmany]
        rfl
      · rw [← and_assoc]
        refine ⟨h.inner rfl id (fun _ => rfl) (fun m' hi' => ?_) rfl rfl, by rw [modify_self]⟩
        obtain rfl : m = m' := some.inj (hi.symm.trans hi')
        have hlocal := h.modules i m hi
        exact
          { made := hlocal.made
            found := hlocal.found
            cleared := hlocal.cleared
            checked := fun _ => by omega
            finished := fun hstatus => ⟨rfl, (hlocal.finished hstatus).2⟩ }

include hrec huses hob in
lemma init_run (h : Inv w s) (hi : w[i]? = some m) :
    ∃ n s', init runtime w i m s = .ok n s' ∧ Touches w i s s' ∧ Inv w s' ∧
      ((n = 1 ∧ Ready w i s' ∧ (s'.modules i).checkOk = true ∧
          ∀ p < m.nofInputItf, (s'.modules i).inputs p = true) ∨
        (n = 0 ∧ Ready w i s' ∧ ¬ ∀ k, Ready w k s) ∨ (n = -1 ∧ ¬ Fits w i m)) := by
  obtain ⟨s1, hrun1, htouches1, hinv1, hmem1⟩ := initMemory_run (i := i) h
  obtain ⟨s2, hrun2, htouches2, hinv2⟩ := callInitialize_run hob hinv1 hi
  have htouches := htouches1.trans htouches2
  rcases checkConfiguration_run hinv2 hi with
    ⟨s3, hrun3, htouches3, hinv3, hcheck3⟩ | ⟨hrun3, hunfit⟩
  · have hbefore := htouches.trans htouches3
    have hends := initInterfaces_ends hrec huses hob hinv3 hi
      (htouches3.memOk (htouches2.memOk hmem1))
    generalize hrun4 : initInterfaces runtime w i m s3 = r at hends
    have hinit : init runtime w i m s = returning (fun _ => r) s := by
      simp only [init, returning]
      rw [bind_of_ok hrun1, bind_of_ok hrun2, bind_of_ok hrun3, hrun4]
    rw [hinit]
    cases hends with
    | finds hall htouches4 hinv4 hready4 =>
      exact ⟨1, _, rfl, hbefore.trans htouches4, hinv4,
        .inl ⟨rfl, hready4, htouches4.checkOk hcheck3, hall⟩⟩
    | waits hwaits htouches4 hinv4 hready4 =>
      exact ⟨0, _, rfl, hbefore.trans htouches4, hinv4, .inr (.inl ⟨rfl, hready4,
        fun hall => hwaits fun k => (hall k).mono h hbefore⟩)⟩
    | refuses hp hopen htouches4 hinv4 =>
      exact ⟨-1, _, rfl, hbefore.trans htouches4, hinv4,
        .inr (.inr ⟨rfl, fun hfits => hopen (hfits.2.2 _ hp)⟩)⟩
  · refine ⟨-1, s2, ?_, htouches, hinv2, .inr (.inr ⟨rfl, hunfit⟩)⟩
    simp only [init, returning]
    rw [bind_of_ok hrun1, bind_of_ok hrun2, bind_of_error hrun3]

/-! ## The thread -/

lemma attempt_eq (hi : w[i]? = some m) (hreg : m.registered = true) :
    (initJobs runtime w).attempt i = answerOf <$> callInit runtime w i m := by
  simp [initJobs, hi, nodModuleInit, hreg]

lemma callInit_of_init {n : ℤ}
    (hrun : init runtime w i m (s.modify i fun ms => { ms with changingStatus := true }) =
      .ok n s') :
    callInit runtime w i m s = if n < 0 then .ok (-1) s'
      else if n = 0 then .ok 0 s'
      else .ok 1 (s'.modify i fun ms => { ms with changingStatus := false, status := .init }) := by
  rw [callInit, bind_of_ok (setModule_run _), bind_of_ok hrun]
  split_ifs <;> rfl

lemma attempt_of_callInit {n : ℤ} (hi : w[i]? = some m) (hreg : m.registered = true)
    (hrun : callInit runtime w i m s = .ok n s') :
    (initJobs runtime w).attempt i s = .ok (answerOf n) s' := by
  rw [attempt_eq hi hreg]
  simp only [Functor.map, EStateM.map, hrun]

lemma isDone_eq : (initJobs runtime w).isDone i s = true ↔ (s.modules i).status = .init :=
  decide_eq_true_iff

lemma status_ne (h : (initJobs runtime w).isDone i s = false) : (s.modules i).status ≠ .init :=
  of_decide_eq_false h

lemma Loaded.isDone_eq_false (h : Loaded w s) (runtime : Runtime) :
    ∀ i < (initJobs runtime w).number, (initJobs runtime w).isDone i s = false := by
  intro i _
  simp [initJobs, h.status i]

lemma Touches.settles {answer : Attempt} (h : Touches w i s s')
    (hopen : (s.modules i).status ≠ .init) (hanswer : answer ≠ .done) :
    Poll.Settles (initJobs runtime w) i answer s s' where
  own := by
    rw [isDone_eq, h.status]
    exact ⟨fun hdone => absurd hdone hopen, fun hdone => absurd hdone hanswer⟩
  others := fun j _ hj => by simp only [initJobs, h.others j hj]

def entered (s : State) (i : ℕ) : State :=
  s.modify i fun ms => { ms with changingStatus := false, status := .init }

lemma Touches.settles_entered (h : Touches w i s s') :
    Poll.Settles (initJobs runtime w) i .done s (entered s' i) where
  own := by simp [isDone_eq, entered]
  others := fun j _ hj => by simp [initJobs, entered, hj, h.others j hj]

lemma Inv.entered (h : Inv w s) (hi : w[i]? = some m) (hcheck : (s.modules i).checkOk = true)
    (hall : ∀ p < m.nofInputItf, (s.modules i).inputs p = true) : Inv w (entered s i) := by
  have hboard : board (Skeleton.entered s i) = board s := board_modify rfl rfl
  refine h.of_steps (hboard ▸ .refl) (fun j hj => modify_of_ne _ hj) fun m' hi' => ?_
  rw [Skeleton.entered, modify_self]
  obtain rfl : m = m' := some.inj (hi.symm.trans hi')
  have hlocal := h.modules i m hi
  exact ⟨hlocal.made, hlocal.found, hlocal.cleared, hlocal.checked, fun _ => ⟨hcheck, hall⟩⟩

lemma Ready.entered (h : Ready w k s) : Ready w k (entered s i) := by
  intro m hk q hq out hout hinternal
  have hsame : ((Skeleton.entered s i).modules k).hwOutput = (s.modules k).hwOutput := by
    by_cases hki : k = i
    · subst hki
      simp [Skeleton.entered]
    · simp [Skeleton.entered, hki]
  rw [hsame]
  exact h m hk q hq out hout hinternal

include hrec huses hob in
lemma attempt_run (hreg : ∀ m ∈ w, m.registered = true) (h : Inv w s) (hi : w[i]? = some m)
    (hopen : (s.modules i).status ≠ .init) :
    ∃ answer s', (initJobs runtime w).attempt i s = .ok answer s' ∧ Inv w s' ∧
      Poll.Settles (initJobs runtime w) i answer s s' ∧
      (∀ k, Ready w k s → Ready w k s') ∧
      (answer = .fails → ¬ Fits w i m) ∧ (answer ≠ .fails → Ready w i s') ∧
      (answer = .again → ¬ ∀ k, Ready w k s) := by
  obtain ⟨htouches1, hinv1⟩ := h.quiet (i := i)
    (f := fun ms => { ms with changingStatus := true }) ⟨rfl, rfl, rfl, rfl, rfl, rfl, rfl⟩
  obtain ⟨n, s2, hrun, htouches2, hinv2, hcases⟩ := init_run hrec huses hob hinv1 hi
  have htouches := htouches1.trans htouches2
  have hkept : ∀ k, Ready w k s → Ready w k s2 := fun k hk => hk.mono h htouches
  have hcall := callInit_of_init hrun
  have hregistered := hreg m (mem_of_getElem? hi)
  rcases hcases with ⟨rfl, hready, hcheck, hall⟩ | ⟨rfl, hready, hwaits⟩ | ⟨rfl, hunfit⟩
  · refine ⟨.done, entered s2 i, attempt_of_callInit hi hregistered hcall,
      hinv2.entered hi hcheck hall, htouches.settles_entered, fun k hk => (hkept k hk).entered,
      nofun, fun _ => hready.entered, nofun⟩
  · refine ⟨.again, s2, attempt_of_callInit hi hregistered hcall, hinv2,
      htouches.settles hopen nofun, hkept, nofun, fun _ => hready, fun _ hall => ?_⟩
    exact hwaits fun k => (hall k).mono h htouches1
  · exact ⟨.fails, s2, attempt_of_callInit hi hregistered hcall, hinv2,
      htouches.settles hopen nofun, hkept, fun _ => hunfit, fun hne => absurd rfl hne, nofun⟩

lemma exists_module {i : ℕ} (hi : i < (initJobs runtime w).number) : ∃ m, w[i]? = some m :=
  ⟨w[i], getElem?_eq_getElem hi⟩

section

variable (hrec : Reciprocal w) (huses : UsesConnected w) (hob : Obliging runtime w)
include hrec huses hob

lemma twoPhase (hreg : ∀ m ∈ w, m.registered = true) (hadm : Admissible w) :
    Poll.TwoPhase (initJobs runtime w) (Inv w) (Ready w) where
  attempt := fun i s hi hinv hopen => by
    obtain ⟨m, hm⟩ := exists_module hi
    obtain ⟨answer, s', hrun, hinv', hsettles, hkept, hfails, hready, hagain⟩ :=
      attempt_run hrec huses hob hreg hinv hm (status_ne hopen)
    have hanswer : answer ≠ .fails := fun h => hfails h (hadm i m hm)
    refine ⟨answer, s', hrun, hanswer, hinv', hsettles, hready hanswer, hkept, fun hall => ?_⟩
    have hallReady : ∀ k, Ready w k s := by
      intro k m hk
      exact hall k (List.getElem?_eq_some_iff.mp hk).1 m hk
    cases answer with
    | fails => exact absurd rfl hanswer
    | again => exact absurd hallReady (hagain rfl)
    | done => rfl

lemma finished_of_loop (hloaded : Loaded w s) {passes : ℕ}
    (hrun : initPasses runtime w passes s = .ok (some true) s') :
    Inv w s' ∧ ∀ i < w.length, (s'.modules i).status = .init := by
  have hstep : ∀ i s1 answer s2, i < (initJobs runtime w).number → Inv w s1 →
      (initJobs runtime w).isDone i s1 = false →
      (initJobs runtime w).attempt i s1 = .ok answer s2 → answer ≠ .fails →
      Inv w s2 ∧ Poll.Settles (initJobs runtime w) i answer s1 s2 := by
    intro i s1 answer s2 hi hinv hopen hattempt _
    obtain ⟨m, hm⟩ := exists_module hi
    obtain ⟨answer', s2', hrun, hinv', hsettles, -⟩ :=
      attempt_run hrec huses hob hloaded.registered hinv hm (status_ne hopen)
    obtain ⟨rfl, rfl⟩ := EStateM.Result.ok.inj (hrun.symm.trans hattempt)
    exact ⟨hinv', hsettles⟩
  obtain ⟨hinv, hdone⟩ := Poll.loop_ok_invariant hstep (Nat.eq_zero_or_pos _).symm hloaded.inv
    (Poll.doneCount_eq_zero (hloaded.isDone_eq_false runtime)).symm hrun
  exact ⟨hinv, fun i hi => isDone_eq.mp (hdone i hi)⟩

end

lemma Inv.holdsQueueOf (h : Inv w s) (hrec : Reciprocal w) (huses : UsesConnected w)
    {y x : ℕ × ℕ} (hconn : Connected w y x) (hdone : (s.modules x.1).status = .init) :
    HoldsQueueOf w s y x := by
  obtain ⟨sender, out, receiver, inp, hy, hout, hx, hinp, hzero, -, -, hinternal, -⟩ := id hconn
  have hlocal := h.modules x.1 receiver hx
  have hlt := (huses y x hconn sender receiver hy hx).2
  obtain ⟨inp', hinp', hqueue⟩ := hlocal.found x.2 ((hlocal.finished hdone).2 x.2 hlt)
  obtain rfl : inp = inp' := some.inj (hinp.symm.trans hinp')
  obtain ⟨n, hn⟩ := hqueue hinternal
  obtain ⟨y', hsource, hpublished⟩ := h.wired.taken x n (by simp [board, hn, queueNumber])
  obtain rfl : y = y' := some.inj ((hrec.sourceOf_eq hconn).symm.trans hsource)
  obtain ⟨obj, hobj, hget⟩ := h.wired.object y n hpublished
  rw [queueOf_eq hy hout, if_pos hzero] at hobj
  obtain rfl := some.inj hobj
  refine ⟨n, sender, out, hn, hwOutput_of_published hpublished, hy, hout, hget, fun z hz => ?_⟩
  exact h.wired.single z y n (by simp [board, hz, queueNumber]) hpublished

lemma Inv.fits (h : Inv w s) (hrec : Reciprocal w) (hi : w[i]? = some m)
    (hdone : (s.modules i).status = .init) : Fits w i m := by
  have hlocal := h.modules i m hi
  obtain ⟨hcheck, hall⟩ := hlocal.finished hdone
  refine ⟨(hlocal.checked hcheck).1, (hlocal.checked hcheck).2, fun p hp => ?_⟩
  obtain ⟨inp, hinp, hqueue⟩ := hlocal.found p (hall p hp)
  refine ⟨m, inp, hi, hinp, fun hinternal => ?_⟩
  obtain ⟨n, hn⟩ := hqueue hinternal
  obtain ⟨y, hsource, -⟩ := h.wired.taken (i, p) n (by simp [board, hn, queueNumber])
  apply hrec.inputs i m p inp hi hinp hinternal
  cases hfind : nodWaveformFindModuleId w inp.remoteModuleId with
  | none => simp [sourceOf, hi, hinp, hinternal, hfind] at hsource
  | some r =>
    obtain ⟨hk, hid⟩ := nodWaveformFindModuleId_some hfind
    exact ⟨r.1, mem_of_getElem? hk, hid⟩

lemma thread_of_passes (h : initPasses runtime w 2 s = .ok (some true) s') :
    nodWaveformStatusInitThread runtime w s = .ok true s' := by
  have hthree : initPasses runtime w 3 s = .ok (some true) s' := by
    rw [initPasses, Nat.succ_mul]
    exact Poll.loop_mono _ h
  rw [nodWaveformStatusInitThread, bind_of_ok hthree]
  rfl

end Modules

/-- Among modules of the skeleton with reciprocal connections that are used at both ends, the thread
succeeds within two passes, and every input has exactly the queue that its output has created, if
and only if no module has more ports than the skeleton has room for and every input that is read is
connected. -/
theorem init_converges_iff {runtime : Runtime} {w : Waveform} {s : State} (hrec : Reciprocal w)
    (huses : UsesConnected w) (hloaded : Loaded w s) (hob : Obliging runtime w) :
    (∃ s', initPasses runtime w 2 s = .ok (some true) s' ∧
      nodWaveformStatusInitThread runtime w s = .ok true s' ∧
      ∀ y x, Connected w y x → HoldsQueueOf w s' y x) ↔ Admissible w := by
  constructor
  · rintro ⟨s', hrun, -, -⟩ i m hi
    obtain ⟨hinv, hdone⟩ := finished_of_loop hrec huses hob hloaded hrun
    exact hinv.fits hrec hi (hdone i (List.getElem?_eq_some_iff.mp hi).1)
  · intro hadm
    obtain ⟨s', hrun, hinv, hdone⟩ :=
      (twoPhase hrec huses hob hloaded.registered hadm).loop_ok (by decide : 2 < 3)
        hloaded.inv (hloaded.isDone_eq_false runtime)
    refine ⟨s', hrun, thread_of_passes hrun, fun y x hconn => ?_⟩
    obtain ⟨-, -, receiver, -, -, -, hx, -⟩ := id hconn
    exact hinv.holdsQueueOf hrec huses hconn
      (isDone_eq.mp (hdone x.1 (List.getElem?_eq_some_iff.mp hx).1))

/-! ### Waveforms just loaded -/

def plainModule (id : ℤ) (inputs outputs : List Interface) : Module :=
  ⟨id, inputs, outputs, true, inputs.length, outputs.length, 64, 64, fun _ => 0⟩

/-- An internal port whose other end is port `port` of module `id`. -/
def portTo (id port : ℤ) : Interface := ⟨id, port, 0, 0⟩

def servingRuntime : Runtime := ⟨fun _ => true, fun _ => false⟩

variable {w : Waveform}

lemma loadedState_loaded (h : ∀ m ∈ w, m.registered = true) : Loaded w loadedState :=
  ⟨h, fun _ => rfl, fun _ _ => rfl, fun _ _ => rfl, fun _ _ => rfl, fun _ _ => rfl,
    fun _ => rfl, fun _ => rfl⟩

lemma usesConnected_of_length
    (h : ∀ m ∈ w, m.inputs.length = m.nofInputItf ∧ m.outputs.length = m.nofOutputItf) :
    UsesConnected w := by
  rintro y x ⟨sender, out, receiver, inp, hy, hout, hx, hinp, -⟩ sender' receiver' hy' hx'
  obtain rfl : sender = sender' := some.inj (hy.symm.trans hy')
  obtain rfl : receiver = receiver' := some.inj (hx.symm.trans hx')
  rw [← (h sender (mem_of_getElem? hy)).2, ← (h receiver (mem_of_getElem? hx)).1]
  exact ⟨(List.getElem?_eq_some_iff.mp hout).1, (List.getElem?_eq_some_iff.mp hinp).1⟩

def ring : Waveform := [plainModule 1 [portTo 2 0, portTo 1 1] [portTo 2 0, portTo 1 1],
    plainModule 2 [portTo 1 0] [portTo 1 0]]

lemma ring_connected : Connected ring (1, 0) (0, 0) ∧ Connected ring (0, 1) (0, 1) ∧
    Connected ring (0, 0) (1, 0) :=
  ⟨⟨_, _, _, _, rfl, rfl, rfl, rfl, rfl, rfl, rfl, rfl, rfl, rfl⟩,
    ⟨_, _, _, _, rfl, rfl, rfl, rfl, rfl, rfl, rfl, rfl, rfl, rfl⟩,
    ⟨_, _, _, _, rfl, rfl, rfl, rfl, rfl, rfl, rfl, rfl, rfl, rfl⟩⟩

lemma ring_inputs (i : ℕ) (m : Module) (p : ℕ) (inp : Interface) (hi : ring[i]? = some m)
    (hp : m.inputs[p]? = some inp) : ∃ y, Connected ring y (i, p) := by
  obtain ⟨h0, h1, h2⟩ := ring_connected
  match i with
  | 0 =>
    obtain rfl := some.inj hi
    match p with
    | 0 => exact ⟨_, h0⟩
    | 1 => exact ⟨_, h1⟩
    | p + 2 => exact absurd hp nofun
  | 1 =>
    obtain rfl := some.inj hi
    match p with
    | 0 => exact ⟨_, h2⟩
    | p + 1 => exact absurd hp nofun
  | i + 2 => exact absurd hi nofun

lemma ring_outputs (k : ℕ) (m : Module) (q : ℕ) (out : Interface) (hk : ring[k]? = some m)
    (hq : m.outputs[q]? = some out) : ∃ x, Connected ring (k, q) x := by
  obtain ⟨h0, h1, h2⟩ := ring_connected
  match k with
  | 0 =>
    obtain rfl := some.inj hk
    match q with
    | 0 => exact ⟨_, h2⟩
    | 1 => exact ⟨_, h1⟩
    | q + 2 => exact absurd hq nofun
  | 1 =>
    obtain rfl := some.inj hk
    match q with
    | 0 => exact ⟨_, h0⟩
    | q + 1 => exact absurd hq nofun
  | k + 2 => exact absurd hk nofun

theorem init_converges_ring :
    ∃ s', initPasses servingRuntime ring 2 loadedState = .ok (some true) s' ∧
      nodWaveformStatusInitThread servingRuntime ring loadedState = .ok true s' ∧
      ∀ y x, Connected ring y x → HoldsQueueOf ring s' y x := by
  have hrec : Reciprocal ring := ⟨by decide, fun i m p inp hi hp _ _ => ring_inputs i m p inp hi hp,
      fun k m q out hk hq _ _ => ring_outputs k m q out hk hq⟩
  refine (init_converges_iff hrec (usesConnected_of_length (by simp [ring, plainModule]))
    (loadedState_loaded (by simp [ring, plainModule])) ⟨fun _ => rfl, ?_⟩).mpr ?_
  · simp [ring, plainModule]
  · intro i m hi
    have hmem : m.nofInputItf = m.inputs.length ∧ m.nofInputItf ≤ 2 ∧ m.nofOutputItf ≤ 2 := by
      match i with
      | 0 => obtain rfl := some.inj hi; decide
      | 1 => obtain rfl := some.inj hi; decide
      | i + 2 => exact absurd hi nofun
    refine ⟨hmem.2.1.trans (by decide), hmem.2.2.trans (by decide), fun p hp => ?_⟩
    have hport := getElem?_eq_getElem (hmem.1 ▸ hp)
    exact ⟨m, _, hi, hport, fun _ => ring_inputs i m p _ hi hport⟩

def hub : Waveform :=
  let ports := (List.range 31).map fun p : ℕ => portTo 1 p
  [plainModule 1 ports ports]

lemma hub_port {i p : ℕ} {m : Module} {itf : Interface} (hi : hub[i]? = some m)
    (hp : m.inputs[p]? = some itf ∨ m.outputs[p]? = some itf) : Connected hub (i, p) (i, p) := by
  match i with
  | 0 =>
    obtain rfl := some.inj hi
    have hport : ((List.range 31).map fun p : ℕ => portTo 1 p)[p]? = some itf := or_self_iff.mp hp
    have hitf : itf = portTo 1 p := by
      obtain ⟨hlt, hget⟩ := List.getElem?_eq_some_iff.mp hport
      rw [← hget, getElem_map, getElem_range]
    subst hitf
    exact ⟨_, _, _, _, rfl, hport, rfl, hport, rfl, rfl, rfl, rfl, rfl, rfl⟩
  | i + 1 => exact absurd hi nofun

theorem init_refuses_hub :
    Reciprocal hub ∧ UsesConnected hub ∧ Loaded hub loadedState ∧ Obliging servingRuntime hub ∧
      (∃ s', nodWaveformStatusInitThread servingRuntime hub loadedState = .ok false s') ∧
      ∀ s', initPasses servingRuntime hub 2 loadedState ≠ .ok (some true) s' := by
  refine ⟨⟨by decide, ?_, ?_⟩, usesConnected_of_length (by simp [hub, plainModule]),
    loadedState_loaded (by simp [hub, plainModule]), ⟨fun _ => rfl, by simp [hub, plainModule]⟩,
    ⟨_, rfl⟩, fun s' h => ?_⟩
  · intro i m p inp hi hp _ _
    exact ⟨_, hub_port hi (.inl hp)⟩
  · intro k m q out hk hq _ _
    exact ⟨_, hub_port hk (.inr hq)⟩
  · have hfails : initPasses servingRuntime hub 2 loadedState =
        .ok (some false) (endState (initPasses servingRuntime hub 2 loadedState)) := rfl
    exact absurd (hfails.symm.trans h) nofun

end Aloe.Oesr.Skeleton
