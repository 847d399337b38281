import Aloe.Lib.Stream
import Mathlib.Data.Finset.Card

/-!
# Polling in rounds

A number of jobs is attempted one after the other, round after round, until all of them are
done. A job that is done is passed over; one that is not ready is attempted again in the next
round; one that fails ends the loop, and so does the end of the last round.

`TwoPhase.loop_ok` is the case in which a job first makes what others wait for and then waits
itself: whatever the order of the jobs and whoever waits for whom, two rounds are enough. A
`Schedule` computes in which round each job gets done from a predicate that says when a job is
ready, and a loop that answers as the predicate says follows it (`Poll.loop_schedule`).
-/

namespace Aloe.Lib

inductive Attempt where
  | fails
  | again
  | done
deriving DecidableEq

def Attempt.gain : Attempt → ℕ
  | .done => 1
  | _ => 0

/-- The passes that have visited job `j`, at job `i` of a round. -/
def passes (round i j : ℕ) : ℕ := round + if j < i then 1 else 0

section Passes

variable {round i j n : ℕ}

lemma passes_self (round i : ℕ) : passes round i i = round := by simp [passes]

lemma passes_succ_self (round i : ℕ) : passes round (i + 1) i = round + 1 := by simp [passes]

lemma passes_succ_of_ne (h : j ≠ i) : passes round (i + 1) j = passes round i j := by
  simp only [passes, Nat.lt_succ_iff_lt_or_eq, h, or_false]

lemma passes_round (h : j < n) : passes (round + 1) 0 j = passes round n j := by simp [passes, h]

lemma passes_succ_pos_iff : 0 < passes round (i + 1) j ↔ 0 < round ∨ j ≤ i := by
  rw [passes]
  split <;> omega

lemma passes_le (round i j : ℕ) : passes round i j ≤ round + 1 := by
  rw [passes]
  split <;> omega

end Passes

structure Poll (ε σ : Type) where
  number : ℕ
  rounds : ℕ
  isDone : ℕ → σ → Bool
  attempt : ℕ → EStateM ε σ Attempt

namespace Poll

variable {ε σ : Type} (jobs : Poll ε σ)

def visit (i : ℕ) : EStateM ε σ Attempt := fun s =>
  if jobs.isDone i s then .ok .again s else jobs.attempt i s

/-- The loop at job `i` of a round, with `count` jobs done: whether it ends with all jobs done.
`none` when it has not ended after `fuel` visits. -/
def loop : (fuel i round count : ℕ) → EStateM ε σ (Option Bool)
  | 0, _, _, count => pure (if jobs.number ≤ count then some true else none)
  | fuel + 1, i, round, count =>
    if jobs.number ≤ count then pure (some true)
    else do
      let answer ← jobs.visit i
      if answer = .fails then pure (some false)
      else if i + 1 < jobs.number then loop fuel (i + 1) round (count + answer.gain)
      else if round + 1 = jobs.rounds then pure (some false)
      else loop fuel 0 (round + 1) (count + answer.gain)

variable {jobs} {fuel i round count : ℕ} {s s' : σ} {answer : Attempt}

lemma visit_of_done (h : jobs.isDone i s = true) : jobs.visit i s = .ok .again s := by
  rw [visit, if_pos h]

lemma visit_of_open (h : jobs.isDone i s = false) : jobs.visit i s = jobs.attempt i s := by
  rw [visit, h]
  rfl

lemma visit_cases (h : jobs.visit i s = .ok answer s') :
    (jobs.isDone i s = true ∧ answer = .again ∧ s' = s) ∨
      (jobs.isDone i s = false ∧ jobs.attempt i s = .ok answer s') := by
  cases hdone : jobs.isDone i s with
  | true =>
    rw [visit_of_done hdone] at h
    obtain ⟨rfl, rfl⟩ := EStateM.Result.ok.inj h
    exact .inl ⟨rfl, rfl, rfl⟩
  | false => exact .inr ⟨rfl, visit_of_open hdone ▸ h⟩

lemma loop_of_le (h : jobs.number ≤ count) :
    jobs.loop fuel i round count s = .ok (some true) s := by
  cases fuel <;> rw [loop, if_pos h] <;> rfl

lemma loop_succ (hcount : count < jobs.number) (hvisit : jobs.visit i s = .ok answer s') :
    jobs.loop (fuel + 1) i round count s = if answer = .fails then .ok (some false) s'
      else if i + 1 < jobs.number then jobs.loop fuel (i + 1) round (count + answer.gain) s'
      else if round + 1 = jobs.rounds then .ok (some false) s'
      else jobs.loop fuel 0 (round + 1) (count + answer.gain) s' := by
  rw [loop, if_neg (not_le.mpr hcount), bind_of_ok hvisit]
  split_ifs <;> rfl

lemma loop_succ_error {e : ε} (hcount : count < jobs.number)
    (hvisit : jobs.visit i s = .error e s') :
    jobs.loop (fuel + 1) i round count s = .error e s' := by
  rw [loop, if_neg (not_le.mpr hcount), bind_of_error hvisit]

/-! ## A loop ends -/

lemma loop_mono {result : Bool} (more : ℕ)
    (h : jobs.loop fuel i round count s = .ok (some result) s') :
    jobs.loop (fuel + more) i round count s = .ok (some result) s' := by
  induction fuel generalizing i round count s with
  | zero =>
    by_cases hcount : jobs.number ≤ count
    · rwa [loop_of_le hcount] at h ⊢
    · rw [loop, if_neg hcount] at h
      exact absurd h nofun
  | succ fuel ih =>
    rcases lt_or_ge count jobs.number with hcount | hcount
    · rw [Nat.add_right_comm]
      cases hvisit : jobs.visit i s with
      | error e s1 =>
        rw [loop_succ_error hcount hvisit] at h
        exact absurd h nofun
      | ok answer s1 =>
        rw [loop_succ hcount hvisit] at h
        rw [loop_succ hcount hvisit]
        split_ifs at h ⊢
        · exact h
        · exact ih h
        · exact h
        · exact ih h
    · rwa [loop_of_le hcount] at h ⊢

/-! ## What the loop counts -/

def doneCount (jobs : Poll ε σ) (s : σ) : ℕ :=
  ((Finset.range jobs.number).filter fun j => jobs.isDone j s = true).card

structure Settles (jobs : Poll ε σ) (i : ℕ) (answer : Attempt) (s s' : σ) : Prop where
  own : jobs.isDone i s' = true ↔ answer = .done
  others : ∀ j < jobs.number, j ≠ i → jobs.isDone j s' = jobs.isDone j s

lemma Settles.doneCount_eq (h : Settles jobs i answer s s') (hi : i < jobs.number)
    (hopen : jobs.isDone i s = false) :
    jobs.doneCount s' = jobs.doneCount s + answer.gain := by
  have hcongr : ∀ j ∈ Finset.range jobs.number, j ≠ i →
      (jobs.isDone j s' = true ↔ jobs.isDone j s = true) := by
    intro j hj hne
    rw [h.others j (Finset.mem_range.mp hj) hne]
  unfold doneCount
  by_cases hdone : answer = .done
  · have hinsert : (Finset.range jobs.number).filter (fun j => jobs.isDone j s' = true) =
        insert i ((Finset.range jobs.number).filter fun j => jobs.isDone j s = true) := by
      ext j
      by_cases hj : j = i
      · subst hj
        simp [hi, h.own.mpr hdone]
      · simp only [Finset.mem_filter, Finset.mem_insert, hj, false_or]
        exact and_congr_right fun hmem => hcongr j hmem hj
    rw [hinsert, Finset.card_insert_of_notMem (by simp [hopen]), hdone]
    rfl
  · have hsame : (Finset.range jobs.number).filter (fun j => jobs.isDone j s' = true) =
        (Finset.range jobs.number).filter fun j => jobs.isDone j s = true := by
      apply Finset.filter_congr
      intro j hmem
      by_cases hj : j = i
      · subst hj
        simp [hopen, h.own, hdone]
      · exact hcongr j hmem hj
    have hgain : answer.gain = 0 := by
      cases answer with
      | done => exact absurd rfl hdone
      | fails | again => rfl
    rw [hsame, hgain]
    rfl

lemma all_done_of_le (h : jobs.number ≤ jobs.doneCount s) :
    ∀ j < jobs.number, jobs.isDone j s = true := by
  intro j hj
  have hcard : ((Finset.range jobs.number).filter fun j => jobs.isDone j s = true).card =
      (Finset.range jobs.number).card :=
    le_antisymm (Finset.card_filter_le _ _) (by rwa [Finset.card_range])
  exact Finset.filter_card_eq hcard j (Finset.mem_range.mpr hj)

lemma le_doneCount_of_all (h : ∀ j < jobs.number, jobs.isDone j s = true) :
    jobs.number ≤ jobs.doneCount s := by
  rw [doneCount, Finset.filter_true_of_mem fun j hj => h j (Finset.mem_range.mp hj),
    Finset.card_range]

lemma doneCount_eq_zero (h : ∀ j < jobs.number, jobs.isDone j s = false) :
    jobs.doneCount s = 0 := by
  rw [doneCount, Finset.card_eq_zero, Finset.filter_eq_empty_iff]
  intro j hj
  simp [h j (Finset.mem_range.mp hj)]

/-! ## Rules -/

/-- One round: each visit keeps `R`, the position and the count going on. Either all jobs are
done on the way, or the next round begins. -/
theorem loop_round (R : ℕ → ℕ → σ → Prop) (fuel round : ℕ) (hround : round + 1 < jobs.rounds)
    (hstep : ∀ i c s, i < jobs.number → c < jobs.number → R i c s →
      ∃ answer s', jobs.visit i s = .ok answer s' ∧ answer ≠ .fails ∧
        R (i + 1) (c + answer.gain) s') (hi : i < jobs.number) (h : R i count s) :
    ∃ j c s', j ≤ jobs.number ∧ R j c s' ∧ ((jobs.number ≤ c ∧
          jobs.loop (fuel + (jobs.number - i)) i round count s = .ok (some true) s') ∨
        (j = jobs.number ∧ jobs.loop (fuel + (jobs.number - i)) i round count s =
          jobs.loop fuel 0 (round + 1) c s')) := by
  induction hleft : jobs.number - i generalizing i count s with
  | zero => omega
  | succ left ih =>
    rcases lt_or_ge count jobs.number with hcount | hcount
    · obtain ⟨answer, s1, hvisit, hanswer, h1⟩ := hstep i count s hi hcount h
      rw [← Nat.add_assoc, loop_succ hcount hvisit, if_neg hanswer]
      by_cases hnext : i + 1 < jobs.number
      · rw [if_pos hnext]
        exact ih hnext h1 (by omega)
      · have hlast : i + 1 = jobs.number := by omega
        have hleft : left = 0 := by omega
        rw [if_neg hnext, if_neg (by omega), hleft]
        exact ⟨i + 1, _, s1, hi, h1, .inr ⟨hlast, rfl⟩⟩
    · exact ⟨i, count, s, hi.le, h, .inl ⟨hcount, loop_of_le hcount⟩⟩

variable {R : ℕ → ℕ → σ → Prop}

/-- What every visit carries on holds where a loop ends that succeeds, with all jobs done. -/
theorem loop_ok_induction
    (hstep : ∀ round i s answer s', i < jobs.number → R round i s → jobs.isDone i s = false →
      jobs.attempt i s = .ok answer s' → answer ≠ .fails →
      R round (i + 1) s' ∧ Settles jobs i answer s s')
    (hpass : ∀ round i s, i < jobs.number → R round i s → jobs.isDone i s = true →
      R round (i + 1) s)
    (hround : ∀ round s, round + 1 ≠ jobs.rounds → R round jobs.number s → R (round + 1) 0 s)
    (hi : i < jobs.number ∨ jobs.number = 0) (h : R round i s) (hcount : count = jobs.doneCount s)
    (hloop : jobs.loop fuel i round count s = .ok (some true) s') :
    (∃ round' i', R round' i' s') ∧ ∀ j < jobs.number, jobs.isDone j s' = true := by
  have hkeep : ∀ round i s answer s1, i < jobs.number → R round i s →
      jobs.visit i s = .ok answer s1 → answer ≠ .fails →
      R round (i + 1) s1 ∧ jobs.doneCount s1 = jobs.doneCount s + answer.gain := by
    intro round i s answer s1 hi h hvisit hfails
    rcases visit_cases hvisit with ⟨hdone, rfl, rfl⟩ | ⟨hopen, hattempt⟩
    · exact ⟨hpass round i s1 hi h hdone, rfl⟩
    · obtain ⟨h1, hsettles⟩ := hstep round i s answer s1 hi h hopen hattempt hfails
      exact ⟨h1, hsettles.doneCount_eq hi hopen⟩
  induction fuel generalizing i round count s with
  | zero =>
    rw [loop] at hloop
    split_ifs at hloop with hle
    · obtain ⟨-, rfl⟩ := EStateM.Result.ok.inj hloop
      exact ⟨⟨round, i, h⟩, all_done_of_le (hcount ▸ hle)⟩
    · exact absurd hloop nofun
  | succ fuel ih =>
    rcases lt_or_ge count jobs.number with hlt | hle
    · have hi : i < jobs.number := by omega
      cases hvisit : jobs.visit i s with
      | error e s1 =>
        rw [loop_succ_error hlt hvisit] at hloop
        exact absurd hloop nofun
      | ok answer s1 =>
        rw [loop_succ hlt hvisit] at hloop
        split_ifs at hloop with hfails hnext hlast
        · exact absurd hloop nofun
        · obtain ⟨h1, hcount1⟩ := hkeep round i s answer s1 hi h hvisit hfails
          exact ih (.inl hnext) h1 (by omega) hloop
        · exact absurd hloop nofun
        · obtain ⟨h1, hcount1⟩ := hkeep round i s answer s1 hi h hvisit hfails
          have hend : i + 1 = jobs.number := by omega
          exact ih (.inl (by omega)) (hround round s1 hlast (hend ▸ h1)) (by omega) hloop
    · rw [loop_of_le hle] at hloop
      obtain ⟨-, rfl⟩ := EStateM.Result.ok.inj hloop
      exact ⟨⟨round, i, h⟩, all_done_of_le (hcount ▸ hle)⟩

/-- The three ways in which a loop ends, for a condition `R` that its visits carry on. -/
inductive Ends (jobs : Poll ε σ) (R : ℕ → ℕ → σ → Prop) : Bool → σ → Prop
  /-- All jobs are done. -/
  | success {round i : ℕ} {s : σ} : i < jobs.number → round < jobs.rounds → R round i s →
      (∀ j < jobs.number, jobs.isDone j s = true) → Ends jobs R true s
  /-- An attempt fails. -/
  | failure {round i : ℕ} {s s' : σ} : i < jobs.number → round < jobs.rounds → R round i s →
      jobs.isDone i s = false → jobs.attempt i s = .ok .fails s' → Ends jobs R false s'
  /-- The last visit of the last round is over; before it, some job was not done. -/
  | exhausted {round i : ℕ} {s s' : σ} : i + 1 = jobs.number → round + 1 = jobs.rounds →
      R round i s → (∃ j < jobs.number, jobs.isDone j s = false) → R round (i + 1) s' →
      Ends jobs R false s'

lemma loop_ends (hstep : ∀ round i s, i < jobs.number → R round i s → jobs.isDone i s = false →
      ∃ answer s', jobs.attempt i s = .ok answer s' ∧
        (answer ≠ .fails → R round (i + 1) s' ∧ Settles jobs i answer s s'))
    (hpass : ∀ round i s, i < jobs.number → R round i s → jobs.isDone i s = true →
      R round (i + 1) s) (hround : ∀ round s, R round jobs.number s → R (round + 1) 0 s)
    (hi : i < jobs.number) (hin : round < jobs.rounds)
    (hfuel : jobs.rounds * jobs.number ≤ fuel + (round * jobs.number + i)) (h : R round i s)
    (hcount : count = jobs.doneCount s) :
    ∃ result s', jobs.loop fuel i round count s = .ok (some result) s' ∧ Ends jobs R result s' := by
  induction fuel generalizing i round count s with
  | zero =>
    have hle : (round + 1) * jobs.number ≤ jobs.rounds * jobs.number := Nat.mul_le_mul_right _ hin
    rw [Nat.succ_mul] at hle
    omega
  | succ fuel ih =>
    rcases lt_or_ge count jobs.number with hlt | hle
    · -- what a visit does, with the count
      obtain ⟨answer, s1, hvisit, hgo⟩ : ∃ answer s1, jobs.visit i s = .ok answer s1 ∧
          (answer ≠ .fails → R round (i + 1) s1 ∧
            jobs.doneCount s1 = jobs.doneCount s + answer.gain) := by
        cases hdone : jobs.isDone i s with
        | true => exact ⟨.again, s, visit_of_done hdone, fun _ => ⟨hpass round i s hi h hdone, rfl⟩⟩
        | false =>
          obtain ⟨answer, s1, hattempt, hgo⟩ := hstep round i s hi h hdone
          refine ⟨answer, s1, (visit_of_open hdone).trans hattempt, fun hfails => ?_⟩
          obtain ⟨h1, hsettles⟩ := hgo hfails
          exact ⟨h1, hsettles.doneCount_eq hi hdone⟩
      rw [loop_succ hlt hvisit]
      split_ifs with hfails hnext hlast
      · refine ⟨false, s1, rfl, ?_⟩
        rcases visit_cases hvisit with ⟨-, rfl, -⟩ | ⟨hopen, hattempt⟩
        · cases hfails
        · exact .failure hi hin h hopen (hfails ▸ hattempt)
      · obtain ⟨h1, hcount1⟩ := hgo hfails
        exact ih hnext hin (by omega) h1 (by omega)
      · have hopen : ∃ j < jobs.number, jobs.isDone j s = false := by
          by_contra hall
          have hle : jobs.number ≤ jobs.doneCount s := le_doneCount_of_all fun j hj =>
            Bool.eq_true_of_not_eq_false fun hj' => hall ⟨j, hj, hj'⟩
          omega
        exact ⟨false, s1, rfl, .exhausted (by omega) hlast h hopen (hgo hfails).1⟩
      · grind
    · exact ⟨true, s, loop_of_le hle, .success hi hin h (all_done_of_le (hcount ▸ hle))⟩

lemma loop_ok_invariant {J : σ → Prop}
    (hstep : ∀ i s answer s', i < jobs.number → J s → jobs.isDone i s = false →
      jobs.attempt i s = .ok answer s' → answer ≠ .fails →
      J s' ∧ Settles jobs i answer s s')
    (hi : i < jobs.number ∨ jobs.number = 0) (h : J s) (hcount : count = jobs.doneCount s)
    (hloop : jobs.loop fuel i round count s = .ok (some true) s') :
    J s' ∧ ∀ j < jobs.number, jobs.isDone j s' = true := by
  obtain ⟨⟨-, -, hend⟩, hall⟩ := loop_ok_induction (R := fun _ _ => J)
    (fun _ => hstep) (fun _ _ _ _ h _ => h) (fun _ _ _ h => h) hi h hcount hloop
  exact ⟨hend, hall⟩

/-- Jobs of two halves: every attempt makes its job `ready`, and is done once all are. -/
structure TwoPhase (jobs : Poll ε σ) (Inv : σ → Prop) (ready : ℕ → σ → Prop) : Prop where
  attempt : ∀ i s, i < jobs.number → Inv s → jobs.isDone i s = false →
    ∃ answer s', jobs.attempt i s = .ok answer s' ∧ answer ≠ .fails ∧ Inv s' ∧
      Settles jobs i answer s s' ∧ ready i s' ∧ (∀ j, ready j s → ready j s') ∧
      ((∀ j < jobs.number, ready j s) → answer = .done)

namespace TwoPhase

variable {Inv : σ → Prop} {ready : ℕ → σ → Prop}

/-- At job `i` of the first round: the jobs before it are ready, the others untouched. -/
structure First (jobs : Poll ε σ) (Inv : σ → Prop) (ready : ℕ → σ → Prop) (i c : ℕ) (s : σ) :
    Prop where
  inv : Inv s
  count : c = jobs.doneCount s
  ready : ∀ j < i, ready j s
  untouched : ∀ j < jobs.number, i ≤ j → jobs.isDone j s = false

/-- At job `i` of the second round: all jobs are ready, those before it done. -/
structure Second (jobs : Poll ε σ) (Inv : σ → Prop) (ready : ℕ → σ → Prop) (i c : ℕ) (s : σ) :
    Prop where
  inv : Inv s
  count : c = jobs.doneCount s
  ready : ∀ j < jobs.number, ready j s
  done : ∀ j < i, jobs.isDone j s = true

section

variable (h : TwoPhase jobs Inv ready) (i c : ℕ) (s : σ) (hi : i < jobs.number)
include h hi

lemma first_visit (hs : First jobs Inv ready i c s) :
    ∃ answer s', jobs.visit i s = .ok answer s' ∧ answer ≠ .fails ∧
      First jobs Inv ready (i + 1) (c + answer.gain) s' := by
  have hown := hs.untouched i hi le_rfl
  obtain ⟨answer, s', hrun, hanswer, hinv, hsettles, hready, hkept, -⟩ :=
    h.attempt i s hi hs.inv hown
  refine ⟨answer, s', (visit_of_open hown).trans hrun, hanswer, hinv, ?_, ?_, ?_⟩
  · rw [hsettles.doneCount_eq hi hown, hs.count]
  · intro j hj
    rcases Nat.lt_succ_iff_lt_or_eq.mp hj with hlt | rfl
    · exact hkept j (hs.ready j hlt)
    · exact hready
  · intro j hj hij
    rw [hsettles.others j hj (by omega)]
    exact hs.untouched j hj (by omega)

lemma second_visit (hs : Second jobs Inv ready i c s) :
    ∃ answer s', jobs.visit i s = .ok answer s' ∧ answer ≠ .fails ∧
      Second jobs Inv ready (i + 1) (c + answer.gain) s' := by
  cases hown : jobs.isDone i s with
  | true =>
    refine ⟨.again, s, visit_of_done hown, nofun, hs.inv, hs.count, hs.ready, ?_⟩
    intro j hj
    rcases Nat.lt_succ_iff_lt_or_eq.mp hj with hlt | rfl
    · exact hs.done j hlt
    · exact hown
  | false =>
    obtain ⟨answer, s', hrun, hanswer, hinv, hsettles, -, hkept, hall⟩ :=
      h.attempt i s hi hs.inv hown
    refine ⟨answer, s', (visit_of_open hown).trans hrun, hanswer, hinv, ?_, ?_, ?_⟩
    · rw [hsettles.doneCount_eq hi hown, hs.count]
    · exact fun j hj => hkept j (hs.ready j hj)
    · intro j hj
      rcases Nat.lt_succ_iff_lt_or_eq.mp hj with hlt | rfl
      · rw [hsettles.others j (by omega) (by omega)]
        exact hs.done j hlt
      · exact hsettles.own.mpr (hall hs.ready)

end

lemma loop_ok (h : TwoPhase jobs Inv ready) (hrounds : 2 < jobs.rounds) (hinv : Inv s)
    (hopen : ∀ j < jobs.number, jobs.isDone j s = false) :
    ∃ s', jobs.loop (2 * jobs.number) 0 0 0 s = .ok (some true) s' ∧ Inv s' ∧
      ∀ j < jobs.number, jobs.isDone j s' = true := by
  rcases Nat.eq_zero_or_pos jobs.number with hzero | hpos
  · exact ⟨s, loop_of_le (by omega), hinv, fun j hj => by omega⟩
  have hstart : First jobs Inv ready 0 0 s :=
    ⟨hinv, (doneCount_eq_zero hopen).symm, fun j hj => absurd hj (Nat.not_lt_zero j),
      fun j hj _ => hopen j hj⟩
  obtain ⟨j, c, s1, -, h1, ⟨hle, hrun⟩ | ⟨rfl, hrun⟩⟩ :=
    loop_round (First jobs Inv ready) jobs.number 0 (by omega)
      (fun i c s hi _ => h.first_visit i c s hi) hpos hstart
  · rw [Nat.sub_zero, ← Nat.two_mul] at hrun
    exact ⟨s1, hrun, h1.inv, all_done_of_le (h1.count ▸ hle)⟩
  have hagain : Second jobs Inv ready 0 c s1 :=
    ⟨h1.inv, h1.count, h1.ready, fun j hj => absurd hj (Nat.not_lt_zero j)⟩
  obtain ⟨j, c', s2, -, h2, hend⟩ := loop_round (Second jobs Inv ready) 0 1 (by omega)
      (fun i c s hi _ => h.second_visit i c s hi) hpos hagain
  -- at the end of the second round the count is complete, so no third one begins
  have hfinal : jobs.number ≤ c' ∧
      jobs.loop (0 + (jobs.number - 0)) 0 1 c s1 = .ok (some true) s2 := by
    rcases hend with hend | ⟨rfl, hend⟩
    · exact hend
    · have hle : jobs.number ≤ c' := h2.count ▸ le_doneCount_of_all h2.done
      exact ⟨hle, hend.trans (loop_of_le hle)⟩
  rw [Nat.sub_zero, Nat.zero_add] at hfinal
  rw [Nat.sub_zero, ← Nat.two_mul] at hrun
  exact ⟨s2, hrun.trans hfinal.2, h2.inv, all_done_of_le (h2.count ▸ hfinal.1)⟩

end TwoPhase

end Poll

/-! ## Schedules -/

open Function Option

abbrev Progress : Type := ℕ → Option ℕ

structure Schedule where
  number : ℕ
  ready : (round i : ℕ) → Progress → Bool

namespace Schedule

variable (S : Schedule)

def visit (round i : ℕ) (f : Progress) : Progress :=
  if f i = none ∧ S.ready round i f = true then update f i (some round) else f

def within (round : ℕ) (f : Progress) : ℕ → Progress
  | 0 => f
  | i + 1 => S.visit round i (within round f i)

def start : ℕ → Progress
  | 0 => fun _ => none
  | round + 1 => S.within round (start round) S.number

/-- Before job `i` is visited in a round. -/
def reached (round i : ℕ) : Progress := S.within round (S.start round) i

variable {S} {round i j t : ℕ} {f : Progress}

lemma reached_succ : S.reached round (i + 1) = S.visit round i (S.reached round i) := rfl

lemma reached_number : S.reached round S.number = S.start (round + 1) := rfl

lemma visit_of_ne (h : j ≠ i) : S.visit round i f j = f j := by
  rw [visit]
  split
  · exact update_of_ne h ..
  · rfl

lemma visit_of_done (h : f i ≠ none) : S.visit round i f = f := by
  rw [visit, if_neg fun hopen => h hopen.1]

lemma visit_of_ready (h : f i = none) (hready : S.ready round i f = true) :
    S.visit round i f = update f i (some round) := by
  rw [visit, if_pos ⟨h, hready⟩]

lemma visit_of_not_ready (hready : S.ready round i f = false) : S.visit round i f = f := by
  rw [visit, hready, if_neg fun h => nomatch h.2]

lemma visit_ne_none_iff (h : f i = none) :
    S.visit round i f i ≠ none ↔ S.ready round i f = true := by
  cases hready : S.ready round i f with
  | true => simp [visit_of_ready h hready]
  | false => simp [visit_of_not_ready hready, h]

lemma visit_some (h : S.visit round i f j = some t) : f j = some t ∨ (j = i ∧ t = round) := by
  rw [visit] at h
  split at h
  · grind
  · exact .inl h

/-! ## Order -/

/-- Job `j` comes in round `t` before job `i` in round `round`. -/
def Before (t j round i : ℕ) : Prop := t < round ∨ t = round ∧ j < i

instance (t j round i : ℕ) : Decidable (Before t j round i) := inferInstanceAs (Decidable (_ ∨ _))

lemma Before.succ (h : Before t j round i) : Before t j round (i + 1) := by
  obtain h | ⟨rfl, h⟩ := h
  · exact .inl h
  · exact .inr ⟨rfl, Nat.lt_succ_of_lt h⟩

lemma Before.asymm (h : Before t j round i) : ¬ Before round i t j := by
  rintro (h' | ⟨rfl, h'⟩)
  · obtain h | ⟨rfl, -⟩ := h
    · exact lt_asymm h h'
    · exact lt_irrefl _ h'
  · obtain h | ⟨-, h⟩ := h
    · exact lt_irrefl _ h
    · exact lt_asymm h h'

lemma Before.irrefl (t j : ℕ) : ¬ Before t j t j := fun h => h.asymm h

/-- What was done before job `i` was visited in a round. -/
def past (round i : ℕ) (f : Progress) : Progress := fun j =>
  (f j).filter fun t => Before t j round i

lemma within_before (hf : ∀ j t, f j = some t → t < round) :
    ∀ i j t, S.within round f i j = some t → Before t j round i := by
  intro i
  induction i with
  | zero => exact fun j t h => .inl (hf j t h)
  | succ i ih =>
    intro j t h
    obtain h | ⟨rfl, rfl⟩ := visit_some h
    · exact (ih j t h).succ
    · exact .inr ⟨rfl, Nat.lt_succ_self j⟩

lemma start_before : ∀ round j t, S.start round j = some t → t < round := by
  intro round
  induction round with
  | zero => exact fun j t h => nomatch h
  | succ round ih =>
    intro j t h
    obtain h | ⟨rfl, -⟩ := within_before ih _ j t h
    · exact Nat.lt_succ_of_lt h
    · exact Nat.lt_succ_self t

lemma reached_before (h : S.reached round i j = some t) : Before t j round i :=
  within_before (start_before round) i j t h

lemma past_eq_some : past round i f j = some t ↔ f j = some t ∧ Before t j round i := by
  rw [past, filter_eq_some_iff, decide_eq_true_iff]

lemma past_eq_self (h : ∀ j t, f j = some t → Before t j round i) : past round i f = f := by
  funext j
  cases hj : f j with
  | none => rw [past, hj, filter_none]
  | some t => exact past_eq_some.mpr ⟨hj, h j t hj⟩

variable {k : ℕ}

lemma past_visit (h : ¬ Before round i t k) : past t k (S.visit round i f) = past t k f := by
  funext j
  by_cases hj : j = i
  · subst hj
    rw [visit]
    split
    · rename_i hopen
      rw [past, update_self, past, hopen.1, filter_some, if_neg, filter_none]
      exact fun hbefore => h (of_decide_eq_true hbefore)
    · rfl
  · rw [past, visit_of_ne hj, past]

/-! ## The end -/

def Complete (S : Schedule) (f : Progress) : Prop := ∀ j < S.number, f j ≠ none

lemma Complete.within (h : S.Complete f) (hi : i ≤ S.number) : S.within round f i = f := by
  induction i with
  | zero => rfl
  | succ i ih =>
    rw [Schedule.within, ih (Nat.le_of_succ_le hi), visit_of_done (h i hi)]

lemma Complete.reached (h : S.Complete (S.reached round i)) (hi : i ≤ j) (hj : j ≤ S.number) :
    S.reached round j = S.reached round i := by
  induction j, hi using Nat.le_induction with
  | base => rfl
  | succ j hij ih =>
    rw [reached_succ, ih (Nat.le_of_succ_le hj), visit_of_done (h j hj)]

lemma Complete.start (h : S.Complete (S.reached round i)) (hi : i ≤ S.number) (ht : round < t) :
    S.start t = S.reached round i := by
  induction t, ht using Nat.le_induction with
  | base => exact h.reached hi le_rfl
  | succ t _ ih => rw [Schedule.start, ih, h.within le_rfl]

/-! ## First readiness -/

lemma within_of_not_visited (h : i ≤ j) : S.within round f i j = f j := by
  induction i with
  | zero => rfl
  | succ i ih =>
    rw [within, visit_of_ne (ne_of_gt h), ih (Nat.le_of_succ_le h)]

lemma within_of_visited (h : j < i) :
    S.within round f i j = S.visit round j (S.within round f j) j := by
  induction i, h using Nat.le_induction with
  | base => rfl
  | succ i hij ih => rw [within, visit_of_ne (ne_of_lt hij), ih]

lemma start_succ (hj : j < S.number) :
    S.start (round + 1) j = S.visit round j (S.reached round j) j :=
  within_of_visited hj

lemma reached_self : S.reached round j j = S.start round j := within_of_not_visited le_rfl

lemma past_reached (hj : j ≤ i) : past round j (S.reached round i) = S.reached round j := by
  induction i, hj using Nat.le_induction with
  | base => exact past_eq_self fun k t => reached_before
  | succ i hji ih =>
    rw [reached_succ, past_visit, ih]
    rintro (h | ⟨-, h⟩)
    · exact lt_irrefl _ h
    · exact not_lt.mpr hji h

lemma past_within (h : t < round) : past t j (S.within round f i) = past t j f := by
  induction i with
  | zero => rfl
  | succ i ih =>
    rw [within, past_visit, ih]
    rintro (h' | ⟨h', -⟩)
    · exact lt_asymm h h'
    · exact ne_of_lt h h'.symm

lemma past_start (hj : j ≤ S.number) (hk : round < k) :
    past round j (S.start k) = S.reached round j := by
  induction k, hk using Nat.le_induction with
  | base => exact past_reached hj
  | succ k hlt ih => rw [start, past_within hlt, ih]

lemma visit_eq_none_iff : S.visit round i f i = none ↔ f i = none ∧ S.ready round i f = false := by
  cases hi : f i with
  | some t =>
    rw [visit_of_done (by rw [hi]; exact nofun), hi]
    exact iff_of_false nofun fun h => nomatch h.1
  | none =>
    rw [← not_ne_iff, visit_ne_none_iff hi, Bool.not_eq_true, and_iff_right rfl]

lemma not_ready_of_start (hj : j < S.number) (h : S.start k j = none) (ht : t < k) :
    S.ready t j (S.reached t j) = false := by
  induction k with
  | zero => exact absurd ht (Nat.not_lt_zero t)
  | succ k ih =>
    rw [start_succ hj, visit_eq_none_iff, reached_self] at h
    obtain hlt | rfl := Nat.lt_succ_iff_lt_or_eq.mp ht
    · exact ih h.1 hlt
    · exact h.2

/-- **A job is done in the first round in which it is ready.** -/
theorem ready_of_start (hj : j < S.number) (h : S.start k j = some t) :
    S.ready t j (past t j (S.start k)) = true ∧
      ∀ t' < t, S.ready t' j (past t' j (S.start k)) = false := by
  induction k with
  | zero => cases h
  | succ k ih =>
    have hk : t < k + 1 := start_before (k + 1) j t h
    have hpast : ∀ t' ≤ t, past t' j (S.start (k + 1)) = S.reached t' j := fun t' ht' =>
      past_start hj.le (lt_of_le_of_lt ht' hk)
    rw [start_succ hj, visit, reached_self] at h
    split at h
    · rename_i hopen
      rw [update_self] at h
      obtain rfl := some.inj h
      refine ⟨by rw [hpast k le_rfl]; exact hopen.2, fun t' ht' => ?_⟩
      rw [hpast t' ht'.le]
      exact not_ready_of_start hj hopen.1 ht'
    · rw [reached_self] at h
      have hlt : t < k := start_before k j t h
      obtain ⟨hready, hnot⟩ := ih h
      refine ⟨?_, fun t' ht' => ?_⟩
      · rw [hpast t le_rfl, ← past_start hj.le hlt]
        exact hready
      · rw [hpast t' ht'.le, ← past_start hj.le (ht'.trans hlt)]
        exact hnot t' ht'

end Schedule

/-- **A loop follows a schedule** if its attempts are done exactly when the schedule finds the job
ready. -/
theorem Poll.loop_schedule {ε σ : Type} {jobs : Poll ε σ} {S : Schedule}
    {R : ℕ → ℕ → Progress → σ → Prop} (hnumber : S.number = jobs.number)
    (hdone : ∀ round i f s, R round i f s → ∀ j < jobs.number,
      (jobs.isDone j s = true ↔ f j ≠ none))
    (hstep : ∀ round i s answer s', i < jobs.number → R round i (S.reached round i) s →
      S.reached round i i = none → jobs.attempt i s = .ok answer s' → answer ≠ .fails →
      R round (i + 1) (S.reached round (i + 1)) s' ∧
        (answer = .done ↔ S.ready round i (S.reached round i) = true))
    (hpass : ∀ round i f s, R round i f s → f i ≠ none → R round (i + 1) f s)
    (hround : ∀ round f s, R round jobs.number f s → R (round + 1) 0 f s)
    (hrounds : 0 < jobs.rounds) {fuel : ℕ} {s s' : σ} (h : R 0 0 (fun _ => none) s)
    (hloop : jobs.loop fuel 0 0 0 s = .ok (some true) s') :
    S.Complete (S.start jobs.rounds) ∧ ∃ round i, R round i (S.start jobs.rounds) s' := by
  have hopen : ∀ j < jobs.number, jobs.isDone j s = false := fun j hj =>
    Bool.eq_false_iff.mpr fun hj' => (hdone 0 0 _ s h j hj).mp hj' rfl
  obtain ⟨⟨round, i, ⟨hlt, hi, hR⟩⟩, hall⟩ := loop_ok_induction
    (R := fun round i s => round < jobs.rounds ∧ i ≤ jobs.number ∧ R round i (S.reached round i) s)
    (fun round i s answer s' hi h hopen hattempt hanswer => by
      obtain ⟨hlt, -, hR⟩ := h
      have hnone : S.reached round i i = none :=
        not_not.mp fun hne => Bool.eq_false_iff.mp hopen ((hdone round i _ s hR i hi).mpr hne)
      obtain ⟨hR', hready⟩ := hstep round i s answer s' hi hR hnone hattempt hanswer
      refine ⟨⟨hlt, hi, hR'⟩, ?_, fun j hj hne => ?_⟩
      · rw [hdone round (i + 1) _ s' hR' i hi, hready]
        exact Schedule.visit_ne_none_iff hnone
      · rw [Bool.eq_iff_iff, hdone round (i + 1) _ s' hR' j hj, hdone round i _ s hR j hj,
          Schedule.reached_succ, Schedule.visit_of_ne hne])
    (fun round i s hi h hdone' => by
      obtain ⟨hlt, -, hR⟩ := h
      have hne : S.reached round i i ≠ none := (hdone round i _ s hR i hi).mp hdone'
      refine ⟨hlt, hi, ?_⟩
      rw [Schedule.reached_succ, Schedule.visit_of_done hne]
      exact hpass round i _ s hR hne)
    (fun round s hlast h => by
      obtain ⟨hlt, -, hR⟩ := h
      rw [← hnumber, Schedule.reached_number, hnumber] at hR
      exact ⟨by omega, Nat.zero_le _, hround round _ s hR⟩)
    (Nat.eq_zero_or_pos _).symm ⟨hrounds, Nat.zero_le _, h⟩ (doneCount_eq_zero hopen).symm hloop
  have hcomplete : S.Complete (S.reached round i) := fun j hj =>
    (hdone round i _ s' hR j (hnumber ▸ hj)).mp (hall j (hnumber ▸ hj))
  rw [hcomplete.start (hnumber ▸ hi) hlt]
  exact ⟨hcomplete, round, i, hR⟩

end Aloe.Lib
