import Aloe.Crm.Trellis
import Aloe.Lib.Fallible
import Mathlib.Tactic.Linarith
import Mathlib.Tactic.Ring

/-!
# The invariant of the trellis

An assignment of processors to the tasks is charged in the order of the tasks, each task's
computation first and then its flows to all the tasks before it. `Holds f n ch` says that the first
`n` tasks can be mapped as `f` says and that `ch` is their cost and what they leave. The levels of
the window visit assignments of the next tasks and keep the cheapest. What is kept when the window
reaches the last task is a charge of all tasks. This is stated under a condition `Q` on the problem,
which makes the charge at the window's start one that holds.

Every node stands for one assignment of the tasks up to it, which its row of `PP` spells out and
its chosen edges lead back along; while its cost is finite, its saved rows are what that assignment
leaves. A node whose cost is exactly `infinite - 1` passes the test for a finite cost without having
been saved. The trellis is `Exact` if no path goes on from such a node at a finite cost; where no
cost is negative (`NonnegCosts`), none can.
-/

namespace Aloe.Crm

open Lib List Function

structure Charge where
  cost : ℚ
  pLeft : Row
  bLeft : Row

namespace Problem

variable (pb : Problem)

def addFlow (f : ℕ → ℕ) (t k : ℕ) (acc : ℚ × Row) (s : ℕ) : ℚ × Row :=
  if f s = k then acc
  else
    let r := pb.costCommU (pb.flow s t) (pb.flow t s) acc.2 (f s) k
    (acc.1 + r.1, r.2)

/-- The charge for the flows between task `t` on `k` and the first `s` tasks. -/
def flowsTo (f : ℕ → ℕ) (t k s : ℕ) (bLeft : Row) : ℚ × Row :=
  (List.range s).foldl (pb.addFlow f t k) (0, bLeft)

def flows (f : ℕ → ℕ) (t k : ℕ) (bLeft : Row) : ℚ × Row := pb.flowsTo f t k t bLeft

def comp (t k : ℕ) (pLeft : Row) : ℚ × Row := costCompU pb.q1 (pb.demand t) pLeft (pb.force t) k

/-- Task `t` may be mapped to `k` and finds there what it needs. -/
def Accepts (t k : ℕ) (pLeft : Row) : Prop :=
  (0 ≤ pb.force t → pb.force t = k) ∧ ¬ exceeds (pb.demand t) (pLeft k)

def chargeTask (f : ℕ → ℕ) (t : ℕ) (ch : Charge) : Charge :=
  let comp := pb.comp t (f t) ch.pLeft
  let comm := pb.flows f t (f t) ch.bLeft
  ⟨comp.1 + (ch.cost + comm.1), comp.2, comm.2⟩

/-- The first `n` tasks, from the resources `start`. -/
def charge (start : Charge) (f : ℕ → ℕ) : ℕ → Charge
  | 0 => start
  | n + 1 => pb.chargeTask f n (charge start f n)

/-- The loops over the flows of task `t` come to task `s`. Before the window they go on at a cost of
exactly `infinite - 1`, in it and at the end they do not. -/
def Reaches (w : ℕ) (f : ℕ → ℕ) (t k s : ℕ) (bLeft : Row) : Prop :=
  ∀ s', s' ≤ s → (pb.flowsTo f t k s' bLeft).1 ≤ infinite - 1 ∧
    (s' = t ∨ pb.tasks ≤ s' + w → (pb.flowsTo f t k s' bLeft).1 < infinite - 1)

/-- The trellis goes on from the assignment `f` of the tasks up to `t`. -/
structure Level (start : Charge) (w : ℕ) (f : ℕ → ℕ) (t : ℕ) : Prop where
  lt : f t < pb.processors
  accepts : pb.Accepts t (f t) (pb.charge start f t).pLeft
  comp : 1 ≤ t → (pb.comp t (f t) (pb.charge start f t).pLeft).1 < infinite - 1
  comm : pb.Reaches w f t (f t) t (pb.charge start f t).bLeft
  cost : 1 ≤ t → (pb.charge start f (t + 1)).cost < infinite - 1

/-- The first `n` tasks can be mapped as `f` says, with `ch` as their charge. -/
structure Holds (start : Charge) (w : ℕ) (f : ℕ → ℕ) (n : ℕ) (ch : Charge) : Prop where
  level : ∀ t, t < n → pb.Level start w f t
  charge_eq : pb.charge start f n = ch

variable {pb} {f g : ℕ → ℕ} {n t k w : ℕ} {start ch : Charge}

/-! ## Assignments that agree -/

lemma addFlow_congr {ss : List ℕ} (h : ∀ s ∈ ss, f s = g s) (acc : ℚ × Row) :
    ss.foldl (pb.addFlow f t k) acc = ss.foldl (pb.addFlow g t k) acc := by
  induction ss generalizing acc with
  | nil => rfl
  | cons s ss ih =>
    rw [foldl_cons, foldl_cons, ih fun s' hs' => h s' (mem_cons_of_mem s hs'),
      addFlow, addFlow, h s mem_cons_self]

lemma flowsTo_congr {s : ℕ} (h : ∀ s', s' < s → f s' = g s') (bLeft : Row) :
    pb.flowsTo f t k s bLeft = pb.flowsTo g t k s bLeft :=
  addFlow_congr (fun s' hs' => h s' (mem_range.mp hs')) _

lemma flows_congr (h : ∀ s, s < t → f s = g s) (bLeft : Row) :
    pb.flows f t k bLeft = pb.flows g t k bLeft :=
  flowsTo_congr h bLeft

lemma charge_congr (h : ∀ s, s < n → f s = g s) : pb.charge start f n = pb.charge start g n := by
  induction n with
  | zero => rfl
  | succ n ih =>
    have hlt : ∀ s, s < n → f s = g s := fun s hs => h s (Nat.lt_succ_of_lt hs)
    rw [charge, charge, ih hlt, chargeTask, chargeTask, h n (Nat.lt_succ_self n), flows_congr hlt]

lemma Level.congr (hf : pb.Level start w f t) (h : ∀ s, s ≤ t → f s = g s) :
    pb.Level start w g t := by
  have hbefore : ∀ s, s < t → f s = g s := fun s hs => h s hs.le
  have hcharge : pb.charge start f t = pb.charge start g t := charge_congr hbefore
  have hnext : pb.charge start f (t + 1) = pb.charge start g (t + 1) :=
    charge_congr fun s hs => h s (Nat.le_of_lt_succ hs)
  obtain ⟨hlt, haccepts, hcomp, hcomm, hcost⟩ := hf
  rw [h t (le_refl t)] at hlt haccepts hcomp hcomm
  rw [hcharge] at haccepts hcomp hcomm
  rw [hnext] at hcost
  refine ⟨hlt, haccepts, hcomp, fun s hs => ?_, hcost⟩
  rw [← flowsTo_congr fun s' hs' => hbefore s' (lt_of_lt_of_le hs' hs)]
  exact hcomm s hs

lemma Holds.congr (hf : pb.Holds start w f n ch) (h : ∀ s, s < n → f s = g s) :
    pb.Holds start w g n ch where
  level t ht := (hf.level t ht).congr fun s hs => h s (lt_of_le_of_lt hs ht)
  charge_eq := by
    rw [← charge_congr h]
    exact hf.charge_eq

lemma Holds.lt (hf : pb.Holds start w f n ch) (t : ℕ) (ht : t < n) : f t < pb.processors :=
  (hf.level t ht).lt

lemma Holds.zero : pb.Holds start w f 0 start :=
  ⟨fun _ ht => absurd ht (Nat.not_lt_zero _), rfl⟩

lemma Holds.upTo (hf : pb.Holds start w f n ch) {m : ℕ} (hm : m ≤ n) :
    pb.Holds start w f m (pb.charge start f m) :=
  ⟨fun t ht => hf.level t (lt_of_lt_of_le ht hm), rfl⟩

/-- **Step lemma.** One more task that the trellis goes on from. -/
theorem Holds.extend (hf : pb.Holds start w f n ch) (hk : k < pb.processors)
    (haccepts : pb.Accepts n k ch.pLeft)
    (hcomp : 1 ≤ n → (pb.comp n k ch.pLeft).1 < infinite - 1)
    (hcomm : pb.Reaches w f n k n ch.bLeft)
    (hcost : 1 ≤ n → (pb.comp n k ch.pLeft).1 + (ch.cost + (pb.flows f n k ch.bLeft).1) <
      infinite - 1) :
    pb.Holds start w (Function.update f n k) (n + 1)
      ⟨(pb.comp n k ch.pLeft).1 + (ch.cost + (pb.flows f n k ch.bLeft).1),
        (pb.comp n k ch.pLeft).2, (pb.flows f n k ch.bLeft).2⟩ := by
  have hsame : ∀ s, s < n → f s = Function.update f n k s := by
    intro s hs
    rw [Function.update_of_ne (ne_of_lt hs)]
  have hg := hf.congr hsame
  have hcharge : pb.charge start (Function.update f n k) (n + 1) =
      ⟨(pb.comp n k ch.pLeft).1 + (ch.cost + (pb.flows f n k ch.bLeft).1),
        (pb.comp n k ch.pLeft).2, (pb.flows f n k ch.bLeft).2⟩ := by
    rw [charge, hg.charge_eq, chargeTask, Function.update_self, ← flows_congr hsame]
  refine ⟨fun t ht => ?_, hcharge⟩
  rcases Nat.lt_succ_iff_lt_or_eq.mp ht with hlt | rfl
  · exact hg.level t hlt
  · rw [← hg.charge_eq] at haccepts hcomp hcomm hcost
    refine ⟨?_, ?_, ?_, fun s hs => ?_, fun ht => ?_⟩
    · rwa [Function.update_self]
    · rwa [Function.update_self]
    · rwa [Function.update_self]
    · rw [Function.update_self, ← flowsTo_congr fun s' hs' => hsame s' (lt_of_lt_of_le hs' hs)]
      exact hcomm s hs
    · rw [hcharge, ← hg.charge_eq]
      exact hcost ht

/-! ## The computations of one level -/

lemma inBounds_ok {i m : ℕ} (h : i < m) : inBounds i m = .ok () := by
  rw [inBounds, if_pos h]

lemma inBounds_eq_ok {i n : ℕ} : inBounds i n = .ok () ↔ i < n := by
  unfold inBounds
  split
  · next h => exact iff_of_true rfl h
  · next h => exact iff_of_false (fun heq => by cases heq) h

lemma known_some {α : Type} (a : α) : known (some a) = .ok a := rfl

lemma accepts_of_comp {pLeft : Row} (h : (pb.comp t k pLeft).1 < infinite) :
    pb.Accepts t k pLeft := by
  unfold comp costCompU at h
  split at h
  · exact absurd h (lt_irrefl _)
  · next hforce =>
    split at h
    · exact absurd h (lt_irrefl _)
    · next hleft =>
      refine ⟨fun hpos => ?_, hleft⟩
      by_contra hne
      exact hforce ⟨hpos, hne⟩

lemma comp_of_accepts {pLeft : Row} (h : pb.Accepts t k pLeft) : pb.comp t k pLeft =
      (quotient (pb.q1 * pb.demand t) (pLeft k), pLeft.take k (pb.demand t)) := by
  unfold comp costCompU
  rw [if_neg fun hforce => hforce.2 (h.1 hforce.1), if_neg h.2]

lemma comm_ok {s p : ℕ} {bLeft : Row} (hp : p < pb.processors) (hs : s < pb.tasks)
    (ht : t < pb.tasks) :
    pb.comm t k s p bLeft = .ok (pb.costCommU (pb.flow s t) (pb.flow t s) bLeft p k) := by
  rw [comm, inBounds_ok hp, inBounds_ok hs, inBounds_ok ht]
  rfl

/-- The flows of a list of tasks are charged to the end, and what they cost meets `B` on the way. -/
structure Charged (pb : Problem) (B : ℚ → Prop) (f : ℕ → ℕ) (t k : ℕ) (ss : List ℕ)
    (c r : ℚ × Row) : Prop where
  eq : r = ss.foldl (pb.addFlow f t k) c
  along : ∀ ss', ss' <+: ss → B (ss'.foldl (pb.addFlow f t k) c).1

lemma Charged.nil {B : ℚ → Prop} {f : ℕ → ℕ} {c : ℚ × Row} (hc : B c.1) :
    pb.Charged B f t k [] c c := by
  refine ⟨rfl, fun ss' hss' => ?_⟩
  rw [prefix_nil.mp hss']
  exact hc

lemma Charged.cons {B : ℚ → Prop} {f : ℕ → ℕ} {s : ℕ} {ss : List ℕ} {c c' r : ℚ × Row} (hc : B c.1)
    (hstep : pb.addFlow f t k c s = c') (h : pb.Charged B f t k ss c' r) :
    pb.Charged B f t k (s :: ss) c r := by
  subst hstep
  refine ⟨h.eq, fun ss' hss' => ?_⟩
  rcases prefix_cons_iff.mp hss' with rfl | ⟨rest, rfl, hrest⟩
  · exact hc
  · exact h.along rest hrest

lemma commBefore_spec (f : ℕ → ℕ) (k level : ℕ) (ss : List ℕ) (ht : t < pb.tasks)
    (hss : ∀ s ∈ ss, f s < pb.processors ∧ s < pb.tasks) (cost : ℚ) (bLeft : Row)
    (hcost : cost ≤ infinite - 1) :
    ∃ r, pb.commBefore f t k level ss cost bLeft = .ok r ∧ (r.1 < infinite - 1 →
      pb.Charged (· ≤ infinite - 1) f t k ss (cost, bLeft) r) := by
  induction ss generalizing cost bLeft with
  | nil => exact ⟨_, rfl, fun _ => .nil hcost⟩
  | cons s ss ih =>
    have ih := ih fun s' hs' => hss s' (mem_cons_of_mem s hs')
    obtain ⟨hp, hs⟩ := hss s mem_cons_self
    simp only [commBefore]
    by_cases hsame : f s = k
    · obtain ⟨r, hr, hspec⟩ := ih cost bLeft hcost
      rw [if_pos hsame]
      exact ⟨r, hr, fun hlt => .cons hcost (if_pos hsame) (hspec hlt)⟩
    · rw [if_neg hsame, comm_ok hp hs ht]
      simp only [bind_ok_eq]
      split
      · next hbreak =>
        refine ⟨_, rfl, fun hlt => ?_⟩
        simp only at hlt
        split at hlt <;> simp only [infinite] at * <;> linarith
      · next hgoes =>
        obtain ⟨r, hr, hspec⟩ := ih _ _ (not_lt.mp hgoes)
        exact ⟨r, hr, fun hlt => .cons hcost (if_neg hsame) (hspec hlt)⟩

lemma commWithin_spec (f : ℕ → ℕ) (k : ℕ) (window : List ℕ) (ht : t < pb.tasks)
    (hwindow : ∀ s ∈ window, f s < pb.processors ∧ s < pb.tasks) (cost : ℚ) (bLeft : Row) :
    ∃ r, pb.commWithin t k (window.map fun s => (s, f s)) cost bLeft = .ok r ∧
      (r.1 < infinite - 1 → pb.Charged (· < infinite - 1) f t k window (cost, bLeft) r) := by
  induction window generalizing cost bLeft with
  | nil => exact ⟨_, rfl, fun hlt => .nil hlt⟩
  | cons s window ih =>
    have ih := ih fun s' hs' => hwindow s' (mem_cons_of_mem s hs')
    obtain ⟨hp, hs⟩ := hwindow s mem_cons_self
    simp only [map_cons, commWithin, eq_comm (a := k)]
    by_cases hsame : f s = k
    · obtain ⟨r, hr, hspec⟩ := ih cost bLeft
      rw [if_pos hsame]
      exact ⟨r, hr, fun hlt => .cons ((hspec hlt).along [] nil_prefix) (if_pos hsame) (hspec hlt)⟩
    · rw [if_neg hsame]
      split
      · next hcost =>
        rw [comm_ok hp hs ht]
        obtain ⟨r, hr, hspec⟩ := ih (cost + _) _
        exact ⟨r, hr, fun hlt => .cons hcost (if_neg hsame) (hspec hlt)⟩
      · next hge =>
        obtain ⟨r, hr, hspec⟩ := ih cost bLeft
        exact ⟨r, hr, fun hlt => absurd ((hspec hlt).along [] nil_prefix) hge⟩

section Level

variable {pre : ℕ → ℕ} {i l : ℕ}

lemma range'_initial (a : ℕ) {m n : ℕ} (h : m ≤ n) : List.range' a m <+: List.range' a n := by
  refine ⟨List.range' (a + m) (n - m), ?_⟩
  rw [range'_append_1, Nat.add_sub_cancel' h]

lemma flowsTo_add (f : ℕ → ℕ) (t k i l : ℕ) (bLeft : Row) : pb.flowsTo f t k (i + l) bLeft =
      (List.range' i l).foldl (pb.addFlow f t k) (pb.flowsTo f t k i bLeft) := by
  rw [flowsTo, flowsTo, range_eq_range', range_eq_range', ← range'_append_1, foldl_append, zero_add]

/-- One level of the window computes what the next task is charged. The assignment `f`
gives the processors before the window and in it. -/
theorem levelCost_spec (k : ℕ) (costBefore : ℚ) (pLeft bLeft : Row)
    (hpre : ∀ s, s < i → pre s = f s) (hlt : ∀ s, s < i + l → f s < pb.processors)
    (hfits : i + w ≤ pb.tasks) (ht : i + l < pb.tasks) :
    ∃ r, pb.levelCost pre i ((List.range' i l).map fun s => (s, f s)) k costBefore pLeft bLeft =
        .ok r ∧ r.2.1 = (pb.comp (i + l) k pLeft).2 ∧
      (r.1 < infinite - 1 → (pb.comp (i + l) k pLeft).1 < infinite - 1 ∧
        pb.Reaches w f (i + l) k (i + l) bLeft ∧
        r.2.2 = some (pb.flows f (i + l) k bLeft).2 ∧
        r.1 = (pb.comp (i + l) k pLeft).1 + (costBefore + (pb.flows f (i + l) k bLeft).1)) := by
  have hlen : ((List.range' i l).map fun s => (s, f s)).length = l := by simp
  rw [levelCost, hlen, inBounds_ok ht, bind_ok_eq]
  show ∃ r, (if (pb.comp (i + l) k pLeft).1 < infinite - 1 then _ else _) = _ ∧ _
  split
  · next hcomp =>
    obtain ⟨⟨c1, b1⟩, hr1, hspec1⟩ := commBefore_spec pre k (l + 1) (List.range i) ht (by
        intro s hs
        have hs := mem_range.mp hs
        exact ⟨hpre s hs ▸ hlt s (by omega), by omega⟩) 0 bLeft (by norm_num [infinite])
    obtain ⟨⟨c2, b2⟩, hr2, hspec2⟩ := commWithin_spec f k (List.range' i l) ht (by
        intro s hs
        have hs := mem_range'_1.mp hs
        exact ⟨hlt s hs.2, by omega⟩) c1 b1
    simp only [hr1, hr2, bind_ok_eq]
    split
    · next hcomm =>
      -- neither loop was left early
      obtain ⟨heq2, hwithin⟩ := hspec2 hcomm
      obtain ⟨heq1, hbefore⟩ := hspec1 (hwithin [] nil_prefix)
      have hfirst : (c1, b1) = pb.flowsTo f (i + l) k i bLeft := by
        rw [heq1, flowsTo, addFlow_congr (f := pre) fun s hs => hpre s (mem_range.mp hs)]
      have hflows : (c2, b2) = pb.flows f (i + l) k bLeft := by
        rw [flows, flowsTo_add, ← hfirst, heq2]
      have hreaches : pb.Reaches w f (i + l) k (i + l) bLeft := by
        intro s hs
        rcases Nat.lt_or_ge s i with hlt | hge
        · have hle := hbefore (List.range s) (by
            rw [range_eq_range', range_eq_range']
            exact range'_initial 0 hlt.le)
          rw [addFlow_congr (g := f) fun s' hs' =>
            hpre s' ((mem_range.mp hs').trans hlt)] at hle
          exact ⟨hle, fun hwindow => absurd hwindow (by omega)⟩
        · obtain ⟨d, rfl⟩ := Nat.exists_eq_add_of_le hge
          have hless := hwithin (List.range' i d) (range'_initial i (by omega))
          rw [hfirst, ← flowsTo_add] at hless
          exact ⟨hless.le, fun _ => hless⟩
      refine ⟨_, rfl, rfl, fun _ => ⟨hcomp, hreaches, ?_, ?_⟩⟩
      · rw [← hflows]
      · rw [← hflows]
        rfl
    · refine ⟨_, rfl, rfl, fun h => ?_⟩
      simp only [infinite] at h
      norm_num at h
  · next hcomp => exact ⟨_, rfl, rfl, fun h => absurd h hcomp⟩

lemma levelCost_first (f : ℕ → ℕ) (k : ℕ) (costBefore : ℚ) (pLeft bLeft : Row)
    (hlt : ∀ s, s < i → f s < pb.processors) (hi : i < pb.tasks) :
    ∃ r, pb.levelCost f i [] k costBefore pLeft bLeft = .ok r ∧
      (r.1 < infinite - 1 → r.2.2 = some (pb.flows f i k bLeft).2 ∧
        r.1 = (pb.comp i k pLeft).1 + (costBefore + (pb.flows f i k bLeft).1)) := by
  obtain ⟨r, hr, -, hspec⟩ := levelCost_spec (l := 0) (w := 0) k costBefore pLeft bLeft
    (fun s _ => (rfl : f s = f s)) hlt hi.le hi
  exact ⟨r, hr, fun h => (hspec h).2.2⟩

/-- **Step lemma.** A level at a finite cost extends the charge by its task. -/
theorem Holds.next {costBefore : ℚ} {pLeft bLeft : Row} {r : ℚ × Row × Option Row}
    (hf : pb.Holds start w f (i + l) ⟨costBefore, pLeft, bLeft⟩)
    (hk : k < pb.processors) (hpre : ∀ s, s < i → pre s = f s) (hfits : i + w ≤ pb.tasks)
    (ht : i + l < pb.tasks)
    (hr : pb.levelCost pre i ((List.range' i l).map fun s => (s, f s)) k costBefore pLeft bLeft =
      .ok r) (hcost : r.1 < infinite - 1) :
    ∃ b, r.2.2 = some b ∧
      pb.Holds start w (Function.update f (i + l) k) (i + l + 1) ⟨r.1, r.2.1, b⟩ := by
  obtain ⟨r', hr', hleft, hspec⟩ := levelCost_spec k costBefore pLeft bLeft hpre hf.lt hfits ht
  rw [hr] at hr'
  cases hr'
  obtain ⟨hcomp, hcomm, hb, hsum⟩ := hspec hcost
  refine ⟨_, hb, ?_⟩
  rw [hsum] at hcost
  rw [hsum, hleft]
  exact hf.extend hk (accepts_of_comp (lt_of_lt_of_le hcomp (by simp [infinite])))
    (fun _ => hcomp) hcomm fun _ => hcost

end Level

end Problem

/-! ## The levels and the nodes -/

namespace Problem

variable {pb : Problem} {start : Charge} {Q : Prop} {w i k1 : ℕ} {f1 : ℕ → ℕ}

/-- A charge of all tasks that starts as `f1` up to task `i`, with the processors of the
other tasks in `is`. -/
def Found (pb : Problem) (start : Charge) (Q : Prop) (w i : ℕ) (f₁ : ℕ → ℕ) (cost : ℚ)
    (is : List ℕ) (p b : Option Row) : Prop :=
  ∃ g pLeft bLeft, (∀ s, s ≤ i → g s = f₁ s) ∧ (∀ s, s < pb.tasks → g s < pb.processors) ∧
    is = (List.range' (i + 1) (w - 1)).map g ∧ p = some pLeft ∧ b = some bLeft ∧
    (Q → pb.Holds start w g pb.tasks ⟨cost, pLeft, bLeft⟩)

/-- The invariant of the search for the paths through `k1`. -/
def Searched (pb : Problem) (start : Charge) (Q : Prop) (w i k1 : ℕ) (f₁ : ℕ → ℕ)
    (sc : Scratch) : Prop :=
  ∃ cost, sc.costwAux k1 = some cost ∧ cost ≤ infinite ∧
    (cost < infinite - 1 → i + w = pb.tasks →
      pb.Found start Q w i f₁ cost (sc.indxAux.take (w - 1)) (sc.pRemL k1) (sc.bRemL k1))

variable {pLeft : Row} {sc : Scratch} {f : ℕ → ℕ} {l k : ℕ}

lemma decideLocal_spec {window : List (ℕ × ℕ)} {cost : ℚ} {b : Option Row}
    (hsc : pb.Searched start Q w i k1 f1 sc)
    (hpath : cost < infinite - 1 → i + w = pb.tasks → ((window.drop 1).map (·.2)).length = w - 1 ∧
      pb.Found start Q w i f1 cost ((window.drop 1).map (·.2)) (some pLeft) b) :
    ∃ sc', pb.decideLocal w i k1 window cost pLeft b sc = .ok sc' ∧
      pb.Searched start Q w i k1 f1 sc' := by
  obtain ⟨best, hbest, hle, hfound⟩ := hsc
  rw [decideLocal, hbest, known_some, bind_ok_eq]
  split
  · next hcheaper =>
    have hlt : cost ≤ infinite := by
      simp only [threshold] at hcheaper
      linarith
    split
    · next hlast =>
      refine ⟨_, rfl, cost, update_self .., hlt, fun hfinite _ => ?_⟩
      obtain ⟨hlen, hfound⟩ := hpath hfinite hlast
      simp only [update_self]
      rwa [take_append_of_le_length (le_of_eq hlen.symm), ← hlen, take_length]
    · next hlast =>
      exact ⟨_, rfl, cost, update_self .., hlt, fun _ heq => absurd heq hlast⟩
  · exact ⟨sc, rfl, best, hbest, hle, hfound⟩

lemma Searched.bTempL (h : pb.Searched start Q w i k1 f1 sc)
    (t : ℕ → Option Row) : pb.Searched start Q w i k1 f1 { sc with bTempL := t } := h

lemma window_append : ((List.range' i l).map fun s => (s, f s)) ++ [(i + l, k)] =
      (List.range' i (l + 1)).map fun s => (s, Function.update f (i + l) k s) := by
  rw [range'_1_concat, map_append, map_cons, map_nil, update_self]
  congr 1
  refine map_congr_left fun s hs => ?_
  rw [update_of_ne (ne_of_lt (mem_range'_1.mp hs).2)]

lemma window_drop : (((List.range' i (l + 1)).map fun s => (s, f s)).drop 1).map (·.2) =
      (List.range' (i + 1) l).map f := by
  rw [range'_succ, map_cons, drop_one, tail_cons, map_map]
  rfl

variable {pre : ℕ → ℕ} {costBefore : ℚ} {bLeft : Row}

lemma levelCost_round (hfits : i + w ≤ pb.tasks) (hl : l < w)
    (hk : k < pb.processors) (hpre : ∀ s, s < i → pre s = f s)
    (hlt : ∀ s, s < i + l → f s < pb.processors)
    (hQ : Q → pb.Holds start w f (i + l) ⟨costBefore, pLeft, bLeft⟩) :
    ∃ cost p b, pb.levelCost pre i ((List.range' i l).map fun s => (s, f s)) k costBefore pLeft
        bLeft = .ok (cost, p, b) ∧
      (cost < infinite - 1 → ∃ bLeft', b = some bLeft' ∧
        (Q → pb.Holds start w (Function.update f (i + l) k) (i + l + 1) ⟨cost, p, bLeft'⟩)) := by
  have ht : i + l < pb.tasks := by omega
  obtain ⟨⟨cost, p, b⟩, hr, -, hspec⟩ := levelCost_spec k costBefore pLeft bLeft hpre hlt hfits ht
  refine ⟨cost, p, b, hr, fun hfinite => ⟨_, (hspec hfinite).2.2.1, fun hq => ?_⟩⟩
  obtain ⟨b', hb', hholds⟩ := (hQ hq).next hk hpre hfits ht hr hfinite
  have hsame : b' = _ := Option.some.inj (hb'.symm.trans (hspec hfinite).2.2.1)
  rw [← hsame]
  exact hholds

lemma update_lt {n : ℕ} (hk : k < pb.processors) (hlt : ∀ s, s < n → f s < pb.processors) :
    ∀ s, s < n + 1 → Function.update f n k s < pb.processors := by
  intro s hs
  rcases Nat.lt_succ_iff_lt_or_eq.mp hs with h | rfl
  · rw [update_of_ne (ne_of_lt h)]
    exact hlt s h
  · rwa [update_self]

/-- **Run lemma.** The search of the levels from the current one on. -/
theorem levels_spec (hfits : i + w ≤ pb.tasks) (hpre : ∀ s, s < i → pre s = f1 s)
    {left : ℕ} (hl : l + 1 + left + 1 = w)
    (hf1 : ∀ s, s ≤ i → f s = f1 s) (hlt : ∀ s, s < i + (l + 1) → f s < pb.processors)
    (hQ : Q → pb.Holds start w f (i + (l + 1)) ⟨costBefore, pLeft, bLeft⟩)
    (hsc : pb.Searched start Q w i k1 f1 sc) :
    ∃ sc', pb.levels w pre i k1 left ((List.range' i (l + 1)).map fun s => (s, f s)) costBefore
        pLeft bLeft sc = .ok sc' ∧ pb.Searched start Q w i k1 f1 sc' := by
  induction left generalizing l f costBefore pLeft bLeft sc with
  | zero =>
    rw [levels]
    refine foldlM_range_total (fun _ => pb.Searched start Q w i k1 f1) ?_ hsc
    intro k sc hk hsc
    obtain ⟨cost, p, b, hr, hfinite⟩ := levelCost_round hfits (by omega) hk
      (fun s hs => (hpre s hs).trans (hf1 s (le_of_lt hs)).symm) hlt hQ
    simp only [hr, bind_ok_eq, length_map, length_range', window_append]
    refine decideLocal_spec ?_ ?_
    · cases b with
      | none => exact hsc
      | some b => exact hsc.bTempL _
    · intro hcost hlast
      obtain ⟨b', rfl, hholds⟩ := hfinite hcost
      have hall : i + (l + 1) + 1 = pb.tasks := by omega
      have hw : w - 1 = l + 1 := by omega
      rw [window_drop]
      refine ⟨by simp [hw], Function.update f (i + (l + 1)) k, p, b', ?_, ?_, by rw [hw], rfl,
        update_self .., ?_⟩
      · intro s hs
        rw [update_of_ne (by omega), hf1 s hs]
      · rw [← hall]
        exact update_lt hk hlt
      · rw [← hall]
        exact hholds
  | succ left ih =>
    rw [levels]
    refine foldlM_range_total (fun _ => pb.Searched start Q w i k1 f1) ?_ hsc
    intro k sc hk hsc
    obtain ⟨cost, p, b, hr, hfinite⟩ := levelCost_round hfits (by omega) hk
      (fun s hs => (hpre s hs).trans (hf1 s (le_of_lt hs)).symm) hlt hQ
    simp only [hr, bind_ok_eq, length_map, length_range', window_append]
    split
    · next hcost =>
      obtain ⟨b', rfl, hholds⟩ := hfinite hcost
      simp only [update_self, known_some, bind_ok_eq]
      refine ih (l := l + 1) (by omega) ?_ (update_lt hk hlt) hholds (hsc.bTempL _)
      intro s hs
      have hne : s ≠ i + (l + 1) := by omega
      exact (update_of_ne hne k f).trans (hf1 s hs)
    · next hcost =>
      refine decideLocal_spec ?_ fun h => absurd h hcost
      cases b with
      | none => exact hsc
      | some b => exact hsc.bTempL _

end Problem

/-! ## Nodes -/

namespace Problem

/-- The state before the step of task `i`. -/
def before (pb : Problem) (w : ℕ) (start : Charge) (i : ℕ) : Except Fault Trellis :=
  (List.range' 1 (i - 1)).foldlM (pb.step w) (pb.start start.pLeft start.bLeft)

/-- A node that costs exactly `infinite - 1` has kept the rows of another one. The step of task `i`
finds no path that goes on from it at a finite cost. -/
def NoStalePath (pb : Problem) (i : ℕ) (tr : Trellis) : Prop :=
  ∀ k j pLeft bLeft r, k < pb.processors → j < pb.processors →
    tr.aPathsU pb.processors (node pb.processors k (i - 1)) = infinite - 1 →
    tr.pTempG k = some pLeft → tr.bTempG k = some bLeft →
    pb.levelCost (tr.PP k (i - 1)) i [] j (infinite - 1) pLeft bLeft = .ok r → infinite - 1 ≤ r.1

/-- The nodes of the first task have always saved their rows. -/
def Exact (pb : Problem) (start : Charge) (w : ℕ) : Prop :=
  ∀ i tr, 2 ≤ i → i + w ≤ pb.tasks → pb.before w start i = .ok tr → pb.NoStalePath i tr

/-- Every demand is above the threshold of the comparisons, or no demand at all, and the
weights of the cost function are not negative. -/
structure NonnegCosts (pb : Problem) : Prop where
  q1_nonneg : 0 ≤ pb.q1
  q2_nonneg : 0 ≤ pb.q2
  demand : ∀ t, t < pb.tasks → threshold < pb.demand t
  flow : ∀ s t, s < pb.tasks → t < pb.tasks → pb.flow s t ≤ 0 ∨ threshold < pb.flow s t

section Nonneg

variable {pb : Problem} {x : ℚ} {t k : ℕ} {bx : ℚ} {left : Row} {a z : ℕ}

lemma quotient_nonneg {y : ℚ} (hx : 0 ≤ x) (hy : 0 ≤ y) : 0 ≤ quotient x y := by
  unfold quotient
  split
  · simp [infinite]
  · exact div_nonneg hx hy

lemma left_pos_of_not_exceeds {left : ℚ} (hx : threshold < x) (h : ¬ exceeds x left) :
    0 < left := by
  unfold exceeds at h
  linarith

lemma NonnegCosts.comp_nonneg (h : pb.NonnegCosts) (ht : t < pb.tasks)
    (left : Row) : 0 ≤ (pb.comp t k left).1 := by
  unfold comp costCompU
  split
  · simp [infinite]
  · split
    · simp [infinite]
    · next hleft =>
      have hdemand := h.demand t ht
      have hpos : 0 ≤ pb.demand t := by
        simp only [threshold] at hdemand
        linarith
      have := left_pos_of_not_exceeds hdemand hleft
      exact quotient_nonneg (mul_nonneg h.q1_nonneg hpos) this.le

lemma direct_nonneg (hq : 0 ≤ pb.q2) (hbx : threshold < bx) : 0 ≤ (pb.direct bx left a z).1 := by
  unfold direct
  split
  · simp [infinite]
  · next hleft =>
    have hpos : 0 ≤ bx := by
      simp only [threshold] at hbx
      linarith
    exact quotient_nonneg (mul_nonneg hq hpos) (left_pos_of_not_exceeds hbx hleft).le

lemma choosePath_nonneg {paths : List Path} (h : ∀ path ∈ paths, 0 ≤ path.cost) :
    0 ≤ (choosePath paths).1 := by
  refine foldlRecOn (motive := fun best : ℚ × List (ℕ × ℕ) =>
    0 ≤ best.1) paths _ (by simp [infinite]) ?_
  intro best hbest path hpath
  split
  · exact h path hpath
  · exact hbest

lemma routed_nonneg (hq : 0 ≤ pb.q2) (hbx : threshold < bx) : 0 ≤ (pb.routed bx left a z).1 := by
  have hpos : 0 ≤ bx := by
    simp only [threshold] at hbx
    linarith
  have hquotient : ∀ r, ¬ exceeds bx (left r) → 0 ≤ quotient (pb.q2 * bx) (left r) := by
    intro r hr
    exact quotient_nonneg (mul_nonneg hq hpos) (left_pos_of_not_exceeds hbx hr).le
  have hchoice : 0 ≤ (choosePath ((pb.firstHops bx left a).map (pb.secondHop bx left a z))).1 := by
    refine choosePath_nonneg fun path hpath => ?_
    obtain ⟨x, hx, rfl⟩ := mem_map.mp hpath
    have hfirst := hquotient (pb.link a x) (of_decide_eq_true (mem_filter.mp hx).2).2
    unfold secondHop
    split
    · exact hfirst
    · split
      · simp [infinite]
      · grind
  unfold routed
  simp only
  split
  · exact hchoice
  · exact hchoice

lemma NonnegCosts.costCommU_nonneg (h : pb.NonnegCosts) {s : ℕ} (hs : s < pb.tasks)
    (ht : t < pb.tasks) (left : Row) (a z : ℕ) :
    0 ≤ (pb.costCommU (pb.flow s t) (pb.flow t s) left a z).1 := by
  have hcharge : ∀ bx (left : Row) a z, threshold < bx →
      0 ≤ ((if pb.mhop = 0 then pb.direct else pb.routed) bx left a z).1 := by
    intro bx left a z hbx
    split
    · exact direct_nonneg h.q2_nonneg hbx
    · exact routed_nonneg h.q2_nonneg hbx
  unfold costCommU
  simp only
  split
  · next hpos => exact hcharge _ _ _ _ ((h.flow s t hs ht).resolve_left (not_le.mpr hpos))
  · split
    · next hpos => exact hcharge _ _ _ _ ((h.flow t s ht hs).resolve_left (not_le.mpr hpos))
    · exact le_refl _

lemma NonnegCosts.commBefore_nonneg (h : pb.NonnegCosts) {f : ℕ → ℕ} {level : ℕ} {ss : List ℕ}
    {cost : ℚ} {r : ℚ × Row} (ht : t < pb.tasks) (hcost : 0 ≤ cost)
    (hr : pb.commBefore f t k level ss cost left = .ok r) : 0 ≤ r.1 := by
  induction ss generalizing cost left with
  | nil =>
    cases hr
    exact hcost
  | cons s ss ih =>
    rw [commBefore] at hr
    split at hr
    · exact ih hcost hr
    · obtain ⟨⟨x, left'⟩, hcomm, hr⟩ := bind_eq_ok.mp hr
      obtain ⟨⟨⟩, -, hcomm⟩ := bind_eq_ok.mp hcomm
      obtain ⟨⟨⟩, hs, hcomm⟩ := bind_eq_ok.mp hcomm
      obtain ⟨⟨⟩, -, hcomm⟩ := bind_eq_ok.mp hcomm
      have hx := h.costCommU_nonneg (inBounds_eq_ok.mp hs) ht left (f s) k
      rw [Except.ok.inj hcomm] at hx
      have hsum : 0 ≤ cost + x := add_nonneg hcost hx
      simp only at hr
      split at hr
      · cases hr
        show 0 ≤ if 4 ≤ level then infinite else cost + x
        split
        · simp [infinite]
        · exact hsum
      · exact ih hsum hr

/-- Where no cost is negative, no node that is infinite is left at a finite cost. -/
theorem NonnegCosts.exact (h : pb.NonnegCosts) (start : Charge) (w : ℕ) : pb.Exact start w := by
  intro i tr _ _ _ k j pLeft bLeft r _ _ _ _ _ hr
  obtain ⟨⟨⟩, hi, hr⟩ := bind_eq_ok.mp hr
  have hi : i < pb.tasks := inBounds_eq_ok.mp hi
  have hcomp : 0 ≤ (costCompU pb.q1 (pb.demand i) pLeft (pb.force i) j).1 :=
    h.comp_nonneg (k := j) hi pLeft
  simp only [length_nil, add_zero] at hr
  split at hr
  · obtain ⟨⟨c, b⟩, hbefore, hr⟩ := bind_eq_ok.mp hr
    have hc : 0 ≤ c := h.commBefore_nonneg hi (le_refl 0) hbefore
    simp only [commWithin] at hr
    obtain ⟨⟨c', b'⟩, heq, hr⟩ := bind_eq_ok.mp hr
    cases heq
    simp only at hr
    split at hr
    · cases hr
      simp only
      linarith
    · cases hr
      simp [infinite]
  · next hinfinite =>
    cases hr
    exact not_lt.mp hinfinite

end Nonneg

/-! ## The nodes -/

section Nodes

variable (pb : Problem) (start : Charge) (w : ℕ)

/-- The assignment of node `(j, i)` and the edge it leads back along. -/
structure Traced (tr : Trellis) (i j : ℕ) : Prop where
  lt : ∀ s, s ≤ i → tr.PP j i s < pb.processors
  self : tr.PP j i i = j
  back : 0 < i → ∃ k, tr.indx j i = some k ∧ k < pb.processors ∧
    ∀ s, s < i → tr.PP j i s = tr.PP k (i - 1) s

/-- What node `(j, i)` has saved. -/
def Saved (tr : Trellis) (i j : ℕ) : Prop :=
  ∃ pLeft bLeft, tr.pTempG j = some pLeft ∧ tr.bTempG j = some bLeft ∧
    (pb.Exact start w → tr.aPathsU pb.processors (node pb.processors j i) < infinite - 1 →
      pb.Holds start w (tr.PP j i) (i + 1)
        ⟨tr.aPathsU pb.processors (node pb.processors j i), pLeft, bLeft⟩)

/-- Node `(j, i - 1)` with the tables `p` and `b`, as the step of task `i` finds it: what it has
saved is right where a path goes on from it at a finite cost. -/
def Ready (p b : ℕ → Option Row) (tr : Trellis) (i j : ℕ) : Prop :=
  ∃ pLeft bLeft, p j = some pLeft ∧ b j = some bLeft ∧
    (pb.Exact start w → tr.aPathsU pb.processors (node pb.processors j (i - 1)) ≤ infinite - 1 →
      ∀ k r, k < pb.processors →
        pb.levelCost (tr.PP j (i - 1)) i [] k
          (tr.aPathsU pb.processors (node pb.processors j (i - 1))) pLeft bLeft = .ok r →
        r.1 < infinite - 1 → pb.Holds start w (tr.PP j (i - 1)) i
          ⟨tr.aPathsU pb.processors (node pb.processors j (i - 1)), pLeft, bLeft⟩)

/-- The decision of node `(j, i)` over its window, for the assignment `f1` of the tasks up
to it. -/
def Decided (tr : Trellis) (i j : ℕ) (f₁ : ℕ → ℕ) : Prop :=
  ∃ cost, tr.costwAuxx j = some cost ∧ cost ≤ infinite ∧
    (i + w = pb.tasks → cost < infinite → ∃ is, tr.indxs j = some is ∧ (cost < infinite - 1 →
        pb.Found start (pb.Exact start w) w i f₁ cost is (tr.pRemG j) (tr.bRemG j)))

/-- What the visit of node `(j, i)` leaves alone. -/
structure Touches (i j : ℕ) (tr tr' : Trellis) : Prop where
  pTempGS : tr'.pTempGS = tr.pTempGS
  bTempGS : tr'.bTempGS = tr.bTempGS
  PP : ∀ j' i', j' ≠ j ∨ i' ≠ i → tr'.PP j' i' = tr.PP j' i'
  indx : ∀ j' i', j' ≠ j ∨ i' ≠ i → tr'.indx j' i' = tr.indx j' i'
  aPathsU : ∀ r x, x ≠ node pb.processors j i → tr'.aPathsU r x = tr.aPathsU r x
  pTempG : ∀ j', j' ≠ j → tr'.pTempG j' = tr.pTempG j'
  bTempG : ∀ j', j' ≠ j → tr'.bTempG j' = tr.bTempG j'
  costwAuxx : ∀ j', j' ≠ j → tr'.costwAuxx j' = tr.costwAuxx j'
  indxs : ∀ j', j' ≠ j → tr'.indxs j' = tr.indxs j'
  pRemG : ∀ j', j' ≠ j → tr'.pRemG j' = tr.pRemG j'
  bRemG : ∀ j', j' ≠ j → tr'.bRemG j' = tr.bRemG j'

variable {pb start w}

lemma Saved.ready {tr : Trellis} {i j : ℕ} (hj : j < pb.processors) (hi : 1 ≤ i)
    (hstale : pb.Exact start w → pb.NoStalePath i tr) (hs : pb.Saved start w tr (i - 1) j) :
    pb.Ready start w tr.pTempG tr.bTempG tr i j := by
  obtain ⟨pLeft, bLeft, hp, hb, hholds⟩ := hs
  refine ⟨pLeft, bLeft, hp, hb, fun hQ hle k r hk hr hfinite => ?_⟩
  rcases hle.lt_or_eq with hlt | heq
  · have hnode := hholds hQ hlt
    rwa [Nat.sub_add_cancel hi] at hnode
  · rw [heq] at hr
    exact absurd hfinite (not_lt.mpr (hstale hQ j k pLeft bLeft r hj hk heq hp hb hr))

lemma Touches.refl (pb : Problem) {i j : ℕ} (tr : Trellis) : pb.Touches i j tr tr :=
  ⟨rfl, rfl, fun _ _ _ => rfl, fun _ _ _ => rfl, fun _ _ _ => rfl, fun _ _ => rfl,
    fun _ _ => rfl, fun _ _ => rfl, fun _ _ => rfl, fun _ _ => rfl, fun _ _ => rfl⟩

variable {n : ℕ}

lemma node_ne {i j j' : ℕ} (h : j' ≠ j) : node n j' i ≠ node n j i := by
  unfold node
  omega

lemma node_before_ne {i j k : ℕ} (hi : 1 ≤ i) (hk : k < n) : node n k (i - 1) ≠ node n j i := by
  obtain ⟨i, rfl⟩ := Nat.exists_eq_add_of_le' hi
  unfold node
  rw [Nat.add_sub_cancel, Nat.succ_mul]
  omega

namespace Touches

variable {i j : ℕ} {tr tr' tr'' : Trellis}

lemma trans (h : pb.Touches i j tr tr') (h' : pb.Touches i j tr' tr'') :
    pb.Touches i j tr tr'' where
  pTempGS := h'.pTempGS.trans h.pTempGS
  bTempGS := h'.bTempGS.trans h.bTempGS
  PP j' i' hne := (h'.PP j' i' hne).trans (h.PP j' i' hne)
  indx j' i' hne := (h'.indx j' i' hne).trans (h.indx j' i' hne)
  aPathsU r x hne := (h'.aPathsU r x hne).trans (h.aPathsU r x hne)
  pTempG j' hne := (h'.pTempG j' hne).trans (h.pTempG j' hne)
  bTempG j' hne := (h'.bTempG j' hne).trans (h.bTempG j' hne)
  costwAuxx j' hne := (h'.costwAuxx j' hne).trans (h.costwAuxx j' hne)
  indxs j' hne := (h'.indxs j' hne).trans (h.indxs j' hne)
  pRemG j' hne := (h'.pRemG j' hne).trans (h.pRemG j' hne)
  bRemG j' hne := (h'.bRemG j' hne).trans (h.bRemG j' hne)

variable {j' : ℕ}

section

variable (h : pb.Touches i j tr tr')
include h

lemma traced {i' : ℕ} (hi : i' ≤ i) (hne : j' ≠ j ∨ i' ≠ i)
    (ht : pb.Traced tr i' j') : pb.Traced tr' i' j' where
  lt s hs := by
    rw [h.PP j' i' hne]
    exact ht.lt s hs
  self := by
    rw [h.PP j' i' hne]
    exact ht.self
  back hpos := by
    obtain ⟨k, hk, hlt, hPP⟩ := ht.back hpos
    refine ⟨k, by rw [h.indx j' i' hne, hk], hlt, fun s hs => ?_⟩
    rw [h.PP j' i' hne, h.PP k (i' - 1) (.inr (by omega))]
    exact hPP s hs

lemma ready (hi : 1 ≤ i) (hj' : j' < pb.processors)
    (hs : pb.Ready start w tr.pTempGS tr.bTempGS tr i j') :
    pb.Ready start w tr'.pTempGS tr'.bTempGS tr' i j' := by
  unfold Ready
  rw [h.pTempGS, h.bTempGS, h.PP j' (i - 1) (.inr (by omega)),
    h.aPathsU _ _ (node_before_ne hi hj')]
  exact hs

lemma saved (hne : j' ≠ j) (hs : pb.Saved start w tr i j') : pb.Saved start w tr' i j' := by
  unfold Saved
  rw [h.pTempG j' hne, h.bTempG j' hne, h.PP j' i (.inl hne), h.aPathsU _ _ (node_ne hne)]
  exact hs

lemma decided (hne : j' ≠ j) {f1 : ℕ → ℕ}
    (hd : pb.Decided start w tr i j' f1) : pb.Decided start w tr' i j' f1 := by
  unfold Decided
  rw [h.costwAuxx j' hne, h.indxs j' hne, h.pRemG j' hne, h.bRemG j' hne]
  exact hd

end

end Touches

end Nodes

end Problem

end Aloe.Crm
