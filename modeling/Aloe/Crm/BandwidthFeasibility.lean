import Aloe.Crm.ComputingFeasibility
import Mathlib.Algebra.BigOperators.Group.Finset.Basic
import Mathlib.Tactic.Ring

/-!
# Bandwidth feasibility

What `resource_trans` fills: in full duplex every pair of processors has a resource of its
own, in half duplex the two directions share one, and on a bus all pairs share one.

As a ledger, every flow between two processors draws its demand from the connections of its
route. A mapping at a finite cost has charged all its flows and overdraws no connection, if the
calls of `cost_commU` on the paths of the trellis are fair: the two tasks do not send to each
other, since the second direction is looked at only where the first one is empty; a refusal is
noticed, which a negative cost of the flows before can hide; and no detour goes twice over one
connection that has room for one hop, since each hop is checked on its own.
-/

namespace Aloe.Crm

open Lib List Resources Function

def connection (arch : Arch) (e : ℕ × ℕ) : ℕ × ℕ :=
  match arch with
  | .fd => e
  | .hd => (min e.1 e.2, max e.1 e.2)
  | .bus => (0, 1)

namespace Resources

def pairsFrom (n : ℕ) (first : ℕ → ℕ) : List (ℕ × ℕ) :=
  (List.range n).flatMap fun i => (List.range' (first i) (n - first i)).map fun j => (i, j)

lemma forPairs_eq (n : ℕ) (first : ℕ → ℕ) (step : Resources → ℕ → ℕ → Resources) (res : Resources) :
    forPairs n first step res = (pairsFrom n first).foldl (fun res e => step res e.1 e.2) res := by
  rw [forPairs, pairsFrom, foldl_flatMap]
  simp only [foldl_map]

variable {e : ℕ × ℕ} {first : ℕ → ℕ} {step : Resources → ℕ → ℕ → Resources}

lemma mem_pairsFrom {n : ℕ} : e ∈ pairsFrom n first ↔ e.1 < n ∧ first e.1 ≤ e.2 ∧ e.2 < n := by
  obtain ⟨i, j⟩ := e
  simp only [pairsFrom, mem_flatMap, mem_range, mem_map, mem_range'_1, Prod.mk.injEq]
  constructor
  · rintro ⟨_, hi, _, hj, rfl, rfl⟩
    omega
  · rintro ⟨hi, hj⟩
    exact ⟨i, hi, j, by omega, rfl, rfl⟩

/-! ## The numbering -/

/-- The connections in `done` have been numbered from `n` on, each with its bandwidth;
`name` gives the connection of a pair. -/
structure Numbered (n : ℕ) (bandwidth : ℕ → ℕ → ℚ) (name : ℕ × ℕ → ℕ × ℕ)
    (done : List (ℕ × ℕ)) (res : Resources) : Prop where
  le_count : n ≤ res.count
  bounds : ∀ e : ℕ × ℕ, e.1 ≠ e.2 → name e ∈ done →
    n ≤ res.link e.1 e.2 ∧ res.link e.1 e.2 < res.count
  left : ∀ e : ℕ × ℕ, e.1 ≠ e.2 → name e ∈ done →
    res.left (res.link e.1 e.2) = bandwidth (name e).1 (name e).2

variable {n : ℕ} {bandwidth : ℕ → ℕ → ℚ} {name : ℕ × ℕ → ℕ × ℕ} {done : List (ℕ × ℕ)}
  {res : Resources}

lemma setLink_link (res : Resources) (i j r : ℕ) (e : ℕ × ℕ) :
    (res.setLink i j r).link e.1 e.2 = if e = (i, j) then r else res.link e.1 e.2 := by
  obtain ⟨a, z⟩ := e
  simp only [setLink, update_apply, Prod.mk.injEq]
  by_cases ha : a = i
  · subst ha
    simp [update_apply]
  · simp [ha]

/-- **Step lemma.** One more connection, or a processor's own. -/
theorem Numbered.connect (h : Numbered n bandwidth name done res) {k : ℕ × ℕ} {res' : Resources}
    (hcount : res'.count = res.count + 1)
    (hleft : res'.left = update res.left res.count (bandwidth k.1 k.2))
    (hlink : ∀ e : ℕ × ℕ, e.1 ≠ e.2 →
      res'.link e.1 e.2 = if name e = k then res.count else res.link e.1 e.2) :
    Numbered n bandwidth name (done ++ [k]) res' := by
  have hold : ∀ e : ℕ × ℕ, name e ∈ done ++ [k] → name e ≠ k → name e ∈ done := by
    intro e he hne
    exact (mem_append.mp he).resolve_right fun hmem => hne (mem_singleton.mp hmem)
  refine ⟨hcount ▸ Nat.le_succ_of_le h.le_count, fun e hne he => ?_, fun e hne he => ?_⟩
  · rw [hlink e hne, hcount]
    split
    · exact ⟨h.le_count, Nat.lt_succ_self _⟩
    · next hk =>
      obtain ⟨hge, hlt⟩ := h.bounds e hne (hold e he hk)
      exact ⟨hge, Nat.lt_succ_of_lt hlt⟩
  · rw [hlink e hne, hleft]
    split
    · next hk => rw [update_self, hk]
    · next hk =>
      rw [update_of_ne (ne_of_lt (h.bounds e hne (hold e he hk)).2)]
      exact h.left e hne (hold e he hk)

lemma Numbered.diagonal (h : Numbered n bandwidth name done res) {i : ℕ} (hi : i < n)
    (hname : ∀ e : ℕ × ℕ, e.1 ≠ e.2 → name e ≠ (i, i)) :
    Numbered n bandwidth name (done ++ [(i, i)]) (res.diagonal i) := by
  have hold : ∀ e : ℕ × ℕ, e.1 ≠ e.2 → name e ∈ done ++ [(i, i)] → name e ∈ done := by
    intro e hne he
    exact (mem_append.mp he).resolve_right fun hmem => hname e hne (mem_singleton.mp hmem)
  have hlink : ∀ e : ℕ × ℕ, e.1 ≠ e.2 → (res.diagonal i).link e.1 e.2 = res.link e.1 e.2 := by
    intro e hne
    refine (setLink_link res i i i e).trans (if_neg ?_)
    rintro rfl
    exact hne rfl
  refine ⟨h.le_count, fun e hne he => ?_, fun e hne he => ?_⟩
  · rw [hlink e hne]
    exact h.bounds e hne (hold e hne he)
  · -- the resources of the processors themselves come before `n`
    have hge := (h.bounds e hne (hold e hne he)).1
    rw [hlink e hne]
    exact (update_of_ne (by omega) ..).trans (h.left e hne (hold e hne he))

/-- **Run lemma.** The loop over the pairs numbers them all. -/
theorem Numbered.run {pairs : List (ℕ × ℕ)}
    (hstep : ∀ e ∈ pairs, ∀ done res, Numbered n bandwidth name done res →
      Numbered n bandwidth name (done ++ [e]) (step res e.1 e.2))
    (h : Numbered n bandwidth name done res) :
    Numbered n bandwidth name (done ++ pairs)
      (pairs.foldl (fun res e => step res e.1 e.2) res) := by
  induction pairs generalizing done res with
  | nil =>
    rw [append_nil]
    exact h
  | cons e pairs ih =>
    have hnext := hstep e mem_cons_self done res h
    have hrest := ih (fun e' he' => hstep e' (mem_cons_of_mem e he')) hnext
    rw [append_assoc] at hrest
    exact hrest

lemma numbered_start (n : ℕ) (left : Row) : Numbered n bandwidth name [] ⟨n, fun _ _ => 0, left⟩ :=
  ⟨le_refl n, fun _ _ h => absurd h not_mem_nil, fun _ _ h => absurd h not_mem_nil⟩

lemma numbered_forPairs
    (hstep : ∀ e ∈ pairsFrom n first, ∀ done res, Numbered n bandwidth name done res →
      Numbered n bandwidth name (done ++ [e]) (step res e.1 e.2)) (left : Row) :
    Numbered n bandwidth name (pairsFrom n first)
      (forPairs n first step ⟨n, fun _ _ => 0, left⟩) := by
  have hrun := (numbered_start n left).run hstep
  rwa [nil_append, ← forPairs_eq] at hrun

lemma Numbered.fullDuplex (h : Numbered n bandwidth (connection .fd) done res) (he : e.1 < n) :
    Numbered n bandwidth (connection .fd) (done ++ [e]) (res.fullDuplex bandwidth e.1 e.2) := by
  obtain ⟨i, j⟩ := e
  unfold fullDuplex
  split
  · next heq =>
    obtain rfl : i = j := heq
    exact h.diagonal he fun e hne heq => hne (by rw [show e = (i, i) from heq])
  · exact h.connect rfl rfl fun e _ => setLink_link res i j res.count e

lemma Numbered.halfDuplex (h : Numbered n bandwidth (connection .hd) done res)
    (he : e.1 < n) (hle : e.1 ≤ e.2) :
    Numbered n bandwidth (connection .hd) (done ++ [e]) (res.halfDuplex bandwidth e.1 e.2) := by
  obtain ⟨i, j⟩ := e
  simp only at he hle
  unfold halfDuplex
  split
  · next heq =>
    obtain rfl : i = j := heq
    refine h.diagonal he fun e hne heq => ?_
    have heq := Prod.mk.inj heq
    omega
  · next hne =>
    simp only at hne
    refine h.connect rfl rfl fun e _ => ?_
    refine (setLink_link (res.setLink i j res.count) j i res.count e).trans ?_
    rw [setLink_link]
    obtain ⟨a, z⟩ := e
    simp only [connection, Prod.mk.injEq]
    by_cases hswap : a = j ∧ z = i
    · rw [if_pos hswap, if_pos (by omega)]
    · grind

lemma shared_run (n : ℕ) (pairs done : List (ℕ × ℕ)) (res : Resources) (hcount : res.count = n)
    (hlink : ∀ e ∈ done, e.1 ≠ e.2 → res.link e.1 e.2 = n) :
    (pairs.foldl (fun res e => shared res e.1 e.2) res).count = n ∧ ∀ e ∈ done ++ pairs, e.1 ≠ e.2 →
        (pairs.foldl (fun res e => shared res e.1 e.2) res).link e.1 e.2 = n := by
  induction pairs generalizing done res with
  | nil =>
    rw [append_nil]
    exact ⟨hcount, hlink⟩
  | cons k pairs ih =>
    have hstep : (shared res k.1 k.2).count = n ∧
        ∀ e ∈ done ++ [k], e.1 ≠ e.2 → (shared res k.1 k.2).link e.1 e.2 = n := by
      unfold shared
      split
      · next hk =>
        refine ⟨hcount, fun e he hne => ?_⟩
        have hother : e ≠ (k.1, k.1) := by
          rintro rfl
          exact hne rfl
        have hmem : e ∈ done := (mem_append.mp he).resolve_right fun hmem =>
          hother ((mem_singleton.mp hmem).trans (Prod.ext rfl hk.symm))
        exact (setLink_link res k.1 k.1 k.1 e).trans ((if_neg hother).trans (hlink e hmem hne))
      · refine ⟨hcount, fun e he hne => ?_⟩
        rw [setLink_link]
        split
        · exact hcount
        · grind
    have hrest := ih (done ++ [k]) _ hstep.1 hstep.2
    rw [append_assoc] at hrest
    exact hrest

end Resources

/-! ## The resources of a platform -/

section Platform

variable (n : ℕ) (arch : Arch) (bandwidth : ℕ → ℕ → ℚ) (left : Row) {p q : ℕ}

lemma numbered_fd : Numbered n bandwidth (connection .fd) (pairsFrom n fun _ => 0)
      (resourceTrans n .fd bandwidth left) :=
  numbered_forPairs (fun _ he _ _ h => h.fullDuplex (mem_pairsFrom.mp he).1) left

lemma numbered_hd : Numbered n bandwidth (connection .hd) (pairsFrom n fun i => i)
      (resourceTrans n .hd bandwidth left) :=
  numbered_forPairs (fun _ he _ _ h => h.halfDuplex (mem_pairsFrom.mp he).1
    (mem_pairsFrom.mp he).2.1) left

section

variable (hp : p < n) (hq : q < n)
include hp hq

lemma connection_mem_fd : connection .fd (p, q) ∈ pairsFrom n fun _ => 0 :=
  mem_pairsFrom.mpr ⟨hp, Nat.zero_le _, hq⟩

lemma connection_mem_hd : connection .hd (p, q) ∈ pairsFrom n fun i => i := by
  refine mem_pairsFrom.mpr ?_
  simp only [connection]
  omega

lemma resourceTrans_link_bus (hne : p ≠ q) :
    (resourceTrans n .bus bandwidth left).link p q = n := by
  obtain ⟨-, hlink⟩ := shared_run n (pairsFrom n fun _ => 0) []
    ⟨n, fun _ _ => 0, left⟩ rfl fun _ he => absurd he not_mem_nil
  rw [← forPairs_eq] at hlink
  exact hlink (p, q) (mem_pairsFrom.mpr ⟨hp, Nat.zero_le _, hq⟩) hne

/-- **The resources of a platform.** Two processors use the connection of their
architecture, with its bandwidth. -/
theorem resourceTrans_left (hne : p ≠ q) :
    (resourceTrans n arch bandwidth left).left ((resourceTrans n arch bandwidth left).link p q) =
      bandwidth (connection arch (p, q)).1 (connection arch (p, q)).2 := by
  cases arch with
  | fd => exact (numbered_fd n bandwidth left).left (p, q) hne (connection_mem_fd n hp hq)
  | hd => exact (numbered_hd n bandwidth left).left (p, q) hne (connection_mem_hd n hp hq)
  | bus =>
    rw [resourceTrans_link_bus n bandwidth left hp hq hne]
    exact update_self ..

end

end Platform

namespace Problem

variable (pb : Problem)

/-! ## The route of a flow -/

def hops (bx : ℚ) (left : Row) (a z : ℕ) : List (ℕ × ℕ) :=
  if pb.mhop = 0 then [(a, z)]
  else (choosePath ((pb.firstHops bx left a).map (pb.secondHop bx left a z))).2

def routeDraws (bx : ℚ) (route : List (ℕ × ℕ)) : List (ℕ × ℚ) :=
  route.map fun hop => (pb.link hop.1 hop.2, bx)

/-- A way from `a` to `z` over one or two hops; a detour only where there are any. -/
def IsRoute (a z : ℕ) (route : List (ℕ × ℕ)) : Prop :=
  route = [(a, z)] ∨ pb.mhop ≠ 0 ∧ ∃ x, x < pb.processors ∧ x ≠ a ∧ x ≠ z ∧ route = [(a, x), (x, z)]

/-- No connection has the bandwidth for a flow of `bx` from `a` to `z`. -/
def Refused (bx : ℚ) (left : Row) (a z : ℕ) : Prop :=
  if pb.mhop = 0 then exceeds bx (left (pb.link a z))
  else infinite - 1 ≤ (choosePath ((pb.firstHops bx left a).map (pb.secondHop bx left a z))).1

/-- A flow is charged rightly: the loop does not go on from a refusal, and two hops over one
connection both find room on it. -/
structure FairFlow (bx : ℚ) (left : Row) (a z : ℕ) (goesOn : Prop) : Prop where
  noticed : pb.Refused bx left a z → ¬ goesOn
  detour : ∀ x, pb.hops bx left a z = [(a, x), (x, z)] → pb.link a x = pb.link x z →
    ¬ exceeds (2 * bx) (left (pb.link a x))

/-- The call of `cost_commU` for the flows between the tasks `s` and `t`, after those between `t`
and the tasks before `s`. -/
structure FairCall (w : ℕ) (f : ℕ → ℕ) (t s : ℕ) (bLeft : Row) : Prop where
  oneWay : ¬ (0 < pb.flow s t ∧ 0 < pb.flow t s)
  there : 0 < pb.flow s t → pb.FairFlow (pb.flow s t) (pb.flowsTo f t (f t) s bLeft).2 (f s) (f t)
    (pb.Reaches w f t (f t) (s + 1) bLeft)
  back : 0 < pb.flow t s → pb.FairFlow (pb.flow t s) (pb.flowsTo f t (f t) s bLeft).2 (f t) (f s)
    (pb.Reaches w f t (f t) (s + 1) bLeft)

/-- All calls are fair that are made on the way to the nodes of the trellis `last` and in the window
that starts from them. -/
def Fair (start : Charge) (w : ℕ) : Prop :=
  ∀ tr f t s, pb.last w start = .ok tr → pb.Passes w tr f → s < t → t < pb.tasks →
    pb.Holds start w f t (pb.charge start f t) → f t < pb.processors →
    (pb.comp t (f t) (pb.charge start f t).pLeft).1 < infinite - 1 →
    pb.Reaches w f t (f t) s (pb.charge start f t).bLeft → f s ≠ f t →
    pb.FairCall w f t s (pb.charge start f t).bLeft

variable {pb}

lemma foldl_update_eq_draw (bx : ℚ) (left : Row) (route : List (ℕ × ℕ)) :
    route.foldl (fun left hop => pb.update bx left hop.1 hop.2) left =
      draw left (pb.routeDraws bx route) := by
  rw [draw, routeDraws, foldl_map]
  rfl

lemma choosePath_mem (paths : List Path) : (choosePath paths) = (infinite, []) ∨
      ∃ path ∈ paths, choosePath paths = (path.cost, path.hops) := by
  refine List.foldlRecOn (motive := fun best : ℚ × List (ℕ × ℕ) =>
    best = (infinite, []) ∨ ∃ path ∈ paths, best = (path.cost, path.hops)) paths _ (.inl rfl) ?_
  intro best hbest path hpath
  split
  · exact .inr ⟨path, hpath, rfl⟩
  · exact hbest

variable {path : Path}

lemma mem_paths {bx : ℚ} {left : Row} {a z : ℕ}
    (h : path ∈ (pb.firstHops bx left a).map (pb.secondHop bx left a z)) :
    ∃ x, x < pb.processors ∧ x ≠ a ∧ ¬ exceeds bx (left (pb.link a x)) ∧
      (x = z ∧ path.hops = [(a, z)] ∨ path.cost = infinite ∨
       x ≠ z ∧ ¬ exceeds bx (left (pb.link x z)) ∧ path.hops = [(a, x), (x, z)]) := by
  obtain ⟨x, hx, rfl⟩ := mem_map.mp h
  obtain ⟨hlt, hx⟩ := mem_filter.mp hx
  obtain ⟨hne, hleft⟩ := of_decide_eq_true hx
  refine ⟨x, mem_range.mp hlt, hne, hleft, ?_⟩
  unfold secondHop
  split
  · next heq =>
    subst heq
    exact .inl ⟨rfl, rfl⟩
  · next hxz =>
    split
    · exact .inr (.inl rfl)
    · next hsecond => exact .inr (.inr ⟨hxz, hsecond, rfl⟩)

/-! ## A flow at a finite cost -/

section Flow

variable {bx : ℚ} {left : Row} {a z : ℕ} {x : ℕ}

lemma admitted_one (h : ¬ exceeds bx (left (pb.link a z))) :
    Admitted threshold left (pb.routeDraws bx [(a, z)]) :=
  ⟨not_lt.mp h, trivial⟩

lemma admitted_two (hfirst : ¬ exceeds bx (left (pb.link a x)))
    (hsecond : ¬ exceeds bx (left (pb.link x z))) (hne : pb.link a x ≠ pb.link x z) :
    Admitted threshold left (pb.routeDraws bx [(a, x), (x, z)]) := by
  refine ⟨not_lt.mp hfirst, ?_, trivial⟩
  rw [draw_singleton, if_neg hne, sub_zero]
  exact not_lt.mp hsecond

lemma admitted_twice (hfirst : ¬ exceeds bx (left (pb.link a x)))
    (heq : pb.link a x = pb.link x z) (hroom : ¬ exceeds (2 * bx) (left (pb.link a x))) :
    Admitted threshold left (pb.routeDraws bx [(a, x), (x, z)]) := by
  refine ⟨not_lt.mp hfirst, ?_, trivial⟩
  have hroom := not_lt.mp hroom
  rw [heq] at hroom
  rw [draw_singleton, if_pos heq]
  linarith

lemma routed_draws {goesOn : Prop} (hfair : pb.FairFlow bx left a z goesOn) (hgoes : goesOn)
    (hmhop : pb.mhop ≠ 0) :
    pb.IsRoute a z (pb.hops bx left a z) ∧
      (pb.routed bx left a z).2 = draw left (pb.routeDraws bx (pb.hops bx left a z)) ∧
      Admitted threshold left (pb.routeDraws bx (pb.hops bx left a z)) := by
  have hbest : (choosePath ((pb.firstHops bx left a).map (pb.secondHop bx left a z))).1 <
      infinite - 1 := by
    have hnot := fun h => hfair.noticed h hgoes
    rw [Refused, if_neg hmhop] at hnot
    exact not_le.mp hnot
  have hdrawn : (pb.routed bx left a z).2 = draw left (pb.routeDraws bx (pb.hops bx left a z)) := by
    rw [← foldl_update_eq_draw, hops, if_neg hmhop, routed]
    exact congrArg Prod.snd (if_pos hbest)
  have hhops : pb.hops bx left a z =
      (choosePath ((pb.firstHops bx left a).map (pb.secondHop bx left a z))).2 := if_neg hmhop
  rcases choosePath_mem ((pb.firstHops bx left a).map (pb.secondHop bx left a z)) with
    hnone | ⟨path, hpath, hchoice⟩
  · rw [hnone] at hbest
    simp only [infinite] at hbest
    norm_num at hbest
  · rw [hchoice] at hhops hbest
    obtain ⟨x, hx, hxa, hfirst, ⟨rfl, hone⟩ | hinfinite | ⟨hxz, hsecond, htwo⟩⟩ := mem_paths hpath
    · rw [hdrawn, hhops, hone]
      exact ⟨.inl rfl, rfl, admitted_one hfirst⟩
    · rw [hinfinite] at hbest
      simp only [infinite] at hbest
      norm_num at hbest
    · refine ⟨.inr ⟨hmhop, x, hx, hxa, hxz, hhops.trans htwo⟩, hdrawn, ?_⟩
      rw [hhops, htwo]
      by_cases heq : pb.link a x = pb.link x z
      · exact admitted_twice hfirst heq (hfair.detour x (hhops.trans htwo) heq)
      · exact admitted_two hfirst hsecond heq

/-- **A flow that is charged rightly** and gone on from takes a route that has the bandwidth. -/
theorem flow_draws {goesOn : Prop} (hfair : pb.FairFlow bx left a z goesOn) (hgoes : goesOn) :
    pb.IsRoute a z (pb.hops bx left a z) ∧
      ((if pb.mhop = 0 then pb.direct else pb.routed) bx left a z).2 =
        draw left (pb.routeDraws bx (pb.hops bx left a z)) ∧
      Admitted threshold left (pb.routeDraws bx (pb.hops bx left a z)) := by
  by_cases hmhop : pb.mhop = 0
  · have hleft := fun h => hfair.noticed h hgoes
    rw [Refused, if_pos hmhop] at hleft
    rw [if_pos hmhop, hops, if_pos hmhop, direct, if_neg hleft]
    exact ⟨.inl rfl, rfl, admitted_one hleft⟩
  · rw [if_neg hmhop]
    exact routed_draws hfair hgoes hmhop

end Flow

/-! ## All flows of a mapping -/

section Mapping

variable (pb) (start : Charge) (f : ℕ → ℕ)

/-- The bandwidth that is left when the flows between tasks `s` and `t` are charged; they
are charged with the later one. -/
def leftBefore (s t : ℕ) : Row :=
  (pb.flowsTo f (max s t) (f (max s t)) (min s t) (pb.charge start f (max s t)).bLeft).2

def route (i j : ℕ) : List (ℕ × ℕ) := pb.hops (pb.flow i j) (pb.leftBefore start f i j) (f i) (f j)

def pairDraws (i j : ℕ) : List (ℕ × ℚ) :=
  if f i ≠ f j ∧ 0 < pb.flow i j then pb.routeDraws (pb.flow i j) (pb.route start f i j) else []

def taskDraws (t s : ℕ) : List (ℕ × ℚ) :=
  (List.range s).flatMap fun s => pb.pairDraws start f s t ++ pb.pairDraws start f t s

def mappingDraws (n : ℕ) : List (ℕ × ℚ) := (List.range n).flatMap fun t => pb.taskDraws start f t t

def OneWay : Prop := ∀ s t, s < pb.tasks → t < pb.tasks → ¬ (0 < pb.flow s t ∧ 0 < pb.flow t s)

def Routed (i j : ℕ) : Prop :=
  f i ≠ f j → 0 < pb.flow i j → pb.IsRoute (f i) (f j) (pb.route start f i j)

variable {pb start f} {s t n : ℕ}

lemma flowsTo_succ (t s : ℕ) (bLeft : Row) : pb.flowsTo f t (f t) (s + 1) bLeft =
      pb.addFlow f t (f t) (pb.flowsTo f t (f t) s bLeft) s := by
  rw [flowsTo, range_succ, foldl_append]
  rfl

lemma taskDraws_succ (t s : ℕ) : pb.taskDraws start f t (s + 1) =
      pb.taskDraws start f t s ++ (pb.pairDraws start f s t ++ pb.pairDraws start f t s) := by
  rw [taskDraws, range_succ, flatMap_append, flatMap_singleton]
  rfl

lemma mappingDraws_succ (n : ℕ) :
    pb.mappingDraws start f (n + 1) = pb.mappingDraws start f n ++ pb.taskDraws start f n n := by
  rw [mappingDraws, range_succ, flatMap_append, flatMap_singleton]
  rfl

variable {i j : ℕ}

lemma pairDraws_pos (hne : f i ≠ f j) (hpos : 0 < pb.flow i j) :
    pb.pairDraws start f i j = pb.routeDraws (pb.flow i j) (pb.route start f i j) :=
  if_pos ⟨hne, hpos⟩

lemma pairDraws_nil (h : f i = f j ∨ ¬ 0 < pb.flow i j) : pb.pairDraws start f i j = [] := by
  refine if_neg fun hboth => ?_
  rcases h with heq | hpos
  · exact hboth.1 heq
  · exact hpos hboth.2

lemma leftBefore_of_lt (pb : Problem) (start : Charge) (f : ℕ → ℕ) (h : s < t) :
    pb.leftBefore start f s t = (pb.flowsTo f t (f t) s (pb.charge start f t).bLeft).2 ∧
      pb.leftBefore start f t s = (pb.flowsTo f t (f t) s (pb.charge start f t).bLeft).2 := by
  constructor
  · rw [leftBefore, Nat.max_eq_right h.le, min_eq_left h.le]
  · rw [leftBefore, max_eq_left h.le, min_eq_right h.le]

/-- **Step lemma.** The flows between two tasks, from which the loop goes on. -/
theorem addFlow_draws {w : ℕ} (hst : s < t)
    (hfair : f s ≠ f t → pb.FairCall w f t s (pb.charge start f t).bLeft)
    (hgoes : pb.Reaches w f t (f t) (s + 1) (pb.charge start f t).bLeft) :
    (pb.flowsTo f t (f t) (s + 1) (pb.charge start f t).bLeft).2 =
        draw (pb.flowsTo f t (f t) s (pb.charge start f t).bLeft).2
          (pb.pairDraws start f s t ++ pb.pairDraws start f t s) ∧
      Admitted threshold (pb.flowsTo f t (f t) s (pb.charge start f t).bLeft).2
        (pb.pairDraws start f s t ++ pb.pairDraws start f t s) ∧
      pb.Routed start f s t ∧ pb.Routed start f t s := by
  obtain ⟨hleft, hleft'⟩ := leftBefore_of_lt pb start f hst
  rw [flowsTo_succ, addFlow]
  by_cases hsame : f s = f t
  · rw [if_pos hsame, pairDraws_nil (.inl hsame), pairDraws_nil (.inl hsame.symm)]
    exact ⟨rfl, trivial, fun hne => absurd hsame hne, fun hne => absurd hsame.symm hne⟩
  · rw [if_neg hsame]
    obtain ⟨honeWay, hthere, hback⟩ := hfair hsame
    unfold costCommU
    simp only
    by_cases hto : 0 < pb.flow s t
    · have hnone : ¬ 0 < pb.flow t s := fun h => honeWay ⟨hto, h⟩
      obtain ⟨hroute, hdraws, hadmitted⟩ := flow_draws (hthere hto) hgoes
      rw [if_pos hto, pairDraws_pos hsame hto, pairDraws_nil (.inr hnone), append_nil]
      unfold Routed
      rw [route, hleft]
      exact ⟨hdraws, hadmitted, fun _ _ => hroute, fun _ h => absurd h hnone⟩
    · rw [if_neg hto, pairDraws_nil (.inr hto), nil_append]
      by_cases hfrom : 0 < pb.flow t s
      · obtain ⟨hroute, hdraws, hadmitted⟩ := flow_draws (hback hfrom) hgoes
        rw [if_pos hfrom, pairDraws_pos (Ne.symm hsame) hfrom]
        unfold Routed
        rw [route, route, hleft']
        exact ⟨hdraws, hadmitted, fun _ h => absurd h hto, fun _ _ => hroute⟩
      · rw [if_neg hfrom, pairDraws_nil (.inr hfrom)]
        exact ⟨rfl, trivial, fun _ h => absurd h hto, fun _ h => absurd h hfrom⟩

lemma Reaches.upTo {w k : ℕ} {bLeft : Row} (h : pb.Reaches w f t k n bLeft) (hs : s ≤ n) :
    pb.Reaches w f t k s bLeft :=
  fun s' hs' => h s' (hs'.trans hs)

/-- **Run lemma.** The flows between a task and those before it. -/
theorem flowsTo_draws {w : ℕ} (hst : s ≤ t)
    (hfair : ∀ s, s < t → f s ≠ f t → pb.FairCall w f t s (pb.charge start f t).bLeft)
    (hgoes : pb.Reaches w f t (f t) s (pb.charge start f t).bLeft) :
    (pb.flowsTo f t (f t) s (pb.charge start f t).bLeft).2 =
        draw (pb.charge start f t).bLeft (pb.taskDraws start f t s) ∧
      Admitted threshold (pb.charge start f t).bLeft (pb.taskDraws start f t s) ∧
      ∀ s', s' < s → pb.Routed start f s' t ∧ pb.Routed start f t s' := by
  induction s with
  | zero => exact ⟨rfl, trivial, fun s' hs' => absurd hs' (Nat.not_lt_zero s')⟩
  | succ s ih =>
    obtain ⟨hleft, hadmitted, hrouted⟩ := ih (le_of_lt hst) (hgoes.upTo (Nat.le_succ s))
    obtain ⟨hleft', hadmitted', hto, hback⟩ := addFlow_draws hst (hfair s hst) hgoes
    rw [hleft] at hleft' hadmitted'
    rw [taskDraws_succ, draw_append, admitted_append]
    refine ⟨hleft', ⟨hadmitted, hadmitted'⟩, fun s' hs' => ?_⟩
    rcases Nat.lt_succ_iff_lt_or_eq.mp hs' with hlt' | rfl
    · exact hrouted s' hlt'
    · exact ⟨hto, hback⟩

/-- **Run lemma.** A mapping along fair calls has charged the flows among its tasks. -/
theorem charge_draws {w : ℕ} {tr : Trellis} {ch : Charge} (hfair : pb.Fair start w)
    (htr : pb.last w start = .ok tr) (hpasses : pb.Passes w tr f) (hn : n ≤ pb.tasks)
    (hholds : pb.Holds start w f n ch) :
    (pb.charge start f n).bLeft = draw start.bLeft (pb.mappingDraws start f n) ∧
      Admitted threshold start.bLeft (pb.mappingDraws start f n) ∧
      ∀ i j, i < n → j < n → pb.Routed start f i j := by
  induction n generalizing ch with
  | zero => exact ⟨rfl, trivial, fun i _ hi => absurd hi (Nat.not_lt_zero i)⟩
  | succ n ih =>
    have hbefore := hholds.upTo (Nat.le_succ n)
    have hlevel := hholds.level n (Nat.lt_succ_self n)
    obtain ⟨hleft, hadmitted, hrouted⟩ := ih (le_of_lt hn) hbefore
    obtain ⟨hleft', hadmitted', hrouted'⟩ := flowsTo_draws (le_refl n)
      (fun s hs hne => hfair tr f n s htr hpasses hs hn hbefore hlevel.lt (hlevel.comp (by omega))
        (hlevel.comm.upTo hs.le) hne) hlevel.comm
    rw [mappingDraws_succ, draw_append, admitted_append, ← hleft]
    refine ⟨hleft', ⟨hadmitted, hadmitted'⟩, fun i j hi hj => ?_⟩
    rcases Nat.lt_succ_iff_lt_or_eq.mp hi with hi | rfl
    · rcases Nat.lt_succ_iff_lt_or_eq.mp hj with hj | rfl
      · exact hrouted i j hi hj
      · exact (hrouted' i hi).1
    · rcases Nat.lt_succ_iff_lt_or_eq.mp hj with hj | rfl
      · exact (hrouted' j hj).2
      · exact fun hne => absurd rfl hne

/-! ## Calls that are always fair -/

lemma flowsTo_nonneg (hnonneg : pb.NonnegCosts) (ht : t < pb.tasks) (hs : s ≤ pb.tasks)
    (bLeft : Row) : 0 ≤ (pb.flowsTo f t (f t) s bLeft).1 := by
  induction s with
  | zero => exact le_refl _
  | succ s ih =>
    refine (ih (le_of_lt hs)).trans ?_
    rw [flowsTo_succ, addFlow]
    split
    · exact le_refl _
    · exact le_add_of_nonneg_right (hnonneg.costCommU_nonneg hs ht _ _ _)

/-- Without detours the calls are fair where no two tasks send to each other and no cost is
negative. -/
theorem OneWay.fair (honeWay : pb.OneWay) (hnonneg : pb.NonnegCosts) (hmhop : pb.mhop = 0)
    (start : Charge) (w : ℕ) : pb.Fair start w := by
  intro tr f t s _ _ hst ht _ _ _ _ hne
  have hs : s < pb.tasks := hst.trans ht
  have hnonneg' := flowsTo_nonneg (f := f) hnonneg ht hs.le (pb.charge start f t).bLeft
  have hdetour : ∀ bx left a z x, pb.hops bx left a z ≠ [(a, x), (x, z)] := by
    intro bx left a z x h
    rw [hops, if_pos hmhop] at h
    cases h
  have hrefused : ∀ bx left a z, pb.Refused bx left a z →
      ((if pb.mhop = 0 then pb.direct else pb.routed) bx left a z).1 = infinite := by
    intro bx left a z h
    rw [Refused, if_pos hmhop] at h
    rw [if_pos hmhop, direct, if_pos h]
  -- the cost of the flows so far is not negative, and a refusal makes it infinite
  have hstops : (pb.costCommU (pb.flow s t) (pb.flow t s)
      (pb.flowsTo f t (f t) s (pb.charge start f t).bLeft).2 (f s) (f t)).1 = infinite →
      ¬ pb.Reaches w f t (f t) (s + 1) (pb.charge start f t).bLeft := by
    intro hcost hreaches
    have hle := (hreaches (s + 1) (le_refl _)).1
    rw [flowsTo_succ, addFlow, if_neg hne] at hle
    simp only [hcost] at hle
    linarith
  refine ⟨honeWay s t hs ht, fun hto => ⟨fun h => hstops ?_,
    fun x hx => absurd hx (hdetour _ _ _ _ x)⟩,
    fun hback => ⟨fun h => hstops ?_, fun x hx => absurd hx (hdetour _ _ _ _ x)⟩⟩
  · rw [costCommU, if_pos hto]
    exact hrefused _ _ _ _ h
  · rw [costCommU, if_neg fun hto => honeWay s t hs ht ⟨hto, hback⟩, if_pos hback]
    exact hrefused _ _ _ _ h

/-! ## The sum over all pairs -/

lemma sum_square (g : ℕ → ℕ → ℚ) (n : ℕ) : ∑ i ∈ Finset.range n, ∑ j ∈ Finset.range n, g i j =
      ∑ t ∈ Finset.range n, (g t t + ∑ s ∈ Finset.range t, (g s t + g t s)) := by
  induction n with
  | zero => rfl
  | succ n ih =>
    rw [Finset.sum_range_succ, Finset.sum_range_succ (fun t => g t t + _), ← ih,
      Finset.sum_range_succ (fun j => g n j)]
    simp only [Finset.sum_range_succ _ n, Finset.sum_add_distrib]
    ring

lemma drawn_flatMap_range (h : ℕ → List (ℕ × ℚ)) (n r : ℕ) :
    drawn ((List.range n).flatMap h) r = ∑ i ∈ Finset.range n, drawn (h i) r := by
  induction n with
  | zero => rfl
  | succ n ih =>
    rw [range_succ, flatMap_append, flatMap_singleton, drawn_append, ih, Finset.sum_range_succ]

lemma drawn_mappingDraws (n r : ℕ) : drawn (pb.mappingDraws start f n) r =
      ∑ i ∈ Finset.range n, ∑ j ∈ Finset.range n, drawn (pb.pairDraws start f i j) r := by
  have hself : ∀ t, drawn (pb.pairDraws start f t t) r = 0 := by
    intro t
    rw [pairDraws_nil (.inl rfl)]
    rfl
  rw [sum_square, mappingDraws, drawn_flatMap_range]
  refine Finset.sum_congr rfl fun t _ => ?_
  rw [hself, zero_add, taskDraws, drawn_flatMap_range]
  exact Finset.sum_congr rfl fun s _ => drawn_append r

end Mapping

end Problem

/-! ## A call of the mapper -/

section Call

variable (par : Parameters) (plat : PlatformResources) (wave : WaveformResources) (g : Globals)

def bandwidthOf (p q : ℕ) : ℚ :=
  plat.B (connection plat.arch (p, q)).1 (connection plat.arch (p, q)).2

/-- What all flows draw from resource `r` on their routes. -/
def charged (map : ℕ → ℤ) (route : ℕ → ℕ → List (ℕ × ℕ)) (r : ℕ) : ℚ :=
  ∑ i ∈ Finset.range wave.nofTasks, ∑ j ∈ Finset.range wave.nofTasks,
    if map i ≠ map j ∧ 0 < wave.b i j then
      drawn ((posed par plat wave g).routeDraws (wave.b i j) (route i j)) r
    else 0

/-- The demand of all ordered pairs of tasks that are mapped across resource `r`. -/
def crossing (map : ℕ → ℤ) (r : ℕ) : ℚ :=
  ∑ i ∈ Finset.range wave.nofTasks, ∑ j ∈ Finset.range wave.nofTasks,
    if map i ≠ map j ∧ (posed par plat wave g).link (map i).toNat (map j).toNat = r then
      wave.b i j
    else 0

/-- Every flow between processors has been charged along a route, no connection gives more
than it has, and `B` is what is left. -/
def BandwidthFeasible (map : ℕ → ℤ) (B : Row) : Prop := ∃ route : ℕ → ℕ → List (ℕ × ℕ),
    (∀ i j, i < wave.nofTasks → j < wave.nofTasks → map i ≠ map j → 0 < wave.b i j →
      (posed par plat wave g).IsRoute (map i).toNat (map j).toNat (route i j)) ∧
    ∀ p q, p < plat.nofProcessors → q < plat.nofProcessors → p ≠ q →
      let r := (posed par plat wave g).link p q
      B r = bandwidthOf plat p q - charged par plat wave g map route r ∧
      charged par plat wave g map route r ≤ bandwidthOf plat p q + threshold ∧
      (par.mhop = 0 → crossing par plat wave g map r ≤ bandwidthOf plat p q + threshold)

variable {par plat wave g}

variable {map : ℕ → ℤ}

lemma drawn_pairDraws {f : ℕ → ℕ} {start : Charge}
    (hmap : ∀ t, t < wave.nofTasks → map t = f t) (r : ℕ) :
    (∑ i ∈ Finset.range wave.nofTasks, ∑ j ∈ Finset.range wave.nofTasks,
      drawn ((posed par plat wave g).pairDraws start f i j) r) =
      charged par plat wave g map ((posed par plat wave g).route start f) r := by
  refine Finset.sum_congr rfl fun i hi => Finset.sum_congr rfl fun j hj => ?_
  rw [hmap i (Finset.mem_range.mp hi), hmap j (Finset.mem_range.mp hj)]
  unfold Problem.pairDraws
  rw [apply_ite (fun ds => drawn ds r)]
  simp only [ne_eq, Nat.cast_inj]
  rfl

lemma crossing_eq_charged {f : ℕ → ℕ} {start : Charge}
    (hmap : ∀ t, t < wave.nofTasks → map t = f t) (hb : ∀ i j, 0 ≤ wave.b i j)
    (hmhop : par.mhop = 0) (r : ℕ) :
    crossing par plat wave g map r =
      charged par plat wave g map ((posed par plat wave g).route start f) r := by
  refine Finset.sum_congr rfl fun i hi => Finset.sum_congr rfl fun j hj => ?_
  have hroute : (posed par plat wave g).route start f i j = [(f i, f j)] := if_pos hmhop
  rw [hmap i (Finset.mem_range.mp hi), hmap j (Finset.mem_range.mp hj), hroute]
  simp only [Int.toNat_natCast, Problem.routeDraws, map_cons, map_nil, drawn_cons]
  rcases (hb i j).eq_or_lt with hzero | hpos
  · rw [← hzero, ite_self, if_neg fun h => lt_irrefl _ h.2]
  · by_cases hne : (f i : ℤ) = f j
    · rw [if_neg fun h => h.1 hne, if_neg fun h => h.1 hne]
    · rw [if_pos (show _ ∧ _ from ⟨hne, hpos⟩)]
      simp [hne, drawn]

/-- **Bandwidth feasibility.** A mapping at a finite cost has charged every flow between processors
and overloads no connection, if the trellis is exact and its calls of `cost_commU` are fair. -/
theorem mapper_bandwidth_feasible (par : Parameters) (plat : PlatformResources)
    (wave : WaveformResources) (g : Globals) (hord : par.ord = .noOrd) (hw : 2 ≤ par.w)
    (hfits : par.w + 1 ≤ wave.nofTasks) (hM : wave.nofTasks ≤ maxTasks)
    (hN : plat.nofProcessors ≤ maxProcessors) (hB : ∀ p q, 0 ≤ plat.B p q)
    (hb : ∀ i j, 0 ≤ wave.b i j) :
    ∃ cost map left, mapper par plat wave g = .ok (cost, map, left) ∧
      (cost < infinite - 1 → (posed par plat wave g).Exact (available plat g) par.w →
        (posed par plat wave g).Fair (available plat g) par.w →
        BandwidthFeasible par plat wave g map left.B) := by
  obtain ⟨out, -, -, hout, -⟩ := (posed par plat wave g).twMapping_spec hw hfits
    (available plat g).pLeft (available plat g).bLeft
  have hok := (mapper_ok_iff hord).mpr ⟨nodesFit_of_le hM hN, out, hout, rfl⟩
  refine ⟨_, _, _, hok, fun hfinite hexact hfair => ?_⟩
  obtain ⟨f, hmap, hlt, ⟨tr, htr, hpasses⟩, hholds⟩ := mapper_mapped hord hw hfits hok hfinite
  have hholds := hholds hexact
  obtain ⟨hleft, hadmitted, hrouted⟩ := Problem.charge_draws hfair htr hpasses
    (le_refl wave.nofTasks) hholds
  rw [hholds.charge_eq] at hleft
  refine ⟨(posed par plat wave g).route (available plat g) f, fun i j hi hj hne hpos => ?_,
    fun p q hp hq hpq => ?_⟩
  · have hi' : out.map i = f i := hmap i hi
    have hj' : out.map j = f j := hmap j hj
    rw [hi', hj', Int.toNat_natCast, Int.toNat_natCast]
    refine hrouted i j hi hj (fun heq => hne ?_) hpos
    rw [hi', hj', heq]
  · have hcapacity : (available plat g).bLeft ((posed par plat wave g).link p q) =
        bandwidthOf plat p q := resourceTrans_left _ _ _ _ hp hq hpq
    have hle := hadmitted.drawn_le (r := (posed par plat wave g).link p q)
      (by norm_num [threshold]) (hcapacity ▸ hB _ _)
    rw [Problem.drawn_mappingDraws, drawn_pairDraws hmap, hcapacity] at hle
    refine ⟨?_, hle, fun hmhop => ?_⟩
    · have hB' : out.bLeft = draw _ _ := hleft
      show out.bLeft _ = _
      rw [hB', draw_apply, hcapacity, Problem.drawn_mappingDraws, drawn_pairDraws hmap]
    · rw [crossing_eq_charged hmap hb hmhop]
      exact hle

end Call

/-! ## Three mappings -/

def splitChain : WaveformResources :=
  { chainOfThree with force := fun t => if t = 2 then 1 else 0 }

lemma splitChain_nonneg :
    (posed windowOfTwo (twoProcessors 4 4) splitChain noGlobals).NonnegCosts := chainOfThree_nonneg

lemma splitChain_oneWay : (posed windowOfTwo (twoProcessors 4 4) splitChain noGlobals).OneWay := by
  rintro s t - - ⟨hto, hback⟩
  have hto : 0 < if t = s + 1 then (1 : ℚ) else 0 := hto
  have hback : 0 < if s = t + 1 then (1 : ℚ) else 0 := hback
  split at hto
  · next heq =>
    rw [if_neg (by omega)] at hback
    exact lt_irrefl _ hback
  · exact lt_irrefl _ hto

theorem mapper_bandwidth_feasible_chain : ∃ cost map left,
      mapper windowOfTwo (twoProcessors 4 4) splitChain noGlobals = .ok (cost, map, left) ∧
      cost < infinite - 1 ∧
      BandwidthFeasible windowOfTwo (twoProcessors 4 4) splitChain noGlobals map left.B := by
  obtain ⟨cost, map, left, hok, hfeasible⟩ := mapper_bandwidth_feasible windowOfTwo
    (twoProcessors 4 4) splitChain noGlobals rfl (by decide) (by decide) (by decide) (by decide)
    (fun _ _ => by norm_num [twoProcessors])
    (fun i j => by
      show (0 : ℚ) ≤ if j = i + 1 then 1 else 0
      split <;> norm_num)
  obtain ⟨r, hr, hfinite⟩ := exists_of_yields (fun r => r.1 < infinite - 1)
    (x := mapper windowOfTwo (twoProcessors 4 4) splitChain noGlobals) (by decide +kernel)
  obtain rfl := Except.ok.inj (hok.symm.trans hr)
  exact ⟨cost, map, left, hok, hfinite, hfeasible hfinite (splitChain_nonneg.exact _ _)
    (splitChain_oneWay.fair splitChain_nonneg rfl _ _)⟩

def narrowBack : PlatformResources := ⟨2, .fd, fun _ => 4, fun p _ => if p = 0 then 10 else 1 / 2⟩

def bothWays : WaveformResources :=
  ⟨3, fun _ => 1, fun s t => if s + t = 1 then 1 else 0, fun t => if t = 1 then 1 else 0⟩

def threeOnBus : PlatformResources := ⟨3, .bus, fun _ => 4, fun _ _ => 3 / 2⟩

def oneFlow : WaveformResources :=
  ⟨3, fun _ => 1, fun s t => if s = 0 ∧ t = 1 then 1 else 0, fun t => if t = 1 then 2 else 1⟩

/-- Of two flows in opposite directions the second is not charged, and overloads its connection. A
detour on a bus is charged twice where only one charge fits. -/
theorem mapper_bandwidth_infeasible :
    (∃ r, mapper windowOfTwo narrowBack bothWays noGlobals = .ok r ∧ r.1 < infinite - 1 ∧
      bandwidthOf narrowBack 1 0 + threshold < crossing windowOfTwo narrowBack bothWays noGlobals
        r.2.1 ((posed windowOfTwo narrowBack bothWays noGlobals).link 1 0)) ∧
    ∃ r, mapper ⟨.noOrd, 2, 2, 1⟩ threeOnBus oneFlow noGlobals = .ok r ∧ r.1 < infinite - 1 ∧
      bandwidthOf threeOnBus 1 2 = 3 / 2 ∧
      r.2.2.B ((posed ⟨.noOrd, 2, 2, 1⟩ threeOnBus oneFlow noGlobals).link 1 2) = -1 / 2 :=
  ⟨exists_of_yields _ (by decide +kernel), exists_of_yields _ (by decide +kernel)⟩

end Aloe.Crm
