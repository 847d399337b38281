import Aloe.Crm.TrellisInvariant

/-!
# The run of the trellis

The loops of `tw_mapping` from the inside out: a path keeps what the paths before it have
established for the node, a visit turns the chosen path into the node's assignment, a step
does so for all nodes of a task, and the run for all tasks up to the window's last start.
None of them ever meets a cell that was not written.
-/

namespace Aloe.Crm

open Lib Function

namespace Problem

variable {pb : Problem} {start : Charge} {w i j : ℕ}
  {α : Type} {r : ℚ × Row × Option Row} {f : ℕ → ℕ} {pLeft bLeft : Row} {k1 : ℕ}
  {tr0 : Trellis}

lemma set₂_self (t : ℕ → ℕ → α) (i j : ℕ) (a : α) : set₂ t i j a i j = a := by
  simp [set₂]

lemma set₂_of_ne (t : ℕ → ℕ → α) {i j i' j' : ℕ} (a : α) (h : i' ≠ i ∨ j' ≠ j) :
    set₂ t i j a i' j' = t i' j' := by
  unfold set₂
  rcases eq_or_ne i' i with rfl | hi
  · rw [update_self, update_of_ne (h.resolve_left fun hne => hne rfl)]
  · rw [update_of_ne hi]

/-! ## A path -/

/-- What the path from node `(k, i-1)` has left for node `(j, i)`. -/
def Followed (pb : Problem) (start : Charge) (w i j : ℕ) (tr : Trellis) (k : ℕ) : Prop :=
  tr.aPathsU k (node pb.processors j i) < infinite - 1 →
    ∃ pLeft bLeft, tr.pTempL1 k = some pLeft ∧ tr.bTempL1 k = some bLeft ∧
      (pb.Exact start w → pb.Holds start w (Function.update (tr.PP k (i - 1)) i j) (i + 1)
        ⟨tr.aPathsU k (node pb.processors j i), pLeft, bLeft⟩)

/-- The invariant of the loop over the paths to node `(j, i)`, which starts from `tr0`. -/
structure Paths (pb : Problem) (start : Charge) (w i j : ℕ) (tr₀ : Trellis) (n : ℕ)
    (tr : Trellis) : Prop where
  touches : pb.Touches i j tr₀ tr
  PP_eq : tr.PP = tr₀.PP
  pTempG_eq : tr.pTempG = tr₀.pTempG
  bTempG_eq : tr.bTempG = tr₀.bTempG
  followed : ∀ k, k < n → pb.Followed start w i j tr k
  chosen : ∃ k, tr.indx j i = some k ∧ k < pb.processors ∧
    pb.Decided start w tr i j (Function.update (tr.PP k (i - 1)) i j)

variable {k : ℕ} {tr : Trellis}

structure Decides (pb : Problem) (i j : ℕ) (tr tr' : Trellis) : Prop where
  touches : pb.Touches i j tr tr'
  PP_eq : tr'.PP = tr.PP
  pTempG_eq : tr'.pTempG = tr.pTempG
  bTempG_eq : tr'.bTempG = tr.bTempG
  aPathsU_eq : tr'.aPathsU = tr.aPathsU
  pTempL1_eq : tr'.pTempL1 = tr.pTempL1
  bTempL1_eq : tr'.bTempL1 = tr.bTempL1

lemma Decides.followed {tr' : Trellis} (h : pb.Decides i j tr tr')
    (hk : pb.Followed start w i j tr k) : pb.Followed start w i j tr' k := by
  unfold Followed
  rw [h.aPathsU_eq, h.pTempL1_eq, h.bTempL1_eq, h.PP_eq]
  exact hk

lemma decideGlobal_spec (tr : Trellis) (hk1 : k1 < pb.processors)
    (hchosen : ∃ k, tr.indx j i = some k ∧ k < pb.processors ∧
      pb.Decided start w tr i j (Function.update (tr.PP k (i - 1)) i j))
    (hsc : pb.Searched start (pb.Exact start w) w i k1 (Function.update (tr.PP k1 (i - 1)) i j)
      tr.scratch) :
    ∃ tr', pb.decideGlobal w i j k1 tr = .ok tr' ∧ pb.Decides i j tr tr' ∧
      ∃ k, tr'.indx j i = some k ∧ k < pb.processors ∧
        pb.Decided start w tr' i j (Function.update (tr'.PP k (i - 1)) i j) := by
  obtain ⟨k, hk, hlt, best, hbest, hle, hdecided⟩ := hchosen
  obtain ⟨cost, hcost, hle', hfound⟩ := hsc
  rw [decideGlobal, hbest, hcost, known_some, known_some, bind_ok_eq, bind_ok_eq]
  split
  · split
    · next hlast =>
      refine ⟨_, rfl, ⟨{ Touches.refl pb tr with
        indx := fun _ _ hne => set₂_of_ne _ _ hne
        costwAuxx := fun _ hne => update_of_ne hne ..
        indxs := fun _ hne => update_of_ne hne ..
        pRemG := fun _ hne => update_of_ne hne ..
        bRemG := fun _ hne => update_of_ne hne .. }, rfl, rfl, rfl, rfl, rfl, rfl⟩, k1,
        set₂_self .., hk1, cost, update_self .., hle', fun _ _ => ⟨_, update_self .., ?_⟩⟩
      intro hfinite
      simp only [update_self]
      exact hfound hfinite hlast
    · next hlast =>
      exact ⟨_, rfl, ⟨{ Touches.refl pb tr with
        indx := fun _ _ hne => set₂_of_ne _ _ hne
        costwAuxx := fun _ hne => update_of_ne hne .. }, rfl, rfl, rfl, rfl, rfl, rfl⟩, k1,
        set₂_self .., hk1, cost, update_self .., hle', fun heq => absurd heq hlast⟩
  · exact ⟨tr, rfl, ⟨.refl pb tr, rfl, rfl, rfl, rfl, rfl, rfl⟩, k, hk, hlt, best, hbest, hle,
      hdecided⟩

lemma touches_aPathsU (tr : Trellis) (r : ℕ) (cost : ℚ) (p b : ℕ → Option Row) (sc : Scratch) :
    pb.Touches i j tr { tr with
      aPathsU := set₂ tr.aPathsU r (node pb.processors j i) cost
      pTempL1 := p, bTempL1 := b, scratch := sc } :=
  { Touches.refl pb tr with aPathsU := fun _ _ hne => set₂_of_ne _ _ (.inr hne) }

lemma Followed.entered (h : pb.Followed start w i j tr k)
    (hne : k ≠ k1) (cost : ℚ) (pLeft : Row) (bNew : Option Row) :
    pb.Followed start w i j (pb.entered i j k1 tr cost pLeft bNew) k := by
  have hcost : (pb.entered i j k1 tr cost pLeft bNew).aPathsU k (node pb.processors j i) =
      tr.aPathsU k (node pb.processors j i) := set₂_of_ne _ _ (.inl hne)
  have hp : (pb.entered i j k1 tr cost pLeft bNew).pTempL1 k = tr.pTempL1 k := update_of_ne hne ..
  have hb : (pb.entered i j k1 tr cost pLeft bNew).bTempL1 k = tr.bTempL1 k := by
    cases bNew with
    | none => rfl
    | some b => exact update_of_ne hne ..
  unfold Followed
  rw [hcost, hp, hb]
  exact h

lemma Followed.of_infinite
    (h : tr.aPathsU k (node pb.processors j i) = infinite) : pb.Followed start w i j tr k := by
  intro hlt
  rw [h] at hlt
  simp only [infinite] at hlt
  norm_num at hlt

lemma Followed.of_level (hfits : i + w ≤ pb.tasks) (hi : i < pb.tasks) (hj : j < pb.processors)
    (hlt : ∀ s, s < i → tr.PP k1 (i - 1) s < pb.processors)
    (hholds : pb.Exact start w → r.1 < infinite - 1 → pb.Holds start w (tr.PP k1 (i - 1)) i
      ⟨tr.aPathsU pb.processors (node pb.processors k1 (i - 1)), pLeft, bLeft⟩)
    (hr : pb.levelCost (tr.PP k1 (i - 1)) i [] j
      (tr.aPathsU pb.processors (node pb.processors k1 (i - 1))) pLeft bLeft = .ok r) :
    (r.1 < infinite - 1 → ∃ b, r.2.2 = some b ∧ (pb.Exact start w →
      pb.Holds start w (Function.update (tr.PP k1 (i - 1)) i j) (i + 1) ⟨r.1, r.2.1, b⟩)) ∧
    pb.Followed start w i j (pb.entered i j k1 tr r.1 r.2.1 r.2.2) k1 := by
  have hlevel : r.1 < infinite - 1 → ∃ b, r.2.2 = some b ∧ (pb.Exact start w →
      pb.Holds start w (Function.update (tr.PP k1 (i - 1)) i j) (i + 1) ⟨r.1, r.2.1, b⟩) := by
    intro hfinite
    obtain ⟨r', hr', hspec⟩ := levelCost_first (tr.PP k1 (i - 1)) j
      (tr.aPathsU pb.processors (node pb.processors k1 (i - 1))) pLeft bLeft hlt hi
    have hsame : r' = r := Except.ok.inj (hr'.symm.trans hr)
    subst hsame
    refine ⟨_, (hspec hfinite).1, fun hQ => ?_⟩
    obtain ⟨b, hb, hext⟩ := Holds.next (l := 0) (hholds hQ hfinite) hj (fun _ _ => rfl) hfits hi hr
      hfinite
    rw [(hspec hfinite).1] at hb
    cases hb
    exact hext
  have hcost : (pb.entered i j k1 tr r.1 r.2.1 r.2.2).aPathsU k1 (node pb.processors j i) = r.1 :=
    set₂_self ..
  refine ⟨hlevel, fun hfinite => ?_⟩
  rw [hcost] at hfinite ⊢
  obtain ⟨b, hb, hholds⟩ := hlevel hfinite
  refine ⟨r.2.1, b, update_self .., ?_, hholds⟩
  simp [Problem.entered, hb]

variable (hw : 2 ≤ w) (hi : 1 ≤ i) (hfits : i + w ≤ pb.tasks)

include hw hi hfits in
/-- **Step lemma.** One more path to node `(j, i)`. -/
theorem path_spec (hj : j < pb.processors) (hk1 : k1 < pb.processors)
    (htraced : ∀ k, k < pb.processors → pb.Traced tr0 (i - 1) k)
    (hready : ∀ k, k < pb.processors → pb.Ready start w tr0.pTempGS tr0.bTempGS tr0 i k)
    (hp : pb.Paths start w i j tr0 k1 tr) :
    ∃ tr', pb.path w i j tr k1 = .ok tr' ∧ pb.Paths start w i j tr0 (k1 + 1) tr' := by
  obtain ⟨pLeft, bLeft, hpLeft, hbLeft, hexact⟩ := hp.touches.ready hi hk1 (hready k1 hk1)
  have hlt : ∀ s, s < i → tr.PP k1 (i - 1) s < pb.processors := by
    intro s hs
    rw [hp.PP_eq]
    exact (htraced k1 hk1).lt s (by omega)
  have hbefore : ∀ k cost p b, k < k1 + 1 → k ≠ k1 →
      pb.Followed start w i j (pb.entered i j k1 tr cost p b) k :=
    fun k cost p b hk hne => (hp.followed k (by omega)).entered hne cost p b
  rw [path]
  split
  · refine ⟨_, rfl, hp.touches.trans (touches_aPathsU tr k1 infinite tr.pTempL1 tr.bTempL1
      tr.scratch), hp.PP_eq, hp.pTempG_eq, hp.bTempG_eq, ?_, hp.chosen⟩
    intro k hk
    rcases eq_or_ne k k1 with rfl | hne
    · exact Followed.of_infinite (set₂_self ..)
    · have hcost : set₂ tr.aPathsU k1 (node pb.processors j i) infinite k
          (node pb.processors j i) = tr.aPathsU k (node pb.processors j i) :=
        set₂_of_ne _ _ (.inl hne)
      unfold Followed
      simp only [hcost]
      exact hp.followed k (by omega)
  · next hpass =>
    have hpass := not_lt.mp hpass
    obtain ⟨r, hr, -⟩ := levelCost_first (tr.PP k1 (i - 1)) j
      (tr.aPathsU pb.processors (node pb.processors k1 (i - 1))) pLeft bLeft hlt (by omega)
    obtain ⟨hlevel, hfollowed⟩ := Followed.of_level hfits (by omega) hj hlt
      (fun hQ hfinite => hexact hQ hpass j r hj hr hfinite) hr
    obtain ⟨cost, p, b⟩ := r
    simp only at hlevel
    have hfollow : ∀ k, k < k1 + 1 → pb.Followed start w i j (pb.entered i j k1 tr cost p b) k := by
      intro k hk
      rcases eq_or_ne k k1 with rfl | hne
      · exact hfollowed
      · exact hbefore k cost p b hk hne
    have htouches : ∀ sc, pb.Touches i j tr0 { pb.entered i j k1 tr cost p b with scratch := sc } :=
      fun sc => hp.touches.trans (touches_aPathsU tr k1 cost _ _ sc)
    simp only [hpLeft, hbLeft, known_some, bind_ok_eq, hr]
    rw [if_neg (show w ≠ 1 by omega)]
    split
    · next hfinite =>
      obtain ⟨bLeft', rfl, hholds⟩ := hlevel hfinite
      have hrow : (pb.entered i j k1 tr cost p (some bLeft')).bTempL1 k1 = some bLeft' :=
        update_self ..
      rw [hrow, known_some, bind_ok_eq]
      have hpre : ∀ s, s < i → tr.PP k1 (i - 1) s = Function.update (tr.PP k1 (i - 1)) i j s :=
        fun s hs => (update_of_ne (ne_of_lt hs) ..).symm
      have hsearched : pb.Searched start (pb.Exact start w) w i k1
          (Function.update (tr.PP k1 (i - 1)) i j)
          { (pb.entered i j k1 tr cost p (some bLeft')).scratch with
            costwAux := Function.update
              (pb.entered i j k1 tr cost p (some bLeft')).scratch.costwAux k1
              (some infinite) } := by
        refine ⟨infinite, Function.update_self .., le_refl _, fun hlt => ?_⟩
        simp only [infinite] at hlt
        norm_num at hlt
      have hwindow : [(i, j)] = (List.range' i (0 + 1)).map fun s =>
          (s, Function.update (tr.PP k1 (i - 1)) i j s) := by simp
      obtain ⟨sc, hlevels, hsc⟩ := levels_spec hfits hpre
        (show 0 + 1 + (w - 2) + 1 = w by omega) (fun _ _ => rfl) (update_lt hj hlt) hholds hsearched
      rw [← hwindow] at hlevels
      rw [hlevels, bind_ok_eq]
      obtain ⟨tr', hok, hdecides, hchosen⟩ := decideGlobal_spec
        { pb.entered i j k1 tr cost p (some bLeft') with scratch := sc } hk1
        hp.chosen hsc
      refine ⟨tr', hok, (htouches sc).trans hdecides.touches, hdecides.PP_eq.trans hp.PP_eq,
        hdecides.pTempG_eq.trans hp.pTempG_eq, hdecides.bTempG_eq.trans hp.bTempG_eq,
        fun k hk => hdecides.followed (hfollow k hk), hchosen⟩
    · exact ⟨_, rfl, htouches tr.scratch, hp.PP_eq, hp.pTempG_eq, hp.bTempG_eq, hfollow, hp.chosen⟩

/-! ## A node -/

lemma Found.congr {Q : Prop} {g : ℕ → ℕ} {cost : ℚ} {is : List ℕ} {p b : Option Row}
    (h : pb.Found start Q w i f cost is p b) (heq : ∀ s, s ≤ i → f s = g s) :
    pb.Found start Q w i g cost is p b := by
  obtain ⟨h', pLeft, bLeft, hf, hrest⟩ := h
  exact ⟨h', pLeft, bLeft, fun s hs => (hf s hs).trans (heq s hs), hrest⟩

lemma settle_touches (pb : Problem) (i j : ℕ) (hw : w ≠ 1) (k : ℕ) (tr : Trellis) :
    pb.Touches i j tr (pb.settle w i j k tr) := by
  unfold settle
  simp only [if_neg hw]
  split
  · exact { Touches.refl pb tr with
      PP := fun _ _ hne => set₂_of_ne _ _ hne
      aPathsU := fun _ _ hne => set₂_of_ne _ _ (.inr hne)
      pTempG := fun _ hne => update_of_ne hne ..
      bTempG := fun _ hne => update_of_ne hne .. }
  · exact { Touches.refl pb tr with
      PP := fun _ _ hne => set₂_of_ne _ _ hne
      aPathsU := fun _ _ hne => set₂_of_ne _ _ (.inr hne) }

lemma settle_cost (hw : w ≠ 1) (k : ℕ) (tr : Trellis) :
    (pb.settle w i j k tr).aPathsU pb.processors (node pb.processors j i) =
      tr.aPathsU k (node pb.processors j i) := by
  unfold settle
  simp only [if_neg hw]
  split
  · exact set₂_self ..
  · exact set₂_self ..

lemma settle_PP (hw : w ≠ 1) (k : ℕ) (tr : Trellis) (s : ℕ) : (pb.settle w i j k tr).PP j i s =
      if s < i then tr.PP k (i - 1) s else if s = i then j else tr.PP j i s := by
  unfold settle
  simp only [if_neg hw]
  split
  · exact congrFun (set₂_self ..) s
  · exact congrFun (set₂_self ..) s

lemma settle_rows (pb : Problem) (i j : ℕ) (hw : w ≠ 1) (k : ℕ) (tr : Trellis) :
    (pb.settle w i j k tr).pTempG j =
        (if tr.aPathsU k (node pb.processors j i) < infinite - 1 then tr.pTempL1 k
          else tr.pTempG j) ∧
      (pb.settle w i j k tr).bTempG j =
        (if tr.aPathsU k (node pb.processors j i) < infinite - 1 then tr.bTempL1 k
          else tr.bTempG j) := by
  unfold settle
  simp only [if_neg hw, set₂_self]
  split
  · exact ⟨update_self .., update_self ..⟩
  · exact ⟨rfl, rfl⟩

lemma settle_window (pb : Problem) (i j : ℕ) (hw : w ≠ 1) (k : ℕ) (tr : Trellis) :
    (pb.settle w i j k tr).indx = tr.indx ∧ (pb.settle w i j k tr).costwAuxx = tr.costwAuxx ∧
      (pb.settle w i j k tr).indxs = tr.indxs ∧ (pb.settle w i j k tr).pRemG = tr.pRemG ∧
      (pb.settle w i j k tr).bRemG = tr.bRemG := by
  unfold settle
  simp only [if_neg hw]
  split
  · exact ⟨rfl, rfl, rfl, rfl, rfl⟩
  · exact ⟨rfl, rfl, rfl, rfl, rfl⟩

lemma settle_assignment (hw : w ≠ 1) (k : ℕ) (tr : Trellis) {s : ℕ} (hs : s ≤ i) :
    Function.update (tr.PP k (i - 1)) i j s = (pb.settle w i j k tr).PP j i s := by
  rw [settle_PP hw]
  rcases Nat.lt_or_eq_of_le hs with hlt | rfl
  · rw [update_of_ne (ne_of_lt hlt), if_pos hlt]
  · rw [Function.update_self, if_neg (lt_irrefl _), if_pos rfl]

/-- **Step lemma.** The chosen path becomes the node. -/
theorem settle_spec (hw : 2 ≤ w) (hi : 1 ≤ i)
    (hj : j < pb.processors) (hk : k < pb.processors) (hindx : tr.indx j i = some k)
    (htraced : pb.Traced tr (i - 1) k) (hkept : ∃ p b, tr.pTempG j = some p ∧ tr.bTempG j = some b)
    (hp : pb.Paths start w i j tr0 pb.processors tr)
    (hdecided : pb.Decided start w tr i j (Function.update (tr.PP k (i - 1)) i j)) :
    pb.Traced (pb.settle w i j k tr) i j ∧ pb.Saved start w (pb.settle w i j k tr) i j ∧
      pb.Decided start w (pb.settle w i j k tr) i j ((pb.settle w i j k tr).PP j i) := by
  have hw1 : w ≠ 1 := by omega
  obtain ⟨hindx', hauxx, hindxs, hpRemG, hbRemG⟩ := settle_window pb i j hw1 k tr
  refine ⟨⟨?_, ?_, ?_⟩, ?_, ?_⟩
  · intro s hs
    rw [← settle_assignment hw1 k tr hs]
    exact update_lt hj (fun s hs => htraced.lt s (by omega)) s (Nat.lt_succ_of_le hs)
  · rw [← settle_assignment hw1 k tr (le_refl i), Function.update_self]
  · intro _
    refine ⟨k, by rw [hindx', hindx], hk, fun s hs => ?_⟩
    rw [← settle_assignment hw1 k tr (le_of_lt hs), Function.update_of_ne (ne_of_lt hs),
      (settle_touches pb i j hw1 k tr).PP k (i - 1) (.inr (by omega))]
  · have hfollowed := hp.followed k hk
    obtain ⟨hrowP, hrowB⟩ := settle_rows pb i j hw1 k tr
    unfold Saved
    rw [hrowP, hrowB, settle_cost hw1]
    by_cases hfinite : tr.aPathsU k (node pb.processors j i) < infinite - 1
    · obtain ⟨pLeft, bLeft, hpLeft, hbLeft, hholds⟩ := hfollowed hfinite
      rw [if_pos hfinite, if_pos hfinite]
      exact ⟨pLeft, bLeft, hpLeft, hbLeft, fun hQ _ =>
        (hholds hQ).congr fun s hs => settle_assignment hw1 k tr (Nat.le_of_lt_succ hs)⟩
    · -- nothing is saved, and nobody relies on it
      obtain ⟨pLeft, bLeft, hpLeft, hbLeft⟩ := hkept
      rw [if_neg hfinite, if_neg hfinite]
      exact ⟨pLeft, bLeft, hpLeft, hbLeft, fun _ hlt => absurd hlt hfinite⟩
  · obtain ⟨cost, hcost, hle, hfound⟩ := hdecided
    unfold Decided
    rw [hauxx, hindxs, hpRemG, hbRemG]
    refine ⟨cost, hcost, hle, fun hlast hlt => ?_⟩
    obtain ⟨is, his, hfound⟩ := hfound hlast hlt
    exact ⟨is, his, fun hfinite => (hfound hfinite).congr fun s hs => settle_assignment hw1 k tr hs⟩

/-- The invariant of the loop over the nodes of task `i`. -/
structure Visits (pb : Problem) (start : Charge) (w i n : ℕ) (tr : Trellis) : Prop where
  tracedBefore : ∀ i', i' < i → ∀ j, j < pb.processors → pb.Traced tr i' j
  ready : ∀ j, j < pb.processors → pb.Ready start w tr.pTempGS tr.bTempGS tr i j
  kept : ∀ j, n ≤ j → tr.pTempG j = tr.pTempGS j ∧ tr.bTempG j = tr.bTempGS j
  traced : ∀ j, j < n → pb.Traced tr i j
  saved : ∀ j, j < n → pb.Saved start w tr i j
  decided : ∀ j, j < n → pb.Decided start w tr i j (tr.PP j i)

lemma opened_touches (pb : Problem) (i j : ℕ) (tr : Trellis) : pb.Touches i j tr
    (pb.opened i j tr) :=
  { Touches.refl pb tr with
    indx := fun _ _ hne => set₂_of_ne _ _ hne
    aPathsU := fun _ _ hne => set₂_of_ne _ _ (.inr hne)
    costwAuxx := fun _ hne => update_of_ne hne .. }

lemma opened_paths (hj : j < pb.processors) (tr : Trellis) :
    pb.Paths start w i j (pb.opened i j tr) 0 (pb.opened i j tr) := by
  refine ⟨.refl pb _, rfl, rfl, rfl, fun k hk => absurd hk (Nat.not_lt_zero k), 0, set₂_self ..,
    by omega, ?_⟩
  exact ⟨infinite, update_self .., le_refl _, fun _ hlt => absurd hlt (lt_irrefl _)⟩

include hw hi hfits in
/-- **Step lemma.** One more node of task `i`. -/
theorem visit_spec (hj : j < pb.processors) (hv : pb.Visits start w i j tr) :
    ∃ tr', pb.visit w i tr j = .ok tr' ∧ pb.Visits start w i (j + 1) tr' := by
  have hopen := opened_touches pb i j tr
  obtain ⟨tr2, hok, hp⟩ := foldlM_range_total (pb.Paths start w i j (pb.opened i j tr))
    (n := pb.processors) (fun k tr' hk hp' => path_spec hw hi hfits hj hk
      (fun k hk => hopen.traced (by omega) (.inr (by omega))
      (hv.tracedBefore (i - 1) (by omega) k hk))
      (fun k hk => hopen.ready hi hk (hv.ready k hk)) hp') (opened_paths hj tr)
  obtain ⟨k, hindx, hk, hdecided⟩ := hp.chosen
  have htouches2 := hopen.trans hp.touches
  have htraced2 := htouches2.traced (by omega) (.inr (by omega))
    (hv.tracedBefore (i - 1) (by omega) k hk)
  have hkept2 : ∃ p b, tr2.pTempG j = some p ∧ tr2.bTempG j = some b := by
    obtain ⟨p, b, hpj, hbj, -⟩ := hv.ready j hj
    rw [hp.pTempG_eq, hp.bTempG_eq]
    exact ⟨p, b, ((hv.kept j (le_refl j)).1).trans hpj, ((hv.kept j (le_refl j)).2).trans hbj⟩
  obtain ⟨hnodeTraced, hnodeSaved, hnodeDecided⟩ :=
    settle_spec hw hi hj hk hindx htraced2 hkept2 hp hdecided
  have htouches := htouches2.trans (settle_touches pb i j (show w ≠ 1 by omega) k tr2)
  refine ⟨pb.settle w i j k tr2, ?_, ?_, ?_, ?_, ?_, ?_, ?_⟩
  · rw [visit, show (List.range pb.processors).foldlM (pb.path w i j) _ = _ from hok, bind_ok_eq,
      hindx, known_some, bind_ok_eq, inBounds_ok hk]
    rfl
  · exact fun i' hi' j' hj' =>
      htouches.traced (le_of_lt hi') (.inr (ne_of_lt hi')) (hv.tracedBefore i' hi' j' hj')
  · exact fun j' hj' => htouches.ready hi hj' (hv.ready j' hj')
  · intro j' hj'
    have hne : j' ≠ j := by omega
    rw [htouches.pTempG j' hne, htouches.bTempG j' hne, htouches.pTempGS, htouches.bTempGS]
    exact hv.kept j' (by omega)
  · intro j' hj'
    rcases Nat.lt_succ_iff_lt_or_eq.mp hj' with hlt | rfl
    · exact htouches.traced (le_refl i) (.inl (ne_of_lt hlt)) (hv.traced j' hlt)
    · exact hnodeTraced
  · intro j' hj'
    rcases Nat.lt_succ_iff_lt_or_eq.mp hj' with hlt | rfl
    · exact htouches.saved (ne_of_lt hlt) (hv.saved j' hlt)
    · exact hnodeSaved
  · intro j' hj'
    rcases Nat.lt_succ_iff_lt_or_eq.mp hj' with hlt | rfl
    · rw [htouches.PP j' i (.inl (ne_of_lt hlt))]
      exact htouches.decided (ne_of_lt hlt) (hv.decided j' hlt)
    · exact hnodeDecided

/-! ## The steps -/

/-- The invariant of the loop over the tasks, before task `i`. -/
structure Stepped (pb : Problem) (start : Charge) (w i : ℕ) (tr : Trellis) : Prop where
  reached : pb.before w start i = .ok tr
  traced : ∀ i', i' < i → ∀ j, j < pb.processors → pb.Traced tr i' j
  ready : i + w ≤ pb.tasks → ∀ j, j < pb.processors →
    pb.Ready start w tr.pTempG tr.bTempG tr i j
  decided : 2 ≤ i → ∀ j, j < pb.processors → pb.Decided start w tr (i - 1) j (tr.PP j (i - 1))

lemma start_stepped (p0 b0 : Row) : pb.Stepped ⟨0, p0, b0⟩ w 1 (pb.start p0 b0) := by
  have hPP : ∀ j, j < pb.processors → (pb.start p0 b0).PP j 0 0 = j := by
    intro j hj
    exact if_pos ⟨rfl, rfl, hj⟩
  have hcost : ∀ j, j < pb.processors →
      (pb.start p0 b0).aPathsU pb.processors (node pb.processors j 0) = (pb.comp 0 j p0).1 := by
    intro j hj
    simp only [start, node, zero_mul, zero_add]
    exact if_pos ⟨trivial, hj⟩
  have hholds : ∀ j, j < pb.processors → (pb.comp 0 j p0).1 ≤ infinite - 1 →
      pb.Holds ⟨0, p0, b0⟩ w ((pb.start p0 b0).PP j 0) 1
        ⟨(pb.comp 0 j p0).1, (pb.comp 0 j p0).2, b0⟩ := by
    intro j hj hle
    have haccepts : pb.Accepts 0 j p0 := accepts_of_comp (by simp only [infinite] at *; linarith)
    have hzero : pb.Holds ⟨0, p0, b0⟩ w (fun _ => 0) 0 ⟨0, p0, b0⟩ := .zero
    have hnone : pb.flows (fun _ => 0) 0 j b0 = (0, b0) := rfl
    have hone := hzero.extend hj haccepts (fun h => absurd h (by omega)) (fun s hs => by
      obtain rfl := Nat.le_zero.mp hs
      exact ⟨by norm_num [flowsTo, infinite], fun _ => by norm_num [flowsTo, infinite]⟩)
      fun h => absurd h (by omega)
    rw [hnone, add_zero, add_zero] at hone
    refine hone.congr fun s hs => ?_
    obtain rfl : s = 0 := by omega
    rw [hPP j hj, update_self]
  refine ⟨rfl, ?_, ?_, fun htwo => absurd htwo (by omega)⟩
  · intro i hi j hj
    obtain rfl : i = 0 := by omega
    refine ⟨fun s hs => ?_, hPP j hj, fun hpos => absurd hpos (lt_irrefl 0)⟩
    obtain rfl : s = 0 := by omega
    exact (hPP j hj).symm ▸ hj
  · intro _ j hj
    rw [Ready, Nat.sub_self, hcost j hj]
    exact ⟨_, _, if_pos hj, if_pos hj, fun _ hle _ _ _ _ _ => hholds j hj hle⟩

include hw hi hfits in
/-- **Step lemma.** One more task. -/
theorem step_spec (hs : pb.Stepped start w i tr) :
    ∃ tr', pb.step w tr i = .ok tr' ∧ pb.Stepped start w (i + 1) tr' := by
  have hnone : ∀ j, ¬ j < 0 := Nat.not_lt_zero
  have hbegin : pb.Visits start w i 0 { tr with pTempGS := tr.pTempG, bTempGS := tr.bTempG } := by
    refine ⟨fun i' hi' j hj => ?_, hs.ready hfits, fun _ _ => ⟨rfl, rfl⟩, fun j hj =>
      absurd hj (hnone j),
      fun j hj => absurd hj (hnone j), fun j hj => absurd hj (hnone j)⟩
    obtain ⟨hlt, hself, hback⟩ := hs.traced i' hi' j hj
    exact ⟨hlt, hself, hback⟩
  obtain ⟨tr', hok, hv⟩ := foldlM_range_total (pb.Visits start w i)
    (fun j tr' hj hv => visit_spec hw hi hfits hj hv) hbegin
  have hreached : pb.before w start (i + 1) = .ok tr' := by
    have hrange : List.range' 1 (i + 1 - 1) = List.range' 1 (i - 1) ++ [i] := by
      rw [show i + 1 - 1 = i - 1 + 1 by omega, List.range'_1_concat, Nat.add_sub_cancel' hi]
    rw [before, hrange, List.foldlM_append]
    refine bind_eq_ok.mpr ⟨tr, hs.reached, ?_⟩
    exact bind_eq_ok.mpr ⟨tr', hok, rfl⟩
  refine ⟨tr', hok, hreached, ?_, fun hnext j hj => ?_, fun _ => hv.decided⟩
  · intro i' hi' j hj
    rcases Nat.lt_succ_iff_lt_or_eq.mp hi' with hlt | rfl
    · exact hv.tracedBefore i' hlt j hj
    · exact hv.traced j hj
  · exact (hv.saved j hj).ready hj (by omega) fun hQ => hQ (i + 1) tr' (by omega) hnext hreached

/-- **Run lemma.** The loop over the tasks, up to the one where the last window starts. -/
theorem steps_spec (hw : 2 ≤ w) (hfits : w + 1 ≤ pb.tasks) (p0 b0 : Row) :
    ∃ tr, (List.range' 1 (pb.tasks - w)).foldlM (pb.step w) (pb.start p0 b0) = .ok tr ∧
      pb.Stepped ⟨0, p0, b0⟩ w (1 + (pb.tasks - w)) tr := by
  refine foldlM_range'_total (pb.Stepped ⟨0, p0, b0⟩ w) ?_ (start_stepped p0 b0)
  intro i tr hi hlt hs
  exact step_spec hw hi (by omega) hs

end Problem

end Aloe.Crm
