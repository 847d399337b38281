import Aloe.Crm.Mapper
import Aloe.Crm.TrellisRun
import Aloe.Lib.Ledger

/-!
# Computing feasibility

After the last step `tw_mapping` picks the cheapest node and reassembles its mapping: the window's
tasks from the indices that the search has kept, those before it along the chosen edges. A call of
`mapper` has a defined result if all processors and tasks fit the table of the nodes, and if there
are more tasks than the window is long; otherwise costs are compared that no step has written.

With the processors as a ledger, every task draws its demand from the processor it is mapped to.
A mapping at a finite cost respects the forced processors and leaves no processor overloaded, and
the capacities that are saved are what the tasks have left. This rests on the trellis being exact.
Otherwise a node whose rows were not saved can become part of the mapping, with the capacities of
another one.
-/

namespace Aloe.Crm

open Lib

namespace Problem

variable {pb : Problem} {start : Charge} {w : ℕ} {tr : Trellis}

/-! ## The choice of the last node -/

/-- A cost is taken if it is below the best one so far by more than the threshold. -/
def select (best : ℚ) (costs : List ℚ) : ℚ :=
  costs.foldl (fun best cost => if threshold < best - cost then cost else best) best

/-- The choice among the first `n` nodes, whose windows cost `costs`. -/
structure Chosen (pb : Problem) (start : Charge) (w : ℕ) (tr : Trellis) (costs : ℕ → ℚ) (n : ℕ)
    (choice : Choice) : Prop where
  cost_eq : choice.cost = select infinite ((List.range n).map costs)
  le_infinite : choice.cost ≤ infinite
  found : choice.cost < infinite - 1 → ∃ j, j < n ∧ choice.index = some j ∧
    pb.Found start (pb.Exact start w) w (pb.tasks - w) (tr.PP j (pb.tasks - w)) choice.cost
      choice.is (tr.pRemG j) (tr.bRemG j)

lemma chosen_start {costs : ℕ → ℚ} :
    pb.Chosen start w tr costs 0 ⟨infinite, none, [0, 0, 0, 0]⟩ where
  cost_eq := rfl
  le_infinite := le_refl _
  found hlt := absurd hlt (by simp [infinite])

/-- **Step lemma.** One more node. -/
theorem chooseNode_spec {j : ℕ} {costs : ℕ → ℚ} {choice : Choice} (hw : w ≠ 1)
    (hfits : w ≤ pb.tasks) (hcost : tr.costwAuxx j = some (costs j))
    (hd : pb.Decided start w tr (pb.tasks - w) j (tr.PP j (pb.tasks - w)))
    (hc : pb.Chosen start w tr costs j choice) :
    ∃ choice', pb.chooseNode w tr choice j = .ok choice' ∧
      pb.Chosen start w tr costs (j + 1) choice' := by
  obtain ⟨cost, hcost', hle, hfound⟩ := hd
  obtain rfl : costs j = cost := Option.some.inj (hcost.symm.trans hcost')
  have hselect : select infinite ((List.range (j + 1)).map costs) =
      if threshold < choice.cost - costs j then costs j else choice.cost := by
    rw [List.range_succ, List.map_append, select, List.foldl_append, hc.cost_eq]
    rfl
  rw [chooseNode, if_neg hw, hcost, known_some, bind_ok_eq]
  split
  · next hcheaper =>
    have hlt : costs j < infinite := by
      have := hc.le_infinite
      simp only [threshold] at hcheaper
      linarith
    obtain ⟨is, his, hfound⟩ := hfound (Nat.sub_add_cancel hfits) hlt
    rw [his, known_some, bind_ok_eq]
    refine ⟨_, rfl, (hselect.trans (if_pos hcheaper)).symm, hle, fun hfinite => ?_⟩
    exact ⟨j, Nat.lt_succ_self j, rfl, hfound hfinite⟩
  · next hnot =>
    refine ⟨choice, rfl, (hselect.trans (if_neg hnot)).symm, hc.le_infinite, fun hfinite => ?_⟩
    obtain ⟨j', hj', hrest⟩ := hc.found hfinite
    exact ⟨j', Nat.lt_succ_of_lt hj', hrest⟩

/-! ## The way back -/

lemma trackBack_spec {i j : ℕ} (hj : j < pb.processors)
    (htraced : ∀ i', i' ≤ i → ∀ j, j < pb.processors → pb.Traced tr i' j) (map : ℕ → ℤ) :
    ∃ map', pb.trackBack tr i j map = .ok map' ∧ (∀ s, s < i → map' s = tr.PP j i s) ∧
      ∀ s, i ≤ s → map' s = map s := by
  induction i generalizing j map with
  | zero => exact ⟨map, rfl, fun s hs => absurd hs (Nat.not_lt_zero s), fun _ _ => rfl⟩
  | succ i ih =>
    obtain ⟨k, hindx, hk, hback⟩ := (htraced (i + 1) (le_refl _) j hj).back (Nat.succ_pos i)
    obtain ⟨map', hok, hbefore, hafter⟩ := ih hk
      (fun i' hi' => htraced i' (Nat.le_succ_of_le hi')) (Function.update map i (k : ℤ))
    have hself := (htraced i (Nat.le_succ i) k hk).self
    refine ⟨map', ?_, ?_, ?_⟩
    · rw [trackBack, inBounds_ok hj, bind_ok_eq, hindx, known_some, bind_ok_eq]
      exact hok
    · intro s hs
      rw [hback s hs, Nat.add_sub_cancel]
      rcases Nat.lt_succ_iff_lt_or_eq.mp hs with hlt | rfl
      · exact hbefore s hlt
      · -- task `i` itself is written by this round
        rw [hafter s (le_refl s), Function.update_self, hself]
    · intro s hs
      rw [hafter s (by omega), Function.update_of_ne (by omega)]

/-- Every step that the assignment passes starts from it at one of its nodes. -/
def Passes (pb : Problem) (w : ℕ) (tr : Trellis) (g : ℕ → ℕ) : Prop :=
  ∀ i, 1 ≤ i → i + w ≤ pb.tasks →
    ∃ k, k < pb.processors ∧ ∀ s, s < i → g s = tr.PP k (i - 1) s

lemma traced_back {i j m : ℕ} (hj : j < pb.processors) (hm : m ≤ i)
    (htraced : ∀ i', i' ≤ i → ∀ j, j < pb.processors → pb.Traced tr i' j) :
    ∃ k, k < pb.processors ∧ ∀ s, s ≤ m → tr.PP j i s = tr.PP k m s := by
  induction i generalizing j with
  | zero =>
    obtain rfl := Nat.le_zero.mp hm
    exact ⟨j, hj, fun _ _ => rfl⟩
  | succ i ih =>
    rcases Nat.le_succ_iff.mp hm with hle | rfl
    · obtain ⟨k, -, hk, hback⟩ := (htraced (i + 1) (le_refl _) j hj).back (Nat.succ_pos i)
      obtain ⟨k', hk', heq⟩ := ih hk hle fun i' hi' => htraced i' (Nat.le_succ_of_le hi')
      exact ⟨k', hk', fun s hs => (hback s (by omega)).trans (heq s hs)⟩
    · exact ⟨j, hj, fun _ _ => rfl⟩

lemma finalMap_spec {Q : Prop} {index : ℕ} {cost : ℚ} {is : List ℕ} {p b : Option Row}
    (hw : 1 ≤ w) (hfits : w ≤ pb.tasks) (hindex : index < pb.processors)
    (htraced : ∀ i', i' ≤ pb.tasks - w → ∀ j, j < pb.processors → pb.Traced tr i' j)
    (hfound : pb.Found start Q w (pb.tasks - w) (tr.PP index (pb.tasks - w)) cost is p b)
    (map : ℕ → ℤ) :
    ∃ map' g pLeft bLeft, pb.finalMap w tr index is map = .ok map' ∧
      (∀ t, t < pb.tasks → map' t = (g t : ℕ)) ∧ (∀ t, t < pb.tasks → g t < pb.processors) ∧
      pb.Passes w tr g ∧ p = some pLeft ∧ b = some bLeft ∧
        (Q → pb.Holds start w g pb.tasks ⟨cost, pLeft, bLeft⟩) := by
  obtain ⟨g, pLeft, bLeft, hinitial, hlt, rfl, hp, hb, hholds⟩ := hfound
  obtain ⟨map', hok, hbefore, hafter⟩ := trackBack_spec hindex htraced fun t =>
    if t = pb.tasks - w then (index : ℤ)
    else if pb.tasks - w < t ∧ t < pb.tasks then
      ((((List.range' (pb.tasks - w + 1) (w - 1)).map g)[t - (pb.tasks - w + 1)]?).getD 0 : ℕ)
    else map t
  refine ⟨map', g, pLeft, bLeft, hok, fun t ht => ?_, hlt, fun i hi hlast => ?_, hp, hb, hholds⟩
  · rcases lt_trichotomy t (pb.tasks - w) with hbef | heq | haft
    · rw [hbefore t hbef, hinitial t (le_of_lt hbef)]
    · have hself := (htraced (pb.tasks - w) (le_refl _) index hindex).self
      rw [hafter t heq.ge, if_pos heq, heq, hinitial _ (le_refl _), hself]
    · have hindexed : ((List.range' (pb.tasks - w + 1) (w - 1)).map g)[t - (pb.tasks - w + 1)]? =
          some (g t) := by
        rw [List.getElem?_map, List.getElem?_range' (by omega), Option.map_some]
        congr 2
        omega
      rw [hafter t (le_of_lt haft), if_neg (ne_of_gt haft), if_pos ⟨haft, ht⟩, hindexed]
      rfl
  · obtain ⟨k, hk, heq⟩ := traced_back hindex (show i - 1 ≤ pb.tasks - w by omega) htraced
    exact ⟨k, hk, fun s hs => (hinitial s (by omega)).trans (heq s (by omega))⟩

/-! ## The mapping as a whole -/

/-- The state after the last step, in which the last node is chosen. -/
def last (pb : Problem) (w : ℕ) (start : Charge) : Except Fault Trellis :=
  pb.before w start (1 + (pb.tasks - w))

/-- A mapping of all tasks: `final_map` is an assignment of processors that the trellis has passed
through, and in an exact one the outcome is its charge. -/
def Mapped (pb : Problem) (start : Charge) (w : ℕ) (tr : Trellis) (out : Outcome) : Prop :=
  ∃ g : ℕ → ℕ, (∀ t, t < pb.tasks → out.map t = g t) ∧ (∀ t, t < pb.tasks → g t < pb.processors) ∧
    pb.Passes w tr g ∧
    (pb.Exact start w → pb.Holds start w g pb.tasks ⟨out.cost, out.pLeft, out.bLeft⟩)

/-- **The outcome of `tw_mapping`** for a window that the tasks exceed: its cost is selected among
the windows of the last nodes; at a finite cost the tasks are mapped, otherwise nothing is
written. -/
theorem twMapping_spec (pb : Problem) (hw : 2 ≤ w) (hfits : w + 1 ≤ pb.tasks) (p0 b0 : Row) :
    ∃ out tr costs, pb.twMapping w p0 b0 = .ok out ∧ pb.last w ⟨0, p0, b0⟩ = .ok tr ∧
      (List.range pb.processors).map tr.costwAuxx = List.map some costs ∧
      out.cost = select infinite costs ∧
      (out.cost < infinite - 1 → pb.Mapped ⟨0, p0, b0⟩ w tr out) ∧
      (infinite - 1 ≤ out.cost → out.map = (fun _ => -1) ∧ out.pLeft = p0 ∧ out.bLeft = b0) := by
  obtain ⟨tr, hsteps, hstepped⟩ := steps_spec hw hfits p0 b0
  have hlast : 1 + (pb.tasks - w) - 1 = pb.tasks - w := by omega
  have hdecided := hstepped.decided (by omega)
  rw [hlast] at hdecided
  have hcosts : ∀ j, j < pb.processors → tr.costwAuxx j = some ((tr.costwAuxx j).getD 0) := by
    intro j hj
    obtain ⟨cost, hcost, -⟩ := hdecided j hj
    rw [hcost, Option.getD_some]
  obtain ⟨choice, hchoice, hc⟩ := foldlM_range_total
    (pb.Chosen ⟨0, p0, b0⟩ w tr fun j => (tr.costwAuxx j).getD 0)
    (fun j choice hj hc => chooseNode_spec (by omega) (by omega) (hcosts j hj) (hdecided j hj) hc)
    chosen_start
  have hmap : (List.range pb.processors).map tr.costwAuxx =
      List.map some ((List.range pb.processors).map fun j => (tr.costwAuxx j).getD 0) := by
    rw [List.map_map]
    exact List.map_congr_left fun j hj => hcosts j (List.mem_range.mp hj)
  rw [twMapping, inBounds_ok (by omega), bind_ok_eq, hsteps, bind_ok_eq, hchoice, bind_ok_eq]
  split
  · next hfinite =>
    obtain ⟨index, hlt, hindex, hfound⟩ := hc.found hfinite
    obtain ⟨map, g, pLeft, bLeft, hmapped, hg, hglt, hpasses, hp, hb, hholds⟩ := finalMap_spec
      (show 1 ≤ w by omega) (by omega) hlt
      (fun i hi => hstepped.traced i (by omega)) hfound fun _ => -1
    rw [hindex, known_some, bind_ok_eq, hmapped, bind_ok_eq, if_neg (by omega), if_neg (by omega),
      hp, hb, known_some, known_some, bind_ok_eq, bind_ok_eq]
    exact ⟨_, tr, _, rfl, hstepped.reached, hmap, hc.cost_eq,
      fun _ => ⟨g, hg, hglt, hpasses, hholds⟩, fun hge => absurd hfinite (not_lt.mpr hge)⟩
  · next hge =>
    exact ⟨_, tr, _, rfl, hstepped.reached, hmap, hc.cost_eq, fun hlt => absurd hlt hge,
      fun _ => ⟨rfl, rfl, rfl⟩⟩

end Problem

/-! ## The call -/

section Call

variable (par : Parameters) (plat : PlatformResources) (wave : WaveformResources) (g : Globals)
  {processors tasks : ℕ}

def posed : Problem :=
  problemOf par plat wave ⟨wave.c, wave.b⟩ (resourceTrans plat.nofProcessors plat.arch plat.B g.B)

def available : Charge where
  cost := 0
  pLeft i := if i < plat.nofProcessors then plat.C i else g.P i
  bLeft := (resourceTrans plat.nofProcessors plat.arch plat.B g.B).left

variable {par plat wave g}

/-! ## The numbering of the nodes -/

lemma nodesFit_eq_ok : nodesFit processors tasks = .ok () ↔
      ∀ i, i < tasks → ∀ j, j < processors → j < maxProcessors ∧ i < maxTasks := by
  simp only [nodesFit, forM_eq_ok, List.mem_range, bind_eq_ok, Problem.inBounds_eq_ok]
  constructor
  · intro h i hi j hj
    obtain ⟨⟨⟩, hj, hi⟩ := h i hi j hj
    exact ⟨Problem.inBounds_eq_ok.mp hj, hi⟩
  · intro h i hi j hj
    exact ⟨(), Problem.inBounds_eq_ok.mpr (h i hi j hj).1, (h i hi j hj).2⟩

lemma nodesFit_iff (hN : 1 ≤ processors) (hM : 1 ≤ tasks) :
    nodesFit processors tasks = .ok () ↔ tasks ≤ maxTasks ∧ processors ≤ maxProcessors := by
  rw [nodesFit_eq_ok]
  constructor
  · intro h
    -- the last node is in the table
    have hlast := h (tasks - 1) (by omega) (processors - 1) (by omega)
    omega
  · intro ⟨htasks, hprocessors⟩ i hi j hj
    omega

lemma nodesFit_of_le (hM : tasks ≤ maxTasks)
    (hN : processors ≤ maxProcessors) : nodesFit processors tasks = .ok () :=
  nodesFit_eq_ok.mpr fun i hi j hj => by omega

/-! ## The result of a call -/

lemma mapper_eq (hord : par.ord = .noOrd) :
    mapper par plat wave g = nodesFit plat.nofProcessors wave.nofTasks >>= fun _ =>
      (posed par plat wave g).twMapping par.w (available plat g).pLeft (available plat g).bLeft >>=
        fun out => .ok (out.cost, out.map, ⟨out.pLeft, out.bLeft⟩) := by
  rw [mapper, hord]
  rfl

lemma mapper_ok_iff (hord : par.ord = .noOrd) {r : ℚ × (ℕ → ℤ) × Globals} :
    mapper par plat wave g = .ok r ↔ nodesFit plat.nofProcessors wave.nofTasks = .ok () ∧
      ∃ out, (posed par plat wave g).twMapping par.w (available plat g).pLeft
          (available plat g).bLeft = .ok out ∧ (out.cost, out.map, ⟨out.pLeft, out.bLeft⟩) = r := by
  rw [mapper_eq hord, bind_eq_ok]
  constructor
  · rintro ⟨⟨⟩, hfit, hrest⟩
    obtain ⟨out, hout, hr⟩ := bind_eq_ok.mp hrest
    exact ⟨hfit, out, hout, Except.ok.inj hr⟩
  · rintro ⟨hfit, out, hout, rfl⟩
    exact ⟨(), hfit, bind_eq_ok.mpr ⟨out, hout, rfl⟩⟩

lemma twMapping_unwritten {pb : Problem} {w : ℕ} {p0 b0 : Row} (hw : w ≠ 1) (hfits : pb.tasks ≤ w)
    (hN : 1 ≤ pb.processors) : ∀ out, pb.twMapping w p0 b0 ≠ .ok out := by
  intro out h
  rw [Problem.twMapping, Nat.sub_eq_zero_of_le hfits] at h
  obtain ⟨-, -, h⟩ := bind_eq_ok.mp h
  obtain ⟨tr, htr, h⟩ := bind_eq_ok.mp h
  cases htr
  obtain ⟨choice, hchoice, -⟩ := bind_eq_ok.mp h
  obtain ⟨n, hn⟩ : ∃ n, pb.processors = n + 1 := ⟨pb.processors - 1, by omega⟩
  rw [hn, List.range_succ_eq_map, foldlM_cons_ok] at hchoice
  obtain ⟨first, hfirst, -⟩ := hchoice
  rw [Problem.chooseNode, if_neg hw] at hfirst
  cases hfirst

/-- **When a call is defined.** The node table has to take all nodes, and the tasks have to
outnumber the window. -/
theorem mapper_defined_iff (hord : par.ord = .noOrd) (hw : 2 ≤ par.w)
    (hN : 1 ≤ plat.nofProcessors) (hM : 1 ≤ wave.nofTasks) :
    (∃ r, mapper par plat wave g = .ok r) ↔ par.w + 1 ≤ wave.nofTasks ∧ wave.nofTasks ≤ maxTasks ∧
      plat.nofProcessors ≤ maxProcessors := by
  constructor
  · rintro ⟨r, hr⟩
    obtain ⟨hfit, out, hout, -⟩ := (mapper_ok_iff hord).mp hr
    refine ⟨?_, (nodesFit_iff hN hM).mp hfit⟩
    by_contra hle
    exact twMapping_unwritten (by omega) (show wave.nofTasks ≤ par.w by omega) hN out hout
  · rintro ⟨hfits, htasks, hprocessors⟩
    obtain ⟨out, -, -, hout, -⟩ := (posed par plat wave g).twMapping_spec hw hfits
      (available plat g).pLeft (available plat g).bLeft
    exact ⟨_, (mapper_ok_iff hord).mpr ⟨nodesFit_of_le htasks hprocessors, out, hout, rfl⟩⟩

end Call

/-! ## The processors as a ledger -/

open List

namespace Problem

variable {pb : Problem} {start ch : Charge} {f : ℕ → ℕ} {n : ℕ}

/-- What the first `n` tasks draw from the processors. -/
def computing (pb : Problem) (f : ℕ → ℕ) (n : ℕ) : List (ℕ × ℚ) :=
  (List.range n).map fun t => (f t, pb.demand t)

lemma computing_succ (pb : Problem) (f : ℕ → ℕ) (n : ℕ) :
    pb.computing f (n + 1) = pb.computing f n ++ [(f n, pb.demand n)] := by
  rw [computing, range_succ, map_append]
  rfl

lemma Holds.draws (h : pb.Holds start w f n ch) : ch.pLeft = draw start.pLeft (pb.computing f n) ∧
      Admitted threshold start.pLeft (pb.computing f n) := by
  induction n generalizing ch with
  | zero =>
    obtain rfl := h.charge_eq
    exact ⟨rfl, trivial⟩
  | succ n ih =>
    obtain ⟨hleft, hadmitted⟩ := ih (h.upTo (Nat.le_succ n))
    have haccepts := (h.level n (Nat.lt_succ_self n)).accepts
    rw [computing_succ, draw_append, admitted_append, ← hleft]
    refine ⟨?_, hadmitted, not_lt.mp haccepts.2, trivial⟩
    rw [← h.charge_eq, charge, chargeTask, comp_of_accepts haccepts]
    rfl

end Problem

def load (c : ℕ → ℚ) (map : ℕ → ℤ) (n p : ℕ) : ℚ :=
  ((List.range n).map fun t => if map t = p then c t else 0).sum

lemma drawn_computing {pb : Problem} {f : ℕ → ℕ} {map : ℕ → ℤ} {n : ℕ}
    (hmap : ∀ t, t < n → map t = f t) (p : ℕ) :
    drawn (pb.computing f n) p = load pb.demand map n p := by
  rw [drawn, Problem.computing, map_map, load]
  congr 1
  refine map_congr_left fun t ht => ?_
  simp [Function.comp, hmap t (mem_range.mp ht)]

/-- A mapping of a waveform is feasible, and `P` is what it leaves of the processors. -/
structure ComputingFeasible (plat : PlatformResources) (wave : WaveformResources) (map : ℕ → ℤ)
    (P : Row) : Prop where
  forced : ∀ t, t < wave.nofTasks → 0 ≤ wave.force t → map t = wave.force t
  fits : ∀ p, p < plat.nofProcessors → load wave.c map wave.nofTasks p ≤ plat.C p + threshold
  saved : ∀ p, p < plat.nofProcessors → P p = plat.C p - load wave.c map wave.nofTasks p

section Call

variable (par : Parameters) (plat : PlatformResources) (wave : WaveformResources) (g : Globals)

variable {par plat wave g} in
lemma Problem.Holds.feasible {f : ℕ → ℕ} {map : ℕ → ℤ} {ch : Charge}
    (h : (posed par plat wave g).Holds (available plat g) par.w f wave.nofTasks ch)
    (hC : ∀ p, p < plat.nofProcessors → 0 ≤ plat.C p)
    (hmap : ∀ t, t < wave.nofTasks → map t = f t) : ComputingFeasible plat wave map ch.pLeft := by
  obtain ⟨hleft, hadmitted⟩ := h.draws
  have hstart : ∀ p, p < plat.nofProcessors → (available plat g).pLeft p = plat.C p :=
    fun p hp => if_pos hp
  refine ⟨fun t ht hforce => ?_, fun p hp => ?_, fun p hp => ?_⟩
  · rw [hmap t ht, ← (h.level t ht).accepts.1 hforce]
    rfl
  · rw [← hstart p hp]
    have hle := hadmitted.drawn_le (by norm_num [threshold]) ((hstart p hp).symm ▸ hC p hp)
    rwa [drawn_computing hmap] at hle
  · rw [hleft, draw_apply, hstart p hp, drawn_computing hmap]
    rfl

variable {par plat wave g} in
lemma mapper_mapped (hord : par.ord = .noOrd) (hw : 2 ≤ par.w)
    (hfits : par.w + 1 ≤ wave.nofTasks) {r : ℚ × (ℕ → ℤ) × Globals}
    (hr : mapper par plat wave g = .ok r) (hfinite : r.1 < infinite - 1) :
    ∃ f : ℕ → ℕ, (∀ t, t < wave.nofTasks → r.2.1 t = f t) ∧
      (∀ t, t < wave.nofTasks → f t < plat.nofProcessors) ∧
      (∃ tr, (posed par plat wave g).last par.w (available plat g) = .ok tr ∧
        (posed par plat wave g).Passes par.w tr f) ∧
      ((posed par plat wave g).Exact (available plat g) par.w →
        (posed par plat wave g).Holds (available plat g) par.w f wave.nofTasks
          ⟨r.1, r.2.2.P, r.2.2.B⟩) := by
  obtain ⟨-, out, hout, rfl⟩ := (mapper_ok_iff hord).mp hr
  obtain ⟨out', tr, -, hout', htr, -, -, hmapped, -⟩ := (posed par plat wave g).twMapping_spec hw
    hfits (available plat g).pLeft (available plat g).bLeft
  obtain rfl := Except.ok.inj (hout.symm.trans hout')
  obtain ⟨f, hf, hlt, hpasses, hholds⟩ := hmapped hfinite
  exact ⟨f, hf, hlt, ⟨tr, htr, hpasses⟩, hholds⟩

/-- **Computing feasibility.** A mapping at a finite cost is one to processors of the
platform. In an exact trellis it is also feasible, and its remaining capacities are saved. -/
theorem mapper_computing_feasible (hord : par.ord = .noOrd) (hw : 2 ≤ par.w)
    (hfits : par.w + 1 ≤ wave.nofTasks) (hM : wave.nofTasks ≤ maxTasks)
    (hN : plat.nofProcessors ≤ maxProcessors) (hC : ∀ p, p < plat.nofProcessors → 0 < plat.C p) :
    ∃ cost map left, mapper par plat wave g = .ok (cost, map, left) ∧
      (cost < infinite - 1 → (∀ t, t < wave.nofTasks → 0 ≤ map t ∧ map t < plat.nofProcessors) ∧
        ((posed par plat wave g).Exact (available plat g) par.w →
          ComputingFeasible plat wave map left.P)) := by
  obtain ⟨out, -, -, hout, -⟩ := (posed par plat wave g).twMapping_spec hw hfits
    (available plat g).pLeft (available plat g).bLeft
  have hok := (mapper_ok_iff hord).mpr ⟨nodesFit_of_le hM hN, out, hout, rfl⟩
  refine ⟨_, _, _, hok, fun hfinite => ?_⟩
  obtain ⟨f, hmap, hlt, -, hholds⟩ := mapper_mapped hord hw hfits hok hfinite
  refine ⟨fun t ht => ?_, fun hexact => ?_⟩
  · rw [show out.map t = f t from hmap t ht]
    exact ⟨Int.natCast_nonneg _, Int.ofNat_lt.mpr (hlt t ht)⟩
  · exact (hholds hexact).feasible (fun p hp => (hC p hp).le) hmap

end Call

/-! ## Two mappings -/

def windowOfTwo : Parameters := ⟨.noOrd, 2, 0, 1 / 2⟩

def twoProcessors (c₀ c₁ : ℚ) : PlatformResources :=
  ⟨2, .fd, fun p => if p = 0 then c₀ else c₁, fun _ _ => 1000000⟩

def chainOfThree : WaveformResources :=
  ⟨3, fun _ => 1, fun s t => if t = s + 1 then 1 else 0, fun _ => -1⟩

def noGlobals : Globals := ⟨fun _ => 0, fun _ => 0⟩

lemma chainOfThree_nonneg {plat : PlatformResources} {force : ℕ → ℤ} :
    (posed windowOfTwo plat { chainOfThree with force } noGlobals).NonnegCosts := by
  refine ⟨?_, ?_, fun t _ => ?_, fun s t _ _ => ?_⟩
  · show (0 : ℚ) ≤ 1 / 2
    norm_num
  · show (0 : ℚ) ≤ 1 - 1 / 2
    norm_num
  · show threshold < 1
    norm_num [threshold]
  · show (if t = s + 1 then (1 : ℚ) else 0) ≤ 0 ∨ threshold < if t = s + 1 then 1 else 0
    split
    · norm_num [threshold]
    · exact .inl (le_refl _)

theorem mapper_computing_feasible_chain : ∃ cost map left,
      mapper windowOfTwo (twoProcessors 2 2) chainOfThree noGlobals = .ok (cost, map, left) ∧
      cost < infinite - 1 ∧ ComputingFeasible (twoProcessors 2 2) chainOfThree map left.P := by
  obtain ⟨cost, map, left, hok, hfeasible⟩ := mapper_computing_feasible windowOfTwo
    (twoProcessors 2 2) chainOfThree noGlobals rfl (by decide) (by decide) (by decide) (by decide)
    (by simp [twoProcessors])
  obtain ⟨r, hr, hfinite⟩ := exists_of_yields (fun r => r.1 < infinite - 1)
    (x := mapper windowOfTwo (twoProcessors 2 2) chainOfThree noGlobals) (by decide +kernel)
  obtain rfl := Except.ok.inj (hok.symm.trans hr)
  exact ⟨cost, map, left, hok, hfinite, (hfeasible hfinite).2 (chainOfThree_nonneg.exact _ _)⟩

/-- Five tasks of which the third one has to go to the second processor. Its cost there is
just so that the node of the third task costs `infinite - 1`. -/
def tiedTasks : WaveformResources :=
  ⟨5, fun t => [2, 1 / 1000000000000, 1 / 100000000, 1 / 1000000000, 1].getD t 0, fun _ _ => 0,
    fun t => if t = 2 then 1 else -1⟩

theorem mapper_computing_infeasible_tie : ∃ cost map left,
      mapper windowOfTwo (twoProcessors 4 (20000 / 3999994999999999999)) tiedTasks noGlobals =
        .ok (cost, map, left) ∧ cost < infinite - 1 ∧
      (List.range 5).map map = [0, 0, 1, 1, 0] ∧
      20000 / 3999994999999999999 + threshold < load tiedTasks.c map 5 1 ∧
      left.P 0 ≠ 4 - load tiedTasks.c map 5 0 := by
  obtain ⟨⟨cost, map, left⟩, hok, htest⟩ := exists_of_yields
    (fun r : ℚ × (ℕ → ℤ) × Globals => r.1 < infinite - 1 ∧
      (List.range 5).map r.2.1 = [0, 0, 1, 1, 0] ∧
      20000 / 3999994999999999999 + threshold < load tiedTasks.c r.2.1 5 1 ∧
      r.2.2.P 0 ≠ 4 - load tiedTasks.c r.2.1 5 0)
    (x := mapper windowOfTwo (twoProcessors 4 (20000 / 3999994999999999999)) tiedTasks noGlobals)
    (by decide +kernel)
  exact ⟨cost, map, left, hok, htest⟩

end Aloe.Crm
