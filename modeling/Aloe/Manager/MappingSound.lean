import Aloe.Crm.TrellisInvariant
import Aloe.Crm.ComputingFeasibility
import Aloe.Manager.Mapping

/-!
# Soundness of the mapping of a waveform

Three tests decide whether a mapping is feasible: `tw_mapping` writes one at a cost below
`infinite - 1`, `call_algorithm` refuses a cost that is `infinite`, and `mapping_map`
refuses a processor from `nof_processors` on. A cost between the first two tests passes the
second and third with the processor -1 for every task. The mapping is sound when the choice among
the windows of the last nodes, whose costs the trellis leaves, does not fall there.
-/

namespace Aloe.Manager

open Lib Crm Function List

section Definedness

variable (plat : PlatformResources) (wave : WaveformResources) (g : Globals)

/-- **When the mapper is defined.** With the window of `setup_algorithm` it needs five
tasks, and no more tasks and processors than its tables take. -/
theorem mapper_setup_defined_iff (hN : 1 ≤ plat.nofProcessors) (hM : 1 ≤ wave.nofTasks) :
    (∃ r, mapper setupAlgorithm plat wave g = .ok r) ↔
      5 ≤ wave.nofTasks ∧ wave.nofTasks ≤ maxTasks ∧ plat.nofProcessors ≤ maxProcessors :=
  mapper_defined_iff rfl (by decide) hN hM

def equalTasks (n : ℕ) : WaveformResources := ⟨n, fun _ => 1, fun _ _ => 0, fun _ => -1⟩

def equalProcessors (n : ℕ) : ManPlatform := ⟨n, 1, 1000⟩

theorem mapper_setup_defined_five :
    ∃ r, mapper setupAlgorithm (generateModelPlatform (equalProcessors 1)) (equalTasks 5)
      ⟨fun _ => 0, fun _ => 0⟩ = .ok r :=
  (mapper_setup_defined_iff _ _ _ (by decide) (by decide)).mpr (by decide)

/-- With four tasks a cost is compared that no step has written; tasks and processors
beyond the tables are not refused, but numbered outside of them. -/
theorem mapper_setup_undefined :
    failure (mapper setupAlgorithm (generateModelPlatform (equalProcessors 1)) (equalTasks 4)
      ⟨fun _ => 0, fun _ => 0⟩) = some .unwritten ∧
    failure (mapper setupAlgorithm (generateModelPlatform (equalProcessors 1)) (equalTasks 101)
      ⟨fun _ => 0, fun _ => 0⟩) = some .bounds ∧
    failure (mapper setupAlgorithm (generateModelPlatform (equalProcessors 21)) (equalTasks 5)
      ⟨fun _ => 0, fun _ => 0⟩) = some .bounds := by
  decide +kernel

end Definedness

/-! ## The tasks of the modules -/

lemma joinedFunctionInv_lt {join : ℕ → ℕ} {joined : List ℕ} (h : 0 < joined.length) (i : ℕ) :
    joinedFunctionInv join joined i < joined.length := by
  refine foldlRecOn (motive := fun inv : ℕ → ℕ => inv i < joined.length) _ _ h ?_
  intro inv hinv k hk
  split
  · exact mem_range.mp hk
  · exact hinv

/-! ## The loop over the modules -/

section Assign

variable {plat : ManPlatform} {pRes : ℕ → ℤ} {inv : ℕ → ℕ}

/-- **Run lemma.** Processors of the platform are all assigned. -/
theorem assign_ok (plat : ManPlatform) (pRes : ℕ → ℤ) (inv : ℕ → ℕ) {is : List ℕ}
    (hlt : ∀ i ∈ is, ∃ p : ℕ, pRes (inv i) = p ∧ p < plat.nofProcessors) (m : Mapping) :
    ∃ m', assign plat pRes inv is m = .ok m' ∧ m'.ret = 0 ∧ m'.globals = m.globals ∧
      (∀ i ∈ is, ∃ p : ℕ, pRes (inv i) = p ∧ p < plat.nofProcessors ∧ m'.place i = some ⟨0, p, i⟩) ∧
      ∀ i, i ∉ is → m'.place i = m.place i := by
  induction is generalizing m with
  | nil => exact ⟨_, rfl, rfl, rfl, fun i hi => absurd hi not_mem_nil, fun _ _ => rfl⟩
  | cons i is ih =>
    obtain ⟨p, hp, hN⟩ := hlt i mem_cons_self
    have hat : plat.processorAt (pRes (inv i)) = .ok (0, p) := by
      rw [hp, ManPlatform.processorAt, if_pos ⟨Int.natCast_nonneg p, Int.ofNat_lt.mpr hN⟩,
        Int.toNat_natCast]
    obtain ⟨m', hok, hret, hglobals, hplace, hother⟩ := ih
      (fun i' hi' => hlt i' (mem_cons_of_mem i hi'))
      { m with
        place := update m.place i (some ⟨0, p, i⟩)
        modulesXNode := update m.modulesXNode 0 (m.modulesXNode 0 + 1) }
    refine ⟨m', ?_, hret, hglobals, ?_, ?_⟩
    · rw [assign, if_neg (by rw [hp]; exact not_le.mpr (Int.ofNat_lt.mpr hN)), hat, bind_ok_eq]
      exact hok
    · intro i' hi'
      by_cases hmem : i' ∈ is
      · exact hplace i' hmem
      · -- the module is assigned by this round only
        obtain rfl := (mem_cons.mp hi').resolve_right hmem
        exact ⟨p, hp, hN, (hother i' hmem).trans (update_self ..)⟩
    · intro i' hi'
      rw [mem_cons, not_or] at hi'
      exact (hother i' hi'.2).trans (update_of_ne hi'.1 ..)

lemma assign_unmapped {is : List ℕ} (hne : is ≠ []) (hunmapped : ∀ t, pRes t = -1) (m : Mapping) :
    assign plat pRes inv is m = .error .bounds := by
  cases is with
  | nil => exact absurd rfl hne
  | cons i is =>
    have hat : plat.processorAt (-1) = .error .bounds := if_neg (by omega)
    rw [assign, hunmapped, if_neg (by omega), hat]
    rfl

end Assign

/-! ## Soundness -/

section Sound

variable {plat : ManPlatform} {wf : PWaveform} {g : Globals} {multiplicity : ℤ}

def mapperCall (plat : ManPlatform) (wf : PWaveform) (multiplicity : ℤ) (g : Globals) :
    Except Fault (ℚ × (ℕ → ℤ) × Globals) :=
  mapper setupAlgorithm (generateModelPlatform plat) (generateModelWaveform wf multiplicity).wave g

def unassigned (wf : PWaveform) (multiplicity : ℤ) (g : Globals) : Mapping :=
  let stages := generateModelStages wf (generateModelWaveform wf multiplicity)
  ⟨-1, stages.2, fun i => some (stages.1 i), fun _ => none, fun _ => 0, g⟩

/-- What `mapping_map` promises: on success every module has a processor of a feasible mapping, and
where nothing was mapped it fails and assigns nothing. -/
structure Sound (plat : ManPlatform) (wf : PWaveform) (g : Globals) (m : Mapping) : Prop where
  placed : m.ret = 0 → ∃ multiplicity r, multiplicityOf plat wf = some multiplicity ∧
    mapperCall plat wf multiplicity g = .ok r ∧ r.1 < infinite - 1 ∧
    ∀ i, i < wf.modules.length → ∃ p : ℕ, p < plat.nofProcessors ∧
      r.2.1 ((generateModelWaveform wf multiplicity).joinedInv i) = p ∧ m.place i = some ⟨0, p, i⟩
  refused : m.ret ≠ 0 → m.ret = -1 ∧ ∀ i, m.place i = none
  unmapped : ∀ multiplicity r, multiplicityOf plat wf = some multiplicity →
    mapperCall plat wf multiplicity g = .ok r → r.2.1 = (fun _ => -1) → m.ret = -1

lemma mappingMap_eq (hmult : multiplicityOf plat wf = some multiplicity)
    (hts : 1 < plat.tsLengthUs) :
    mappingMap plat wf g = mapperCall plat wf multiplicity g >>= fun r =>
      if r.1 = infinite then .ok (unassigned wf multiplicity r.2.2)
      else assign plat r.2.1 (generateModelWaveform wf multiplicity).joinedInv
        (range wf.modules.length) (unassigned wf multiplicity r.2.2) := by
  rw [mappingMap, hmult]
  simp only [callAlgorithm, if_pos hts]
  cases h : mapperCall plat wf multiplicity g with
  | error e =>
    unfold mapperCall at h
    rw [h]
    rfl
  | ok r =>
    unfold mapperCall at h
    rw [h]
    simp only [bind_ok_eq]
    by_cases hcost : r.1 = infinite
    · rw [if_pos hcost, if_pos hcost]
      rfl
    · rw [if_neg hcost, if_neg hcost]
      rfl

lemma nofTasks_le (wf : PWaveform) (multiplicity : ℤ) :
    (generateModelWaveform wf multiplicity).wave.nofTasks ≤ wf.modules.length := by
  refine (length_filter_le _ _).trans ?_
  rw [length_range]

lemma assign_sound {r : ℚ × (ℕ → ℤ) × Globals} (hmult : multiplicityOf plat wf = some multiplicity)
    (hr : mapperCall plat wf multiplicity g = .ok r) (hfinite : r.1 < infinite - 1)
    (htasks : 0 < (generateModelWaveform wf multiplicity).wave.nofTasks)
    (hmapped : ∀ t, t < (generateModelWaveform wf multiplicity).wave.nofTasks →
      ∃ p : ℕ, r.2.1 t = p ∧ p < plat.nofProcessors) :
    ∃ m, assign plat r.2.1 (generateModelWaveform wf multiplicity).joinedInv
        (range wf.modules.length) (unassigned wf multiplicity r.2.2) = .ok m ∧
      Sound plat wf g m := by
  obtain ⟨m, hok, hret, -, hplace, -⟩ := assign_ok plat r.2.1
    (generateModelWaveform wf multiplicity).joinedInv
    (fun i _ => hmapped _ (joinedFunctionInv_lt htasks i)) (unassigned wf multiplicity r.2.2)
  refine ⟨m, hok, fun _ => ⟨multiplicity, r, hmult, hr, hfinite, fun i hi => ?_⟩,
    fun hne => absurd hret hne, fun multiplicity' r' hmult' hr' hnone => ?_⟩
  · obtain ⟨p, hp, hlt, hplaced⟩ := hplace i (mem_range.mpr hi)
    exact ⟨p, hlt, hp, hplaced⟩
  · -- a feasible mapping has no task on processor -1
    obtain rfl : multiplicity = multiplicity' := Option.some.inj (hmult.symm.trans hmult')
    obtain rfl := Except.ok.inj (hr.symm.trans hr')
    obtain ⟨p, hp, -⟩ := hmapped 0 htasks
    have hp : (-1 : ℤ) = p := (congrFun hnone 0).symm.trans hp
    omega

lemma unassigned_sound (m : Mapping) (hret : m.ret = -1) (hplace : m.place = fun _ => none) :
    Sound plat wf g m :=
  ⟨fun h => by omega, fun _ => ⟨hret, fun i => congrFun hplace i⟩, fun _ _ _ _ _ => hret⟩

def TablesFit (plat : ManPlatform) (wf : PWaveform) (multiplicity : ℤ) : Prop :=
  plat.nofProcessors = 0 ∨ (generateModelWaveform wf multiplicity).wave.nofTasks ≤ maxTasks ∧
      plat.nofProcessors ≤ maxProcessors

/-- The costs over the windows of the last nodes, before one of them is chosen. -/
def windowCosts (plat : ManPlatform) (wf : PWaveform) (multiplicity : ℤ) (g : Globals) :
    Except Fault (List (Option ℚ)) := do
  let tr ← (posed setupAlgorithm (generateModelPlatform plat)
    (generateModelWaveform wf multiplicity).wave g).last 4
    (available (generateModelPlatform plat) g)
  return (range plat.nofProcessors).map tr.costwAuxx

/-- Either no window costs less than `infinite`, up to the threshold, or the rule that takes a
cheaper one comes down below `infinite - 1`. -/
def Decisive (costs : List ℚ) : Prop :=
  (∀ cost ∈ costs, infinite - threshold ≤ cost) ∨ Problem.select infinite costs < infinite - 1

lemma select_le (best : ℚ) (costs : List ℚ) : Problem.select best costs ≤ best := by
  refine foldlRecOn (motive := fun b => b ≤ best) costs _ (le_refl best) fun b hb cost _ => ?_
  split
  · next hcheaper =>
    simp only [threshold] at hcheaper
    linarith
  · exact hb

lemma select_eq_iff (best : ℚ) (costs : List ℚ) :
    Problem.select best costs = best ↔ ∀ cost ∈ costs, best - threshold ≤ cost := by
  induction costs with
  | nil => exact iff_of_true rfl fun _ h => absurd h not_mem_nil
  | cons cost costs ih =>
    have hcons : Problem.select best (cost :: costs) =
        Problem.select (if threshold < best - cost then cost else best) costs := rfl
    rw [hcons, forall_mem_cons]
    by_cases hcheaper : threshold < best - cost
    · rw [if_pos hcheaper]
      have hle := select_le cost costs
      have hpos : (0 : ℚ) < threshold := by norm_num [threshold]
      exact iff_of_false (by intro heq; linarith) fun h => by linarith [h.1]
    · rw [if_neg hcheaper, ih]
      exact ⟨fun h => ⟨by linarith, h⟩, fun h => h.2⟩

lemma decisive_iff (costs : List ℚ) :
    Decisive costs ↔ Problem.select infinite costs < infinite - 1 ∨
      Problem.select infinite costs = infinite := by
  rw [Decisive, select_eq_iff, or_comm]

lemma mapperCall_spec (htasks : 5 ≤ (generateModelWaveform wf multiplicity).wave.nofTasks)
    (hfit : TablesFit plat wf multiplicity) :
    ∃ r costs, mapperCall plat wf multiplicity g = .ok r ∧
      windowCosts plat wf multiplicity g = .ok (costs.map some) ∧
      r.1 = Problem.select infinite costs ∧
      (r.1 < infinite - 1 → ∀ t, t < (generateModelWaveform wf multiplicity).wave.nofTasks →
        ∃ p : ℕ, r.2.1 t = p ∧ p < plat.nofProcessors) ∧
      (infinite - 1 ≤ r.1 → r.2.1 = fun _ => -1) := by
  obtain ⟨out, tr, costs, hout, htr, hcosts, hcost, hmapped, hunmapped⟩ := (posed setupAlgorithm
    (generateModelPlatform plat) (generateModelWaveform wf multiplicity).wave g).twMapping_spec
      (show 2 ≤ 4 by decide) htasks (available (generateModelPlatform plat) g).pLeft
      (available (generateModelPlatform plat) g).bLeft
  have hnodes : nodesFit plat.nofProcessors (generateModelWaveform wf multiplicity).wave.nofTasks =
      .ok () := by
    rcases hfit with hzero | ⟨hM, hN⟩
    · rw [hzero]
      exact nodesFit_eq_ok.mpr fun i _ j hj => absurd hj (Nat.not_lt_zero j)
    · exact nodesFit_of_le hM hN
  have hwindows : windowCosts plat wf multiplicity g = .ok (costs.map some) := by
    rw [← hcosts]
    exact bind_eq_ok.mpr ⟨tr, htr, rfl⟩
  refine ⟨_, costs, (mapper_ok_iff rfl).mpr ⟨hnodes, out, hout, rfl⟩, hwindows, hcost,
    fun hfinite t ht => ?_, fun hge => (hunmapped hge).1⟩
  obtain ⟨f, hf, hlt, -⟩ := hmapped hfinite
  exact ⟨f t, hf t ht, hlt t ht⟩

section

variable (hmult : multiplicityOf plat wf = some multiplicity) (hts : 1 < plat.tsLengthUs)
  (htasks : 5 ≤ (generateModelWaveform wf multiplicity).wave.nofTasks)
include hmult hts htasks

lemma decisive_of_mappingMap {m : Mapping} (hok : mappingMap plat wf g = .ok m) :
    TablesFit plat wf multiplicity ∧
      ∃ costs, windowCosts plat wf multiplicity g = .ok (costs.map some) ∧ Decisive costs := by
  have hmodules : 5 ≤ wf.modules.length := htasks.trans (nofTasks_le wf multiplicity)
  rw [mappingMap_eq hmult hts] at hok
  obtain ⟨r, hr, hok⟩ := bind_eq_ok.mp hok
  have hnodes := ((mapper_ok_iff rfl).mp hr).1
  have hfit : TablesFit plat wf multiplicity := by
    rcases Nat.eq_zero_or_pos plat.nofProcessors with hzero | hpos
    · exact .inl hzero
    · exact .inr ((nodesFit_iff hpos (by omega)).mp hnodes)
  obtain ⟨r', costs, hr', hcosts, hcost, -, hunmapped⟩ := mapperCall_spec (g := g) htasks hfit
  obtain rfl := Except.ok.inj (hr.symm.trans hr')
  refine ⟨hfit, costs, hcosts, (decisive_iff costs).mpr ?_⟩
  rw [← hcost]
  by_contra hbetween
  rw [not_or] at hbetween
  have hnone : range wf.modules.length ≠ [] := by
    rw [Ne, range_eq_nil]
    omega
  rw [if_neg hbetween.2, assign_unmapped hnone
    (fun t => congrFun (hunmapped (not_lt.mp hbetween.1)) t)] at hok
  cases hok

lemma sound_of_decisive (hfit : TablesFit plat wf multiplicity) {costs : List ℚ}
    (hcosts : windowCosts plat wf multiplicity g = .ok (costs.map some))
    (hdecisive : Decisive costs) :
    ∃ m, mappingMap plat wf g = .ok m ∧ Sound plat wf g m := by
  obtain ⟨r, costs', hr, hcosts', hcost, hmapped, -⟩ := mapperCall_spec (g := g) htasks hfit
  obtain rfl : costs = costs' :=
    (map_inj_right fun _ _ => Option.some.inj).mp (Except.ok.inj (hcosts.symm.trans hcosts'))
  rw [decisive_iff, ← hcost] at hdecisive
  rw [mappingMap_eq hmult hts, hr, bind_ok_eq]
  rcases hdecisive with hfinite | hinfinite
  · rw [if_neg (by simp only [infinite] at *; linarith)]
    exact assign_sound hmult hr hfinite (by omega) (hmapped hfinite)
  · rw [if_pos hinfinite]
    exact ⟨_, rfl, unassigned_sound _ rfl rfl⟩

lemma sound_of_mappingMap {m : Mapping}
    (hok : mappingMap plat wf g = .ok m) : Sound plat wf g m := by
  obtain ⟨hfit, costs, hcosts, hdecisive⟩ := decisive_of_mappingMap hmult hts htasks hok
  obtain ⟨m', hok', hsound⟩ := sound_of_decisive hmult hts htasks hfit hcosts hdecisive
  obtain rfl := Except.ok.inj (hok.symm.trans hok')
  exact hsound

end

end Sound

/-! ## Two waveforms -/

def modulesOf (mopts : List ℚ) : PWaveform :=
  { newWaveform [] with
    modules := mopts.map fun c => { PModule.zero with cMopts := Vector.replicate maxModes c } }

def fiveModules : PWaveform := modulesOf [1, 1, 1, 1, 1]

end Aloe.Manager
