import Mathlib.Algebra.Order.BigOperators.Group.Finset
import Aloe.Lib.Run
import Aloe.Manager.JoinedDemand
import Aloe.Manager.MappingSound

/-!
# Admission control across waveforms

Waveforms are loaded one after the other. `tw_mapping` saves what a waveform leaves of the
processors "for the next application", but the next call of `mapper` starts from the
capacities of the platform again. So each waveform is mapped as if it were the only one,
and a processor stays within its capacity only where the waveforms before have left it
alone, or where the whole waveform finds room beside them.
-/

namespace Aloe.Manager

open Lib Crm Finset Option

structure Loads where
  globals : Globals
  used : ℕ → ℚ
  count : ℕ

def placedDemand (wf : PWaveform) (multiplicity : ℤ) (place : ℕ → Option Placement) (p : ℕ) : ℚ :=
  ∑ i ∈ Finset.range wf.modules.length,
    if (place i).map (·.processorIdx) = some p then demandAt wf multiplicity i else 0

/-- One load, if `mapping_map` returns 0 for it. -/
def loadWaveform (plat : ManPlatform) (wf : PWaveform) (st : Loads) : Option Loads :=
  match multiplicityOf plat wf, mappingMap plat wf st.globals with
  | some multiplicity, .ok m =>
    if m.ret = 0 then
      some ⟨m.globals, fun p => st.used p + placedDemand wf multiplicity m.place p, st.count + 1⟩
    else none
  | _, _ => none

def capacity (plat : ManPlatform) (p : ℕ) : ℚ := (generateModelPlatform plat).C p

def Within (plat : ManPlatform) (st : Loads) : Prop :=
  ∀ p, p < plat.nofProcessors → st.used p ≤ capacity plat p + st.count * threshold

/-- Nothing to speak of is placed on `p` yet, and the waveform is mapped by an exact trellis. -/
def Fresh (plat : ManPlatform) (wf : PWaveform) (multiplicity : ℤ) (st : Loads) (p : ℕ) : Prop :=
  1 < plat.tsLengthUs ∧ st.used p ≤ st.count * threshold ∧
    (posed setupAlgorithm (generateModelPlatform plat)
      (generateModelWaveform wf multiplicity).wave st.globals).Exact
      (available (generateModelPlatform plat) st.globals) 4

/-- All modules of the waveform find room on `p`. -/
def Room (plat : ManPlatform) (wf : PWaveform) (multiplicity : ℤ) (st : Loads) (p : ℕ) : Prop :=
  st.used p + ∑ i ∈ Finset.range wf.modules.length, max (demandAt wf multiplicity i) 0 ≤
    capacity plat p + (st.count + 1) * threshold

def Admissible (plat : ManPlatform) (wf : PWaveform) (st : Loads) : Prop :=
  StagesIn wf ∧ ∀ multiplicity, multiplicityOf plat wf = some multiplicity →
    5 ≤ (generateModelWaveform wf multiplicity).wave.nofTasks ∧
    ∀ p, p < plat.nofProcessors → Fresh plat wf multiplicity st p ∨ Room plat wf multiplicity st p

variable {plat : ManPlatform} {wf : PWaveform} {st st' : Loads}

lemma loadWaveform_eq_some (h : loadWaveform plat wf st = some st') :
    ∃ multiplicity m, multiplicityOf plat wf = some multiplicity ∧
      mappingMap plat wf st.globals = .ok m ∧ m.ret = 0 ∧
      st' = ⟨m.globals, fun p => st.used p + placedDemand wf multiplicity m.place p,
        st.count + 1⟩ := by
  unfold loadWaveform at h
  split at h
  · grind
  · cases h

lemma placedDemand_le (wf : PWaveform) (multiplicity : ℤ) (place : ℕ → Option Placement) (p : ℕ) :
    placedDemand wf multiplicity place p ≤
      ∑ i ∈ range wf.modules.length, max (demandAt wf multiplicity i) 0 := by
  refine sum_le_sum fun i _ => ?_
  split
  · exact le_max_left _ _
  · exact le_max_right _ _

lemma placedDemand_le_capacity {multiplicity : ℤ} {g : Globals} {m : Mapping} {p : ℕ}
    (hC : ∀ p, p < plat.nofProcessors → 0 ≤ capacity plat p) (hstages : StagesIn wf)
    (hmult : multiplicityOf plat wf = some multiplicity) (hts : 1 < plat.tsLengthUs)
    (htasks : 5 ≤ (generateModelWaveform wf multiplicity).wave.nofTasks)
    (hexact : (posed setupAlgorithm (generateModelPlatform plat)
      (generateModelWaveform wf multiplicity).wave g).Exact
      (available (generateModelPlatform plat) g) 4)
    (hok : mappingMap plat wf g = .ok m) (hret : m.ret = 0) (hp : p < plat.nofProcessors) :
    placedDemand wf multiplicity m.place p ≤ capacity plat p + threshold := by
  have hsound := sound_of_mappingMap hmult hts htasks hok
  obtain ⟨multiplicity', r, hmult', hr, hfinite, hplaced⟩ := hsound.placed hret
  obtain rfl : multiplicity = multiplicity' := some.inj (hmult.symm.trans hmult')
  obtain ⟨f, hf, -, -, hholds⟩ := mapper_mapped rfl (by decide) htasks hr hfinite
  have hfits := ((hholds hexact).feasible hC hf).fits p hp
  rw [← sum_demandAt_eq_load hstages] at hfits
  refine le_trans (le_of_eq (sum_congr rfl fun i hi => ?_)) hfits
  obtain ⟨p', -, hmap, hplace⟩ := hplaced i (mem_range.mp hi)
  rw [hmap, hplace]
  simp

/-- **Step lemma.** An admissible load keeps every processor within its capacity. -/
theorem within_load (hC : ∀ p, p < plat.nofProcessors → 0 ≤ capacity plat p)
    (hadmissible : Admissible plat wf st) (hload : loadWaveform plat wf st = some st') :
    Within plat st' := by
  obtain ⟨multiplicity, m, hmult, hok, hret, rfl⟩ := loadWaveform_eq_some hload
  obtain ⟨hstages, hall⟩ := hadmissible
  obtain ⟨htasks, hprocessors⟩ := hall multiplicity hmult
  intro p hp
  simp only [Nat.cast_add, Nat.cast_one]
  rcases hprocessors p hp with ⟨hts, hused, hexact⟩ | hroom
  · have hplaced := placedDemand_le_capacity hC hstages hmult hts htasks hexact hok hret hp
    linarith
  · have hplaced := placedDemand_le wf multiplicity m.place p
    unfold Room at hroom
    linarith

/-- **Admission control.** After any sequence of admissible loads no processor has more
than its capacity, and the threshold for every load. -/
theorem loads_within_capacity (plat : ManPlatform)
    (hC : ∀ p, p < plat.nofProcessors → 0 ≤ capacity plat p) (g : Globals) (wfs : List PWaveform)
    (st : Loads) (hmeets : Meets (loadWaveform plat) (Admissible plat) wfs ⟨g, fun _ => 0, 0⟩)
    (hrun : run (loadWaveform plat) wfs ⟨g, fun _ => 0, 0⟩ = some st) : Within plat st := by
  refine run_invariant (Within plat) ?_ ?_ hmeets hrun
  · exact fun wf st st' _ hadmissible hload => within_load hC hadmissible hload
  · intro p hp
    simpa using hC p hp

/-! ## Two loads -/

def noLoads : Loads := ⟨⟨fun _ => 0, fun _ => 0⟩, fun _ => 0, 0⟩

lemma fiveModules_stagesIn : StagesIn fiveModules := by
  intro row hrow
  exact absurd hrow List.not_mem_nil

lemma fiveModules_nonneg (plat : ManPlatform) (g : Globals) :
    (posed setupAlgorithm (generateModelPlatform plat)
      (generateModelWaveform fiveModules 1).wave g).NonnegCosts := by
  have hdemand : ∀ t, t < (generateModelWaveform fiveModules 1).wave.nofTasks →
      threshold < (generateModelWaveform fiveModules 1).wave.c t := by
    decide +kernel
  have hflow : ∀ s, s < (generateModelWaveform fiveModules 1).wave.nofTasks →
      ∀ t, t < (generateModelWaveform fiveModules 1).wave.nofTasks →
        (generateModelWaveform fiveModules 1).wave.b s t ≤ 0 := by
    decide +kernel
  have hq : (0 : ℚ) ≤ 1 / 2 := by norm_num
  have hq' : (0 : ℚ) ≤ 1 - 1 / 2 := by norm_num
  exact ⟨hq, hq', hdemand, fun s t hs ht => .inl (hflow s hs t ht)⟩

lemma fiveModules_admissible_first : Admissible ⟨1, 1, 1000⟩ fiveModules noLoads := by
  refine ⟨fiveModules_stagesIn, fun multiplicity hmult => ?_⟩
  obtain rfl : 1 = multiplicity := some.inj hmult
  refine ⟨by decide +kernel, fun p _ => .inl ⟨by decide, by norm_num [noLoads], ?_⟩⟩
  exact (fiveModules_nonneg _ _).exact _ _

lemma fiveModules_admissible_second {st : Loads}
    (hload : loadWaveform ⟨1, 1, 1000⟩ fiveModules noLoads = some st) :
    Admissible ⟨1, 1, 1000⟩ fiveModules st := by
  obtain ⟨multiplicity, m, hmult, -, -, rfl⟩ := loadWaveform_eq_some hload
  obtain rfl : 1 = multiplicity := some.inj hmult
  have htotal : ∑ i ∈ range fiveModules.modules.length, max (demandAt fiveModules 1 i) 0 = 5 := by
    decide +kernel
  refine ⟨fiveModules_stagesIn, fun multiplicity hmult => ?_⟩
  obtain rfl : 1 = multiplicity := some.inj hmult
  refine ⟨by decide +kernel, fun p hp => .inr ?_⟩
  obtain rfl : p = 0 := by
    have hp : p < 1 := hp
    omega
  have hplaced := placedDemand_le fiveModules 1 m.place 0
  have hcapacity : capacity ⟨1, 1, 1000⟩ 0 = 1000 := by decide +kernel
  unfold Room
  rw [htotal] at hplaced ⊢
  rw [hcapacity]
  norm_num [noLoads, threshold]
  linarith

theorem loads_within_capacity_two :
    ∃ st, run (loadWaveform ⟨1, 1, 1000⟩) [fiveModules, fiveModules] noLoads = some st ∧
      st.count = 2 ∧ Within ⟨1, 1, 1000⟩ st := by
  have hrun : (run (loadWaveform ⟨1, 1, 1000⟩) [fiveModules, fiveModules] noLoads).map (·.count) =
      some 2 := by
    decide +kernel
  obtain ⟨st, hrun, hcount⟩ := map_eq_some_iff.mp hrun
  have hmeets : Meets (loadWaveform ⟨1, 1, 1000⟩) (Admissible ⟨1, 1, 1000⟩)
      [fiveModules, fiveModules] noLoads :=
    ⟨fiveModules_admissible_first, fun st' hst' =>
      ⟨fiveModules_admissible_second hst', fun _ _ => trivial⟩⟩
  have hC : ∀ p, p < 1 → 0 ≤ capacity ⟨1, 1, 1000⟩ p := by decide +kernel
  exact ⟨st, hrun, hcount, loads_within_capacity _ hC _ _ st hmeets hrun⟩

theorem loads_beyond_capacity : ∃ st, run (loadWaveform ⟨1, 1, 10⟩)
        [modulesOf (List.replicate 5 (6 / 5)), modulesOf (List.replicate 5 (6 / 5))] noLoads =
          some st ∧
      st.count = 2 ∧ st.used 0 = 12 ∧ capacity ⟨1, 1, 10⟩ 0 + st.count * threshold < st.used 0 := by
  have hrun : (run (loadWaveform ⟨1, 1, 10⟩)
      [modulesOf (List.replicate 5 (6 / 5)), modulesOf (List.replicate 5 (6 / 5))] noLoads).map
      (fun st => (st.count, st.used 0)) = some (2, 12) := by
    decide +kernel
  obtain ⟨st, hrun, hst⟩ := map_eq_some_iff.mp hrun
  obtain ⟨hcount, hused⟩ := Prod.mk.inj hst
  have hcapacity : capacity ⟨1, 1, 10⟩ 0 = 10 := by decide +kernel
  refine ⟨st, hrun, hcount, hused, ?_⟩
  rw [hcapacity, hcount, hused]
  norm_num [threshold]

end Aloe.Manager
