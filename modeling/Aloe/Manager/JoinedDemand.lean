import Mathlib.Algebra.BigOperators.Group.Finset.Piecewise
import Aloe.Crm.ComputingFeasibility
import Aloe.Manager.Mapping

/-!
# The demand of joined modules

The mapper sees tasks, the platform executes modules. A task needs what the modules that it
stands for need together, and a module runs where its task is mapped. Modules whose common
demand is zero belong to no task and run with the first one. So what the modules on a
processor need is what the mapper has counted there.
-/

namespace Aloe.Manager

open Lib Crm List Finset Function

def demandAt (wf : PWaveform) (multiplicity : ℤ) (i : ℕ) : ℚ :=
  (wf.modules[i]?).elim 0 fun m => m.demand multiplicity

def StagesIn (wf : PWaveform) : Prop := ∀ row ∈ wf.stages, ∀ x ∈ row, x < wf.modules.length

/-! ## The tables of the join -/

lemma joinFunction_lt {wf : PWaveform} (h : StagesIn wf) {i : ℕ} (hi : i < wf.modules.length) :
    generateModelJoinFunction wf i < wf.modules.length := by
  refine List.foldlRecOn (motive := fun join : ℕ → ℕ =>
    join i < wf.modules.length) wf.stages _ hi ?_
  intro join hjoin row hrow
  refine List.foldlRecOn (motive := fun join : ℕ → ℕ => join i < wf.modules.length) row _ hjoin ?_
  intro join hjoin x hx
  rcases eq_or_ne i x with rfl | hne
  · -- the first module of the row stands for it
    rw [update_self]
    cases row with
    | nil => exact absurd hx not_mem_nil
    | cons y row => exact h _ hrow y mem_cons_self
  · rwa [update_of_ne hne]

lemma joinedFunctionInv_eq (join : ℕ → ℕ) (joined : List ℕ) (i : ℕ) :
    joinedFunctionInv join joined i = joinedFunctionInv (fun j => j) joined (join i) := by
  unfold joinedFunctionInv
  induction joined.length with
  | zero => rfl
  | succ n ih => simp only [range_succ, foldl_append, foldl_cons, foldl_nil, ih]

lemma joinedFunctionInv_getElem {joined : List ℕ} (hnodup : joined.Nodup) {t j : ℕ}
    (hj : joined[t]? = some j) : joinedFunctionInv (fun j => j) joined j = t := by
  obtain ⟨ht, -⟩ := List.getElem?_eq_some_iff.mp hj
  -- the loop writes `t` in its round, and no later one overwrites it
  have hloop : ∀ n, n ≤ joined.length → t < n →
      (List.range n).foldl (fun inv k i => if joined[k]? = some i then k else inv i)
        (fun _ => 0) j = t := by
    intro n hn htn
    induction n with
    | zero => exact absurd htn (Nat.not_lt_zero t)
    | succ n ih =>
      simp only [range_succ, foldl_append, foldl_cons, foldl_nil]
      split
      · next hn' => exact (getElem?_inj (by omega) hnodup).mp (hn'.trans hj.symm)
      · next hne =>
        have hlt : t ≠ n := fun heq => hne (heq ▸ hj)
        exact ih (by omega) (by omega)
  exact hloop joined.length (le_refl _) ht

lemma tmpC_eq (wf : PWaveform) (join : ℕ → ℕ) (multiplicity : ℤ) (j : ℕ) :
    tmpC wf join multiplicity j =
      ∑ i ∈ range wf.modules.length with join i = j, demandAt wf multiplicity i := by
  unfold tmpC demandAt
  rw [sum_filter]
  induction wf.modules using List.reverseRecOn with
  | nil => rfl
  | append_singleton ms m ih =>
    have hbefore : ∀ i ∈ Finset.range ms.length, (ms ++ [m])[i]? = ms[i]? := fun i hi =>
      getElem?_append_left (Finset.mem_range.mp hi)
    rw [zipIdx_append, foldl_append, length_append, length_singleton,
      Finset.sum_range_succ, getElem?_concat_length,
      sum_congr rfl fun i hi => by rw [hbefore i hi], ← ih]
    simp only [zipIdx_cons, zipIdx_nil, foldl_cons, foldl_nil, zero_add, Option.elim_some]
    rcases eq_or_ne j (join ms.length) with rfl | hne
    · rw [update_self, if_pos rfl]
    · rw [update_of_ne hne, if_neg hne.symm, add_zero]

/-! ## Modules and tasks -/

lemma sum_map_filter_ne_zero {c G : ℕ → ℚ} (hG : ∀ j, c j = 0 → G j = 0) (n : ℕ) :
    (((List.range n).filter fun j => c j ≠ 0).map G).sum = ∑ j ∈ range n, G j := by
  induction n with
  | zero => rfl
  | succ n ih =>
    rw [range_succ, filter_append, map_append, sum_append, ih, Finset.sum_range_succ]
    congr 1
    by_cases hn : c n = 0
    · simp [hn, hG n hn]
    · simp [hn]

lemma sum_demandAt_eq_load {wf : PWaveform} (h : StagesIn wf) (multiplicity : ℤ) (map : ℕ → ℤ)
    (p : ℕ) :
    (∑ i ∈ range wf.modules.length,
      if map ((generateModelWaveform wf multiplicity).joinedInv i) = p then
        demandAt wf multiplicity i else 0) =
      load (generateModelWaveform wf multiplicity).wave.c map
        (generateModelWaveform wf multiplicity).wave.nofTasks p := by
  let join := generateModelJoinFunction wf
  let c := tmpC wf join multiplicity
  let joined := joinedFunction wf c
  let task := joinedFunctionInv (fun j => j) joined
  have hmaps : ∀ i ∈ Finset.range wf.modules.length, join i ∈ Finset.range wf.modules.length :=
    fun i hi => Finset.mem_range.mpr (joinFunction_lt h (Finset.mem_range.mp hi))
  have hnodup : joined.Nodup := List.Nodup.filter _ nodup_range
  calc (∑ i ∈ Finset.range wf.modules.length,
        if map (joinedFunctionInv join joined i) = p then demandAt wf multiplicity i else 0)
      = ∑ j ∈ range wf.modules.length, ∑ i ∈ range wf.modules.length with join i = j,
            if map (task j) = p then demandAt wf multiplicity i else 0 := by
        rw [← sum_fiberwise_of_maps_to hmaps]
        refine sum_congr rfl fun j _ => sum_congr rfl fun i hi => ?_
        rw [joinedFunctionInv_eq, (Finset.mem_filter.mp hi).2]
    _ = ∑ j ∈ range wf.modules.length, if map (task j) = p then c j else 0 := by
        refine sum_congr rfl fun j _ => ?_
        rw [show c j = _ from tmpC_eq wf join multiplicity j]
        split
        · rfl
        · exact sum_const_zero
    _ = (joined.map fun j => if map (task j) = p then c j else 0).sum := by
        refine (sum_map_filter_ne_zero (fun j hj => ?_) _).symm
        rw [hj, ite_self]
    _ = ((List.range joined.length).map fun t =>
          if map t = p then (joined[t]?).elim 0 c else 0).sum := by
        congr 1
        refine ext_getElem (by simp) fun t ht _ => ?_
        have ht : t < joined.length := by simpa using ht
        have hj : joined[t]? = some joined[t] := getElem?_eq_getElem ht
        have htask : task joined[t] = t := joinedFunctionInv_getElem hnodup hj
        rw [getElem_map, getElem_map, getElem_range, hj, htask]
        rfl

end Aloe.Manager
