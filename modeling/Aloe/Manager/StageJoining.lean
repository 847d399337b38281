import Aloe.Manager.JoinedDemand
import Aloe.Manager.MappingSound

/-!
# Stage joining

The rows of `join_stages` name modules that are to run together. Each module is represented by the
first module of the last row that lists it, and a task stands for the modules with one
representative. Where rows overlap, a later row takes modules out of an earlier one; and where the
modules of a task need nothing, the task is dropped and its modules are counted to task 0.
-/

namespace Aloe.Manager

open Lib Crm Function List

/-- The first module of the last row that lists `x`, or `x` itself. -/
def representative (stages : List (List ℕ)) (x : ℕ) : ℕ :=
  match stages.reverse.find? fun row => x ∈ row with
  | some row => row.headD 0
  | none => x

structure Joinable (wf : PWaveform) (multiplicity : ℤ) : Prop where
  rows : ∀ row ∈ wf.stages, ∀ x ∈ row, ∀ y ∈ row,
    representative wf.stages x = representative wf.stages y
  demands : ∀ i, i < wf.modules.length → ∑ k ∈ Finset.range wf.modules.length with
      representative wf.stages k = representative wf.stages i, demandAt wf multiplicity k ≠ 0

structure TasksJoined (wf : PWaveform) (model : Model) : Prop where
  rows : ∀ row ∈ wf.stages, ∀ x ∈ row, ∀ y ∈ row, model.joinedInv x = model.joinedInv y
  task : ∀ i, i < wf.modules.length → model.joined[model.joinedInv i]? = some (model.join i)

/-! ## The representatives -/

lemma joinRow_apply (row : List ℕ) (join : ℕ → ℕ) (first y : ℕ) :
    row.foldl (fun join x => update join x first) join y = if y ∈ row then first else join y := by
  induction row generalizing join with
  | nil => simp
  | cons x row ih =>
    rw [foldl_cons, ih]
    by_cases hmem : y ∈ row
    · rw [if_pos hmem, if_pos (mem_cons_of_mem x hmem)]
    · grind

lemma joinFunction_eq (wf : PWaveform) (x : ℕ) :
    generateModelJoinFunction wf x = representative wf.stages x := by
  unfold generateModelJoinFunction representative
  -- from the last row on, which overwrites all before it
  induction wf.stages using List.reverseRecOn with
  | nil => rfl
  | append_singleton rows row ih =>
    rw [foldl_append, foldl_cons, foldl_nil, joinRow_apply, reverse_append,
      reverse_singleton, singleton_append, find?_cons]
    by_cases hmem : x ∈ row
    · rw [if_pos hmem, decide_eq_true hmem]
    · rw [if_neg hmem, decide_eq_false hmem]
      exact ih

section Tasks

variable {wf : PWaveform} {multiplicity : ℤ}

lemma mem_joined {j : ℕ} :
    j ∈ (generateModelWaveform wf multiplicity).joined ↔ j < wf.modules.length ∧
      tmpC wf (generateModelJoinFunction wf) multiplicity j ≠ 0 := by
  show j ∈ (List.range wf.modules.length).filter _ ↔ _
  rw [mem_filter, mem_range, decide_eq_true_iff]

lemma joinedInv_of_task {i t : ℕ} (ht : (generateModelWaveform wf multiplicity).joined[t]? =
      some ((generateModelWaveform wf multiplicity).join i)) :
    (generateModelWaveform wf multiplicity).joinedInv i = t := by
  have hnodup : (generateModelWaveform wf multiplicity).joined.Nodup :=
    List.Nodup.filter _ nodup_range
  exact (joinedFunctionInv_eq _ _ i).trans (joinedFunctionInv_getElem hnodup ht)

/-- **Exactly the joinable waveforms** have their modules in the tasks that stand for them. -/
theorem tasksJoined_iff (hstages : StagesIn wf) :
    TasksJoined wf (generateModelWaveform wf multiplicity) ↔ Joinable wf multiplicity := by
  have hdemand : ∀ j, tmpC wf (generateModelJoinFunction wf) multiplicity j =
      ∑ k ∈ Finset.range wf.modules.length with representative wf.stages k = j,
        demandAt wf multiplicity k := by
    intro j
    simp only [tmpC_eq, joinFunction_eq]
  constructor
  · intro h
    refine ⟨fun row hrow x hx y hy => ?_, fun i hi => ?_⟩
    · have htask := h.task x (hstages row hrow x hx)
      rw [h.rows row hrow x hx y hy, h.task y (hstages row hrow y hy)] at htask
      rw [← joinFunction_eq, ← joinFunction_eq]
      exact (Option.some.inj htask).symm
    · obtain ⟨-, hne⟩ := mem_joined.mp (mem_of_getElem? (h.task i hi))
      rw [← hdemand, ← joinFunction_eq]
      exact hne
  · intro h
    have htask : ∀ i, i < wf.modules.length → (generateModelWaveform wf multiplicity).joined[
          (generateModelWaveform wf multiplicity).joinedInv i]? =
        some ((generateModelWaveform wf multiplicity).join i) := by
      intro i hi
      have hmem : (generateModelWaveform wf multiplicity).join i ∈
          (generateModelWaveform wf multiplicity).joined := by
        refine mem_joined.mpr ⟨joinFunction_lt hstages hi, ?_⟩
        show tmpC wf _ multiplicity (generateModelJoinFunction wf i) ≠ 0
        rw [hdemand, joinFunction_eq]
        exact h.demands i hi
      obtain ⟨t, ht⟩ := mem_iff_getElem?.mp hmem
      rw [joinedInv_of_task ht, ht]
    refine ⟨fun row hrow x hx y hy => ?_, htask⟩
    have hsame : (generateModelWaveform wf multiplicity).join x =
        (generateModelWaveform wf multiplicity).join y := by
      show generateModelJoinFunction wf x = generateModelJoinFunction wf y
      rw [joinFunction_eq, joinFunction_eq, h.rows row hrow x hx y hy]
    refine joinedInv_of_task ?_
    rw [hsame]
    exact htask y (hstages row hrow y hy)

end Tasks

/-! ## The modules of a mapping that succeeds -/

/-- **Run lemma.** A loop that succeeds has placed all modules where their tasks are, and left their
stages. -/
theorem assign_placed {plat : ManPlatform} {pRes : ℕ → ℤ} {inv : ℕ → ℕ} {is : List ℕ}
    {m m' : Mapping} (hok : assign plat pRes inv is m = .ok m') (hm : m.ret ≠ 0)
    (hret : m'.ret = 0) :
    m'.stage = m.stage ∧ (∀ i, i ∉ is → m'.place i = m.place i) ∧
      ∀ i ∈ is, 0 ≤ pRes (inv i) ∧ pRes (inv i) < plat.nofProcessors ∧
        m'.place i = some ⟨0, (pRes (inv i)).toNat, i⟩ := by
  induction is generalizing m with
  | nil =>
    cases hok
    exact ⟨rfl, fun _ _ => rfl, fun i hi => absurd hi not_mem_nil⟩
  | cons i is ih =>
    rw [assign] at hok
    split at hok
    · cases hok
      exact absurd hret hm
    · obtain ⟨p, hp, hok⟩ := bind_eq_ok.mp hok
      unfold ManPlatform.processorAt at hp
      split at hp
      · grind
      · cases hp

/-- A mapping that succeeds gives the modules the processor found for their task, and its stage. -/
theorem mappingMap_placed {plat : ManPlatform} {wf : PWaveform} {g : Globals} {m : Mapping}
    (hok : mappingMap plat wf g = .ok m) (hret : m.ret = 0) :
    ∃ multiplicity pRes modules globals, multiplicityOf plat wf = some multiplicity ∧
      callAlgorithm plat (generateModelWaveform wf multiplicity)
        (generateModelStages wf (generateModelWaveform wf multiplicity)).2 g =
          .ok (some pRes, modules, globals) ∧
      ∀ i, i < wf.modules.length → let t := (generateModelWaveform wf multiplicity).joinedInv i
        0 ≤ pRes t ∧ pRes t < plat.nofProcessors ∧ m.place i = some ⟨0, (pRes t).toNat, i⟩ ∧
          m.stage i = some (tmpStages (generateModelWaveform wf multiplicity).wave t) := by
  unfold mappingMap at hok
  split at hok
  · cases hok
    cases hret
  · next multiplicity hmult =>
    obtain ⟨⟨res, modules, globals⟩, hcall, hok⟩ := bind_eq_ok.mp hok
    cases res with
    | none =>
      cases hok
      cases hret
    | some pRes =>
      obtain ⟨hstage, -, hplaced⟩ := assign_placed hok (show (-1 : ℤ) ≠ 0 by decide) hret
      refine ⟨multiplicity, pRes, modules, globals, hmult, hcall, fun i hi => ?_⟩
      obtain ⟨hpos, hlt, hplace⟩ := hplaced i (mem_range.mpr hi)
      exact ⟨hpos, hlt, hplace, congrFun hstage i⟩

/-- **Stage joining.** Rows, tasks and modules fit together exactly in a joinable waveform; and a
mapping of it that succeeds gives the modules of a row the processor and stage of the task that
stands for them. -/
theorem mappingMap_joins_stages (plat : ManPlatform) (wf : PWaveform) (g : Globals)
    (hstages : StagesIn wf) :
    (∀ multiplicity, TasksJoined wf (generateModelWaveform wf multiplicity) ↔
      Joinable wf multiplicity) ∧
    ∀ m, mappingMap plat wf g = .ok m → m.ret = 0 →
      ∃ multiplicity pRes modules globals, multiplicityOf plat wf = some multiplicity ∧
        callAlgorithm plat (generateModelWaveform wf multiplicity)
          (generateModelStages wf (generateModelWaveform wf multiplicity)).2 g =
            .ok (some pRes, modules, globals) ∧
        (Joinable wf multiplicity →
          (∀ row ∈ wf.stages, ∀ x ∈ row, ∀ y ∈ row, m.stage x = m.stage y ∧
            (m.place x).map (·.processorIdx) = (m.place y).map (·.processorIdx)) ∧
          ∀ i, i < wf.modules.length → ∃ t, (generateModelWaveform wf multiplicity).joined[t]? =
              some ((generateModelWaveform wf multiplicity).join i) ∧
            m.place i = some ⟨0, (pRes t).toNat, i⟩ ∧
            m.stage i = some (tmpStages (generateModelWaveform wf multiplicity).wave t)) := by
  refine ⟨fun multiplicity => tasksJoined_iff hstages, fun m hok hret => ?_⟩
  obtain ⟨multiplicity, pRes, modules, globals, hmult, hcall, hplaced⟩ := mappingMap_placed hok hret
  refine ⟨multiplicity, pRes, modules, globals, hmult, hcall, fun hjoinable => ?_⟩
  have hjoined := (tasksJoined_iff hstages).mpr hjoinable
  refine ⟨fun row hrow x hx y hy => ?_, fun i hi => ?_⟩
  · obtain ⟨-, -, hplaceX, hstageX⟩ := hplaced x (hstages row hrow x hx)
    obtain ⟨-, -, hplaceY, hstageY⟩ := hplaced y (hstages row hrow y hy)
    rw [hplaceX, hplaceY, hstageX, hstageY, hjoined.rows row hrow x hx y hy]
    exact ⟨rfl, rfl⟩
  · obtain ⟨-, -, hplace, hstage⟩ := hplaced i hi
    exact ⟨_, hjoined.task i hi, hplace, hstage⟩

/-! ## Three waveforms -/

def chainOf (mopts : List ℚ) (rows : List (List ℕ)) : PWaveform :=
  { newWaveform [] with
    modules := mopts.zipIdx.map fun c =>
      { PModule.zero with
        id := c.2 + 1
        cMopts := .replicate maxModes c.1
        outputs := some [⟨1, c.2 + 2, 0, 1, -1, false⟩]
        nofOutputs := 1 }
    stages := rows }

def sevenChain : PWaveform := chainOf [1, 1, 1, 1, 1, 1, 1] [[2, 1], [4, 5]]

theorem mappingMap_joins_stages_chain : StagesIn sevenChain ∧
    ∃ m, mappingMap ⟨2, 1, 1000⟩ sevenChain
        ⟨fun _ => 0, fun _ => 0⟩ = .ok m ∧ m.ret = 0 ∧ m.stage 1 = m.stage 2 := by
  have hstages : StagesIn sevenChain := by
    unfold StagesIn
    decide
  obtain ⟨m, hok, hret⟩ := exists_of_yields (fun m => m.ret = 0)
    (x := mappingMap ⟨2, 1, 1000⟩ sevenChain
      ⟨fun _ => 0, fun _ => 0⟩) (by decide +kernel)
  obtain ⟨-, hmodules⟩ := mappingMap_joins_stages ⟨2, 1, 1000⟩
    sevenChain ⟨fun _ => 0, fun _ => 0⟩ hstages
  obtain ⟨multiplicity, pRes, modules, globals, hmult, -, hjoins⟩ := hmodules m hok hret
  obtain rfl : 1 = multiplicity := Option.some.inj hmult
  have hjoinable : Joinable sevenChain 1 :=
    ⟨by decide, by decide +kernel⟩
  obtain ⟨hrows, -⟩ := hjoins hjoinable
  exact ⟨hstages, m, hok, hret, (hrows [2, 1] (by decide) 1 (by decide) 2 (by decide)).1⟩

/-- Two rows that share module 1: modules 0 and 1 of the first row end up in different
stages. And a module without demand: it gets the task of module 0. -/
theorem mappingMap_splits_rows :
    (∃ m, mappingMap ⟨2, 1, 1000⟩ (chainOf [1, 1, 1, 1, 1, 1, 1] [[0, 1], [1, 2]])
        ⟨fun _ => 0, fun _ => 0⟩ = .ok m ∧ m.ret = 0 ∧ m.stage 0 = some 1 ∧ m.stage 1 = some 2) ∧
    (∃ m, mappingMap ⟨2, 1, 1000⟩ (chainOf [1, 1, 1, 0, 1, 1, 1] []) ⟨fun _ => 0, fun _ => 0⟩ =
        .ok m ∧ m.ret = 0) ∧
    (generateModelWaveform (chainOf [1, 1, 1, 0, 1, 1, 1] []) 1).joinedInv 3 = 0 ∧
    (generateModelWaveform (chainOf [1, 1, 1, 0, 1, 1, 1] []) 1).joined[0]? = some 0 ∧
    (generateModelWaveform (chainOf [1, 1, 1, 0, 1, 1, 1] []) 1).join 3 = 3 :=
  ⟨exists_of_yields _ (by decide +kernel), exists_of_yields _ (by decide +kernel),
    by decide +kernel, by decide +kernel, by decide +kernel⟩

end Aloe.Manager
