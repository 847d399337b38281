import Aloe.Crm.Trellis
import Mathlib.Algebra.Group.End

/-!
# The mapper

Model of `mapper.c`, with the preprocessing of `sort_d.c` and `sort_b.c`. `mapper` copies
the caller's structures to its globals and runs the trellis on them. Of the globals, what
is left of the processors and of the bandwidth outlives a call.

The exchanges of `sort_d` sort `m_sort`, and `idx`, which they carry along, is the permutation
by which both passes rearrange the matrix `b`.
-/

namespace Aloe.Crm

open Equiv List

/-! ## Preprocessing -/

/-- `enum ordtype`. -/
inductive Ord where
  | noOrd
  | cOrd
  | bOrd
deriving DecidableEq, Repr

/-- The demands in the order in which the trellis takes the tasks: `m_sort` and `b`. -/
structure Demands where
  demand : ℕ → ℚ
  flow : ℕ → ℕ → ℚ

/-- Exchange of the neighbours `j` and `j + 1`. -/
def swapNext {α : Type} (t : ℕ → α) (j : ℕ) : ℕ → α :=
  Function.update (Function.update t j (t (j + 1))) (j + 1) (t j)

/-- One comparison of the sorting loops, on `m_sort` and `idx`. -/
def sortStep (st : (ℕ → ℚ) × (ℕ → ℕ)) (j : ℕ) : (ℕ → ℚ) × (ℕ → ℕ) :=
  if st.1 j < st.1 (j + 1) then (swapNext st.1 j, swapNext st.2 j) else st

/-- `sort_d`: by descending demand. -/
def sortD (tasks : ℕ) (d : Demands) : Demands :=
  let sorted := (List.range (tasks - 1)).foldl
    (fun st _ => (List.range (tasks - 1)).foldl sortStep st) (d.demand, fun i => i)
  let idx := sorted.2
  let bSortx := fun i j => d.flow (idx i) j
  ⟨sorted.1, fun j i => bSortx j (idx i)⟩

def largestFlow (tasks : ℕ) (flow : ℕ → ℕ → ℚ) : Option (ℕ × ℕ) :=
  ((List.range (tasks - 1)).foldl (fun best i =>
    (List.range' (i + 1) (tasks - (i + 1))).foldl (fun (best : ℚ × Option (ℕ × ℕ)) j =>
      if best.1 < flow i j then (flow i j, some (i, j)) else best) best) (0, none)).2

def place (st : (ℕ → Option ℕ) × ℕ) (i : ℕ) : (ℕ → Option ℕ) × ℕ :=
  match st.1 i with
  | none => (Function.update st.1 i (some st.2), st.2 + 1)
  | some _ => st

/-- The loop of `sort_b`: the tasks in the order of their flows. Every round clears a flow,
so that `fuel` of one more than the flows there are lets it end. -/
def orderByFlow (tasks : ℕ) : (fuel : ℕ) → (ℕ → ℕ → ℚ) → (ℕ → Option ℕ) × ℕ → ℕ → Option ℕ
  | 0, _, st => st.1
  | fuel + 1, flow, st =>
    match largestFlow tasks flow with
    | none => st.1
    | some (i, j) => orderByFlow tasks fuel (set₂ flow i j 0) (place (place st i) j)

/-- `sort_b`: the tasks by their flows. A task without a flow has no position, and is
written before the start of the tables. -/
def sortB (tasks : ℕ) (d : Demands) : Except Fault Demands := do
  let ord := orderByFlow tasks (tasks * tasks + 1) d.flow (fun _ => none, 0)
  let position (i : ℕ) : Except Fault ℕ :=
    match ord i with
    | some o => .ok o
    | none => .error .bounds
  let bSortx ← (List.range tasks).foldlM (fun rows i => do
    let o ← position i
    return Function.update rows o (some (d.flow i))) (fun _ => none)
  let flow ← (List.range tasks).foldlM (fun flow i => do
    let o ← position i
    (List.range tasks).foldlM (fun flow j => do
      let row ← known (bSortx j)
      return set₂ flow j o (row i)) flow) d.flow
  let demand ← (List.range tasks).foldlM (fun demand i => do
    let o ← position i
    return Function.update demand o (d.demand i)) (fun _ => 0)
  return ⟨demand, flow⟩

/-! ## The mapper -/

structure PlatformResources where
  nofProcessors : ℕ
  arch : Arch
  C : ℕ → ℚ
  B : ℕ → ℕ → ℚ

structure WaveformResources where
  nofTasks : ℕ
  c : ℕ → ℚ
  b : ℕ → ℕ → ℚ
  force : ℕ → ℤ

structure Parameters where
  ord : Ord
  w : ℕ
  mhop : ℕ
  q : ℚ

/-- The globals that outlive a call: `P` and `B`. -/
structure Globals where
  P : Row
  B : Row

/-- The loops that number the nodes write `nodes[j][i]` for every task and processor. -/
def nodesFit (processors tasks : ℕ) : Except Fault Unit :=
  (List.range tasks).forM fun i => (List.range processors).forM fun j => do
    inBounds j maxProcessors
    inBounds i maxTasks

def preprocess (ord : Ord) (tasks : ℕ) (d : Demands) : Except Fault Demands :=
  match ord with
  | .noOrd => return d
  | .cOrd => return sortD tasks d
  | .bOrd => sortB tasks d

def problemOf (par : Parameters) (plat : PlatformResources) (wave : WaveformResources)
    (d : Demands) (res : Resources) : Problem where
  processors := plat.nofProcessors
  tasks := wave.nofTasks
  demand := d.demand
  flow := d.flow
  force := wave.force
  q1 := par.q
  q2 := 1 - par.q
  mhop := par.mhop
  link := res.link

/-- `mapper`: the cost, the processor of each task, and the globals it leaves. What was
left by an earlier call is overwritten by the caller's capacities. -/
def mapper (par : Parameters) (plat : PlatformResources) (wave : WaveformResources)
    (g : Globals) : Except Fault (ℚ × (ℕ → ℤ) × Globals) := do
  nodesFit plat.nofProcessors wave.nofTasks
  let P : Row := fun i => if i < plat.nofProcessors then plat.C i else g.P i
  let res := resourceTrans plat.nofProcessors plat.arch plat.B g.B
  let d ← preprocess par.ord wave.nofTasks ⟨wave.c, wave.b⟩
  let out ← (problemOf par plat wave d res).twMapping par.w P res.left
  return (out.cost, out.map, ⟨out.pLeft, out.bLeft⟩)

/-! ## The order of the tasks -/

/-- Nothing before position `b` is smaller. -/
def Low (m : ℕ → ℚ) (b : ℕ) : Prop := ∀ a < b, m b ≤ m a

/-- After `i` passes, and `j` comparisons of the next: `m_sort` and `idx` are rearranged by one
permutation, the last `i` tasks have their places, and the smallest so far is at `j`. -/
structure Sorting (tasks : ℕ) (m : ℕ → ℚ) (i j : ℕ) (st : (ℕ → ℚ) × (ℕ → ℕ)) : Prop where
  permuted : ∃ π : Perm ℕ, (∀ k, π k < tasks ↔ k < tasks) ∧ st = (m ∘ π, ⇑π)
  low : ∀ b < tasks, b = j ∨ tasks ≤ b + i ∨ tasks ≤ b + i + 1 ∧ b ≤ j → Low st.1 b

variable {tasks i j : ℕ} {m : ℕ → ℚ} {st : (ℕ → ℚ) × (ℕ → ℕ)}

lemma swapNext_eq {α : Type} (t : ℕ → α) (j : ℕ) : swapNext t j = t ∘ swap j (j + 1) := by
  funext k
  simp only [swapNext, Function.comp, Function.update_apply, swap_apply_def]
  split_ifs <;> first | rfl | omega

lemma Sorting.step (hj : j + 1 < tasks) (h : Sorting tasks m i j st) :
    Sorting tasks m i (j + 1) (sortStep st j) := by
  obtain ⟨⟨π, hπ, rfl⟩, hlow⟩ := h
  have hsmall := hlow j (by omega) (.inl rfl)
  unfold sortStep
  split_ifs with hlt
  · refine ⟨⟨π * swap j (j + 1), fun k => ?_, by simp only [swapNext_eq]; rfl⟩,
      fun b hb hcase => ?_⟩
    · rw [Perm.mul_apply, hπ, swap_apply_def]
      split_ifs <;> omega
    · -- an exchange takes place before the tasks that have their places
      have hbefore : j + 1 + i < tasks := by
        by_contra hplaced
        exact absurd (hlow (j + 1) hj (.inr (.inl (by omega))) j (by omega)) (not_le.mpr hlt)
      have hb : b = j + 1 ∨ Low (m ∘ π) b ∧ j + 1 < b := by grind
      intro a ha
      simp only [swapNext, Function.update_apply]
      grind [Low]
  · refine ⟨⟨π, hπ, rfl⟩, fun b hb hcase a ha => ?_⟩
    grind [Low]

lemma Sorting.pass (h : Sorting tasks m i 0 st) :
    Sorting tasks m (i + 1) 0 ((range (tasks - 1)).foldl sortStep st) := by
  have hloop : ∀ n < tasks, Sorting tasks m i n ((range n).foldl sortStep st) := by
    intro n hn
    induction n with
    | zero => exact h
    | succ n ih =>
      rw [range_succ, foldl_append]
      exact (ih (by omega)).step hn
  obtain rfl | hpos := tasks.eq_zero_or_pos
  · exact ⟨h.permuted, fun b hb => absurd hb (Nat.not_lt_zero b)⟩
  · refine ⟨(hloop _ (by omega)).permuted, fun b hb hcase a ha => ?_⟩
    exact (hloop (tasks - 1) (by omega)).low b hb (by omega) a ha

/-- **`sort_d` sorts the demands in descending order, and rearranges the demands and both sides of
the matrix by one permutation.** -/
theorem sortD_sorts (tasks : ℕ) (d : Demands) : ∃ π : Perm ℕ, (∀ i, π i < tasks ↔ i < tasks) ∧
    (∀ j < tasks, ∀ i < j, (sortD tasks d).demand j ≤ (sortD tasks d).demand i) ∧
    (∀ i, (sortD tasks d).demand i = d.demand (π i)) ∧
    ∀ i j, (sortD tasks d).flow i j = d.flow (π i) (π j) := by
  have hpasses : ∀ n, Sorting tasks d.demand n 0 ((range n).foldl
      (fun st _ => (range (tasks - 1)).foldl sortStep st) (d.demand, fun i => i)) := by
    intro n
    induction n with
    | zero => exact ⟨⟨1, fun _ => .rfl, rfl⟩, fun b hb hcase a ha => by omega⟩
    | succ n ih =>
      rw [range_succ, foldl_append]
      exact ih.pass
  obtain ⟨⟨π, hπ, heq⟩, hlow⟩ := hpasses (tasks - 1)
  refine ⟨π, hπ, fun j hj i hi => hlow j hj (by omega) i hi, fun i => ?_, fun i j => ?_⟩
  · exact congrFun (congrArg Prod.fst heq) i
  · simp only [sortD, heq]

end Aloe.Crm
