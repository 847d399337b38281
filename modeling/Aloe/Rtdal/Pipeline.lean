import Aloe.Lib.LinkedList
import Aloe.Lib.Run
import Aloe.Lib.StableSort
import Mathlib.Algebra.Ring.Int.Defs

/-!
# The processes of a pipeline

A pipeline executes its processes one after the other in every time slot, in the order of a singly
linked list threaded through the processes themselves. `pipeline_add` splices a process in by its
`exec_position`, `pipeline_remove` takes one out. `P` is the type of process addresses, and the
`next` fields are memory. The walks are given fuel, `none` when it runs out; on a list of `n`
processes fuel `n + 1` suffices.

In a slot the status of each process is checked, and if it is runnable its `run_point` is called; it
and `finish_callback` are arbitrary functions of the flags and of an environment `E`, which do not
touch the list. A process that reports an error is taken out of the list from inside the walk.
`pipeline_remove` clears the `next` field that the walk goes on by, so the processes behind get no
turn (`slot_serves_iff`).
-/

namespace Aloe.Rtdal.Pipeline

open Lib Function List

/-- `pipeline_t`, with the `next` field of every `rtdal_process_t`. -/
@[ext]
structure State (P : Type) where
  firstProcess : Option P
  nofProcesses : ℤ
  next : P → Option P

variable {P : Type} [DecidableEq P]

/-! ## The code -/

section Code

variable (execPosition : P → ℤ) (next : P → Option P)

/-- The walk of `pipeline_add`: `while (p->next && exec_pos >= p->next->exec_position)`. -/
def seek (execPos : ℤ) : ℕ → P → ℤ → Option (P × ℤ)
  | 0, _, _ => none
  | fuel + 1, p, i =>
    match next p with
    | some q => if execPos ≥ execPosition q then seek execPos fuel q (i + 1) else some (p, i)
    | none => some (p, i)

/-- The walk of `pipeline_remove`, which ends with `prev` and `cur`. -/
def locate (proc : P) : ℕ → Option P → Option P → Option (Option P × Option P)
  | 0, _, _ => none
  | _ + 1, prev, none => some (prev, none)
  | fuel + 1, prev, some cur =>
    if cur = proc then some (prev, some cur) else locate proc fuel (some cur) (next cur)

def pipelineAdd (fuel : ℕ) (obj : State P) (process : P) : Option (ℤ × State P) :=
  let execPos := execPosition process
  match obj.firstProcess with
  -- head because empty list
  | none => some (0,
      { firstProcess := some process
        nofProcesses := obj.nofProcesses + 1
        next := update obj.next process none })
  | some first =>
    -- head because first exec position
    if execPos < execPosition first then some (0,
      { firstProcess := some process
        nofProcesses := obj.nofProcesses + 1
        next := update obj.next process (some first) })
    else
      -- middle
      (seek execPosition obj.next execPos fuel first 0).map fun (p, i) => (i,
        { obj with
          nofProcesses := obj.nofProcesses + 1
          next := update (update obj.next process (obj.next p)) p
            (some process) })

def pipelineRemove (fuel : ℕ) (obj : State P) (proc : P) : Option (ℤ × State P) :=
  (locate obj.next proc fuel none obj.firstProcess).map fun
    | (_, none) => (-1, obj)
    | (some prev, some cur) => (0,
        { obj with
          nofProcesses := obj.nofProcesses - 1
          next := update (update obj.next prev (obj.next cur)) proc none })
    | (none, some cur) => (0,
        { firstProcess := obj.next cur
          nofProcesses := obj.nofProcesses - 1
          next := update obj.next proc none })

end Code

/-! ## The two walks on a well-formed list -/

section Walks

variable {execPosition : P → ℤ} {next : P → Option P} {fuel : ℕ}

omit [DecidableEq P] in
lemma seek_linked {execPos : ℤ} {p : P} {xs : List P} (i : ℤ)
    (hxs : Linked next (next p) xs) (hp : execPosition p ≤ execPos) (hfuel : xs.length < fuel) :
    ∃ as a, (p :: xs).takeWhile (fun b => execPosition b ≤ execPos) = as ++ [a] ∧
      seek execPosition next execPos fuel p i = some (a, i + as.length) := by
  induction xs generalizing p fuel i with
  | nil =>
    obtain ⟨fuel, rfl⟩ := Nat.exists_eq_add_of_lt hfuel
    refine ⟨[], p, by simp [hp], ?_⟩
    rw [seek, Linked.nil_iff.mp hxs]
    simp
  | cons q xs ih =>
    obtain ⟨fuel, rfl⟩ := Nat.exists_eq_add_of_lt hfuel
    obtain ⟨hnext, hrest⟩ := hxs
    by_cases hq : execPosition q ≤ execPos
    · have henough : xs.length < (q :: xs).length + fuel := by
        rw [length_cons]
        omega
      obtain ⟨as, a, htake, hseek⟩ := ih (i + 1) hrest hq henough
      refine ⟨p :: as, a, ?_, ?_⟩
      · rw [takeWhile_cons_of_pos (by simpa using hp), htake, cons_append]
      · rw [seek, hnext]
        simp only [ge_iff_le, hq, if_true]
        rw [hseek, length_cons, Int.natCast_add, Int.add_assoc, Int.add_comm 1]
        rfl
    · refine ⟨[], p, by simp [hp, hq], ?_⟩
      rw [seek, hnext]
      simp [hq]

lemma locate_of_not_mem {proc : P} {q prev : Option P} {xs : List P}
    (hxs : Linked next q xs) (hproc : proc ∉ xs) (hfuel : xs.length < fuel) :
    ∃ prev', locate next proc fuel prev q = some (prev', none) := by
  induction xs generalizing q prev fuel with
  | nil =>
    obtain ⟨fuel, rfl⟩ := Nat.exists_eq_add_of_lt hfuel
    exact ⟨prev, by rw [Linked.nil_iff.mp hxs, locate]⟩
  | cons x xs ih =>
    obtain ⟨fuel, rfl⟩ := Nat.exists_eq_add_of_lt hfuel
    obtain ⟨hx, hmem⟩ := not_or.mp (mt mem_cons.mpr hproc)
    rw [hxs.1, locate, if_neg (Ne.symm hx)]
    exact ih hxs.2 hmem (by simp only [length_cons]; omega)

lemma locate_of_append {proc : P} {q : Option P} {as bs : List P} (prev : Option P)
    (hxs : Linked next q (as ++ proc :: bs)) (hfuel : as.length < fuel) :
    locate next proc fuel prev q = some (as.getLast?.or prev, some proc) := by
  induction as generalizing q prev fuel with
  | nil =>
    obtain ⟨fuel, rfl⟩ := Nat.exists_eq_add_of_lt hfuel
    rw [hxs.1, locate, if_pos rfl]
    rfl
  | cons x as ih =>
    obtain ⟨fuel, rfl⟩ := Nat.exists_eq_add_of_lt hfuel
    have hne : x ≠ proc := fun heq => (nodup_cons.mp hxs.nodup).1 (by simp [heq])
    rw [hxs.1, locate, if_neg hne, ih (some x) hxs.2 (by simp only [length_cons]; omega)]
    cases hlast : as.getLast? with
    | none => simp [getLast?_eq_none_iff.mp hlast]
    | some y => simp [getLast?_cons, hlast]

end Walks

/-! ## One call -/

/-- The pipeline holds the processes `xs`, in this order, and counts them. -/
structure Holds (obj : State P) (xs : List P) : Prop where
  linked : Linked obj.next obj.firstProcess xs
  count : obj.nofProcesses = xs.length

section Calls

variable {obj : State P} {xs : List P} {p : P} {fuel : ℕ}

/-- `pipeline_add` puts a process behind those of its own position and in front of those of a
larger one. It returns the number of processes its walk has left behind. -/
theorem pipelineAdd_holds (execPosition : P → ℤ) (h : Holds obj xs) (hp : p ∉ xs)
    (hfuel : xs.length < fuel) :
    ∃ i obj', pipelineAdd execPosition fuel obj p = some (i, obj') ∧
      Holds obj' (insertLast execPosition p xs) ∧
      i = ((xs.takeWhile fun b => execPosition b ≤ execPosition p).length - 1 : ℕ) := by
  have hcount : obj.nofProcesses + 1 = ((insertLast execPosition p xs).length : ℤ) := by
    rw [length_insertLast, h.count]
    rfl
  cases xs with
  | nil =>
    have hfirst : obj.firstProcess = none := h.linked
    refine ⟨0, _, by rw [pipelineAdd, hfirst], ⟨⟨rfl, ?_⟩, hcount⟩, rfl⟩
    exact update_self p none obj.next
  | cons first xs =>
    obtain ⟨hfirst, hrest⟩ := h.linked
    by_cases hpos : execPosition p < execPosition first
    · refine ⟨0, _, by rw [pipelineAdd, hfirst]; exact if_pos hpos, ⟨?_, hcount⟩, by simp [hpos]⟩
      rw [insertLast_cons_of_lt hpos]
      exact (hfirst ▸ h.linked).push hp
    · have hle : execPosition first ≤ execPosition p := Int.not_lt.mp hpos
      obtain ⟨as, a, htake, hseek⟩ := seek_linked 0 hrest hle (Nat.lt_of_succ_lt hfuel)
      refine ⟨0 + as.length, _, by rw [pipelineAdd, hfirst]; simp [hpos, hseek]; rfl,
        ⟨?_, hcount⟩, by simp [htake]⟩
      -- the split of the list at the process it goes behind
      have hsplit : first :: xs = as ++ a ::
          (first :: xs).dropWhile (fun b => execPosition b ≤ execPosition p) := by
        conv_lhs => rw [← takeWhile_append_dropWhile (l := first :: xs), htake]
        simp
      rw [insertLast_eq, htake, append_assoc, singleton_append]
      show Linked _ (some first) _
      rw [← hfirst]
      exact (hsplit ▸ h.linked).insertAfter (hsplit ▸ hp)

lemma pipelineRemove_of_not_mem (h : Holds obj xs) (hp : p ∉ xs) (hfuel : xs.length < fuel) :
    pipelineRemove fuel obj p = some (-1, obj) := by
  obtain ⟨prev, hlocate⟩ := locate_of_not_mem h.linked hp hfuel
  rw [pipelineRemove, hlocate]
  rfl

lemma pipelineRemove_of_mem (h : Holds obj xs) (hp : p ∈ xs) (hfuel : xs.length < fuel) :
    ∃ obj', pipelineRemove fuel obj p = some (0, obj') ∧ Holds obj' (xs.erase p) ∧
      obj'.next p = none := by
  obtain ⟨as, bs, rfl⟩ := append_of_mem hp
  have hrest := h.linked.not_mem_rest
  have has : p ∉ as := fun hmem => hrest (mem_append_left bs hmem)
  have herase : (as ++ p :: bs).erase p = as ++ bs := by
    rw [erase_append_right _ has, erase_cons_head]
  have henough : as.length < fuel := by
    rw [length_append] at hfuel
    omega
  have hlocate := locate_of_append none h.linked henough
  have hcount : obj.nofProcesses - 1 = ((as ++ bs).length : ℤ) := by
    rw [h.count]
    simp only [length_append, length_cons]
    omega
  rw [pipelineRemove, hlocate, herase]
  cases hlast : as.getLast? with
  | none =>
    obtain rfl := getLast?_eq_none_iff.mp hlast
    refine ⟨_, rfl, ⟨?_, hcount⟩, by simp⟩
    exact h.linked.2.update_of_not_mem hrest none
  | some a =>
    obtain ⟨as', rfl⟩ := getLast?_eq_some_iff.mp hlast
    refine ⟨_, rfl, ⟨?_, hcount⟩, by simp⟩
    have hlinked : Linked obj.next obj.firstProcess (as' ++ a :: p :: bs) := by
      simpa using h.linked
    have hout : p ∉ as' ++ a :: bs := by simpa using hrest
    simpa using hlinked.unlink.update_of_not_mem hout none

/-- **The position returned.** It is the one the process has in the new list exactly for a
process that becomes the first; behind another process it is one too small. -/
theorem pipelineAdd_position (execPosition : P → ℤ) (obj : State P) (xs : List P) (p : P)
    (fuel : ℕ) (h : Holds obj xs) (hp : p ∉ xs) (hfuel : xs.length < fuel) :
    ∃ i obj' ys, pipelineAdd execPosition fuel obj p = some (i, obj') ∧ Holds obj' ys ∧ p ∈ ys ∧
      (i = ys.idxOf p ↔ ∀ first, obj.firstProcess = some first →
        execPosition p < execPosition first) := by
  obtain ⟨i, obj', hcall, hholds, rfl⟩ := pipelineAdd_holds execPosition h hp hfuel
  refine ⟨_, obj', _, hcall, hholds, by simp [insertLast_eq], ?_⟩
  have hbefore : p ∉ xs.takeWhile fun b => execPosition b ≤ execPosition p :=
    fun hmem => hp (takeWhile_subset _ hmem)
  rw [insertLast_eq, idxOf_append_of_notMem hbefore, idxOf_cons_self, Nat.cast_inj]
  cases xs with
  | nil => simp [show obj.firstProcess = none from h.linked]
  | cons first xs =>
    by_cases hlt : execPosition p < execPosition first
    · simp [h.linked.1, hlt]
    · simp [h.linked.1, Int.not_lt.mp hlt]

theorem pipelineAdd_position_first :
    ∃ i obj' ys, pipelineAdd (fun p : ℕ => (p : ℤ)) 2 ⟨some 1, 1, fun _ => none⟩ 0 =
    some (i, obj') ∧ Holds obj' ys ∧ i = ys.idxOf 0 := by
  obtain ⟨i, obj', ys, hcall, hholds, -, hiff⟩ := pipelineAdd_position (fun p : ℕ => (p : ℤ))
    ⟨some 1, 1, fun _ => none⟩ [1] 0 2 ⟨⟨rfl, rfl⟩, rfl⟩ (by decide) (by decide)
  refine ⟨i, obj', ys, hcall, hholds, hiff.mpr ?_⟩
  rintro first ⟨⟩
  decide

theorem pipelineAdd_position_behind :
    ∃ obj', pipelineAdd (fun p : ℕ => (p : ℤ)) 2 ⟨some 0, 1, fun _ => none⟩ 1 = some (0, obj') ∧
      Holds obj' [0, 1] ∧ ([0, 1] : List ℕ).idxOf 1 = 1 := by
  refine ⟨_, rfl, ⟨⟨rfl, ?_, ?_⟩, rfl⟩, rfl⟩ <;> rfl

end Calls

/-! ## Sequences of calls -/

inductive Op (P : Type)
  | add (process : P)
  | remove (proc : P)

def call (execPosition : P → ℤ) (fuel : ℕ) : Op P → State P → Option (State P)
  | .add p, obj => (pipelineAdd execPosition fuel obj p).map Prod.snd
  | .remove p, obj => (pipelineRemove fuel obj p).map Prod.snd

/-- The processes added and not removed, the oldest first, when `l` were there before. -/
def present (l : List P) : List (Op P) → List P
  | [] => l
  | .add p :: ops => present (l ++ [p]) ops
  | .remove p :: ops => present (l.erase p) ops

def AddsAbsent (l : List P) : List (Op P) → Prop
  | [] => True
  | .add p :: ops => p ∉ l ∧ AddsAbsent (l ++ [p]) ops
  | .remove p :: ops => AddsAbsent (l.erase p) ops

/-- A pipeline without processes; the `next` fields hold anything. -/
def emptyPipeline (next : P → Option P) : State P where
  firstProcess := none
  nofProcesses := 0
  next := next

section Runs

variable {execPosition : P → ℤ} {fuel : ℕ}

/-- **Run lemma.** The list stays the stable sort of the processes present. -/
theorem run_call_holds {ops : List (Op P)} {obj : State P} {l xs : List P} (h : Holds obj xs)
    (hsort : StableSort execPosition l xs) (hadds : AddsAbsent l ops)
    (hfuel : xs.length + ops.length < fuel) :
    ∃ obj' ys, run (call execPosition fuel) ops obj = some obj' ∧ Holds obj' ys ∧
      StableSort execPosition (present l ops) ys ∧ ys.length < fuel := by
  induction ops generalizing obj l xs with
  | nil => exact ⟨obj, xs, rfl, h, hsort, hfuel⟩
  | cons op ops ih =>
    rw [length_cons] at hfuel
    cases op with
    | add p =>
      have hp : p ∉ xs := fun hmem => hadds.1 (hsort.perm.mem_iff.mp hmem)
      obtain ⟨i, obj', hcall, hholds, -⟩ :=
        pipelineAdd_holds execPosition h hp (by omega : xs.length < fuel)
      obtain ⟨obj'', ys, hrun, hrest⟩ := ih hholds (hsort.insert p) hadds.2
        (by rw [length_insertLast]; omega)
      exact ⟨obj'', ys, run_cons_eq_some.mpr ⟨obj', by simp [call, hcall], hrun⟩, hrest⟩
    | remove p =>
      have herase := hsort.erase h.linked.nodup p
      have hshort : (xs.erase p).length ≤ xs.length := erase_sublist.length_le
      by_cases hp : p ∈ xs
      · obtain ⟨obj', hcall, hholds, -⟩ := pipelineRemove_of_mem h hp (by omega : xs.length < fuel)
        obtain ⟨obj'', ys, hrun, hrest⟩ := ih hholds herase hadds (by omega)
        exact ⟨obj'', ys, run_cons_eq_some.mpr ⟨obj', by simp [call, hcall], hrun⟩, hrest⟩
      · have hcall := pipelineRemove_of_not_mem h hp (by omega : xs.length < fuel)
        rw [erase_of_not_mem hp] at herase
        obtain ⟨obj'', ys, hrun, hrest⟩ := ih h herase hadds (by omega)
        exact ⟨obj'', ys, run_cons_eq_some.mpr ⟨obj, by simp [call, hcall], hrun⟩, hrest⟩

lemma run_call_empty {ops : List (Op P)} (next : P → Option P) (hadds : AddsAbsent [] ops)
    (hfuel : ops.length < fuel) :
    ∃ obj ys, run (call execPosition fuel) ops (emptyPipeline next) = some obj ∧ Holds obj ys ∧
      StableSort execPosition (present [] ops) ys ∧ ys.length < fuel := by
  have hempty : Holds (emptyPipeline next) [] := ⟨rfl, rfl⟩
  exact run_call_holds hempty StableSort.nil hadds (by simpa using hfuel)

/-- **The process list.** After every sequence of calls from the empty pipeline the list is acyclic,
holds exactly the processes added and not removed, once each, is as long as `nof_processes` says,
and is sorted by `exec_position`, equal positions in insertion order. So distinct positions leave
one order only, and a removal of an absent process returns -1 and changes nothing. -/
theorem pipeline_stably_sorted (execPosition : P → ℤ) (next : P → Option P) (ops : List (Op P))
    (fuel : ℕ) (hadds : AddsAbsent [] ops) (hfuel : ops.length < fuel) :
    ∃ obj xs, run (call execPosition fuel) ops (emptyPipeline next) = some obj ∧
      Linked obj.next obj.firstProcess xs ∧ xs.Nodup ∧ (∀ p, p ∈ xs ↔ p ∈ present [] ops) ∧
      obj.nofProcesses = xs.length ∧ StableSort execPosition (present [] ops) xs ∧
      (∀ next' ops' fuel' obj' xs', AddsAbsent [] ops' → ops'.length < fuel' →
        run (call execPosition fuel') ops' (emptyPipeline next') = some obj' →
        Linked obj'.next obj'.firstProcess xs' → (present [] ops).Perm (present [] ops') →
        (∀ a ∈ present [] ops, ∀ b ∈ present [] ops,
          execPosition a = execPosition b → a = b) → xs' = xs) ∧
      ∀ p, p ∉ present [] ops → pipelineRemove fuel obj p = some (-1, obj) := by
  obtain ⟨obj, xs, hrun, hholds, hsort, hlen⟩ := run_call_empty next hadds hfuel
  refine ⟨obj, xs, hrun, hholds.linked, hholds.linked.nodup, fun p => hsort.perm.mem_iff,
    hholds.count, hsort, ?_, ?_⟩
  · intro next' ops' fuel' obj' xs' hadds' hfuel' hrun' hlinked' hperm hdistinct
    obtain ⟨obj'', ys, hrun'', hholds'', hsort'', -⟩ := run_call_empty next' hadds' hfuel'
    obtain rfl : obj'' = obj' := Option.some.inj (hrun''.symm.trans hrun')
    rw [hlinked'.unique hholds''.linked]
    exact (hsort.eq_of_perm hsort'' hperm hdistinct).symm
  · intro p hp
    exact pipelineRemove_of_not_mem hholds (fun hmem => hp (hsort.perm.mem_iff.mp hmem)) hlen

theorem pipeline_stably_sorted_four : ∃ obj xs, run (call (fun p : ℕ => (p % 10 : ℤ)) 7)
        [.add 14, .add 1, .add 24, .add 3, .remove 1, .remove 7] (emptyPipeline fun _ => none) =
          some obj ∧
      Linked obj.next obj.firstProcess xs ∧ obj.nofProcesses = xs.length ∧
      StableSort (fun p : ℕ => (p % 10 : ℤ)) [14, 24, 3] xs := by
  obtain ⟨obj, xs, hrun, hlinked, -, -, hcount, hsort, -⟩ :=
    pipeline_stably_sorted (fun p : ℕ => (p % 10 : ℤ)) (fun _ => none)
      [.add 14, .add 1, .add 24, .add 3, .remove 1, .remove 7] 7 (by simp [AddsAbsent])
      (by decide)
  exact ⟨obj, xs, hrun, hlinked, hcount, hsort⟩

end Runs

/-! ## A time slot -/

/-- `rtdal_processerrors_t`. -/
inductive ProcessError
  | finishOk | rtFault | sigRecv | runError | usr1 | usr2
deriving DecidableEq

structure World (P E : Type) where
  runnable : P → Bool
  isRunning : P → Bool
  finishCode : P → ProcessError
  /-- `pgroup_notified_failure`, by process group -/
  notifiedFailure : ℕ → Bool
  env : E

structure Attributes (P E : Type) where
  processGroupId : P → ℕ
  finishCallback : P → Option (World P E → World P E)
  runPoint : P → World P E → ℤ × World P E

/-- The pipeline in a slot. `calls` records the `run_point` calls made, with what they returned. -/
structure Slot (P E : Type) where
  list : State P
  enable : Bool
  finished : Bool
  tsCounter : ℤ
  runningProcess : Option P
  runningProcessIdx : ℤ
  world : World P E
  calls : List (P × ℤ)

inductive Exit (σ : Type)
  | ret (s : σ)
  | killed (s : σ)

variable {P E : Type} [DecidableEq P]

/-! ## The code -/

section Code

variable (attr : Attributes P E)

def World.setRunning (w : World P E) (p : P) (b : Bool) : World P E :=
  { w with isRunning := Function.update w.isRunning p b }

/-- `pipeline_run_thread_check_status`. -/
def checkStatus (proc : P) (w : World P E) : World P E :=
  if w.runnable proc = true ∧ w.finishCode proc ≠ .finishOk ∧
      w.notifiedFailure (attr.processGroupId proc) = false then
    match attr.finishCallback proc with
    | some callback => callback
        { w with notifiedFailure :=
            Function.update w.notifiedFailure (attr.processGroupId proc) true }
    | none => w
  else w

/-- `pipeline_run_thread_run_module`. -/
def runModule (fuel : ℕ) (proc : P) (idx : ℤ) (pipe : Slot P E) : Option (Slot P E) :=
  if pipe.world.runnable proc then
    let answer := attr.runPoint proc (pipe.world.setRunning proc true)
    let pipe := { pipe with
      runningProcess := some proc
      runningProcessIdx := idx
      world := answer.2.setRunning proc false
      calls := pipe.calls ++ [(proc, answer.1)] }
    if answer.1 ≠ 0 then
      (pipelineRemove fuel pipe.list proc).map fun removed => { pipe with list := removed.2 }
    else some pipe
  else some pipe

/-- The loop of `pipeline_run_time_slot`. -/
def slotLoop (fuel : ℕ) : ℕ → Option P → ℤ → Slot P E → Option (Exit (Slot P E))
  | 0, _, _, _ => none
  | _ + 1, none, _, obj => some (.ret obj)
  | n + 1, some runProc, idx, obj =>
    if idx > obj.list.nofProcesses then some (.killed obj)
    else
      (runModule attr fuel runProc idx
          { obj with world := checkStatus attr runProc obj.world }).bind fun obj =>
        slotLoop fuel n (obj.list.next runProc) (idx + 1) obj

/-- `timeSlot` is what `rtdal_time_slot` returns at the end. -/
def pipelineRunTimeSlot (fuel : ℕ) (timeSlot : ℤ) (obj : Slot P E) : Option (Exit (Slot P E)) :=
  let obj := { obj with finished := false }
  let close := fun (obj : Slot P E) => { obj with tsCounter := timeSlot, finished := true }
  if obj.enable then
    (slotLoop attr fuel fuel obj.list.firstProcess 0 obj).map fun
      | .ret obj => .ret (close obj)
      | .killed obj => .killed obj
  else some (.ret (close obj))

end Code

/-! ## What a slot is for -/

def turn (attr : Attributes P E) (p : P) (w : World P E) : Option ℤ × World P E :=
  let w := checkStatus attr p w
  if w.runnable p then
    let answer := attr.runPoint p (w.setRunning p true)
    (some answer.1, answer.2.setRunning p false)
  else (none, w)

def turns (attr : Attributes P E) : List P → World P E → List (P × ℤ)
  | [], _ => []
  | p :: ps, w => (turn attr p w).1.toList.map (fun n => (p, n)) ++ turns attr ps (turn attr p w).2

def errored (calls : List (P × ℤ)) : List P := (calls.filter (fun c => c.2 ≠ 0)).map Prod.fst

/-- The slot function returns; every process runnable at its turn was called, once and in list
order; the list is left with the processes that reported no error. -/
def Serves (attr : Attributes P E) (xs : List P) (obj : Slot P E)
    (result : Option (Exit (Slot P E))) : Prop :=
  ∃ obj', result = some (.ret obj') ∧ obj'.calls = obj.calls ++ turns attr xs obj.world ∧
    Holds obj'.list (xs.filter (· ∉ errored (turns attr xs obj.world)))

/-! ## What the code does -/

def cut : List (P × ℤ) → List (P × ℤ)
  | [] => []
  | c :: cs => if c.2 = 0 then c :: cut cs else [c]

omit [DecidableEq P] in
lemma cut_eq_self_iff (cs : List (P × ℤ)) : cut cs = cs ↔ ∀ c ∈ cs.dropLast, c.2 = 0 := by
  induction cs with
  | nil => simp [cut]
  | cons c cs ih =>
    cases cs with
    | nil => by_cases hc : c.2 = 0 <;> simp [cut, hc]
    | cons d ds =>
      by_cases hc : c.2 = 0
      · rw [cut, if_pos hc, cons_inj_right, ih]
        simp [List.dropLast, hc]
      · rw [cut, if_neg hc]
        simp [List.dropLast, hc]

variable {cs ds : List (P × ℤ)} {xs : List P} {obj : Slot P E}

omit [DecidableEq P] in
lemma cut_append_of_zero (hcs : ∀ c ∈ cs, c.2 = 0) : cut (cs ++ ds) = cs ++ cut ds := by
  induction cs with
  | nil => rfl
  | cons c cs ih =>
    rw [cons_append, cut, if_pos (hcs c mem_cons_self),
      ih fun d hd => hcs d (mem_cons_of_mem c hd), cons_append]

omit [DecidableEq P] in
lemma errored_append_of_zero (hcs : ∀ c ∈ cs, c.2 = 0) : errored (cs ++ ds) = errored ds := by
  have hnone : cs.filter (fun c => c.2 ≠ 0) = [] :=
    filter_eq_nil_iff.mpr fun c hc => by simp [hcs c hc]
  rw [errored, filter_append, hnone, nil_append, errored]

variable {fuel : ℕ}

/-- **Turn lemma.** A turn changes the flags and makes the call that `turn` says. Without an error
the list stays; with one, the process is gone and its `next` field is null. -/
theorem runModule_turn (attr : Attributes P E) {p : P}
    (idx : ℤ) (hlist : Holds obj.list xs) (hp : p ∈ xs) (hfuel : xs.length < fuel) :
    ∃ obj', runModule attr fuel p idx { obj with world := checkStatus attr p obj.world } =
        some obj' ∧
      obj'.world = (turn attr p obj.world).2 ∧
      obj'.calls = obj.calls ++ (turn attr p obj.world).1.toList.map (fun n => (p, n)) ∧
      ((∀ n ∈ (turn attr p obj.world).1, n = 0) → obj'.list = obj.list) ∧
      ∀ n ∈ (turn attr p obj.world).1, n ≠ 0 →
        Holds obj'.list (xs.erase p) ∧ obj'.list.next p = none := by
  by_cases hrun : (checkStatus attr p obj.world).runnable p = true
  · set answer := attr.runPoint p ((checkStatus attr p obj.world).setRunning p true) with hanswer
    have hturn : turn attr p obj.world = (some answer.1, answer.2.setRunning p false) := by
      simp [turn, hrun, hanswer]
    let called : Slot P E := { obj with
      runningProcess := some p
      runningProcessIdx := idx
      world := answer.2.setRunning p false
      calls := obj.calls ++ [(p, answer.1)] }
    rw [hturn]
    by_cases herr : answer.1 = 0
    · refine ⟨called, ?_, rfl, rfl, fun _ => rfl, ?_⟩
      · simp [runModule, hrun, ← hanswer, herr, called]
      · intro n hn hne
        exact absurd ((Option.some.inj hn).symm.trans herr) hne
    · obtain ⟨list', hremove, hholds, hnext⟩ := pipelineRemove_of_mem hlist hp hfuel
      refine ⟨{ called with list := list' }, ?_, rfl, rfl, ?_, fun _ _ _ => ⟨hholds, hnext⟩⟩
      · simp [runModule, hrun, ← hanswer, herr, hremove, called]
      · intro hzero
        exact absurd (hzero answer.1 rfl) herr
  · have hturn : turn attr p obj.world = (none, checkStatus attr p obj.world) := by
      simp [turn, hrun]
    rw [hturn]
    refine ⟨{ obj with world := checkStatus attr p obj.world }, ?_, rfl, ?_, fun _ => rfl, ?_⟩
    · simp [runModule, hrun]
    · simp
    · intro n hn
      cases hn

/-- **Loop lemma.** From the cursor at `rest`, with `done` behind it, the calls are those of the
turns up to the first error, and the process that reported it is gone from the list. -/
theorem slotLoop_spec (attr : Attributes P E) {n : ℕ} (done : List P) {rest : List P}
    (obj : Slot P E) {cursor : Option P} (hlist : Holds obj.list (done ++ rest))
    (hcursor : Linked obj.list.next cursor rest) (hfuel : (done ++ rest).length < fuel)
    (hn : rest.length < n) :
    ∃ obj', slotLoop attr fuel n cursor done.length obj = some (.ret obj') ∧
      obj'.calls = obj.calls ++ cut (turns attr rest obj.world) ∧
      Holds obj'.list ((done ++ rest).filter (· ∉ errored (cut (turns attr rest obj.world)))) := by
  induction rest generalizing done obj cursor n with
  | nil =>
    obtain ⟨n, rfl⟩ := Nat.exists_eq_add_of_lt hn
    refine ⟨obj, by rw [Linked.nil_iff.mp hcursor, slotLoop], by simp [turns, cut], ?_⟩
    simpa [turns, cut, errored] using hlist
  | cons p ps ih =>
    obtain ⟨n, rfl⟩ : ∃ m, n = m + 1 := ⟨n - 1, by omega⟩
    have hp : p ∈ done ++ p :: ps := by simp
    obtain ⟨obj', hmodule, hworld, hcalls, hsame, hgone⟩ :=
      runModule_turn attr done.length hlist hp hfuel
    -- the count never falls behind the cursor, so the list does not pass for corrupted
    have hidx : ¬ (done.length : ℤ) > obj.list.nofProcesses := by
      rw [hlist.count, length_append]
      omega
    have hstep : slotLoop attr fuel (n + 1) cursor done.length obj =
        slotLoop attr fuel n (obj'.list.next p) (done.length + 1) obj' := by
      rw [hcursor.1, slotLoop, if_neg hidx, hmodule]
      rfl
    rw [turns, hstep]
    by_cases hzero : ∀ m ∈ (turn attr p obj.world).1, m = 0
    · have hzeros : ∀ c ∈ (turn attr p obj.world).1.toList.map (fun m => (p, m)), c.2 = 0 := by
        intro c hc
        obtain ⟨m, hm, rfl⟩ := mem_map.mp hc
        exact hzero m (Option.mem_toList.mp hm)
      have happend : done ++ p :: ps = (done ++ [p]) ++ ps := by simp
      have hlen : ((done ++ [p]).length : ℤ) = done.length + 1 := by simp
      have hlist' : Holds obj'.list ((done ++ [p]) ++ ps) := by
        rwa [hsame hzero, ← happend]
      have hcursor' : Linked obj'.list.next (obj'.list.next p) ps := by
        rw [hsame hzero]
        exact hcursor.2
      rw [happend] at hfuel
      obtain ⟨obj'', hloop, hcalls', hlist'⟩ :=
        ih (done ++ [p]) obj' hlist' hcursor' hfuel (by simpa using hn)
      rw [hlen] at hloop
      rw [← hworld, cut_append_of_zero hzeros, errored_append_of_zero hzeros, happend]
      exact ⟨obj'', hloop, by rw [hcalls', hcalls, append_assoc], hlist'⟩
    · obtain ⟨m, hm, hne⟩ : ∃ m ∈ (turn attr p obj.world).1, m ≠ 0 := by simpa using hzero
      obtain ⟨hholds, hnext⟩ := hgone m hm hne
      obtain ⟨n, rfl⟩ : ∃ k, n = k + 1 := ⟨n - 1, by simp only [length_cons] at hn; omega⟩
      rw [Option.mem_def.mp hm] at hcalls ⊢
      refine ⟨obj', by rw [hnext, slotLoop], by simpa [cut, hne] using hcalls, ?_⟩
      have herase : (done ++ p :: ps).erase p = (done ++ p :: ps).filter (· ∉ [p]) := by
        rw [hlist.linked.nodup.erase_eq_filter]
        exact filter_congr fun a _ => by rw [Bool.eq_iff_iff]; simp
      have herrored : ∀ cs, errored (cut ((some m).toList.map (fun m => (p, m)) ++ cs)) = [p] := by
        intro cs
        simp [cut, errored, hne]
      rw [herrored, ← herase]
      exact hholds

lemma pipelineRunTimeSlot_spec (attr : Attributes P E)
    (timeSlot : ℤ) (henable : obj.enable = true) (hlist : Holds obj.list xs)
    (hfuel : xs.length < fuel) :
    ∃ obj', pipelineRunTimeSlot attr fuel timeSlot obj = some (.ret obj') ∧
      obj'.calls = obj.calls ++ cut (turns attr xs obj.world) ∧
      Holds obj'.list (xs.filter (· ∉ errored (cut (turns attr xs obj.world)))) := by
  obtain ⟨obj', hloop, hcalls, hholds⟩ :=
    slotLoop_spec attr [] { obj with finished := false } hlist hlist.linked hfuel hfuel
  refine ⟨{ obj' with tsCounter := timeSlot, finished := true }, ?_, hcalls, hholds⟩
  simp only [length_nil, Nat.cast_zero] at hloop
  rw [pipelineRunTimeSlot, if_pos henable, hloop]
  rfl

/-- **A time slot.** Every process runnable at its turn is called once, in list order, and exactly
those that report an error are removed, if and only if no call but the last one reports one. -/
theorem slot_serves_iff (attr : Attributes P E) (fuel : ℕ) (timeSlot : ℤ) (xs : List P)
    (obj : Slot P E) (henable : obj.enable = true) (hlist : Holds obj.list xs)
    (hfuel : xs.length < fuel) :
    Serves attr xs obj (pipelineRunTimeSlot attr fuel timeSlot obj) ↔
      ∀ c ∈ (turns attr xs obj.world).dropLast, c.2 = 0 := by
  obtain ⟨obj', hslot, hcalls, hholds⟩ := pipelineRunTimeSlot_spec attr timeSlot henable hlist hfuel
  rw [← cut_eq_self_iff, hslot]
  constructor
  · rintro ⟨obj'', hret, hcalls', -⟩
    obtain rfl : obj' = obj'' := by
      cases hret
      rfl
    exact append_cancel_left (hcalls.symm.trans hcalls')
  · intro hcut
    rw [hcut] at hcalls hholds
    exact ⟨obj', rfl, hcalls, hholds⟩

/-! ## Two processes -/

/-- Processes without callbacks; `q` is the only one whose `run_point` reports an error. -/
def errorAt (q : ℕ) : Attributes ℕ Unit where
  processGroupId := fun _ => 0
  finishCallback := fun _ => none
  runPoint := fun p w => (if p = q then -1 else 0, w)

def twoProcesses : Slot ℕ Unit where
  list :=
    { firstProcess := some 0
      nofProcesses := 2
      next := Function.update (fun _ => none) 0 (some 1) }
  enable := true
  finished := true
  tsCounter := 0
  runningProcess := none
  runningProcessIdx := 0
  world :=
    { runnable := fun _ => true
      isRunning := fun _ => false
      finishCode := fun _ => .finishOk
      notifiedFailure := fun _ => false
      env := () }
  calls := []

lemma twoProcesses_holds : Holds twoProcesses.list [0, 1] := ⟨⟨rfl, rfl, rfl⟩, rfl⟩

theorem slot_serves_two :
    Serves (errorAt 1) [0, 1] twoProcesses (pipelineRunTimeSlot (errorAt 1) 3 1 twoProcesses) :=
  (slot_serves_iff (errorAt 1) 3 1 [0, 1] twoProcesses rfl twoProcesses_holds (by decide)).mpr
    (by decide)

theorem slot_skips_behind_error : turns (errorAt 0) [0, 1] twoProcesses.world = [(0, -1), (1, 0)] ∧
      (∃ obj', pipelineRunTimeSlot (errorAt 0) 3 1 twoProcesses = some (.ret obj') ∧
        obj'.calls = [(0, -1)]) ∧
      ¬ Serves (errorAt 0) [0, 1] twoProcesses
          (pipelineRunTimeSlot (errorAt 0) 3 1 twoProcesses) := by
  have hslot : ∃ obj', pipelineRunTimeSlot (errorAt 0) 3 1 twoProcesses = some (.ret obj') ∧
      obj'.calls = [(0, -1)] := ⟨_, rfl, rfl⟩
  refine ⟨by decide, hslot, ?_⟩
  rintro ⟨obj'', hret, hcalls, -⟩
  obtain ⟨obj', hslot, hcalls'⟩ := hslot
  cases hslot.symm.trans hret
  rw [hcalls'] at hcalls
  revert hcalls
  decide

/-! ## Calls and slots in any order -/

inductive Act (P : Type)
  | call (op : Op P)
  | slot (timeSlot : ℤ)

/-- `none` where a function does not return, or a slot finds the list corrupted. -/
def act (attr : Attributes P E) (execPosition : P → ℤ) (fuel : ℕ) :
    Act P → Slot P E → Option (Slot P E)
  | .call op, obj => (call execPosition fuel op obj.list).map fun list => { obj with list := list }
  | .slot timeSlot, obj =>
    match pipelineRunTimeSlot attr fuel timeSlot obj with
    | some (.ret obj) => some obj
    | _ => none

/-- A process is added only to a list that it is not in. -/
def Act.Fresh (a : Act P) (obj : Slot P E) : Prop :=
  ∀ p xs, a = .call (.add p) → Holds obj.list xs → p ∉ xs

structure InOrder (execPosition : P → ℤ) (obj : Slot P E) (xs : List P) : Prop where
  holds : Holds obj.list xs
  sorted : xs.Pairwise fun p q => execPosition p ≤ execPosition q

variable {attr : Attributes P E} {execPosition : P → ℤ}

lemma slot_step (timeSlot : ℤ) (h : InOrder execPosition obj xs) (hfuel : xs.length < fuel) :
    ∃ obj' ys, pipelineRunTimeSlot attr fuel timeSlot obj = some (.ret obj') ∧
      obj'.calls = obj.calls ++ (if obj.enable then cut (turns attr xs obj.world) else []) ∧
      InOrder execPosition obj' ys ∧ ys.length ≤ xs.length := by
  by_cases henable : obj.enable = true
  · obtain ⟨obj', hslot, hcalls, hholds⟩ :=
      pipelineRunTimeSlot_spec attr timeSlot henable h.holds hfuel
    rw [if_pos henable]
    exact ⟨obj', _, hslot, hcalls, ⟨hholds, h.sorted.sublist filter_sublist⟩, length_filter_le ..⟩
  · exact ⟨{ obj with tsCounter := timeSlot, finished := true }, xs,
      by simp [pipelineRunTimeSlot, henable], by simp [henable], ⟨h.holds, h.sorted⟩, le_rfl⟩

lemma call_step {op : Op P} (h : InOrder execPosition obj xs) (hfresh : (Act.call op).Fresh obj)
    (hfuel : xs.length < fuel) :
    ∃ obj' ys, act attr execPosition fuel (.call op) obj = some obj' ∧
      InOrder execPosition obj' ys ∧ ys.length ≤ xs.length + 1 := by
  cases op with
  | add p =>
    obtain ⟨i, list, hcall, hholds, -⟩ :=
      pipelineAdd_holds execPosition h.holds (hfresh p xs rfl h.holds) hfuel
    exact ⟨{ obj with list := list }, _, by simp [act, call, hcall],
      ⟨hholds, sorted_insertLast h.sorted⟩, length_insertLast.le⟩
  | remove p =>
    by_cases hp : p ∈ xs
    · obtain ⟨list, hcall, hholds, -⟩ := pipelineRemove_of_mem h.holds hp hfuel
      exact ⟨{ obj with list := list }, _, by simp [act, call, hcall],
        ⟨hholds, h.sorted.sublist erase_sublist⟩, by
          have := length_erase_le (a := p) (l := xs)
          omega⟩
    · have hcall := pipelineRemove_of_not_mem h.holds hp hfuel
      exact ⟨obj, xs, by simp [act, call, hcall], h, by omega⟩

/-- **Run lemma.** -/
theorem act_run {acts : List (Act P)} (h : InOrder execPosition obj xs)
    (hfresh : Meets (act attr execPosition fuel) Act.Fresh acts obj)
    (hfuel : xs.length + acts.length < fuel) :
    ∃ obj' ys, run (act attr execPosition fuel) acts obj = some obj' ∧
      InOrder execPosition obj' ys ∧ ys.length < fuel := by
  induction acts generalizing obj xs with
  | nil => exact ⟨obj, xs, rfl, h, hfuel⟩
  | cons a acts ih =>
    rw [length_cons] at hfuel
    obtain ⟨obj1, ys, hact, h1, hlen⟩ : ∃ obj1 ys, act attr execPosition fuel a obj = some obj1 ∧
        InOrder execPosition obj1 ys ∧ ys.length ≤ xs.length + 1 := by
      cases a with
      | call op => exact call_step h hfresh.1 (by omega)
      | slot timeSlot =>
        obtain ⟨obj1, ys, hslot, -, h1, hlen⟩ := slot_step timeSlot h (by omega : xs.length < fuel)
        exact ⟨obj1, ys, by rw [act, hslot], h1, by omega⟩
    obtain ⟨obj', zs, hrest, hend⟩ := ih h1 (hfresh.2 obj1 hact) (by omega)
    exact ⟨obj', zs, run_cons_eq_some.mpr ⟨obj1, hact, hrest⟩, hend⟩

/-- **Calls and slots, in any order.** From an empty pipeline no slot finds the list corrupted, and
a slot calls the processes that are runnable at their turn, in the order of `exec_position`, up to
the first error. -/
theorem pipeline_serves_in_order (attr : Attributes P E) (execPosition : P → ℤ) (fuel : ℕ)
    (acts : List (Act P)) (obj : Slot P E) (hempty : Holds obj.list [])
    (hfresh : Meets (act attr execPosition fuel) Act.Fresh acts obj) (hfuel : acts.length < fuel) :
    ∃ obj' xs, run (act attr execPosition fuel) acts obj = some obj' ∧
      InOrder execPosition obj' xs ∧
      ∀ timeSlot, ∃ obj'', pipelineRunTimeSlot attr fuel timeSlot obj' = some (.ret obj'') ∧
        obj''.calls = obj'.calls ++ if obj'.enable then cut (turns attr xs obj'.world) else [] := by
  obtain ⟨obj', xs, hrun, h, hlen⟩ := act_run ⟨hempty, .nil⟩ hfresh (by simpa using hfuel)
  refine ⟨obj', xs, hrun, h, fun timeSlot => ?_⟩
  obtain ⟨obj'', ys, hslot, hcalls, -⟩ := slot_step timeSlot h hlen
  exact ⟨obj'', hslot, hcalls⟩

/-- Two processes are added, the first one in the list is removed. -/
theorem pipeline_serves_in_order_two :
    ∃ obj' xs, run (act (errorAt 9) (fun p => -p) 6)
        [.call (.add 0), .call (.add 1), .slot 1, .call (.remove 1), .slot 2]
        { twoProcesses with list := emptyPipeline fun _ => none } = some obj' ∧
      obj'.list.nofProcesses = 1 ∧ InOrder (fun p : ℕ => -(p : ℤ)) obj' xs := by
  have hquiet : ∀ s : Slot ℕ Unit, Meets (act (errorAt 9) (fun p => -p) 6) Act.Fresh
      [.slot 1, .call (.remove 1), .slot 2] s :=
    meets_of_forall_mem fun a ha _ p _ hop => by simp [hop] at ha
  obtain ⟨obj', xs, hrun, h, -⟩ := pipeline_serves_in_order (errorAt 9) (fun p => -p) 6
    [.call (.add 0), .call (.add 1), .slot 1, .call (.remove 1), .slot 2]
    { twoProcesses with list := emptyPipeline fun _ => none } ⟨rfl, rfl⟩
    ⟨fun _ _ hop h => by
      cases hop
      rw [h.linked.unique (show Linked _ _ [] from rfl)]
      decide, fun s hs => ⟨fun _ _ hop h => by
        cases hop
        cases hs
        rw [h.linked.unique (show Linked _ _ [0] from ⟨rfl, rfl⟩)]
        decide, fun _ _ => hquiet _⟩⟩ (by decide)
  refine ⟨obj', xs, hrun, ?_, h⟩
  cases hrun
  rfl

end Aloe.Rtdal.Pipeline
