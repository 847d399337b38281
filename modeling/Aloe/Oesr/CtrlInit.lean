import Aloe.Lib.FirstMatch
import Aloe.Oesr.CtrlSkeleton
import Aloe.Oesr.InitVisit

/-!
# A call of `Init` of the control skeleton

What a call leaves when it gets through (`initRemote_ok`): every remote parameter names a module of
the waveform, the modules that are addressed have each a place in `outputs` and a port there, and
nothing else of the node has changed. A call that does not get through ends with -1, or with 0
before it has looked at its parameters (`init_cases`).
-/

namespace Aloe.Oesr.CtrlSkeleton

open Lib Oesr.Skeleton Function List

/-! ## Programs -/

section Programs

variable {α β : Type} {g g' : World} {a : α}

lemma lift_ok {p : Skeleton.Prog α} :
    lift p g = .ok a g' ↔ ∃ s, p g.state = .ok a s ∧ g' = { g with state := s } := by
  rw [lift]
  cases p g.state with
  | ok b s =>
    simp [eq_comm (b := g')]
  | error e s => simp

lemma world_run : world g = .ok g g := rfl

section Memory

variable {i : ℕ} (f : Memory → Memory)

@[simp] lemma modify_vars : (g.modify i f).vars = g.vars := rfl

@[simp] lemma modify_memory_self : (g.modify i f).memory i = f (g.memory i) := update_self ..

lemma modify_memory_of_ne {j : ℕ} (hj : j ≠ i) : (g.modify i f).memory j = g.memory j :=
  update_of_ne hj ..

end Memory

lemma setMemory_run (i : ℕ) (f : Memory → Memory) : setMemory i f g = .ok () (g.modify i f) := rfl

lemma returning_ok {p : Prog ℤ} {n : ℤ} :
    returning p g = .ok n g' ↔ p g = .ok n g' ∨ p g = .error (.ret n) g' := by
  rw [returning]
  cases p g with
  | ok m g1 => simp
  | error e g1 => cases e <;> simp

lemma refuses_world : Refuses world := fun _ _ _ h => by cases h

lemma refuses_setMemory (i : ℕ) (f : Memory → Memory) : Refuses (setMemory i f) :=
  fun _ _ _ h => by cases h

lemma mapM_ok_induction {p : α → Prog β} (rel : α → β → Prop) (motive : World → World → Prop)
    (hrefl : ∀ g, motive g g) (htrans : ∀ g g1 g2, motive g g1 → motive g1 g2 → motive g g2)
    (hstep : ∀ a b g g', p a g = .ok b g' → rel a b ∧ motive g g')
    {as : List α} {bs : List β} (h : as.mapM p g = .ok bs g') :
    List.Forall₂ rel as bs ∧ motive g g' := by
  induction as generalizing g bs with
  | nil =>
    cases h
    exact ⟨.nil, hrefl _⟩
  | cons a as ih =>
    rw [mapM_cons] at h
    obtain ⟨b, g1, ha, h⟩ := bind_ok.mp h
    obtain ⟨bs', g2, has, h⟩ := bind_ok.mp h
    cases h
    obtain ⟨hrel, hmotive⟩ := hstep a b g g1 ha
    obtain ⟨hrels, hmotives⟩ := ih has
    exact ⟨.cons hrel hrels, htrans _ _ _ hmotive hmotives⟩

end Programs

/-! ## Tables of variables -/

def Blank (v : Variable) : Prop := ∀ mode, ∃ n, (v.initValue.get mode).getD [] = List.replicate n 0

/-- The table has the variables `used` and behind them none that was ever given a value. -/
structure Table (used vars : List Variable) : Prop where
  ids : ∀ v ∈ used, v.id ≠ 0
  rest : ∃ rest, vars = used ++ rest ∧ ∀ v ∈ rest, Blank v

section Tables

variable {used vars vars' : List Variable} {v : Variable} {nofModes j : ℕ} {name : CString}
  {size value : CInt} {mode : Fin maxModes} {found : Bool}

lemma Blank.alloc (h : Blank v) : Blank (variableAlloc v nofModes) := by
  intro mode
  have hget : (variableAlloc v nofModes).initValue.get mode =
      if mode.val < nofModes then some (List.replicate v.size.toInt.toNat 0)
        else v.initValue.get mode :=
    Vector.getElem_ofFn mode.isLt
  rw [hget]
  split
  · exact ⟨_, rfl⟩
  · exact h mode

lemma Blank.fill {i : ℕ} (h : Blank v) : Blank (fillVariable i nofModes name size v) := by
  rw [fillVariable]
  split
  · exact h
  · exact Blank.alloc h

lemma Table.create (h : Table used vars)
    (hcreate : nodModuleVariableCreate vars nofModes name size = some (j, vars')) :
    Table used vars' := by
  obtain ⟨rest, rfl, hrest⟩ := h.rest
  obtain ⟨i, hfree, heq⟩ := Option.map_eq_some_iff.mp hcreate
  cases heq
  have hnone : used.findIdx? (fun v => v.id = 0) = none :=
    findIdx?_eq_none_iff.mpr fun v hv => decide_eq_false (h.ids v hv)
  rw [findIdx?_append, hnone, Option.none_or] at hfree
  obtain ⟨i', hi', rfl⟩ := Option.map_eq_some_iff.mp hfree
  have hlt : i' < rest.length := (findIdx?_eq_some_iff_getElem.mp hi').1
  rw [add_comm, List.modify, modifyTailIdx_add]
  refine ⟨h.ids, _, rfl, ?_⟩
  obtain ⟨before, v, after, hsplit, -, hmodify⟩ :=
    exists_of_modify (fillVariable (used.length + i') nofModes name size) hlt
  rw [← List.modify, hmodify]
  rw [hsplit] at hrest
  intro v' hv'
  obtain rfl | hv' := mem_replaced hv'
  · exact (hrest v (by simp)).fill
  · exact hrest v' (by simp only [mem_append, mem_cons]; tauto)

lemma ofLe_replicate_zero (n : ℕ) : Codec.ofLe (List.replicate n 0) = 0 := by
  induction n with
  | zero => rfl
  | succ n ih =>
    rw [replicate_succ, Codec.ofLe, ih]
    rfl

lemma Blank.read (h : Blank v) (n : ℕ) :
    cint.dec (((v.initValue.get mode).getD []).take n) = 0 := by
  obtain ⟨k, hk⟩ := h mode
  rw [hk, take_replicate]
  change BitVec.ofNat (8 * 4) (Codec.ofLe (List.replicate (min n k) 0)) = 0
  rw [ofLe_replicate_zero]
  rfl

lemma Table.paramGetIntName (h : Table used vars)
    (hread : paramGetIntName vars mode name 0 = .ok (found, value)) :
    ∃ found', CtrlSkeleton.paramGetIntName used mode name 0 = .ok (found', value) := by
  obtain ⟨rest, rfl, hrest⟩ := h.rest
  rw [CtrlSkeleton.paramGetIntName, nodModuleVariableGet, findIdx?_append] at hread
  rw [CtrlSkeleton.paramGetIntName, nodModuleVariableGet]
  cases hused : used.findIdx? (fun v => text v.name = name) with
  | some i =>
    have hlt : i < used.length := (findIdx?_eq_some_iff_getElem.mp hused).1
    rw [hused, Option.some_or, Option.bind_some, getElem?_append_left hlt] at hread
    exact ⟨found, hread⟩
  | none =>
    rw [hused, Option.none_or] at hread
    refine ⟨false, ?_⟩
    split at hread
    · cases hread
      rfl
    · rename_i v hv
      have hmem : v ∈ rest := by
        obtain ⟨i, hi, hget⟩ := Option.bind_eq_some_iff.mp hv
        obtain ⟨i', -, rfl⟩ := Option.map_eq_some_iff.mp hi
        rw [getElem?_append_right (Nat.le_add_left _ _), Nat.add_sub_cancel] at hget
        exact mem_of_getElem? hget
      dsimp only at hread
      generalize (if (sizeofInt : ℤ) < v.size.toInt then (sizeofInt : ℤ) else v.size.toInt) = cpySz
        at hread
      split at hread
      · cases hread
      · rw [(hrest v hmem).read, ite_self] at hread
        cases hread
        rfl

end Tables

/-! ## Remote variables -/

structure VarsOnly (g g' : World) : Prop where
  state : g'.state = g.state
  memory : g'.memory = g.memory
  tables : ∀ used k, Table used (g.vars k) → Table used (g'.vars k)

lemma VarsOnly.refl (g : World) : VarsOnly g g := ⟨rfl, rfl, fun _ _ h => h⟩

lemma VarsOnly.trans {g g1 g2 : World} (h : VarsOnly g g1) (h' : VarsOnly g1 g2) : VarsOnly g g2 :=
  ⟨h'.state.trans h.state, h'.memory.trans h.memory,
    fun used k ht => h'.tables used k (h.tables used k ht)⟩

section RemoteVariables

variable {parts : List Part} {i k : ℕ} {g g' : World}
  {p : RemoteParam} {name : CString} {size : CInt}

lemma createRemote_ok {r : Option ℕ}
    (h : createRemoteVariable parts k name size g = .ok r g') : VarsOnly g g' := by
  rw [createRemoteVariable] at h
  split at h
  · cases h
  · cases h
    refine ⟨rfl, rfl, fun used k' ht => ?_⟩
    dsimp only
    by_cases hk : k' = k
    · subst hk
      rw [update_self, oesrVarParamCreateRemote]
      split
      · exact ht
      · split
        · exact ht
        · rename_i hcreate
          exact ht.create hcreate
    · rwa [update_of_ne hk]

lemma createRemote_refuses : Refuses (createRemoteVariable parts k name size) := by
  intro g e g' h
  rw [createRemoteVariable] at h
  split at h
  · cases h
    exact .inr rfl
  · cases h

def Names (parts : List Part) (p : RemoteParam) (k : ℕ) : Prop :=
  oesrGetModuleIdx parts p.moduleName = some k

lemma initRemoteVariable_ok {v : ℕ × ℕ} (h : initRemoteVariable parts p g = .ok v g') :
    Names parts p v.1 ∧ VarsOnly g g' := by
  rw [initRemoteVariable] at h
  cases hname : oesrGetModuleIdx parts p.moduleName with
  | none =>
    rw [hname] at h
    cases h
  | some k =>
    rw [hname] at h
    dsimp only at h
    rw [bind_of_ok world_run] at h
    cases hget : nodModuleVariableGet (g.vars k) p.variableName with
    | some j =>
      rw [hget] at h
      cases h
      exact ⟨hname, .refl g⟩
    | none =>
      rw [hget] at h
      obtain ⟨r, g1, hcreate, h⟩ := bind_ok.mp h
      cases r with
      | none => cases h
      | some j =>
        cases h
        exact ⟨hname, createRemote_ok hcreate⟩

lemma initRemoteVariable_refuses : Refuses (initRemoteVariable parts p) := by
  rw [initRemoteVariable]
  split
  · exact refuses_throw
  · refine refuses_world.bind fun g => ?_
    split
    · exact refuses_pure _
    · refine createRemote_refuses.bind fun r => ?_
      split
      · exact refuses_throw
      · exact refuses_pure _

lemma initRemoteVariables_ok {db : List RemoteParam} {vs : List (ℕ × ℕ)}
    (h : initRemoteVariables parts db g = .ok vs g') :
    List.Forall₂ (fun p v => Names parts p v.1) db vs ∧ VarsOnly g g' :=
  mapM_ok_induction (fun p v => Names parts p v.1) VarsOnly VarsOnly.refl
    (fun _ _ _ => VarsOnly.trans) (fun _ _ _ _ => initRemoteVariable_ok) h

lemma initLocalVariables_ok {js : List ℕ} (h : initLocalVariables i lib g = .ok js g') :
    g' = g := by
  refine (mapM_ok_induction (fun _ _ => True) (fun g g' => g' = g) (fun _ => rfl)
    (fun _ _ _ h h' => h'.trans h) (fun name j g g' h => ⟨trivial, ?_⟩) h).2
  rw [bind_of_ok world_run] at h
  cases hget : nodModuleVariableGet (g.vars i) name with
  | none =>
    rw [hget] at h
    cases h
  | some j =>
    rw [hget] at h
    cases h
    rfl

lemma initLocalVariables_refuses : Refuses (initLocalVariables i lib) := by
  refine refuses_mapM (fun name => refuses_world.bind fun g => ?_) _
  split
  · exact refuses_throw
  · exact refuses_pure _

end RemoteVariables

/-! ## Remote interfaces -/

def World.physicIds (g : World) (i : ℕ) : List ℤ :=
  (g.memory i).interfaces.map Skeleton.Interface.physicItfId

/-- Delays of outputs of module `i` are all that has changed, apart from the state. -/
structure Retimed (i : ℕ) (g g' : World) : Prop where
  vars : g'.vars = g.vars
  memory : ∃ itfs, itfs.map Skeleton.Interface.physicItfId = g.physicIds i ∧
    g'.memory = update g.memory i { g.memory i with interfaces := itfs }

section RemoteInterfaces

variable {runtime : Skeleton.Runtime} {parts : List Part} {i k port : ℕ} {part : Part}
    {lib : Library}
  {g g' g1 g2 : World} {s s' : State} {itfs : List ℤ}
  {delay nofOutputDataItf : CInt} {db : List RemoteParam} {vars : List RemoteVariable}

lemma Retimed.refl (g : World) : Retimed i g g :=
  ⟨rfl, (g.memory i).interfaces, rfl, (update_eq_self i g.memory).symm⟩

lemma Retimed.trans (h : Retimed i g g1) (h' : Retimed i g1 g2) : Retimed i g g2 := by
  obtain ⟨itfs, hids, hmem⟩ := h.memory
  obtain ⟨itfs', hids', hmem'⟩ := h'.memory
  rw [World.physicIds, hmem, update_self] at hids'
  rw [hmem, update_self] at hmem'
  refine ⟨h'.vars.trans h.vars, itfs', hids'.trans hids, ?_⟩
  rw [hmem', update_idem]

lemma Retimed.physicIds (h : Retimed i g g') : g'.physicIds i = g.physicIds i := by
  obtain ⟨itfs, hids, hmem⟩ := h.memory
  rw [World.physicIds, hmem, update_self]
  exact hids

lemma delaySet_ok (h : oesrItfDelaySet i port delay g = .ok true g') :
    Retimed i g g' ∧ g'.state = g.state := by
  rw [oesrItfDelaySet] at h
  split at h
  · cases h
  · rename_i itf hitf
    split at h
    · cases h
      exact ⟨.refl g, rfl⟩
    · cases h
      refine ⟨⟨rfl, _, ?_, rfl⟩, rfl⟩
      apply ext_getElem?
      intro q
      rw [map_set, getElem?_set]
      split
      · rename_i hq
        rw [← hq, World.physicIds, getElem?_map, hitf, length_map,
          if_pos (List.getElem?_eq_some_iff.mp hitf).1]
        rfl
      · rfl

lemma paramGetInt_ok {name : CString} {value : CInt} {r : Bool × CInt}
    (h : paramGetInt i part name value g = .ok r g') :
    g' = g ∧ paramGetIntName (g.vars i) part.curMode name value = .ok r := by
  rw [paramGetInt] at h
  split at h
  · rename_i r' hread
    cases h
    exact ⟨rfl, hread⟩
  · cases h

variable {delay' : CInt} {out : RemoteItf} {outs : List RemoteItf}

lemma initDelay_ok (h : initDelay i part db vars k port delay g = .ok delay' g') :
    Retimed i g g' ∧ g'.state = g.state := by
  rw [initDelay] at h
  cases hfind : (vars.findIdx? fun v => v.moduleIdx = k).bind (db[·]?) with
  | none =>
    rw [hfind] at h
    cases h
    exact ⟨.refl g, rfl⟩
  | some p =>
    rw [hfind] at h
    obtain ⟨⟨found, delay1⟩, g1, hparam, h⟩ := bind_ok.mp h
    obtain ⟨rfl, -⟩ := paramGetInt_ok hparam
    cases found with
    | false =>
      cases h
      exact ⟨.refl _, rfl⟩
    | true =>
      obtain ⟨set, g2, hset, h⟩ := bind_ok.mp h
      cases set with
      | false => cases h
      | true =>
        cases h
        exact delaySet_ok hset

def remoteItf (itfs : List ℤ) (module : Skeleton.Module) (nofOutputDataItf : CInt) (k : ℕ) :
    RemoteItf :=
  let port := (remotePort module nofOutputDataItf k).toNat
  ⟨k, if port < itfs.length then some port else none⟩

lemma initRemoteItf_ok {out' : RemoteItf}
    (h : initRemoteItf runtime parts i part db vars nofOutputDataItf delay out g =
      .ok (delay', out') g') :
    0 ≤ remotePort part.module nofOutputDataItf out.moduleIdx ∧
      out' = remoteItf (g.physicIds i) part.module nofOutputDataItf out.moduleIdx ∧ Retimed i g g' ∧
      Opens i (g.physicIds i) [(remotePort part.module nofOutputDataItf out.moduleIdx).toNat]
        g.state g'.state := by
  rw [initRemoteItf] at h
  by_cases hneg : remotePort part.module nofOutputDataItf out.moduleIdx < 0
  · rw [if_pos hneg] at h
    cases h
  rw [if_neg hneg] at h
  obtain ⟨delay1, g1, hdelay, h⟩ := bind_ok.mp h
  obtain ⟨hretimed, hstate⟩ := initDelay_ok hdelay
  rw [bind_of_ok world_run] at h
  obtain ⟨created, g2, hlift, h⟩ := bind_ok.mp h
  obtain ⟨s, hcreate, rfl⟩ := lift_ok.mp hlift
  rw [hstate] at hcreate
  have hids : (g1.memory i).interfaces.map Skeleton.Interface.physicItfId = g.physicIds i :=
    hretimed.physicIds
  have hlength : (g1.memory i).interfaces.length = (g.physicIds i).length := by
    rw [← hids, length_map]
  have hretimed' : Retimed i g { g1 with state := s } := ⟨hretimed.vars, hretimed.memory⟩
  obtain ⟨rfl, hnone, rfl⟩ | ⟨rfl, -, rfl⟩ | ⟨rfl, hlt, hopens⟩ := create_write_cases hcreate
  · have hge : (g.physicIds i).length ≤ (remotePort part.module nofOutputDataItf
        out.moduleIdx).toNat := by
      rw [← hlength]
      exact List.getElem?_eq_none_iff.mp hnone
    have herror : ((g.state.setError i .notFound).modules i).error = .notFound := by
      rw [State.setError, modify_self]
    rw [if_neg Bool.false_ne_true, bind_of_ok world_run, if_pos herror] at h
    cases h
    refine ⟨not_lt.mp hneg, ?_, hretimed', opens_setError _ (List.getElem?_eq_none_iff.mpr hge)⟩
    rw [remoteItf, if_neg (not_lt.mpr hge)]
  · have herror : ((g.state.setError i .rtdal).modules i).error ≠ .notFound := by
      rw [State.setError, modify_self]
      exact fun h => by cases h
    rw [if_neg Bool.false_ne_true, bind_of_ok world_run, if_neg herror] at h
    cases h
  · rw [if_pos rfl] at h
    cases h
    refine ⟨not_lt.mp hneg, ?_, hretimed', hids ▸ hopens⟩
    rw [remoteItf, if_pos (hlength ▸ hlt)]

/-- **The loop**: every port is there, and all that are connected get their queues. -/
theorem initRemoteItfs_ok {outs' : List RemoteItf}
    (h : initRemoteItfs runtime parts i part db vars nofOutputDataItf delay outs g = .ok outs' g') :
    (∀ out ∈ outs, 0 ≤ remotePort part.module nofOutputDataItf out.moduleIdx) ∧
      outs' = outs.map (fun out =>
        remoteItf (g.physicIds i) part.module nofOutputDataItf out.moduleIdx) ∧
      Retimed i g g' ∧
      Opens i (g.physicIds i)
        (outs.map fun out => (remotePort part.module nofOutputDataItf out.moduleIdx).toNat)
        g.state g'.state := by
  induction outs generalizing delay g outs' with
  | nil =>
    cases h
    exact ⟨fun _ hmem => absurd hmem not_mem_nil, rfl, .refl _, .nil⟩
  | cons out outs ih =>
    obtain ⟨⟨delay1, out1⟩, g1, hone, h⟩ := bind_ok.mp h
    obtain ⟨outs1, g2, hrest, h⟩ := bind_ok.mp h
    cases h
    obtain ⟨hport, rfl, hretimed, hopens⟩ := initRemoteItf_ok hone
    obtain ⟨hports, rfl, hretimed', hopens'⟩ := ih hrest
    rw [hretimed.physicIds] at hopens'
    refine ⟨forall_mem_cons.mpr ⟨hport, hports⟩, ?_, hretimed.trans hretimed', hopens.cons hopens'⟩
    rw [map_cons, hretimed.physicIds]

lemma paramGetInt_refuses {name : CString} {value : CInt} :
    Refuses (paramGetInt i part name value) := by
  intro g e g' h
  rw [paramGetInt] at h
  split at h
  · cases h
  · rename_i e' hread
    cases h
    refine .inr ?_
    rw [paramGetIntName] at hread
    split at hread
    · cases hread
    · grind

lemma initDelay_refuses : Refuses (initDelay i part db vars k port delay) := by
  rw [initDelay]
  split
  · exact refuses_pure _
  · refine paramGetInt_refuses.bind fun r => ?_
    obtain ⟨found, delay'⟩ := r
    dsimp only
    split
    · refine Refuses.bind (fun g e g' h => ?_) fun b => ?_
      · rw [oesrItfDelaySet] at h
        split at h
        · cases h
        · split at h
          all_goals cases h
      · split
        · exact refuses_pure _
        · exact refuses_throw
    · exact refuses_pure _

lemma initRemoteItf_refuses :
    Refuses (initRemoteItf runtime parts i part db vars nofOutputDataItf delay out) := by
  rw [initRemoteItf]
  split
  · exact refuses_throw
  · refine initDelay_refuses.bind fun delay' => refuses_world.bind fun g => Refuses.bind ?_
      fun created => ?_
    · intro g e g' h
      obtain ⟨created, s', hrun⟩ := create_write_returns g.state
      rw [lift, hrun] at h
      cases h
    · split
      · exact refuses_pure _
      · refine refuses_world.bind fun g => ?_
        split
        · exact refuses_pure _
        · exact refuses_throw

lemma initRemoteItfs_refuses :
    Refuses (initRemoteItfs runtime parts i part db vars nofOutputDataItf delay outs) := by
  induction outs generalizing delay with
  | nil => exact refuses_pure []
  | cons out outs ih =>
    exact initRemoteItf_refuses.bind fun r => ih.bind fun outs' => refuses_pure _

end RemoteInterfaces

/-! ## A call -/

section Calls

variable {runtime : Skeleton.Runtime} {parts : List Part} {i : ℕ} {part : Part} {lib : Library}
  {g g' : World}

/-- The modules that parameters of `db` are for. -/
def Addressed (parts : List Part) (db : List RemoteParam) (k : ℕ) : Prop :=
  ∃ p ∈ db, Names parts p k

structure Started (parts : List Part) (i : ℕ) (part : Part) (g g' : World) : Prop where
  exists_table : ∃ (nofOutputDataItf : CInt) (table : List ℕ) (found : Bool),
    paramGetIntName (g.vars i) part.curMode "nof_output_data_itf".toList 0 =
      .ok (found, nofOutputDataItf) ∧
    (∀ k, k ∈ table ↔ Addressed parts (g.memory i).remoteParamsDb k) ∧
    (∀ k ∈ table, 0 ≤ remotePort part.module nofOutputDataItf k) ∧
    (g'.memory i).outputs = table.map (remoteItf (g.physicIds i) part.module nofOutputDataItf) ∧
    Opens i (g.physicIds i)
      (table.map fun k => (remotePort part.module nofOutputDataItf k).toNat) g.state g'.state
  memory : ∀ j, j ≠ i → g'.memory j = g.memory j
  db : (g'.memory i).remoteParamsDb = (g.memory i).remoteParamsDb
  physicIds : g'.physicIds i = g.physicIds i
  tables : ∀ used k, Table used (g.vars k) → Table used (g'.vars k)

structure Quiet (i : ℕ) (g g' : World) : Prop where
  state : g'.state = g.state
  others : ∀ j, j ≠ i → g'.memory j = g.memory j
  calls : (g'.memory i).calls = (g.memory i).calls
  db : (g'.memory i).remoteParamsDb = (g.memory i).remoteParamsDb
  interfaces : (g'.memory i).interfaces = (g.memory i).interfaces
  tables : ∀ used k, Table used (g.vars k) → Table used (g'.vars k)

lemma Quiet.trans {g1 g2 : World} (h : Quiet i g g1) (h' : Quiet i g1 g2) : Quiet i g g2 where
  state := h'.state.trans h.state
  others := fun j hj => (h'.others j hj).trans (h.others j hj)
  calls := h'.calls.trans h.calls
  db := h'.db.trans h.db
  interfaces := h'.interfaces.trans h.interfaces
  tables := fun used k ht => h'.tables used k (h.tables used k ht)

lemma Quiet.physicIds (h : Quiet i g g') : g'.physicIds i = g.physicIds i := by
  rw [World.physicIds, h.interfaces, World.physicIds]

lemma quiet_modify {f : Memory → Memory} (hcalls : (f (g.memory i)).calls = (g.memory i).calls)
    (hdb : (f (g.memory i)).remoteParamsDb = (g.memory i).remoteParamsDb)
    (hitfs : (f (g.memory i)).interfaces = (g.memory i).interfaces) : Quiet i g (g.modify i f) := by
  refine ⟨rfl, fun j hj => modify_memory_of_ne f hj, ?_, ?_, ?_, fun _ _ h => h⟩
  all_goals rwa [modify_memory_self]

lemma VarsOnly.quiet (h : VarsOnly g g') : Quiet i g g' := by
  refine ⟨h.state, fun j _ => ?_, ?_, ?_, ?_, h.tables⟩
  all_goals rw [h.memory]

variable {vs : List (ℕ × ℕ)} {n : ℤ}

lemma scanRemoteItf_ok {vars : List RemoteVariable} {outs : List RemoteItf}
    (h : scanRemoteItf vs = some (vars, outs)) :
    ∃ table : List ℕ, outs = table.map (fun k => ⟨k, none⟩) ∧ ∀ k, k ∈ table ↔
      k ∈ vs.map Prod.fst := by
  obtain ⟨⟨places, table⟩, hintern, heq⟩ := Option.map_eq_some_iff.mp h
  cases heq
  refine ⟨table, rfl, fun k => ?_⟩
  rw [(internAll_spec hintern).mem_iff, or_iff_right not_mem_nil]

lemma mem_map_fst_iff {db : List RemoteParam}
    (h : List.Forall₂ (fun p v => Names parts p v.1) db vs) (k : ℕ) :
    k ∈ vs.map Prod.fst ↔ Addressed parts db k := by
  induction h with
  | nil => simp [Addressed]
  | @cons p v db vs hp _ ih =>
    have hhead : k = v.1 ↔ Names parts p k := by
      rw [Names] at hp ⊢
      rw [hp, Option.some.injEq, eq_comm]
    rw [map_cons, mem_cons, ih, hhead]
    simp [Addressed]

lemma initRemote_ok (h : initRemote runtime parts i part lib g = .ok n g') :
    n = 1 ∧ Started parts i part g g' := by
  obtain ⟨⟨found, D⟩, g1, hread, h1⟩ := bind_ok.mp h
  obtain ⟨hg1, hparam⟩ := paramGetInt_ok hread
  rw [hg1] at h1
  dsimp only at h1
  rw [bind_of_ok (setMemory_run ..), bind_of_ok world_run] at h1
  obtain ⟨vs, g2, hvs, h2⟩ := bind_ok.mp h1
  obtain ⟨hnames, hvars⟩ := initRemoteVariables_ok hvs
  rw [modify_memory_self] at hnames h2
  have hquiet2 : Quiet i g g2 := (quiet_modify rfl rfl rfl).trans hvars.quiet
  cases hscan : scanRemoteItf vs with
  | none =>
    rw [hscan] at h2
    cases h2
  | some r =>
    obtain ⟨vars, outs⟩ := r
    obtain ⟨table, rfl, htable⟩ := scanRemoteItf_ok hscan
    rw [hscan] at h2
    dsimp only at h2
    rw [bind_of_ok (setMemory_run ..)] at h2
    obtain ⟨locals, g3, hlocals, h3⟩ := bind_ok.mp h2
    rw [initLocalVariables_ok hlocals, bind_of_ok (setMemory_run ..)] at h3
    obtain ⟨outs', g4, hitfs, h4⟩ := bind_ok.mp h3
    obtain ⟨g5, hquiet, hitfs⟩ : ∃ g5, Quiet i g g5 ∧ initRemoteItfs runtime parts i part
        (g.memory i).remoteParamsDb vars D lib.delay (table.map fun k => ⟨k, none⟩) g5 =
          .ok outs' g4 :=
      ⟨_, (hquiet2.trans (quiet_modify rfl rfl rfl)).trans (quiet_modify rfl rfl rfl), hitfs⟩
    obtain ⟨hports, hout, hretimed, hopens⟩ := initRemoteItfs_ok hitfs
    cases h4
    obtain ⟨itfs, hids, hmemory⟩ := hretimed.memory
    rw [hquiet.state, hquiet.physicIds, map_map] at hopens
    refine ⟨rfl, ⟨D, table, found, hparam, fun k => ?_, fun k hk => ?_, ?_, hopens⟩,
      fun j hj => ?_, ?_, ?_, fun used k ht => ?_⟩
    · rw [htable, mem_map_fst_iff hnames]
    · exact hports _ (mem_map_of_mem hk)
    · rw [modify_memory_self, hout, hquiet.physicIds, map_map]
      rfl
    · rw [modify_memory_of_ne _ hj, hmemory, update_of_ne hj, hquiet.others j hj]
    · rw [modify_memory_self, hmemory, update_self]
      exact hquiet.db
    · rw [World.physicIds, modify_memory_self]
      exact hretimed.physicIds.trans hquiet.physicIds
    · rw [modify_vars, hretimed.vars]
      exact hquiet.tables used k ht

lemma initRemote_refuses : Refuses (initRemote runtime parts i part lib) := by
  refine paramGetInt_refuses.bind fun r => (refuses_setMemory _ _).bind fun _ =>
    refuses_world.bind fun g => Refuses.bind ?_ fun vs => ?_
  · exact refuses_mapM (fun p => initRemoteVariable_refuses) _
  · split
    · exact refuses_throw
    · exact (refuses_setMemory _ _).bind fun _ => initLocalVariables_refuses.bind fun js =>
        (refuses_setMemory _ _).bind fun _ => initRemoteItfs_refuses.bind fun outs =>
        (refuses_setMemory _ _).bind fun _ => refuses_pure 1

/-- `ctrl_init` was called once more; apart from the state, nothing else has changed that
matters. -/
structure Called (lib : Library) (i : ℕ) (g g' : World) : Prop where
  vars : g'.vars = g.vars
  others : ∀ j, j ≠ i → g'.memory j = g.memory j
  calls : (g'.memory i).calls = (g.memory i).calls + 1
  db : (g'.memory i).remoteParamsDb =
    setRemoteParams (g.memory i).remoteParamsDb (lib.ctrlInit (g.memory i).calls).2
  interfaces : (g'.memory i).interfaces = (g.memory i).interfaces

inductive InitAnswer (runtime : Skeleton.Runtime) (parts : List Part) (i : ℕ) (part : Part)
    (lib : Library)
    (g : World) : ℤ → World → Prop
  | refuses {g' : World} : InitAnswer runtime parts i part lib g (-1) g'
  /-- `ctrl_init` asks for another call. -/
  | unwilling {g' : World} (hvalue : (lib.ctrlInit (g.memory i).calls).1 = 0)
      (hcalled : Called lib i g g') (hstate : g'.state = g.state) :
      InitAnswer runtime parts i part lib g 0 g'
  /-- The control input is not there yet. -/
  | waits {g' : World} {s : State} (hvalue : (lib.ctrlInit (g.memory i).calls).1 ≠ 0)
      (hread : createCtrlInput runtime parts i part
        (g.state.modify i fun ms => { ms with ctrlIn := false }) = .ok false s)
      (herror : (s.modules i).error = .notReady) (hcalled : Called lib i g g')
      (hstate : g'.state = s.modify i fun ms => { ms with ctrlIn := false }) :
      InitAnswer runtime parts i part lib g 0 g'
  | starts {g₁ g' : World} {s : State} {created : Bool}
      (hvalue : (lib.ctrlInit (g.memory i).calls).1 ≠ 0)
      (hread : createCtrlInput runtime parts i part
        (g.state.modify i fun ms => { ms with ctrlIn := false }) = .ok created s)
      (hready : ¬(created = false ∧ (s.modules i).error = .notReady)) (hcalled : Called lib i g g₁)
      (hstate : g₁.state = s.modify i fun ms => { ms with ctrlIn := created })
      (hstarted : Started parts i part g₁ g') :
      InitAnswer runtime parts i part lib g 1 g'

lemma callCtrlInit_run : callCtrlInit i lib g = .ok (lib.ctrlInit (g.memory i).calls).1
    (g.modify i fun mem => { mem with
      calls := mem.calls + 1
      remoteParamsDb := setRemoteParams mem.remoteParamsDb
        (lib.ctrlInit (g.memory i).calls).2 }) := rfl

lemma called_modify {f : Memory → Memory} (hcalls : (f (g.memory i)).calls = (g.memory i).calls + 1)
    (hdb : (f (g.memory i)).remoteParamsDb =
      setRemoteParams (g.memory i).remoteParamsDb (lib.ctrlInit (g.memory i).calls).2)
    (hitfs : (f (g.memory i)).interfaces = (g.memory i).interfaces) :
    Called lib i g (g.modify i f) := by
  refine ⟨rfl, fun j hj => modify_memory_of_ne f hj, ?_, ?_, ?_⟩
  all_goals rwa [modify_memory_self]

lemma Called.withState (h : Called lib i g g') (s : State) :
    Called lib i g { g' with state := s } :=
  ⟨h.vars, h.others, h.calls, h.db, h.interfaces⟩

lemma modify_modify_memory (f f' : Memory → Memory) :
    (g.modify i f).modify i f' = g.modify i fun mem => f' (f mem) := by
  simp [World.modify]

lemma initCtrlInput_run {s : State} {created : Bool}
    (hread : createCtrlInput runtime parts i part g.state = .ok created s) :
    initCtrlInput runtime parts i part g = if created = false ∧ (s.modules i).error = .notReady then
        .error (.ret 0) { g with state := s.modify i fun ms => { ms with ctrlIn := created } }
      else .ok () { g with state := s.modify i fun ms => { ms with ctrlIn := created } } := by
  rw [initCtrlInput, bind_of_ok (lift_ok.mpr ⟨s, hread, rfl⟩),
    bind_of_ok (lift_ok.mpr ⟨_, setModule_run _, rfl⟩), bind_of_ok world_run]
  simp only [modify_self]
  split
  all_goals rfl

lemma init_answer (h : init runtime parts i part lib g = .ok n g') :
    InitAnswer runtime parts i part lib g n g' := by
  rw [init, returning_ok, bind_of_ok callCtrlInit_run] at h
  by_cases hfails : (lib.ctrlInit (g.memory i).calls).1 = -1
  · rw [if_pos hfails] at h
    obtain h | h := h
    all_goals cases h
    exact .refuses
  by_cases hvalue : (lib.ctrlInit (g.memory i).calls).1 = 0
  · rw [if_neg hfails, if_pos hvalue] at h
    obtain h | h := h
    all_goals cases h
    exact .unwilling hvalue (called_modify rfl rfl rfl) rfl
  rw [if_neg hfails, if_neg hvalue, initMemory, bind_of_ok (setMemory_run ..),
    modify_modify_memory] at h
  obtain ⟨g1, hcalled, hstate, h⟩ : ∃ g1, Called lib i g g1 ∧ g1.state = g.state ∧
      (connect runtime parts i part lib g1 = .ok n g' ∨
        connect runtime parts i part lib g1 = .error (.ret n) g') :=
    ⟨_, called_modify rfl rfl rfl, rfl, h⟩
  rw [connect, bind_of_ok (lift_ok.mpr ⟨_, setModule_run _, rfl⟩), hstate] at h
  cases hread : createCtrlInput runtime parts i part
      (g.state.modify i fun ms => { ms with ctrlIn := false }) with
  | error e s =>
    have hinput : initCtrlInput runtime parts i part
        { g1 with state := g.state.modify i fun ms => { ms with ctrlIn := false } } =
          .error e { g1 with state := s } := by
      apply bind_of_error
      rw [lift, hread]
    rw [bind_of_error hinput, create_read_error hread] at h
    obtain h | h := h
    all_goals cases h
  | ok created s =>
    have hinput := initCtrlInput_run (g := { g1 with
      state := g.state.modify i fun ms => { ms with ctrlIn := false } }) hread
    split at hinput
    · rename_i hwaits
      rw [bind_of_error hinput] at h
      obtain h | h := h
      all_goals cases h
      obtain ⟨rfl, herror⟩ := hwaits
      exact .waits hvalue hread herror (hcalled.withState _) rfl
    · rename_i hready
      rw [bind_of_ok hinput] at h
      obtain h | h := h
      · obtain ⟨rfl, hstarted⟩ := initRemote_ok h
        exact .starts hvalue hread hready (hcalled.withState _) rfl hstarted
      · obtain heq | heq := initRemote_refuses _ _ _ h
        · cases heq
          exact .refuses
        · cases heq

end Calls

end Aloe.Oesr.CtrlSkeleton
