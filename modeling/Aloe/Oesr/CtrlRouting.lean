import Aloe.Manager.ParserConnections
import Aloe.Oesr.CtrlInit

/-!
# Control routing

The manager appends the control ports to the outputs of the control module, one for each module
behind it; the control skeleton computes them again from the index of the addressed module, its own
id and the parameter `nof_output_data_itf`. Both agree on the modules behind the control module.
For the others the skeleton refuses negative ports only, and with data outputs not every such port
is negative (`control_routing`).
-/

namespace Aloe.Oesr.CtrlSkeleton

open Lib Oesr.Skeleton List Option Manager

/-! ## The waveform at a single node -/

structure Binary where
  registered : Bool
  nofInputItf : ℕ
  nofOutputItf : ℕ
  inputSize : ℕ
  outputSize : ℕ
  initializeValue : ℕ → ℤ
  curMode : Fin maxModes
  control : Option Library

def toInterface (port : Manager.Port) : Skeleton.Interface :=
  ⟨port.remoteModuleId, port.remotePortIdx, 0, port.delay⟩

def toInterfaces (table : Option (List Manager.Port)) (n : ℕ) : List Skeleton.Interface :=
  ((table.getD []).take n).map toInterface

def deployModule (m : Manager.PModule) (b : Binary) : Part where
  module := {
    id := m.id
    inputs := toInterfaces m.inputs m.nofInputs
    outputs := toInterfaces m.outputs m.nofOutputs
    registered := b.registered
    nofInputItf := b.nofInputItf
    nofOutputItf := b.nofOutputItf
    inputSize := b.inputSize
    outputSize := b.outputSize
    initializeValue := b.initializeValue }
  name := m.name
  curMode := b.curMode
  nofModes := m.nofModes
  control := b.control

def deploy (w : Manager.PWaveform) (binary : ℕ → Binary) : List Part :=
  w.modules.mapIdx fun i m => deployModule m (binary i)

/-- A control module at a call of `Init`: the waveform is a parsed model with `auto_ctrl_module`,
and `nof_output_data_itf` is the number of outputs before the automatic connections. -/
structure Scene where
  env : Manager.Env
  fuel : ℕ
  file : Manager.CStr
  waveform : Manager.PWaveform
  parsed : Manager.waveformParse env fuel true (Manager.newWaveform file) = .ok waveform
  ctrl : ℕ
  auto : waveform.autoCtrlModule = some ctrl
  module : Manager.PModule
  module_eq : waveform.modules[ctrl]? = some module
  binary : ℕ → Binary
  lib : Library
  control : (binary ctrl).control = some lib
  runtime : Skeleton.Runtime
  world : World
  interfaces : (world.memory ctrl).interfaces.length =
    (deployModule module (binary ctrl)).module.outputs.length
  nofOutputDataItf : CInt
  found : Bool
  param : paramGetIntName (world.vars ctrl) (binary ctrl).curMode "nof_output_data_itf".toList 0 =
    .ok (found, nofOutputDataItf)
  param_eq : nofOutputDataItf.toInt = Manager.outCount waveform.links ctrl

namespace Scene

def parts (sc : Scene) : List Part := deploy sc.waveform sc.binary

def part (sc : Scene) : Part := deployModule sc.module (sc.binary sc.ctrl)

def dataOutputs (sc : Scene) : ℕ := Manager.outCount sc.waveform.links sc.ctrl

def call (sc : Scene) : EStateM.Result Exit World ℤ :=
  init sc.runtime sc.parts sc.ctrl sc.part sc.lib sc.world

def db (sc : Scene) : List RemoteParam := setRemoteParams (sc.world.memory sc.ctrl).remoteParamsDb
    (sc.lib.ctrlInit (sc.world.memory sc.ctrl).calls).2

def Addresses (sc : Scene) (m : ℕ) : Prop := Addressed sc.parts sc.db m

end Scene

def LastInput (w : Manager.PWaveform) (m q : ℕ) : Prop :=
  (Manager.input w m q).isSome = true ∧ ∀ q', q < q' → Manager.input w m q' = none

/-- A call that returns 1 has for every module it addresses an entry, and for one behind the
control module the port that is connected to its last input. -/
def Scene.PortsMatch (sc : Scene) : Prop := ∀ g', sc.call = .ok 1 g' →
    (∀ m, sc.Addresses m → ∃ out ∈ (g'.memory sc.ctrl).outputs, out.moduleIdx = m) ∧
    ∀ out ∈ (g'.memory sc.ctrl).outputs, sc.ctrl < out.moduleIdx →
      ∃ port q : ℕ, out.itf = some port ∧ Manager.output sc.waveform sc.ctrl port =
          some ((Manager.idOf sc.waveform out.moduleIdx : ℤ), (q : ℤ)) ∧
        LastInput sc.waveform out.moduleIdx q

/-- A call that gets to the remote parameters returns -1 if one of them is for a module that is
not behind the control module. -/
def Scene.Rejects (sc : Scene) : Prop :=
  ∀ n g', sc.call = .ok n g' → n ≠ 0 → (∃ m ≤ sc.ctrl, sc.Addresses m) → n = -1

def Scene.Detected (sc : Scene) : Prop :=
  (∃ m ≤ sc.ctrl, sc.Addresses m) → ∃ m, sc.Addresses m ∧ m + sc.dataOutputs ≤ sc.ctrl

/-! ## The manager's ports and the skeleton's -/

section Ports

variable {w : PWaveform} {m : PModule} {b : Binary} {binary : ℕ → Binary}
  {i k p : ℕ}

lemma deploy_getElem? :
    (deploy w binary)[i]? = (w.modules[i]?).map fun m => deployModule m (binary i) :=
  getElem?_mapIdx

lemma length_deploy (w : PWaveform) (binary : ℕ → Binary) :
    (deploy w binary).length = w.modules.length :=
  length_mapIdx

lemma toInterfaces_view (table : Option (List Port)) (n p : ℕ) :
    (toInterfaces table n)[p]?.map (fun itf => (itf.remoteModuleId, itf.remotePortIdx)) =
      view table n p := by
  rw [toInterfaces, getElem?_map, getElem?_take, view]
  split
  · cases table with
    | none => rfl
    | some ports =>
      rw [Option.getD_some, Option.map_map, Option.bind_some]
      rfl
  · rfl

lemma output_lt_length {v : ℤ × ℤ} (hm : w.modules[i]? = some m)
    (h : output w i p = some v) : p < (deployModule m b).module.outputs.length := by
  rw [output, hm, bind_some, ← toInterfaces_view] at h
  obtain ⟨itf, hitf, -⟩ := map_eq_some_iff.mp h
  exact (List.getElem?_eq_some_iff.mp hitf).1

lemma Addressed.lt_length {db : List RemoteParam} (h : Addressed (deploy w binary) db k) :
    k < w.modules.length := by
  obtain ⟨p, -, hname⟩ := h
  rw [← length_deploy w binary]
  exact (findIdx?_eq_some_iff_getElem.mp hname).1

/-- **The control port** of a module behind the control module: both ends, and that it is the last
input. -/
theorem control_port {junk : ℤ × ℤ} {c : ℕ} (hw : Returned w junk)
    (hauto : w.autoCtrlModule = some c) (hk : c < k) (hlt : k < w.modules.length) :
    output w c (outCount w.links c + (k - (c + 1))) =
        some ((idOf w k : ℤ), (inCount w.links k : ℤ)) ∧
      input w k (inCount w.links k) = some (((c + 1 : ℕ) : ℤ),
        ((outCount w.links c + (k - (c + 1)) : ℕ) : ℤ)) ∧
      ∀ q, inCount w.links k < q → input w k q = none := by
  refine ⟨?_, ?_, fun q hq => ?_⟩
  · rw [hw.id_eq k hlt]
    exact (hw.output_iff c _ _ (hk.trans hlt)).mpr (.inr ⟨k, hauto, hk, hlt, rfl, rfl⟩)
  · exact (hw.input_iff k _ _ hlt).mpr (.inr ⟨c, hauto, hk, rfl, rfl⟩)
  · cases hinput : input w k q with
    | none => rfl
    | some v =>
      obtain ⟨hlt', -⟩ | ⟨c', -, -, hq', -⟩ := (hw.input_iff k q v hlt).mp hinput
      all_goals omega

end Ports

section Routing

variable {sc : Scene} {m : ℕ}

lemma Scene.returned (sc : Scene) : Returned sc.waveform sc.env.junk.ref :=
  waveformParse_returned sc.parsed

lemma Scene.ctrl_lt (sc : Scene) : sc.ctrl < sc.waveform.modules.length :=
  (List.getElem?_eq_some_iff.mp sc.module_eq).1

lemma Scene.id_eq (sc : Scene) : sc.part.module.id = sc.ctrl + 1 := by
  have hid := sc.returned.id_eq sc.ctrl sc.ctrl_lt
  rw [idOf, sc.module_eq, map_some, getD_some] at hid
  change (sc.module.id : ℤ) = sc.ctrl + 1
  rw [hid]
  rfl

lemma Scene.remotePort_eq (sc : Scene) (m : ℕ) : remotePort sc.part.module sc.nofOutputDataItf m =
      (m : ℤ) - (sc.ctrl + 1) + sc.dataOutputs := by
  rw [remotePort, sc.id_eq, sc.param_eq]
  rfl

/-- **The port that the manager has connected** to the last input of a module behind the control
module. -/
theorem Scene.output_behind (hm : sc.ctrl < m) (hlt : m < sc.waveform.modules.length) :
    ∃ q : ℕ, output sc.waveform sc.ctrl (sc.dataOutputs + (m - (sc.ctrl + 1))) =
        some ((idOf sc.waveform m : ℤ), (q : ℤ)) ∧ LastInput sc.waveform m q := by
  obtain ⟨houtput, hinput, hlast⟩ := control_port sc.returned sc.auto hm hlt
  exact ⟨_, houtput, by rw [hinput]; rfl, hlast⟩

lemma Scene.started {g' : World} {n : ℤ} (h : sc.call = .ok n g') (hn : n ≠ 0) (hn' : n ≠ -1) :
    ∃ table : List ℕ, (∀ k, k ∈ table ↔ sc.Addresses k) ∧
      (∀ k ∈ table, 0 ≤ remotePort sc.part.module sc.nofOutputDataItf k) ∧
      (g'.memory sc.ctrl).outputs = table.map
        (remoteItf (sc.world.physicIds sc.ctrl) sc.part.module sc.nofOutputDataItf) := by
  cases init_answer h with
  | refuses => exact absurd rfl hn'
  | unwilling => exact absurd rfl hn
  | waits => exact absurd rfl hn
  | @starts g1 _ _ _ _ _ _ hcalled _ hstarted =>
    obtain ⟨D, table, found, hparam, htable, hports, houts, -⟩ := hstarted.exists_table
    have hread := sc.param
    rw [← hcalled.vars] at hread
    obtain ⟨-, rfl⟩ : found = sc.found ∧ D = sc.nofOutputDataItf := by
      simpa using hparam.symm.trans hread
    rw [hcalled.db] at htable
    have hids : g1.physicIds sc.ctrl = sc.world.physicIds sc.ctrl := by
      rw [World.physicIds, hcalled.interfaces, World.physicIds]
    rw [hids] at houts
    exact ⟨table, htable, hports, houts⟩

lemma Scene.portsMatch (sc : Scene) : sc.PortsMatch := by
  intro g' hcall
  obtain ⟨table, htable, -, houts⟩ := sc.started hcall one_ne_zero (by decide)
  refine ⟨fun m hm => ?_, fun out hout hbehind => ?_⟩
  · refine ⟨remoteItf (sc.world.physicIds sc.ctrl) sc.part.module sc.nofOutputDataItf m, ?_, rfl⟩
    rw [houts]
    exact mem_map_of_mem ((htable m).mpr hm)
  · rw [houts] at hout
    obtain ⟨k, hk, rfl⟩ := mem_map.mp hout
    change sc.ctrl < k at hbehind
    obtain ⟨q, houtput, hlast⟩ := sc.output_behind hbehind ((htable k).mp hk).lt_length
    have hport : (remotePort sc.part.module sc.nofOutputDataItf k).toNat =
        sc.dataOutputs + (k - (sc.ctrl + 1)) := by
      rw [sc.remotePort_eq]
      omega
    have hlt : (remotePort sc.part.module sc.nofOutputDataItf k).toNat <
        (sc.world.physicIds sc.ctrl).length := by
      rw [hport, World.physicIds, length_map, sc.interfaces]
      exact output_lt_length sc.module_eq houtput
    refine ⟨_, q, ?_, houtput, hlast⟩
    rw [remoteItf, if_pos hlt, hport]

lemma Scene.rejects_of_detected (h : sc.Detected) : sc.Rejects := by
  intro n g' hcall hn hback
  by_contra hrefused
  obtain ⟨table, htable, hports, -⟩ := sc.started hcall hn hrefused
  obtain ⟨m, hm, hnegative⟩ := h hback
  have hport := hports m ((htable m).mpr hm)
  rw [sc.remotePort_eq] at hport
  omega

end Routing

/-! ## A call that nothing else stops -/

/-- The parameters that set a delay can be read, and if there is one, there is `room`. -/
def DelaysFit (vars : List Variable) (mode : Fin maxModes) (db : List RemoteParam) (room : Prop) :
    Prop :=
  ∀ p ∈ db, ∀ d, ∃ r, paramGetIntName vars mode (delayName p.moduleName) d = .ok r ∧
    (r.1 = true → room)

lemma DelaysFit.mono {vars : List Variable} {mode : Fin maxModes} {db : List RemoteParam}
    {room room' : Prop} (h : DelaysFit vars mode db room) (hroom : room → room') :
    DelaysFit vars mode db room' :=
  fun p hp d => (h p hp d).imp fun _ hr => hr.imp_right (hroom ∘ ·)

/-- `ctrl_init` is willing, the control input is not waited for, all parameters are there, those
that set a delay can be read and have their ports, and there are enough places and queues. -/
structure Scene.Clear (sc : Scene) : Prop where
  willing : (sc.lib.ctrlInit (sc.world.memory sc.ctrl).calls).1 ≠ -1 ∧
    (sc.lib.ctrlInit (sc.world.memory sc.ctrl).calls).1 ≠ 0
  input : ∃ created s, createCtrlInput sc.runtime sc.parts sc.ctrl sc.part
    (sc.world.state.modify sc.ctrl fun ms => { ms with ctrlIn := false }) = .ok created s ∧
      ¬(created = false ∧ (s.modules sc.ctrl).error = .notReady)
  variables_there : ∀ p ∈ sc.db, ∃ k j, Names sc.parts p k ∧
    nodModuleVariableGet (sc.world.vars k) p.variableName = some j
  places : sc.db.length ≤ maxRemoteItf
  locals_there : ∀ name ∈ sc.lib.localParams,
    ∃ j, nodModuleVariableGet (sc.world.vars sc.ctrl) name = some j
  delays : DelaysFit (sc.world.vars sc.ctrl) sc.part.curMode sc.db (∀ m, sc.Addresses m →
    (remotePort sc.part.module sc.nofOutputDataItf m).toNat < sc.part.module.outputs.length)
  queues : ∀ n, sc.runtime.itfspscqNew n = true

section Clear

variable {runtime : Skeleton.Runtime} {parts : List Part} {i : ℕ} {part : Part} {lib : Library}
  {g : World} {db : List RemoteParam} {vars : List RemoteVariable} {delay D : CInt}

lemma mapM_of_ok {α β : Type} {p : α → Prog β} {as : List α} (h : ∀ a ∈ as, ∃ b, p a g = .ok b g) :
    ∃ bs, as.mapM p g = .ok bs g ∧ bs.length = as.length := by
  induction as with
  | nil => exact ⟨[], rfl, rfl⟩
  | cons a as ih =>
    obtain ⟨b, hb⟩ := h a mem_cons_self
    obtain ⟨bs, hbs, hlen⟩ := ih fun a' ha' => h a' (mem_cons_of_mem a ha')
    refine ⟨b :: bs, ?_, congrArg Nat.succ hlen⟩
    rw [mapM_cons, bind_of_ok hb, bind_of_ok hbs]
    rfl

lemma initRemoteVariables_of_there (h : ∀ p ∈ db, ∃ k j, Names parts p k ∧
      nodModuleVariableGet (g.vars k) p.variableName = some j) :
    ∃ vs, initRemoteVariables parts db g = .ok vs g ∧ vs.length = db.length := by
  refine mapM_of_ok fun p hp => ?_
  obtain ⟨k, j, hname, hget⟩ := h p hp
  refine ⟨(k, j), ?_⟩
  rw [initRemoteVariable, hname]
  dsimp only
  rw [bind_of_ok world_run, hget]
  rfl

lemma initLocalVariables_of_there
    (h : ∀ name ∈ lib.localParams, ∃ j, nodModuleVariableGet (g.vars i) name = some j) :
    ∃ js, initLocalVariables i lib g = .ok js g := by
  refine (mapM_of_ok fun name hname => ?_).imp fun js hjs => hjs.1
  obtain ⟨j, hj⟩ := h name (mem_of_mem_take hname)
  refine ⟨j, ?_⟩
  rw [bind_of_ok world_run, hj]
  rfl

lemma initDelay_of_fits {k port : ℕ}
    (h : DelaysFit (g.vars i) part.curMode db (port < (g.memory i).interfaces.length)) :
    ∃ d g', initDelay i part db vars k port delay g = .ok d g' := by
  rw [initDelay]
  cases hfind : (vars.findIdx? fun v => v.moduleIdx = k).bind (db[·]?) with
  | none => exact ⟨delay, g, rfl⟩
  | some p =>
    obtain ⟨j, -, hget⟩ := bind_eq_some_iff.mp hfind
    obtain ⟨⟨found, d⟩, hread, hport⟩ := h p (mem_of_getElem? hget) delay
    have hparam : paramGetInt i part (delayName p.moduleName) delay g = .ok (found, d) g := by
      rw [paramGetInt, hread]
    dsimp only
    rw [bind_of_ok hparam]
    cases found with
    | false => exact ⟨d, g, rfl⟩
    | true =>
      obtain ⟨g', hset⟩ : ∃ g', oesrItfDelaySet i port d g = .ok true g' := by
        rw [oesrItfDelaySet, getElem?_eq_getElem (hport rfl)]
        dsimp only
        split <;> exact ⟨_, rfl⟩
      exact ⟨d, g', bind_of_ok hset⟩

section

variable (hqueues : ∀ n, runtime.itfspscqNew n = true)
include hqueues

lemma initRemoteItf_of_port {out : RemoteItf} (hport : 0 ≤ remotePort part.module D out.moduleIdx)
    (hdelays : DelaysFit (g.vars i) part.curMode db
      ((remotePort part.module D out.moduleIdx).toNat < (g.memory i).interfaces.length)) :
    ∃ r g', initRemoteItf runtime parts i part db vars D delay out g = .ok r g' := by
  obtain ⟨d, g1, hdelay⟩ : ∃ d g1, initDelay i part db vars out.moduleIdx
      (remotePort part.module D out.moduleIdx).toNat delay g = .ok d g1 := initDelay_of_fits hdelays
  rw [initRemoteItf]
  rw [if_neg (not_lt.mpr hport), bind_of_ok hdelay, bind_of_ok world_run]
  obtain ⟨created, s, hcreate⟩ := create_write_returns g1.state
  rw [bind_of_ok (lift_ok.mpr ⟨s, hcreate, rfl⟩)]
  obtain ⟨rfl, -, rfl⟩ | ⟨-, hnew, -⟩ | ⟨rfl, -⟩ := create_write_cases hcreate
  · have herror : ((g1.state.setError i .notFound).modules i).error = .notFound := by
      rw [State.setError, modify_self]
    rw [if_neg Bool.false_ne_true, bind_of_ok world_run, if_pos herror]
    exact ⟨_, _, rfl⟩
  · rw [hqueues] at hnew
    cases hnew
  · exact ⟨_, _, rfl⟩

lemma initRemoteItfs_of_ports {outs : List RemoteItf}
    (hports : ∀ out ∈ outs, 0 ≤ remotePort part.module D out.moduleIdx)
    (hdelays : DelaysFit (g.vars i) part.curMode db (∀ out ∈ outs,
      (remotePort part.module D out.moduleIdx).toNat < (g.memory i).interfaces.length)) :
    ∃ outs' g', initRemoteItfs runtime parts i part db vars D delay outs g = .ok outs' g' := by
  induction outs generalizing g delay with
  | nil => exact ⟨[], g, rfl⟩
  | cons out outs ih =>
    obtain ⟨⟨d, out'⟩, g1, hone⟩ : ∃ r g1,
        initRemoteItf runtime parts i part db vars D delay out g = .ok r g1 :=
      initRemoteItf_of_port hqueues (hports out mem_cons_self)
        (hdelays.mono fun hroom => hroom out mem_cons_self)
    obtain ⟨-, -, hretimed, -⟩ := initRemoteItf_ok hone
    have hlength : (g1.memory i).interfaces.length = (g.memory i).interfaces.length := by
      have hids := congrArg length hretimed.physicIds
      rwa [World.physicIds, World.physicIds, length_map, length_map] at hids
    rw [← hretimed.vars, ← hlength] at hdelays
    obtain ⟨outs', g', hrest⟩ : ∃ outs' g',
        initRemoteItfs runtime parts i part db vars D d outs g1 = .ok outs' g' :=
      ih (forall_mem_of_forall_mem_cons hports) (hdelays.mono forall_mem_of_forall_mem_cons)
    refine ⟨out' :: outs', g', ?_⟩
    rw [initRemoteItfs, bind_of_ok hone]
    dsimp only
    rw [bind_of_ok hrest]
    rfl

end

lemma initRemote_of_ports (hqueues : ∀ n, runtime.itfspscqNew n = true) {found : Bool}
    (hparam : paramGetIntName (g.vars i) part.curMode "nof_output_data_itf".toList 0 =
      .ok (found, D)) (hvars : ∀ p ∈ (g.memory i).remoteParamsDb, ∃ k j, Names parts p k ∧
      nodModuleVariableGet (g.vars k) p.variableName = some j)
    (hplaces : (g.memory i).remoteParamsDb.length ≤ maxRemoteItf)
    (hlocals : ∀ name ∈ lib.localParams, ∃ j, nodModuleVariableGet (g.vars i) name = some j)
    (hdelays : DelaysFit (g.vars i) part.curMode (g.memory i).remoteParamsDb
      (∀ k, Addressed parts (g.memory i).remoteParamsDb k →
        (remotePort part.module D k).toNat < (g.memory i).interfaces.length))
    (hports : ∀ k, Addressed parts (g.memory i).remoteParamsDb k → 0 ≤ remotePort part.module D k) :
    ∃ g', initRemote runtime parts i part lib g = .ok 1 g' := by
  have hread : paramGetInt i part "nof_output_data_itf".toList 0 g = .ok (found, D) g := by
    rw [paramGetInt, hparam]
  rw [initRemote, bind_of_ok hread]
  dsimp only
  rw [bind_of_ok (setMemory_run ..), bind_of_ok world_run, modify_memory_self]
  obtain ⟨g1, hg1, hvars1⟩ : ∃ g1, g1 = g.modify i (fun mem =>
      { mem with nofOutputDataItf := D }) ∧ g1.vars = g.vars := ⟨_, rfl, rfl⟩
  rw [← hvars1] at hvars hlocals hdelays
  obtain ⟨vs, hvs, hlen⟩ : ∃ vs, initRemoteVariables parts (g.memory i).remoteParamsDb g1 =
      .ok vs g1 ∧ vs.length = (g.memory i).remoteParamsDb.length :=
    initRemoteVariables_of_there hvars
  rw [← hg1, bind_of_ok hvs]
  obtain ⟨places, table, hintern⟩ : ∃ places table,
      internAll maxRemoteItf [] (vs.map Prod.fst) = some (places, table) :=
    exists_internAll (by rw [length_nil, length_map, hlen, zero_add]; exact hplaces)
  have hscan : scanRemoteItf vs = some
      (List.zipWith (fun v addr => ⟨v.1, v.2, addr⟩) vs places, table.map fun k => ⟨k, none⟩) := by
    rw [scanRemoteItf, hintern, map_some]
  have hnames := (initRemoteVariables_ok hvs).1
  have haddressed : ∀ out ∈ table.map (fun k => (⟨k, none⟩ : RemoteItf)),
      Addressed parts (g.memory i).remoteParamsDb out.moduleIdx := by
    intro out hout
    obtain ⟨k, hk, rfl⟩ := mem_map.mp hout
    rwa [(internAll_spec hintern).mem_iff, or_iff_right not_mem_nil, mem_map_fst_iff hnames] at hk
  rw [hscan]
  dsimp only
  rw [bind_of_ok (setMemory_run ..)]
  obtain ⟨js, hjs⟩ := initLocalVariables_of_there (g := g1.modify i _) (i := i) hlocals
  rw [bind_of_ok hjs, bind_of_ok (setMemory_run ..)]
  generalize hg3 : (g1.modify i _).modify i _ = g3
  have hlength : (g3.memory i).interfaces = (g.memory i).interfaces := by
    rw [← hg3, modify_memory_self, modify_memory_self, hg1, modify_memory_self]
  rw [← hlength, show g1.vars = g3.vars by rw [← hg3]; rfl] at hdelays
  obtain ⟨outs, g2, hitfs⟩ := initRemoteItfs_of_ports hqueues
    (fun out hout => hports _ (haddressed out hout))
    (hdelays.mono fun hroom out hout => hroom _ (haddressed out hout))
  rw [bind_of_ok hitfs]
  exact ⟨_, rfl⟩

lemma Scene.call_of_clear {sc : Scene} (h : sc.Clear)
    (hports : ∀ m, sc.Addresses m → 0 ≤ remotePort sc.part.module sc.nofOutputDataItf m) :
    ∃ g', sc.call = .ok 1 g' := by
  obtain ⟨hfails, hvalue⟩ := h.willing
  obtain ⟨g1, hg1, hdb, hvars, hstate, hitfs⟩ : ∃ g1,
      g1 = (sc.world.modify sc.ctrl (fun mem => { mem with
        calls := mem.calls + 1
        remoteParamsDb := setRemoteParams mem.remoteParamsDb
          (sc.lib.ctrlInit (sc.world.memory sc.ctrl).calls).2 })).modify sc.ctrl (fun mem =>
        { mem with outputs := [], remoteVariables := [], localVariables := [] }) ∧
      (g1.memory sc.ctrl).remoteParamsDb = sc.db ∧ g1.vars = sc.world.vars ∧
      g1.state = sc.world.state ∧
      (g1.memory sc.ctrl).interfaces.length = sc.part.module.outputs.length := by
    refine ⟨_, rfl, ?_, rfl, rfl, ?_⟩
    · rw [modify_memory_self, modify_memory_self]
      rfl
    · rw [modify_memory_self, modify_memory_self]
      exact sc.interfaces
  obtain ⟨created, s, hread, hready⟩ := h.input
  obtain ⟨s, hinput⟩ : ∃ s, initCtrlInput sc.runtime sc.parts sc.ctrl sc.part { g1 with
      state := g1.state.modify sc.ctrl fun ms => { ms with ctrlIn := false } } =
        .ok () { g1 with state := s } :=
    ⟨_, (initCtrlInput_run (by rw [hstate]; exact hread)).trans (if_neg hready)⟩
  obtain ⟨g', hremote⟩ : ∃ g', initRemote sc.runtime sc.parts sc.ctrl sc.part sc.lib
      { g1 with state := s } = .ok 1 g' :=
    initRemote_of_ports h.queues (hvars ▸ sc.param) (hdb ▸ hvars ▸ h.variables_there)
      (hdb ▸ h.places)
      (hvars ▸ h.locals_there) (hdb ▸ hvars ▸ hitfs ▸ h.delays) (hdb ▸ hports)
  refine ⟨g', ?_⟩
  rw [Scene.call, init, returning_ok, bind_of_ok callCtrlInit_run, if_neg hfails, if_neg hvalue,
    initMemory, bind_of_ok (setMemory_run ..), ← hg1, connect,
    bind_of_ok (lift_ok.mpr ⟨_, setModule_run _, rfl⟩), bind_of_ok hinput]
  exact .inl hremote

lemma Scene.detected_of_rejects {sc : Scene} (h : sc.Clear) (hrejects : sc.Rejects) :
    sc.Detected := by
  intro hback
  by_contra hnone
  have hports : ∀ m, sc.Addresses m → 0 ≤ remotePort sc.part.module sc.nofOutputDataItf m := by
    intro m hm
    have hlt : ¬m + sc.dataOutputs ≤ sc.ctrl := fun hle => hnone ⟨m, hm, hle⟩
    rw [sc.remotePort_eq]
    omega
  obtain ⟨g', hcall⟩ := sc.call_of_clear h hports
  exact absurd (hrejects 1 g' hcall one_ne_zero hback) (by decide)

end Clear

/-- The ports for the modules behind the control module are right; and **parameters for the others
are refused exactly if one of the ports is negative**, as far as nothing else stops the call. -/
theorem control_routing (sc : Scene) :
    sc.PortsMatch ∧ (sc.Detected → sc.Rejects) ∧ (sc.Clear → (sc.Rejects ↔ sc.Detected)) :=
  ⟨sc.portsMatch, sc.rejects_of_detected,
    fun h => ⟨sc.detected_of_rejects h, sc.rejects_of_detected⟩⟩

/-! ## A model -/

/-- These modules, of which `a` is the control module. -/
def controlledModel (names : List String) (ends : List (String × String)) : Manager.Setting :=
  .model (names.map (·, "binary", "module")) ends
    [("main".toList, .group [("auto_ctrl_module".toList, .string "a".toList)])]

def ctrlModel : Manager.Setting := controlledModel ["a", "b"] [("a", "b")]

def ctrlWaveform : Manager.PWaveform := (Manager.waveformParse (Manager.modelEnv ctrlModel) 1 true
    (Manager.newWaveform "ctrl".toList)).toOption.getD (Manager.newWaveform [])

lemma ctrlWaveform_parsed : waveformParse (modelEnv ctrlModel) 1 true
    (newWaveform "ctrl".toList) = .ok ctrlWaveform := rfl

def ctrlModule : Manager.PModule := ctrlWaveform.modules.headD Manager.PModule.zero

lemma ctrlModule_eq : ctrlWaveform.modules[0]? = some ctrlModule := rfl

def oneVariable (name : String) : Variable :=
  { Variable.zero with
    id := 1
    size := 4
    name := ofText name.toList
    initValue := .replicate maxModes (some [1, 0, 0, 0]) }

def ctrlBinary (name : String) : Binary := ⟨true, 0, 0, 0, 0, fun _ => 0, ⟨0, maxModes_pos⟩,
    some ⟨[], fun _ => (1, [⟨name.toList, "x".toList, 4⟩]), 0⟩⟩

def ctrlWorld (name : String) : World where
  state := Skeleton.loadedState
  vars := fun _ => [oneVariable "nof_output_data_itf", oneVariable "x"]
  memory := fun _ => ⟨0, [], [], [], [], 0, (deployModule ctrlModule
    (ctrlBinary name)).module.outputs⟩

def ctrlScene (name : String) : Scene where
  env := Manager.modelEnv ctrlModel
  fuel := 1
  file := "ctrl".toList
  waveform := ctrlWaveform
  parsed := ctrlWaveform_parsed
  ctrl := 0
  auto := rfl
  module := ctrlModule
  module_eq := ctrlModule_eq
  binary := fun _ => ctrlBinary name
  lib := ⟨[], fun _ => (1, [⟨name.toList, "x".toList, 4⟩]), 0⟩
  control := rfl
  runtime := ⟨fun _ => true, fun _ => true⟩
  world := ctrlWorld name
  interfaces := rfl
  nofOutputDataItf := 1
  found := true
  param := rfl
  param_eq := rfl

lemma ctrlScene_clear {name : String} {k : ℕ}
    (hname : oesrGetModuleIdx (ctrlScene name).parts name.toList = some k)
    (hdelay : ∀ d, paramGetIntName ((ctrlWorld name).vars 0) ⟨0, maxModes_pos⟩
      (delayName name.toList) d = .ok (false, d)) :
    (ctrlScene name).Clear where
  willing := ⟨show (1 : ℤ) ≠ -1 by decide, one_ne_zero⟩
  input := ⟨_, _, rfl, fun hwaits => by cases hwaits.2⟩
  variables_there := by
    intro p hp
    obtain rfl := mem_singleton.mp hp
    exact ⟨k, 1, hname, rfl⟩
  places := Nat.succ_le_succ (Nat.zero_le 99)
  locals_there := fun _ h => by cases h
  delays := by
    intro p hp d
    obtain rfl := mem_singleton.mp hp
    exact ⟨(false, d), hdelay d, nofun⟩
  queues := fun _ => rfl

theorem control_routing_b : (ctrlScene "b").PortsMatch ∧ (ctrlScene "b").Rejects := by
  have haddressed : ∀ m, (ctrlScene "b").Addresses m → m = 1 := by
    rintro m ⟨p, hp, hname⟩
    obtain rfl := mem_singleton.mp hp
    exact (some.inj hname).symm
  obtain ⟨hports, hrejects, -⟩ := control_routing (ctrlScene "b")
  refine ⟨hports, hrejects fun ⟨m, hle, hm⟩ => ?_⟩
  rw [haddressed m hm] at hle
  exact absurd hle (by decide)

theorem control_misrouted : ¬(ctrlScene "a").Rejects ∧
    remotePort (ctrlScene "a").part.module (ctrlScene "a").nofOutputDataItf 0 = 0 ∧
    Manager.output ctrlWaveform 0 0 = some (2, 0) := by
  refine ⟨fun h => ?_, rfl, rfl⟩
  have haddressed : ∀ m, (ctrlScene "a").Addresses m ↔ m = 0 := by
    intro m
    refine ⟨?_, fun hm => ⟨_, mem_singleton_self _, hm ▸ rfl⟩⟩
    rintro ⟨p, hp, hname⟩
    obtain rfl := mem_singleton.mp hp
    exact (some.inj hname).symm
  obtain ⟨m, hm, hle⟩ := (ctrlScene "a").detected_of_rejects (ctrlScene_clear rfl fun _ => rfl) h
    ⟨0, le_rfl, (haddressed 0).mpr rfl⟩
  rw [(haddressed m).mp hm] at hle
  exact absurd hle (by decide)

end Aloe.Oesr.CtrlSkeleton
