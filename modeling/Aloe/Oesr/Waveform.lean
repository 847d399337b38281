import Aloe.Oesr.Packet

/-!
# Waveforms and their packets

The records of `oesr/src/common/include/waveform.h` and the allocation functions of
`oesr/src/common/waveform.c`, with the memory images of the records that are copied
into a packet byte by byte. An array and its length field are one list, since the
allocation functions set both together; a fixed array is a vector.

Then `oesr/src/common/serializable.c`, the writers and next to each the reader that fills an
object from a packet, and the packet functions of `oesr/src/node/nod_waveform.c`. The functions
that change a waveform's status are parameters: the packet functions only call them.
-/

namespace Aloe.Oesr

open Lib

def strLen : ℕ := 64

/-- `MAX(modes)`. -/
def maxModes : ℕ := 25

lemma maxModes_pos : 0 < maxModes := Nat.zero_lt_succ 24

def nofUserVariables : ℕ := 10

/-- A `strdef` field. -/
abbrev Str : Type := { bs : List UInt8 // bs.length = strLen }

def Str.empty : Str := ⟨List.replicate strLen 0, by simp⟩

/-- A 64-bit word: a pointer or half of a `time_t`. -/
abbrev Word64 : Type := BitVec 64

/-! ## Records copied as memory images -/

/-- `execinfo_t`; a `float` is kept by its bits. The compiler pads the eleven words
so that the time stamps are aligned, and the padding is copied with the rest. -/
structure ExecInfo where
  moduleTs : CInt
  nodeTs : CInt
  meanExecUs : CInt
  maxExecUs : CInt
  maxExecTs : CInt
  meanRelUs : CInt
  maxRelUs : CInt
  meanStartUs : CInt
  maxStartUs : CInt
  meanMopts : CInt
  maxMopts : CInt
  padding : CInt
  tExec : (Word64 × Word64) × (Word64 × Word64) × (Word64 × Word64)
  lastUpdateTs : CInt
  startTs : CInt
deriving DecidableEq

structure Interface where
  id : CInt
  remotePortIdx : CInt
  remoteModuleId : CInt
  physicItfId : CInt
  totalMbpts : CInt
  useMbpts : CInt
  delay : CInt
  logEnable : CInt
  hwItf : Word64
deriving DecidableEq

structure WaveformMode where
  name : Str
  desc : Str
  opts : Str
deriving DecidableEq

structure ModuleMode where
  curMode : CInt
  nextMode : CInt
  nextTslot : CInt
deriving DecidableEq

/-- `waveform_status_t`; the status is an enumeration of the source, by its number. -/
structure WaveformStatus where
  curStatus : CInt
  nextTimeslot : CInt
deriving DecidableEq

def loaded : CInt := 1

/-- Memory cleared by `calloc` or `memset`. -/
def ExecInfo.zero : ExecInfo := ⟨0, 0, 0, 0, 0, 0, 0, 0, 0, 0, 0, 0, ((0, 0), (0, 0), (0, 0)), 0, 0⟩

def Interface.zero : Interface := ⟨0, 0, 0, 0, 0, 0, 0, 0, 0⟩

def WaveformMode.zero : WaveformMode := ⟨Str.empty, Str.empty, Str.empty⟩

namespace Image

open Codec

def str : Codec Str := block strLen

def word64 : Codec Word64 := word 8

def tExec : Codec ((Word64 × Word64) × (Word64 × Word64) × (Word64 × Word64)) :=
  let time := pair word64 word64
  pair time (pair time time)

def interface : Codec Interface := record
    (pair cint (pair cint (pair cint (pair cint (pair cint (pair cint (pair cint
      (pair cint word64))))))))
    (fun i => (i.id, i.remotePortIdx, i.remoteModuleId, i.physicItfId, i.totalMbpts,
      i.useMbpts, i.delay, i.logEnable, i.hwItf))
    (fun (a, b, c, d, e, f, g, h, i) => ⟨a, b, c, d, e, f, g, h, i⟩)
    (fun _ => rfl)

def execInfo : Codec ExecInfo := record
    (pair cint (pair cint (pair cint (pair cint (pair cint (pair cint (pair cint
      (pair cint (pair cint (pair cint (pair cint (pair cint (pair tExec
        (pair cint cint))))))))))))))
    (fun x => (x.moduleTs, x.nodeTs, x.meanExecUs, x.maxExecUs, x.maxExecTs, x.meanRelUs,
      x.maxRelUs, x.meanStartUs, x.maxStartUs, x.meanMopts, x.maxMopts, x.padding, x.tExec,
      x.lastUpdateTs, x.startTs))
    (fun (a, b, c, d, e, f, g, h, i, j, k, l, m, n, o) =>
      ⟨a, b, c, d, e, f, g, h, i, j, k, l, m, n, o⟩)
    (fun _ => rfl)

def waveformMode : Codec WaveformMode :=
  record (pair str (pair str str)) (fun m => (m.name, m.desc, m.opts))
    (fun (a, b, c) => ⟨a, b, c⟩) (fun _ => rfl)

def moduleMode : Codec ModuleMode :=
  record (pair cint (pair cint cint)) (fun m => (m.curMode, m.nextMode, m.nextTslot))
    (fun (a, b, c) => ⟨a, b, c⟩) (fun _ => rfl)

def waveformStatus : Codec WaveformStatus :=
  record (pair cint cint) (fun s => (s.curStatus, s.nextTimeslot))
    (fun (a, b) => ⟨a, b⟩) (fun _ => rfl)

example : interface.size = 40 ∧ execInfo.size = 104 ∧ waveformMode.size = 192 := by decide

end Image

/-! ## Variables, modules and waveforms -/

/-- A block of memory behind a pointer, `none` for the null pointer. -/
abbrev Ptr : Type := Option (List UInt8)

structure Variable where
  id : CInt
  size : CInt
  name : Str
  window : CInt
  period : CInt
  initValue : Vector Ptr maxModes
  curValue : Ptr
  nofModes : CInt
  type : CInt
deriving DecidableEq

def Variable.zero : Variable := ⟨0, 0, Str.empty, 0, 0, Vector.replicate maxModes none, none, 0, 0⟩

/-- `module_t`. `allocated` tells that the three arrays are allocated, and `nodeId` is
the id of the node it is mapped to. -/
structure Module where
  vars : List Variable
  inputs : List Interface
  outputs : List Interface
  allocated : Bool
  execinfo : ExecInfo
  nodeId : CInt
  id : CInt
  name : Str
  binary : Str
  processorIdx : CInt
  execPosition : CInt
  mode : ModuleMode
  nofModes : CInt
  logEnable : CInt
deriving DecidableEq

def Module.zero : Module :=
  ⟨[], [], [], false, ExecInfo.zero, 0, 0, Str.empty, Str.empty, 0, 0, ⟨0, 0, 0⟩, 0, 0⟩

structure Waveform where
  id : CInt
  modules : List Module
  status : WaveformStatus
  modes : Vector WaveformMode maxModes
  name : Str
  nofModes : CInt
  granularityUs : CInt
  precachPipeline : CInt
deriving DecidableEq

/-! ## Allocation -/

inductive Object where
  | bytes (size : CInt)
  | interface
  | var
  | module
  | nodModule
  | context
deriving DecidableEq

/-- Whether `pool_alloc` gives memory for that many objects. -/
abbrev Pool : Type := CInt → Object → Bool

def Pool.Serves (pool : Pool) : Prop :=
  ∀ n obj, 0 ≤ n.toInt → (∀ size, obj = .bytes size → 0 < size.toInt) → pool n obj = true

def moduleAlloc (pool : Pool) (nofInputs nofOutputs nofVariables : CInt) :
    Prog Module Unit := do
  let m ← getThis
  if m.allocated then retErr
  else if pool nofInputs .interface && pool nofOutputs .interface
      && pool nofVariables .var then
    setObj fun m => { m with
      inputs := List.replicate nofInputs.count Interface.zero
      outputs := List.replicate nofOutputs.count Interface.zero
      vars := List.replicate nofVariables.count Variable.zero
      allocated := true }
  else retErr

def variableAllocMode (pool : Pool) (i : ℕ) : Prog Variable Unit := do
  let v ← getThis
  if h : i < maxModes then
    if pool 1 (.bytes v.size) then
      setObj fun v => { v with
        initValue := v.initValue.set i (some (List.replicate v.size.count 0)) }
    else
      setObj fun v => { v with initValue := v.initValue.set i none }
      retErr
  else fault

def variableAlloc (pool : Pool) (nofModes : CInt) : Prog Variable Unit := do
  (List.range nofModes.count).forM (variableAllocMode pool)
  setObj fun v => { v with nofModes := nofModes }

/-- `waveform_alloc`: that many cleared modules more. Where the pool has no memory the source
drops the modules, but not their number. -/
def waveformAlloc (pool : Pool) (nofModules : CInt) : Prog Waveform Unit := do
  let w ← getThis
  if pool (BitVec.ofNat 32 w.modules.length + nofModules) .module then
    setObj fun w => { w with
      modules := w.modules ++ List.replicate nofModules.count Module.zero }
  else
    setObj fun w => { w with modules := [] }
    retErr

/-! ## Waveforms in packets -/

/-- `enum variable_serialize_data`. A number read from a packet may be none of the
enumeration's; no `case` of a `switch` takes it. -/
inductive SerializeData where
  | none | cpValue | cpInit | other
deriving DecidableEq, Repr

def SerializeData.code : SerializeData → CInt
  | .none => 0
  | .cpValue => 1
  | .cpInit => 2
  | .other => -1

def SerializeData.ofCode (n : CInt) : SerializeData :=
  if n = 0 then .none else if n = 1 then .cpValue else if n = 2 then .cpInit else .other

/-- `enum waveform_serialize_action`. -/
inductive SerializeAction where
  | load | status | mode | other
deriving DecidableEq, Repr

def SerializeAction.code : SerializeAction → CInt
  | .load => 0
  | .status => 1
  | .mode => 2
  | .other => -1

def SerializeAction.ofCode (n : CInt) : SerializeAction :=
  if n = 0 then .load else if n = 1 then .status else if n = 2 then .mode else .other

variable {σ : Type}

/-! ## Variables -/

def variableSerializeMode (src : Variable) (i : ℕ) : Prog σ Unit :=
  if h : i < maxModes then packetAddData src.initValue[i] src.size.toInt
  else fault

def variableSerialize (src : Variable) (copyData : SerializeData) (nofModes : CInt) :
    Prog σ Unit := do
  addI src.id
  addI src.size
  addI src.type
  match copyData with
  | .cpInit =>
    addObj Image.str src.name
    (List.range nofModes.count).forM (variableSerializeMode src)
  | .cpValue => packetAddData src.curValue src.size.toInt
  | .none =>
    addI src.window
    addI src.period
  | .other => pure ()

/-- `packet_get_data` into the block behind a pointer: its new contents. -/
def packetGetInto (ptr : Ptr) (len : ℤ) : Prog σ (List UInt8) :=
  match ptr with
  | none => retErr
  | some block => do
      let bs ← packetGetData len
      if bs.length ≤ block.length then return bs ++ block.drop bs.length
      else fault

def variableUnserializeMode (i : ℕ) : Prog Variable Unit :=
  if h : i < maxModes then do
    let v ← getThis
    let block ← packetGetInto v.initValue[i] v.size.toInt
    setObj fun v => { v with initValue := v.initValue.set i (some block) }
  else fault

def variableUnserializeValue : Prog Variable Unit := do
  let v ← getThis
  let block ← packetGetInto v.curValue v.size.toInt
  setObj fun v => { v with curValue := some block }

def variableUnserializeTo (pool : Pool) (copyData : SerializeData) (nofModes : CInt) :
    Prog Variable Unit := do
  getI fun n v => { v with id := n }
  getI fun n v => { v with size := n }
  getI fun n v => { v with type := n }
  setObj fun v => { v with nofModes := nofModes }
  match copyData with
  | .cpInit =>
    variableAlloc pool nofModes
    getObj Image.str fun name v => { v with name := name }
    (List.range nofModes.count).forM variableUnserializeMode
  | .cpValue => variableUnserializeValue
  | .none =>
    getI fun n v => { v with window := n }
    getI fun n v => { v with period := n }
  | .other => pure ()

/-! ## Modules -/

def lengthI {α : Type} (as : List α) : CInt := BitVec.ofNat 32 as.length

def moduleSerialize (copyData : SerializeData) (src : Module) : Prog σ Unit := do
  addI src.id
  addI src.processorIdx
  addI src.execPosition
  addI src.nofModes
  addI src.mode.curMode
  addI src.logEnable
  addObj Image.str src.name
  addObj Image.str src.binary
  addObj Image.execInfo src.execinfo
  addI (lengthI src.vars)
  addI (lengthI src.inputs)
  addI (lengthI src.outputs)
  src.vars.forM fun v => variableSerialize v copyData src.nofModes
  src.inputs.forM (addObj Image.interface)
  src.outputs.forM (addObj Image.interface)

def moduleUnserializeVar (pool : Pool) (copyData : SerializeData) (nofModes : CInt) (i : ℕ) :
    Prog Module Unit :=
  zoom .fault (fun m => m.vars[i]?) (fun v m => { m with vars := m.vars.set i v })
    (variableUnserializeTo pool copyData nofModes)

def moduleUnserializeInput (i : ℕ) : Prog Module Unit :=
  getObj Image.interface fun itf m => { m with inputs := m.inputs.set i itf }

def moduleUnserializeOutput (i : ℕ) : Prog Module Unit :=
  getObj Image.interface fun itf m => { m with outputs := m.outputs.set i itf }

def moduleUnserializeTo (pool : Pool) (copyData : SerializeData) : Prog Module Unit := do
  getI fun n m => { m with id := n }
  getI fun n m => { m with processorIdx := n }
  getI fun n m => { m with execPosition := n }
  getI fun n m => { m with nofModes := n }
  getI fun n m => { m with mode := { m.mode with curMode := n } }
  getI fun n m => { m with logEnable := n }
  setObj fun m => { m with mode := { m.mode with nextTslot := 0 } }
  getObj Image.str fun name m => { m with name := name }
  getObj Image.str fun binary m => { m with binary := binary }
  getObj Image.execInfo fun info m => { m with execinfo := info }
  let nofVariables ← readI
  let nofInputs ← readI
  let nofOutputs ← readI
  moduleAlloc pool nofInputs nofOutputs (nofVariables + BitVec.ofNat 32 nofUserVariables)
  let m ← getThis
  (List.range nofVariables.count).forM (moduleUnserializeVar pool copyData m.nofModes)
  (List.range m.inputs.length).forM moduleUnserializeInput
  (List.range m.outputs.length).forM moduleUnserializeOutput

/-! ## Waveforms -/

def waveformSerializeMode (src : Waveform) (i : ℕ) : Prog σ Unit :=
  if h : i < maxModes then addObj Image.waveformMode src.modes[i] else fault

def Waveform.modulesOn (src : Waveform) (nodeId : CInt) : List Module :=
  src.modules.filter fun m => m.nodeId = nodeId

def moduleModeSerialize (m : Module) : Prog σ Unit := do
  addI m.id
  tryCatch (addObj Image.moduleMode m.mode) fun e =>
    match e with
    | .ret => pure ()
    | .fault => throw .fault

/-- `waveform_serialize`. Only the modules mapped to the loading node are sent. -/
def waveformSerialize (src : Waveform) (loadingNodeId : CInt) (action : SerializeAction)
    (copyData : SerializeData) : Prog σ Unit := do
  addI action.code
  match action with
  | .load =>
    addI copyData.code
    addI src.id
    addI src.granularityUs
    addI src.precachPipeline
    addObj Image.str src.name
    addI src.nofModes
    (List.range src.nofModes.count).forM (waveformSerializeMode src)
    addI (lengthI (src.modulesOn loadingNodeId))
    src.modules.forM fun m =>
      if m.nodeId = loadingNodeId then moduleSerialize copyData m else pure ()
  | .status => addObj Image.waveformStatus src.status
  | .mode =>
    addI (lengthI (src.modulesOn loadingNodeId))
    src.modules.forM fun m =>
      if m.nodeId = loadingNodeId then moduleModeSerialize m else pure ()
  | .other => pure ()

/-- One module of `waveform_unserializeTo`: whole, or only its `execinfo`. -/
def waveformUnserializeModule (pool : Pool) (allModule : CInt) (copyData : SerializeData) :
    Prog Waveform Unit := do
  let moduleId ← readI
  let w ← getThis
  match w.modules.findIdx? fun m => m.id = moduleId with
  | none => retErr
  | some i =>
    zoom .fault (fun w => w.modules[i]?) (fun m w => { w with modules := w.modules.set i m })
      (if allModule = 0 then getObj Image.execInfo fun info m => { m with execinfo := info }
      else moduleUnserializeTo pool copyData)

/-- `waveform_unserializeTo`. A waveform without modules gets as many as are announced. -/
def waveformUnserializeTo (pool : Pool) (copyData : SerializeData) : Prog Waveform Unit := do
  let allModule ← readI
  let nofModules ← readI
  let w ← getThis
  if w.modules.length = 0 then waveformAlloc pool nofModules
  (List.range nofModules.count).forM fun _ => waveformUnserializeModule pool allModule copyData

/-! ## Waveforms on a node -/

/-- `nod_module_t`; of the fields a node adds, whether it has its context. -/
structure NodModule where
  parent : Module
  context : Bool
deriving DecidableEq

def NodModule.zero : NodModule := ⟨Module.zero, false⟩

structure NodWaveform where
  modules : List NodModule
  status : WaveformStatus
  modes : Vector WaveformMode maxModes
  nofModes : CInt
  id : CInt
  tslotMultiplicity : CInt
  precachPipeline : CInt
  name : Str
deriving DecidableEq

/-- `nod_waveform_status_new` and `nod_waveform_status_stop`. -/
structure StatusOps where
  statusNew : WaveformStatus → Prog NodWaveform Unit
  statusStop : Prog NodWaveform Unit

/-- The platform the node runs on: its allocator and the `ts_len_ns` of
`rtdal_machine`. -/
structure Machine where
  pool : Pool
  tsLenNs : ℤ

def emptySlot : NodWaveform :=
  ⟨[], ⟨6, 0⟩, Vector.replicate maxModes WaveformMode.zero, 0, 0, 0, 0, Str.empty⟩

/-- A platform on which nothing fails. -/
def plainMachine : Machine := ⟨fun _ _ => true, 1000000⟩

def plainOps : StatusOps := ⟨fun _ => pure (), pure ()⟩

def nodWaveformAlloc (pool : Pool) (nofModules : CInt) : Prog NodWaveform Unit := do
  if pool nofModules .nodModule then
    setObj fun w => { w with modules := List.replicate nofModules.count NodModule.zero }
  else
    setObj fun w => { w with modules := [] }
    retErr

def nodModuleAlloc (pool : Pool) : Prog NodModule Unit := do
  if pool 1 .context then
    setObj fun m => { parent := { m.parent with execinfo := ExecInfo.zero }, context := true }
  else
    setObj fun m => { m with context := false }
    retErr

def onModule {α : Type} (i : ℕ) (p : Prog NodModule α) : Prog NodWaveform α :=
  zoom .fault (fun w => w.modules[i]?) (fun m w => { w with modules := w.modules.set i m }) p

def onParent {α : Type} (p : Prog Module α) : Prog NodModule α :=
  zoom .fault (fun m => some m.parent) (fun q m => { m with parent := q }) p

def waveformUnserializeMode (i : ℕ) : Prog NodWaveform Unit :=
  if h : i < maxModes then
    getObj Image.waveformMode fun mode w => { w with modes := w.modes.set i mode }
  else fault

def nodModuleUnserializeTo (pool : Pool) (copyData : SerializeData) : Prog NodModule Unit := do
  nodModuleAlloc pool
  onParent (moduleUnserializeTo pool copyData)

/-- `dest->tslot_multiplicity`, from the granularity that the waveform asks for. -/
def tslotMultiplicityOf (tsLenNs : ℤ) (granularityUs : CInt) : CInt :=
  if granularityUs = 0 then 1
  else BitVec.ofInt 32 ((tsLenNs.tdiv 1000).tdiv granularityUs.toInt)

/-- What follows the id in the packet of a load. -/
def nodWaveformUnserializeBody (machine : Machine) (copyData : CInt) : Prog NodWaveform Unit := do
  getI fun n w => { w with tslotMultiplicity := tslotMultiplicityOf machine.tsLenNs n }
  getI fun n w => { w with precachPipeline := n }
  getObj Image.str fun name w => { w with name := name }
  getI fun n w => { w with nofModes := n }
  let w ← getThis
  (List.range w.nofModes.count).forM waveformUnserializeMode
  let nofModules ← readI
  nodWaveformAlloc machine.pool nofModules
  let w ← getThis
  (List.range w.modules.length).forM fun i =>
    onModule i (nodModuleUnserializeTo machine.pool (.ofCode copyData))
  setObj fun w => { w with status := { w.status with curStatus := loaded } }

/-- The `WAVEFORM_LOAD` case of `nod_waveform_unserializeTo`. -/
def nodWaveformUnserializeLoad (machine : Machine) : Prog NodWaveform Unit := do
  let copyData ← readI
  getI fun n w => { w with id := n }
  nodWaveformUnserializeBody machine copyData

def nodWaveformUnserializeModuleMode : Prog NodWaveform Unit := do
  let id ← readI
  let w ← getThis
  match w.modules.findIdx? fun m => m.parent.id = id with
  | none => retErr
  | some j =>
    let mode ← readObj Image.moduleMode
    onModule j (setObj fun m => { m with parent := { m.parent with
      mode := { m.parent.mode with nextMode := mode.nextMode, nextTslot := mode.nextTslot } } })

def nodWaveformUnserializeTo (machine : Machine) (ops : StatusOps) :
    Prog NodWaveform Unit := do
  let action ← readI
  match SerializeAction.ofCode action with
  | .load => nodWaveformUnserializeLoad machine
  | .status =>
    let newStatus ← readObj Image.waveformStatus
    tryCatch (ops.statusNew newStatus) fun e =>
      match e with
      | .fault => fault
      | .ret => do
          tryCatch ops.statusStop fun e =>
            match e with
            | .fault => fault
            | .ret => pure ()
          retErr
  | .mode =>
    let nofModules ← readI
    (List.range nofModules.count).forM fun _ => nodWaveformUnserializeModuleMode
  | .other => pure ()

/-- `nod_waveform_serialize`: the modules, whole or only their `execinfo`. -/
def nodWaveformSerialize {σ : Type} (src : NodWaveform) (allModule : CInt)
    (copyData : SerializeData) : Prog σ Unit := do
  addI allModule
  addI (lengthI src.modules)
  src.modules.forM fun m => do
    addI m.parent.id
    if allModule = 0 then addObj Image.execInfo m.parent.execinfo
    else moduleSerialize copyData m.parent

end Aloe.Oesr
