import Aloe.Lib.Poll
import Aloe.Oesr.RunCycle
import Aloe.Rtdal.Itfspscq

/-!
# The initialisation of a waveform

Model of `nod_waveform_status_init_thread` of `oesr/src/node/nod_waveform.c`, down to `_call_init`
(`oesr_api_static/oesr_static.c`), `Init` and `init_interfaces` (`skeleton/skeleton.c`) and
`oesr_itf_create` (`oesr_api/oesr_itf.c`).

What the initialisation only reads is the `Waveform`; what it writes, fields of the node as well
as the static memory of the modules' libraries, is the `State`. `rtdal_process_launch` loads a
copy of the library for each process, so every module has its static memory for itself. The
skeleton declares no variables (`nof_vars` is 0 whenever `init_variables` reads it) and is
compiled without `USE_LOG`.
-/

namespace Aloe.Oesr.Skeleton

open Lib Rtdal Function

/-! ## The waveform -/

def maxInputs : ℕ := 30

def maxOutputs : ℕ := 30

/-- `OESR_ITF_DEFAULT_MSG`. -/
def itfDefaultMsg : ℤ := 4

def ctrlInBufferSz : ℕ := 88

/-- `interface_t`, without its `hw_itf`. -/
structure Interface where
  remoteModuleId : ℤ
  remotePortIdx : ℤ
  physicItfId : ℤ
  delay : ℤ
deriving DecidableEq

/-- `nod_module_t` with what its library is compiled with: the numbers of its interfaces, the
sizes of their packets, and what the calls of `initialize` return, in their order. -/
structure Module where
  id : ℤ
  inputs : List Interface
  outputs : List Interface
  /-- `init` is not null: `_run_cycle` has acknowledged the load. -/
  registered : Bool
  nofInputItf : ℕ
  nofOutputItf : ℕ
  inputSize : ℕ
  outputSize : ℕ
  initializeValue : ℕ → ℤ

abbrev Waveform : Type := List Module

/-- `oesr_itf_mode_t`. -/
inductive ItfMode where
  | write
  | read

def Module.ports (m : Module) : ItfMode → List Interface
  | .write => m.outputs
  | .read => m.inputs

/-- `nod_waveform_find_module_id`: the first module with the id, and its place. -/
def nodWaveformFindModuleId (w : Waveform) (id : ℤ) : Option (Module × ℕ) :=
  w.zipIdx.find? fun r => r.1.id = id

/-! ## The state -/

/-- The codes of `oesr_error_code` that the initialisation sets. -/
inductive ErrorCode where
  | noError
  | rtdal
  | notFound
  | modNotFound
  | notReady
deriving DecidableEq

/-- An `r_itf_t` that is not null: a queue, by the order of creation, or a physical interface. -/
inductive Handle where
  | queue (number : ℕ)
  | physic (id : ℤ)
deriving DecidableEq

/-- A module: its fields at the node with the `hw_itf` of its ports, its error code, and the
static memory of its library, where of a pointer only matters whether it is null. -/
structure ModuleState where
  status : Exec.Status
  changingStatus : Bool
  hwInput : ℕ → Option Handle
  hwOutput : ℕ → Option Handle
  error : ErrorCode
  /-- The calls of `initialize` so far. -/
  calls : ℕ
  memOk : Bool
  checkOk : Bool
  inputs : ℕ → Bool
  outputs : ℕ → Bool
  ctrlIn : Bool

structure State where
  modules : ℕ → ModuleState
  queues : List Itfspscq.Itf

/-- All modules are just loaded. -/
def loadedState : State where
  modules := fun _ => ⟨.loaded, false, fun _ => none, fun _ => none, .noError, 0, false, false,
    fun _ => false, fun _ => false, false⟩
  queues := []

namespace State

def modify (s : State) (i : ℕ) (f : ModuleState → ModuleState) : State :=
  { s with modules := update s.modules i (f (s.modules i)) }

def setError (s : State) (i : ℕ) (code : ErrorCode) : State :=
  s.modify i fun ms => { ms with error := code }

/-- Sets the `hw_itf` of a port. -/
def plug (s : State) (i : ℕ) (mode : ItfMode) (port : ℕ) (hw : Option Handle) : State :=
  s.modify i fun ms =>
    match mode with
    | .write => { ms with hwOutput := update ms.hwOutput port hw }
    | .read => { ms with hwInput := update ms.hwInput port hw }

end State

/-- How a function ends before its last line: by `return`, or by a read past an array. -/
inductive Exit where
  | ret (n : ℤ)
  | fault

abbrev Prog : Type → Type := EStateM Exit State

def moduleState (i : ℕ) : Prog ModuleState := fun s => .ok (s.modules i) s

def setModule (i : ℕ) (f : ModuleState → ModuleState) : Prog Unit := fun s => .ok () (s.modify i f)

def returning (p : Prog ℤ) : Prog ℤ := fun s =>
  match p s with
  | .error (.ret n) s' => .ok n s'
  | r => r

structure Runtime where
  itfspscqNew : ℕ → Bool
  itfphysicGetId : ℤ → Bool

/-! ## Interfaces -/

def nofMsg (delay : ℤ) (size : ℕ) : ℕ :=
  if 0 ≤ delay then
    if size < 4096 then (itfDefaultMsg * (delay + 1) + 128).toNat
    else (itfDefaultMsg * (delay + 1)).toNat
  else 64

def newQueue (itf : Interface) (size : ℕ) : Itfspscq.Itf :=
  Itfspscq.new (nofMsg itf.delay size) size itf.delay

variable (runtime : Runtime) (w : Waveform) (i : ℕ) (m : Module)

/-- `oesr_itf_create` for module `i`: whether the handle is not null. -/
def oesrItfCreate (port : ℕ) (mode : ItfMode) (size : ℕ) : Prog Bool := fun s =>
  match (m.ports mode)[port]? with
  | none => .ok false (s.setError i .notFound)
  | some itf =>
    if itf.physicItfId ≠ 0 then
      if runtime.itfphysicGetId itf.physicItfId then
        .ok true (s.plug i mode port (some (.physic itf.physicItfId)))
      else
        -- the error is noted, and the null pointer stored
        .ok true ((s.setError i .rtdal).plug i mode port none)
    else
      match mode with
      | .write =>
        if runtime.itfspscqNew s.queues.length then
          .ok true ({ s with queues := s.queues ++ [newQueue itf size] }.plug i .write port
            (some (.queue s.queues.length)))
        else .ok false (s.setError i .rtdal)
      | .read =>
        match nodWaveformFindModuleId w itf.remoteModuleId with
        | none => .ok false (s.setError i .modNotFound)
        | some (remote, k) =>
          if (remote.outputs.length : ℤ) < itf.remotePortIdx then
            .ok false (s.setError i .notFound)
          else if 0 ≤ itf.remotePortIdx ∧ itf.remotePortIdx < remote.outputs.length then
            match (s.modules k).hwOutput itf.remotePortIdx.toNat with
            | none => .ok false (s.setError i .notReady)
            | some hw => .ok true (s.plug i .read port (some hw))
          else .error .fault s

/-- The first loop of `init_interfaces`. -/
def initOutput (port : ℕ) : Prog Unit := do
  let ms ← moduleState i
  if ms.outputs port then pure ()
  else
    let created ← oesrItfCreate runtime w i m port .write m.outputSize
    setModule i fun ms => { ms with outputs := update ms.outputs port created }
    let ms ← moduleState i
    if created ∨ ms.error = .notFound then pure () else throw (.ret (-1))

/-- The control interface of `init_interfaces`: it is not missed when it is not ready. -/
def initCtrl : Prog Unit := do
  let ms ← moduleState i
  if m.nofInputItf < m.inputs.length ∧ ms.ctrlIn = false then
    let created ← oesrItfCreate runtime w i m (m.inputs.length - 1) .read ctrlInBufferSz
    setModule i fun ms => { ms with ctrlIn := created }
  else pure ()

/-- The last loop of `init_interfaces`. -/
def initInput (port : ℕ) : Prog Unit := do
  let ms ← moduleState i
  if ms.inputs port then pure ()
  else
    let created ← oesrItfCreate runtime w i m port .read m.inputSize
    setModule i fun ms => { ms with inputs := update ms.inputs port created }
    let ms ← moduleState i
    if created then pure ()
    else if ms.error = .notReady then throw (.ret 0)
    else throw (.ret (-1))

def initInterfaces : Prog ℤ := do
  (List.range m.nofOutputItf).forM (initOutput runtime w i m)
  initCtrl runtime w i m
  (List.range m.nofInputItf).forM (initInput runtime w i m)
  return 1

/-! ## A module -/

/-- `init_memory`, in the first call of `Init`. -/
def initMemory : Prog Unit := setModule i fun ms =>
  if ms.memOk then ms
  else { ms with
    inputs := fun _ => false, outputs := fun _ => false, ctrlIn := false, memOk := true }

def callInitialize : Prog Unit := do
  let ms ← moduleState i
  setModule i fun ms => { ms with calls := ms.calls + 1 }
  if m.initializeValue ms.calls = 0 then pure () else throw (.ret (-1))

/-- `check_configuration`, until it has passed. -/
def checkConfiguration : Prog Unit := do
  let ms ← moduleState i
  if ms.checkOk then pure ()
  else if maxInputs < m.nofInputItf ∨ maxOutputs < m.nofOutputItf then throw (.ret (-1))
  else setModule i fun ms => { ms with checkOk := true }

def init : Prog ℤ := returning do
  initMemory i
  callInitialize i m
  checkConfiguration i m
  initInterfaces runtime w i m

def callInit : Prog ℤ := do
  setModule i fun ms => { ms with changingStatus := true }
  let n ← init runtime w i m
  if n < 0 then return -1
  else if n = 0 then return 0
  else
    setModule i fun ms => { ms with changingStatus := false, status := .init }
    return 1

def nodModuleInit : Prog ℤ := if m.registered then callInit runtime w i m else return -1

/-! ## The thread -/

def answerOf (n : ℤ) : Attempt := if n < 0 then .fails else if n = 0 then .again else .done

def initJobs : Poll Exit State where
  number := w.length
  rounds := 3
  isDone := fun i s => (s.modules i).status = .init
  attempt := fun i =>
    match w[i]? with
    | none => throw .fault
    | some m => answerOf <$> nodModuleInit runtime w i m

/-- `nod_waveform_status_init_thread`, cut off after that many passes over the modules: whether
it has returned success. `none` if it is still running. -/
def initPasses (passes : ℕ) : Prog (Option Bool) :=
  (initJobs runtime w).loop (passes * w.length) 0 0 0

def nodWaveformStatusInitThread : Prog Bool := do
  return (← initPasses runtime w 3).getD false

end Aloe.Oesr.Skeleton
