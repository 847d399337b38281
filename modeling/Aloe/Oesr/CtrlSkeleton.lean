import Aloe.Lib.Intern
import Aloe.Oesr.CtrlPacket
import Aloe.Oesr.SkeletonInit

/-!
# The control skeleton

Model of `Init` of `skeleton/ctrl_skeleton.c`, with `skeleton/params.c` and the functions of
`oesr_api/oesr_context.c`, `oesr_api/oesr_var.c`, `oesr_api/oesr_itf.c` and `node/nod_module.c` it
calls, and of `nod_waveform_status_init_thread` for waveforms with modules of both skeletons.

Every call that gets to them fills the tables `remote_variables` and `outputs` from their start; a
table is the list of its used entries. No mode change is pending during the initialisation, and
memory for the values of new variables is there.
-/

namespace Aloe.Oesr.CtrlSkeleton

open Lib Oesr.Skeleton

/-! ## The data model -/

abbrev CString : Type := List Char

def maxVariables : ℕ := 200

/-- `MAX_OUTPUTS`. -/
def maxRemoteItf : ℕ := 100

/-- `remote_params_db_t`, without the value. -/
structure RemoteParam where
  moduleName : CString
  variableName : CString
  size : CInt

/-- What the library of a control module adds: the names of its local parameters; what the calls of
`ctrl_init` return, and the parameters they hand to `set_remote_params`; and what `delay` of
`init_remote_itf` holds before it is set. -/
structure Library where
  localParams : List CString
  ctrlInit : ℕ → ℤ × List RemoteParam
  delay : CInt

structure Part where
  module : Skeleton.Module
  name : CString
  curMode : Fin maxModes
  nofModes : ℕ
  control : Option Library

/-- `pm_addr_t`; `addr` is a place in `outputs`. -/
structure RemoteVariable where
  moduleIdx : ℕ
  variableIdx : ℕ
  addr : ℕ

/-- `mod_addr_t`; `itf` is the port that was opened, `none` for a null pointer. -/
structure RemoteItf where
  moduleIdx : ℕ
  itf : Option ℕ
deriving DecidableEq

/-- The static memory of a control module, with the calls of `ctrl_init` so far, and the node's
table of its outputs, whose delays it may set. -/
structure Memory where
  calls : ℕ
  remoteParamsDb : List RemoteParam
  remoteVariables : List RemoteVariable
  outputs : List RemoteItf
  localVariables : List ℕ
  nofOutputDataItf : CInt
  interfaces : List Skeleton.Interface

structure World where
  state : State
  /-- The variables of the modules. -/
  vars : ℕ → List Variable
  memory : ℕ → Memory

def World.modify (g : World) (i : ℕ) (f : Memory → Memory) : World :=
  { g with memory := Function.update g.memory i (f (g.memory i)) }

abbrev Prog : Type → Type := EStateM Exit World

def lift {α : Type} (p : Skeleton.Prog α) : Prog α := fun g =>
  match p g.state with
  | .ok a s => .ok a { g with state := s }
  | .error e s => .error e { g with state := s }

def returning (p : Prog ℤ) : Prog ℤ := fun g =>
  match p g with
  | .error (.ret n) g' => .ok n g'
  | r => r

def world : Prog World := fun g => .ok g g

def setMemory (i : ℕ) (f : Memory → Memory) : Prog Unit := fun g => .ok () (g.modify i f)

/-! ## Variables -/

def text (s : Str) : CString := (s.1.takeWhile (· ≠ 0)).map fun b => Char.ofNat b.toNat

def ofText (t : CString) : Str :=
  ⟨(t.map (fun c : Char => UInt8.ofNat c.toNat) ++ List.replicate strLen 0).take strLen, by simp⟩

/-- `strncat(dest,src,STR_LEN-1-strnlen(src,STR_LEN))`. The limit is computed from the string that
is appended; it is no limit for one of 64 characters or more. -/
def strncat (dest src : CString) : CString :=
  dest ++ src.take (if src.length < strLen then strLen - 1 - src.length else src.length)

def nodModuleVariableGet (vars : List Variable) (name : CString) : Option ℕ :=
  vars.findIdx? fun v => text v.name = name

def variableAlloc (v : Variable) (nofModes : ℕ) : Variable :=
  { v with
    initValue := Vector.ofFn fun i =>
      if i.val < nofModes then some (List.replicate v.size.toInt.toNat 0) else v.initValue.get i
    nofModes := BitVec.ofNat 32 nofModes }

/-- What `nod_module_variable_create` makes of the free variable at place `i`. -/
def fillVariable (i nofModes : ℕ) (name : CString) (size : CInt) (v : Variable) : Variable :=
  let v := if size = 0 then v else variableAlloc { v with size := size } nofModes
  { v with id := BitVec.ofNat 32 (i + 1), name := ofText (strncat (text v.name) name) }

/-- `nod_module_variable_create`: the index of the new variable, and the table. -/
def nodModuleVariableCreate (vars : List Variable) (nofModes : ℕ) (name : CString) (size : CInt) :
    Option (ℕ × List Variable) :=
  (vars.findIdx? fun v => v.id = 0).map fun i =>
    (i, vars.modify i (fillVariable i nofModes name size))

/-- A module whose variables are asked for. -/
structure Host where
  moduleIdx : ℕ
  nofModes : ℕ

/-- `oesr_var_param_create_remote`: the index of the new variable, and the table. The index of the
module is tested as a pointer is, so the first module is refused. -/
def oesrVarParamCreateRemote (host : Host) (vars : List Variable) (name : CString) (size : CInt) :
    Option ℕ × List Variable :=
  if host.moduleIdx = 0 ∨ size.toInt < 0 then (none, vars)
  else
    match nodModuleVariableCreate vars host.nofModes name size with
    | none => (none, vars)
    | some (i, vars) => (some i, vars)

/-- `param_get_int_name`: whether it returns 0, and the integer afterwards. A parameter of another
size or type leaves the integer and returns 0 all the same. -/
def paramGetIntName (vars : List Variable) (mode : Fin maxModes) (name : CString) (value : CInt) :
    Except Exit (Bool × CInt) :=
  match (nodModuleVariableGet vars name).bind (vars[·]?) with
  | none => .ok (false, value)
  | some v =>
    let cpySz := if (sizeofInt : ℤ) < v.size.toInt then (sizeofInt : ℤ) else v.size.toInt
    -- a null pointer has no bytes to copy
    let block := (v.initValue.get mode).getD []
    if cpySz < 0 ∨ (block.length : ℤ) < cpySz then .error .fault
    else if cpySz = sizeofInt ∧ v.type = 0 then .ok (true, cint.dec (block.take sizeofInt))
    else .ok (true, value)

variable (runtime : Skeleton.Runtime) (parts : List Part) (i : ℕ) (part : Part) (lib : Library)

/-- `param_get_int_name`, called by module `i`. -/
def paramGetInt (name : CString) (value : CInt) : Prog (Bool × CInt) := fun g =>
  match paramGetIntName (g.vars i) part.curMode name value with
  | .ok r => .ok r g
  | .error e => .error e g

/-! ## Remote variables -/

def setRemoteParams (db params : List RemoteParam) : List RemoteParam :=
  db ++ params.take (maxVariables - db.length)

def oesrGetModuleIdx (name : CString) : Option ℕ := parts.findIdx? fun p => p.name = name

/-- The call of `oesr_var_param_create_remote` for module `k`. -/
def createRemoteVariable (k : ℕ) (name : CString) (size : CInt) : Prog (Option ℕ) := fun g =>
  match parts[k]? with
  | none => .error .fault g
  | some his =>
    let r := oesrVarParamCreateRemote ⟨k, his.nofModes⟩ (g.vars k) name size
    .ok r.1 { g with vars := Function.update g.vars k r.2 }

/-- A turn of `init_remote_variables`: the indices of the module and of the variable, which is
created if it is not there. -/
def initRemoteVariable (p : RemoteParam) : Prog (ℕ × ℕ) := do
  match oesrGetModuleIdx parts p.moduleName with
  | none => throw (.ret (-1))
  | some k =>
    match nodModuleVariableGet ((← world).vars k) p.variableName with
    | some j => return (k, j)
    | none =>
      match ← createRemoteVariable parts k p.variableName p.size with
      | none => throw (.ret (-1))
      | some j => return (k, j)

def initRemoteVariables (db : List RemoteParam) : Prog (List (ℕ × ℕ)) :=
  db.mapM (initRemoteVariable parts)

/-- `scan_remote_itf`: every module that is addressed gets a place in `outputs`. -/
def scanRemoteItf (vars : List (ℕ × ℕ)) : Option (List RemoteVariable × List RemoteItf) :=
  (internAll maxRemoteItf [] (vars.map Prod.fst)).map fun r =>
    (List.zipWith (fun v addr => ⟨v.1, v.2, addr⟩) vars r.1, r.2.map fun k => ⟨k, none⟩)

def initLocalVariables : Prog (List ℕ) :=
  (lib.localParams.take maxVariables).mapM fun name => do
    match nodModuleVariableGet ((← world).vars i) name with
    | none => throw (.ret (-1))
    | some j => return j

/-! ## Remote interfaces -/

/-- `oesr_itf_delay_set` for an output: whether it returns 0. An output without a delay keeps
none. -/
def oesrItfDelaySet (port : ℕ) (delay : CInt) : Prog Bool := fun g =>
  match (g.memory i).interfaces[port]? with
  | none => .ok false { g with state := g.state.setError i .notFound }
  | some itf =>
    if itf.delay = -1 then .ok true g
    else
      .ok true (g.modify i fun mem =>
        { mem with interfaces := mem.interfaces.set port { itf with delay := delay.toInt } })

/-- `snprintf(tmp,64,"delay_%s",name)`. -/
def delayName (name : CString) : CString := ("delay_".toList ++ name).take (strLen - 1)

/-- The delay that a parameter sets for the module with index `k`. -/
def initDelay (db : List RemoteParam) (vars : List RemoteVariable) (k port : ℕ) (delay : CInt) :
    Prog CInt := do
  match (vars.findIdx? fun v => v.moduleIdx = k).bind (db[·]?) with
  | none => return delay
  | some p =>
    let (found, delay) ← paramGetInt i part (delayName p.moduleName) delay
    if found then
      if ← oesrItfDelaySet i port delay then return delay else throw (.ret (-1))
    else return delay

def remotePort (module : Skeleton.Module) (nofOutputDataItf : CInt) (k : ℕ) : ℤ :=
  k - module.id + nofOutputDataItf.toInt

/-- A turn of `init_remote_itf`: the entry of `outputs`, and `delay`, which lives on. -/
def initRemoteItf (db : List RemoteParam) (vars : List RemoteVariable) (nofOutputDataItf : CInt)
    (delay : CInt) (out : RemoteItf) : Prog (CInt × RemoteItf) := do
  let port := remotePort part.module nofOutputDataItf out.moduleIdx
  if port < 0 then throw (.ret (-1))
  else
    let delay ← initDelay i part db vars out.moduleIdx port.toNat delay
    let module := { part.module with outputs := ((← world).memory i).interfaces }
    let created ← lift (oesrItfCreate runtime (parts.map Part.module) i module port.toNat .write
      Ctrl.sizeofCtrlInPkt)
    if created then return (delay, ⟨out.moduleIdx, some port.toNat⟩)
    else if ((← world).state.modules i).error = .notFound then return (delay, ⟨out.moduleIdx, none⟩)
    else throw (.ret (-1))

def initRemoteItfs (db : List RemoteParam) (vars : List RemoteVariable)
    (nofOutputDataItf : CInt) : (delay : CInt) → List RemoteItf → Prog (List RemoteItf)
  | _, [] => return []
  | delay, out :: outs => do
      let (delay, out) ← initRemoteItf runtime parts i part db vars nofOutputDataItf delay out
      return out :: (← initRemoteItfs db vars nofOutputDataItf delay outs)

/-! ## Initialisation -/

def callCtrlInit : Prog ℤ := do
  let (n, params) := lib.ctrlInit ((← world).memory i).calls
  setMemory i fun mem => { mem with
    calls := mem.calls + 1
    remoteParamsDb := setRemoteParams mem.remoteParamsDb params }
  return n

def initMemory : Prog Unit :=
  setMemory i fun mem => { mem with outputs := [], remoteVariables := [], localVariables := [] }

def createCtrlInput : Skeleton.Prog Bool :=
  oesrItfCreate runtime (parts.map Part.module) i part.module 0 .read Ctrl.sizeofCtrlInPkt

/-- `init_ctrl_input`, and what `Init` makes of it: only an input that is not ready is waited for.
-/
def initCtrlInput : Prog Unit := do
  let created ← lift (createCtrlInput runtime parts i part)
  lift (setModule i fun ms => { ms with ctrlIn := created })
  if created = false ∧ ((← world).state.modules i).error = .notReady then throw (.ret 0)
  else pure ()

def initRemote : Prog ℤ := do
  let (_, nofOutputDataItf) ← paramGetInt i part "nof_output_data_itf".toList 0
  setMemory i fun mem => { mem with nofOutputDataItf := nofOutputDataItf }
  let db := ((← world).memory i).remoteParamsDb
  let vars ← initRemoteVariables parts db
  match scanRemoteItf vars with
  | none => throw (.ret (-1))
  | some (vars, outs) =>
    setMemory i fun mem => { mem with remoteVariables := vars, outputs := outs }
    let locals ← initLocalVariables i lib
    setMemory i fun mem => { mem with localVariables := locals }
    let outs ← initRemoteItfs runtime parts i part db vars nofOutputDataItf lib.delay outs
    setMemory i fun mem => { mem with outputs := outs }
    return 1

/-- What `Init` does when `ctrl_init` has returned and the tables are cleared. -/
def connect : Prog ℤ := do
  lift (setModule i fun ms => { ms with ctrlIn := false })
  initCtrlInput runtime parts i part
  initRemote runtime parts i part lib

def init : Prog ℤ := returning do
  let n ← callCtrlInit i lib
  if n = -1 then throw (.ret (-1))
  else if n = 0 then throw (.ret 0)
  else
    initMemory i
    connect runtime parts i part lib

def callInit : Prog ℤ := do
  lift (setModule i fun ms => { ms with changingStatus := true })
  let n ← init runtime parts i part lib
  if n < 0 then return -1
  else if n = 0 then return 0
  else
    lift (setModule i fun ms => { ms with changingStatus := false, status := .init })
    return 1

def nodModuleInit : Prog ℤ :=
  match part.control with
  | none => lift (Skeleton.nodModuleInit runtime (parts.map Part.module) i part.module)
  | some lib => if part.module.registered then callInit runtime parts i part lib else return -1

def initJobs : Poll Exit World where
  number := parts.length
  rounds := 3
  isDone := fun i g => (g.state.modules i).status = .init
  attempt := fun i =>
    match parts[i]? with
    | none => throw .fault
    | some part => answerOf <$> nodModuleInit runtime parts i part

def nodWaveformStatusInitThread : Prog Bool := do
  return (← (initJobs runtime parts).loop (3 * parts.length) 0 0 0).getD false

end Aloe.Oesr.CtrlSkeleton
