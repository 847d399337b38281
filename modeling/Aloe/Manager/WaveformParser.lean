import Mathlib.Algebra.Ring.Int.Defs
import Mathlib.Data.Rat.Defs

/-!
# The waveform parser

Model of `oesr/src/manager/man_waveform_parser.c`, with `waveform_alloc` and
`waveform_find_module_name` of `common/waveform.c`. A parsing function either yields
the waveform it has filled or stops: with an error return, or with a fault where the
source follows a null pointer or leaves an array. Allocations succeed.

A file is the tree of settings that libconfig, which is not part of the repository, reads
from it; its numbers are kept as they are, without rounding to a `float`. Strings stand in
arrays of `STR_LEN` bytes, where the redefined `strcpy` and `strcmp` stop.
-/

namespace Aloe.Manager

abbrev CStr : Type := List Char

inductive Setting where
  | int (n : ℤ)
  | float (x : ℚ)
  | bool (b : Bool)
  | string (s : CStr)
  | array (elems : List Setting)
  | list (elems : List Setting)
  | group (members : List (CStr × Setting))

namespace Setting

def parts : Setting → List (Option CStr × Setting)
  | array elems => elems.map fun s => (none, s)
  | list elems => elems.map fun s => (none, s)
  | group members => members.map fun (name, s) => (some name, s)
  | _ => []

/-- `config_setting_length`: 0 for a scalar. -/
def length (s : Setting) : ℕ := s.parts.length

def elem (s : Setting) (i : ℕ) : Option Setting := (s.parts[i]?).map (·.2)

/-- `config_setting_get_member`, and `config_lookup` of a name at the root. -/
def member (s : Setting) (name : String) : Option Setting :=
  match s with
  | group members => (members.find? fun m => m.1 = name.toList).map (·.2)
  | _ => none

/-- `config_setting_get_int`: 0 where there is no integer. -/
def getInt : Setting → ℤ
  | int n => n
  | _ => 0

/-- `config_setting_get_float`: 0 where there is no floating-point number. -/
def getFloat : Setting → ℚ
  | float x => x
  | _ => 0

def getString : Setting → Option CStr
  | string s => some s
  | _ => none

def stringElem (s : Setting) (i : ℕ) : Option CStr := (s.elem i).bind getString

def intElem (s : Setting) (i : ℕ) : ℤ := ((s.elem i).map getInt).getD 0

def floatElem (s : Setting) (i : ℕ) : ℚ := ((s.elem i).map getFloat).getD 0

def lookupInt (s : Setting) (name : String) : Option ℤ :=
  match s.member name with
  | some (int n) => some n
  | _ => none

def lookupFloat (s : Setting) (name : String) : Option ℚ :=
  match s.member name with
  | some (float x) => some x
  | _ => none

def lookupBool (s : Setting) (name : String) : Option Bool :=
  match s.member name with
  | some (bool b) => some b
  | _ => none

def lookupString (s : Setting) (name : String) : Option CStr := (s.member name).bind getString

end Setting

def strLen : ℕ := 64

/-- `MAX(modes)`. -/
def maxModes : ℕ := 25

def itfPrealloc : ℕ := 100

inductive Stop where
  | error
  | fault
  | fuel
deriving DecidableEq, Repr

/-! ## The waveform being parsed -/

inductive Value where
  | ints (ns : List ℤ)
  | floats (xs : List ℚ)
  | text (s : CStr)
deriving DecidableEq

/-- `variable_t` as far as the parser fills it. -/
structure Var where
  id : ℕ
  name : CStr
  size : ℕ
  initValue : Vector (Option Value) maxModes
deriving DecidableEq

/-- `interface_t` as far as the parser fills it. -/
structure Port where
  id : ℤ
  remoteModuleId : ℤ
  remotePortIdx : ℤ
  totalMbpts : ℚ
  delay : ℤ
  logEnable : Bool
deriving DecidableEq

def Port.zero : Port := ⟨0, 0, 0, 0, 0, false⟩

/-- `module_t`; a port table is null until the module is read. -/
structure PModule where
  name : CStr
  binary : CStr
  cMopts : Vector ℚ maxModes
  logEnable : ℕ
  vars : List Var
  id : ℕ
  index : ℕ
  nofModes : ℕ
  inputs : Option (List Port)
  outputs : Option (List Port)
  nofInputs : ℕ
  nofOutputs : ℕ
deriving DecidableEq

def PModule.zero : PModule :=
  ⟨[], [], Vector.replicate maxModes 0, 0, [], 0, 0, 0, none, none, 0, 0⟩

/-- An interface entry as it was resolved: the module at each end, `none` for the
ends of the model itself (`_input`, `_output`), and the ports. -/
structure Link where
  src : Option ℕ
  srcPort : ℕ
  dest : Option ℕ
  destPort : ℕ
deriving DecidableEq, Repr

/-- `waveform_t`. `links` holds the entries read so far, the newest first; the source
keeps no such list. -/
structure PWaveform where
  id : ℕ
  modules : List PModule
  modes : List (CStr × CStr)
  stages : List (List ℕ)
  nofParsedModules : ℕ
  modelFile : CStr
  namePrefix : CStr
  granularityUs : ℤ
  precachPipeline : Bool
  autoCtrlModule : Option ℕ
  links : List Link
deriving DecidableEq

/-- What the parser takes from outside: the files, the next waveform id, and what
stands in memory that `realloc` adds. -/
structure Env where
  files : CStr → Option Setting
  waveformId : ℕ
  junk : Port

/-- A model with these modules (name, field and value), interfaces and further members. -/
def Setting.model (modules : List (String × String × String)) (ends : List (String × String))
    (rest : List (CStr × Setting)) : Setting :=
  let text (s : String) : Setting := .string s.toList
  .group ([
    ("modules".toList, .group (modules.map fun (name, field, value) =>
      (name.toList, .group [(field.toList, text value)]))),
    ("interfaces".toList, .list (ends.map fun (src, dest) =>
      .group [("src".toList, text src), ("dest".toList, text dest)]))] ++ rest)

/-! ## Strings -/

/-- `strcpy` into an array of `STR_LEN` bytes. -/
def strcpy (s : CStr) : CStr := s.take strLen

/-- `strcmp(a,b) == 0`. -/
def strEq (a b : CStr) : Bool := a.take strLen = b.take strLen

/-- `snprintf` into an array of `STR_LEN` bytes. -/
def snprintf (s : CStr) : CStr := s.take (strLen - 1)

def withPrefix (w : PWaveform) (name : CStr) : Except Stop CStr :=
  if strLen ≤ w.namePrefix.length then throw .fault
  else return snprintf (w.namePrefix ++ '_' :: name)

/-- `!strncmp(stored,name,strlen(name))`; past a full array it runs into other memory. -/
def startsWith (stored name : CStr) : Except Stop Bool :=
  if name.length ≤ strLen then return name.isPrefixOf stored
  else if strLen ≤ stored.length ∧ stored.isPrefixOf name then throw .fault
  else return false

/-! ## Variables -/

def findMode (w : PWaveform) (name : CStr) : Option ℕ := w.modes.findIdx? fun m => strEq m.1 name

/-- `check_and_set_size`, then the value of mode `idx`. -/
def setValue (v : Var) (idx size : ℕ) (value : Value) : Except Stop Var :=
  if v.size ≠ 0 ∧ v.size ≠ size then throw .error
  else if h : idx < maxModes then
    return { v with size := size, initValue := v.initValue.set idx (some value) }
  else throw .fault

def readVariableValue (value : Setting) (v : Var) (idx : ℕ) : Except Stop Var :=
  match value with
  | .int n => setValue v idx 4 (.ints [n])
  | .float x => setValue v idx 4 (.floats [x])
  | .string s => setValue v idx strLen (.text (s.take strLen))
  | .array elems =>
    match elems with
    | [] => throw .fault
    | .int _ :: _ => setValue v idx (elems.length * 4) (.ints (elems.map Setting.getInt))
    | .float _ :: _ => setValue v idx (elems.length * 4) (.floats (elems.map Setting.getFloat))
    | _ => throw .error
  | _ => throw .error

def readVariableMode (w : PWaveform) (v : Var) (modevalue : Setting) : Except Stop Var := do
  match modevalue.stringElem 0 with
  | none => throw .error
  | some name =>
    match findMode w name with
    | none => throw .error
    | some m =>
      match modevalue.elem 1 with
      | none => throw .error
      | some value => readVariableValue value v m

def readVariable (w : PWaveform) (cfg : Setting) : Except Stop Var := do
  match cfg.lookupString "name" with
  | none => throw .error
  | some name =>
    let v : Var := ⟨0, strcpy name, 0, Vector.replicate maxModes none⟩
    match cfg.member "value" with
    | none => throw .error
    | some value =>
      if value.length ≤ 1 then
        let single := (value.elem 0).getD value
        (List.range w.modes.length).foldlM (readVariableValue single) v
      else if value.length ≠ w.modes.length then throw .error
      else (value.parts.map (·.2)).foldlM (readVariableMode w) v

/-- `read_variables`: the variables up to the end of the list, or none of them when one
cannot be read. -/
def readVariables (w : PWaveform) (cfg : Setting) : Except Stop (List Var) :=
  match cfg.member "variables" with
  | none => return []
  | some vars =>
    match (vars.parts.map (·.2)).mapM (readVariable w) with
    | .ok vs => return vs.mapIdx fun i v => { v with id := i + 1 }
    | .error .error => return []
    | .error e => throw e

/-! ## Interfaces -/

/-- `waveform_find_module_name`: the index of the first module with the name. -/
def findModuleName (w : PWaveform) (name : CStr) : Option ℕ :=
  w.modules.findIdx? fun m => strEq m.name name

/-- The port loop of `waveform_find_module_name_inputport` and `_outputport`, from port
`j` on with so many rounds left. -/
def scanPorts (ports : List Port) (remote : ℤ) : (left j : ℕ) → Except Stop (Option ℕ)
  | 0, _ => return none
  | left + 1, j =>
    match ports[j]? with
    | none => throw .fault
    | some port =>
      if port.remoteModuleId = remote then return some j
      else scanPorts ports remote left (j + 1)

/-- The module loop of the two functions, over the modules from index `i` on. Both
scan as many ports as the module has inputs. -/
def findSubPort (table : PModule → Option (List Port)) (name : CStr) (port : ℕ) :
    List PModule → ℕ → Except Stop (Option (ℕ × ℕ))
  | [], _ => return none
  | m :: ms, i => do
      if ← startsWith m.name name then
        match ← scanPorts ((table m).getD []) (-((port : ℤ) + 1)) m.nofInputs 0 with
        | some j => return some (i, j)
        | none => findSubPort table name port ms (i + 1)
      else findSubPort table name port ms (i + 1)

def readInterfacePair (cfg : Setting) : Option (CStr × ℤ) :=
  match cfg.length with
  | 0 => cfg.getString.map fun name => (name, 0)
  | 1 => (cfg.stringElem 0).map fun name => (name, 0)
  | 2 => (cfg.stringElem 0).map fun name => (name, cfg.intElem 1)
  | _ => none

/-- `read_interface_mod_itf`: the module and port that an end of an interface names. A
name that is no module's is that of an included model. -/
def readInterfaceModItf (w : PWaveform) (cfg : Setting) (isInput : Bool) :
    Except Stop (Option ℕ × ℕ) := do
  match readInterfacePair cfg with
  | none => throw .error
  | some (name, port) =>
    if port < 0 then throw .error
    else if strEq name "_input".toList || strEq name "_output".toList then
      return (none, port.toNat)
    else
      let full ← if w.namePrefix = [] then pure name else withPrefix w name
      match findModuleName w full with
      | some i => return (some i, port.toNat)
      | none =>
        let table := if isInput then PModule.outputs else PModule.inputs
        match ← findSubPort table name port.toNat w.modules 0 with
        | none => throw .error
        | some (i, j) => return (some i, j)

def moduleAt (w : PWaveform) (i : ℕ) : Except Stop PModule :=
  match w.modules[i]? with
  | none => throw .fault
  | some m => return m

def portAt (table : Option (List Port)) (p : ℕ) : Except Stop Port :=
  match table.bind (·[p]?) with
  | none => throw .fault
  | some port => return port

def setModule (w : PWaveform) (i : ℕ) (m : PModule) : PWaveform :=
  { w with modules := w.modules.set i m }

/-- What the other end is called in a port: the id of its module, or a negative number
for a port of the model itself. -/
def remoteId (w : PWaveform) (module : Option ℕ) (port : ℕ) : Except Stop ℤ :=
  match module with
  | none => return -((port : ℤ) + 1)
  | some i => do
      let m ← moduleAt w i
      return m.id

def Port.attributes (port : Port) (cfg : Setting) : Port :=
  { port with
    totalMbpts := (cfg.lookupFloat "mbpts").getD 1
    delay := (cfg.lookupInt "delay").getD (-1)
    logEnable := (cfg.lookupBool "log").getD false }

/-- The part of `read_interface` on the source end: the output port now leads to the
destination, whatever it led to before. -/
def connectSource (w : PWaveform) (cfg : Setting) (l : Link) : Except Stop PWaveform :=
  match l.src with
  | none => return w
  | some i => do
      let m ← moduleAt w i
      let port ← portAt m.outputs l.srcPort
      let remote ← remoteId w l.dest l.destPort
      let port' := { port.attributes cfg with
        remoteModuleId := remote, remotePortIdx := l.destPort }
      return setModule w i { m with
        nofOutputs := if 0 ≤ port.remoteModuleId then m.nofOutputs + 1 else m.nofOutputs
        outputs := m.outputs.map fun ports => ports.set l.srcPort port' }

/-- The part of `read_interface` on the destination end: an input port that a module
feeds already is refused. -/
def connectDest (w : PWaveform) (cfg : Setting) (l : Link) : Except Stop PWaveform :=
  match l.dest with
  | none => return w
  | some k => do
      let m ← moduleAt w k
      let port ← portAt m.inputs l.destPort
      if 0 < port.remoteModuleId then throw .error
      else
        let remote ← remoteId w l.src l.srcPort
        let port' := { (if l.src.isSome then port.attributes cfg else port) with
          remoteModuleId := remote, remotePortIdx := l.srcPort }
        return setModule w k { m with
          nofInputs := if 0 ≤ port.remoteModuleId then m.nofInputs + 1 else m.nofInputs
          inputs := m.inputs.map fun ports => ports.set l.destPort port' }

def resolveLink (w : PWaveform) (cfg : Setting) : Except Stop Link := do
  match cfg.member "src", cfg.member "dest" with
  | some srcCfg, some destCfg =>
    let (src, srcPort) ← readInterfaceModItf w srcCfg true
    let srcPort := if w.autoCtrlModule.isSome then srcPort + 1 else srcPort
    if itfPrealloc < srcPort then throw .error
    else
      let (dest, destPort) ← readInterfaceModItf w destCfg false
      let destPort ← match dest with
        | some k =>
          if w.autoCtrlModule = some k then do
            let m ← moduleAt w k
            pure (destPort + m.nofOutputs)
          else pure destPort
        | none => pure destPort
      if itfPrealloc < destPort then throw .error
      else return ⟨src, srcPort, dest, destPort⟩
  | _, _ => throw .error

def readInterface (w : PWaveform) (cfg : Setting) : Except Stop PWaveform := do
  let l ← resolveLink w cfg
  let w ← connectSource w cfg l
  let w ← connectDest w cfg l
  return { w with links := l :: w.links }

/-! ## Modules -/

/-- The name of a module or of an included model: the name of its setting, after the
prefix of the model that includes it and before its instance number. -/
def moduleName (w : PWaveform) (name : CStr) (inst : Option ℕ) : Except Stop CStr :=
  match inst with
  | some j =>
    let numbered := name ++ '_' :: Nat.toDigits 10 j
    if w.namePrefix = [] then return snprintf numbered else withPrefix w numbered
  | none => if w.namePrefix = [] then return strcpy name else withPrefix w name

def readMoptsMode (w : PWaveform) (mopts : Vector ℚ maxModes) (cfg : Setting) :
    Except Stop (Vector ℚ maxModes) :=
  match (cfg.stringElem 0).bind (findMode w) with
  | none => throw .error
  | some i =>
    if h : i < maxModes then return mopts.set i (cfg.floatElem 1) else throw .fault

/-- The `mopts` of a module: one number for all modes, or a list with one for each. -/
def readMopts (w : PWaveform) (cfg : Setting) (mopts : Vector ℚ maxModes) :
    Except Stop (Vector ℚ maxModes) :=
  let all (x : ℚ) : Vector ℚ maxModes :=
    Vector.ofFn fun i => if i.val < w.modes.length then x else mopts[i.val]
  match cfg.member "mopts" with
  | none => return all (1 / 10)
  | some (.int n) => return all n
  | some (.float x) => return all x
  | some list =>
    if list.length ≠ w.modes.length then throw .error
    else (list.parts.map (·.2)).foldlM (readMoptsMode w) mopts

def readLogEnable (cfg : Setting) : ℕ :=
  let log := (cfg.lookupBool "log").getD false
  let time := (cfg.lookupBool "log_time").getD log
  (if log then 1 else 0) + (if time then 2 else 0)

/-- The part of `read_module` for a module that has a binary, in the slot with index
`i`. -/
def readBinary (w : PWaveform) (cfg : Setting) (name : CStr) (i : ℕ) :
    Except Stop PWaveform := do
  match cfg.lookupString "binary" with
  | none => throw .error
  | some binary =>
    let m ← moduleAt w i
    let mopts ← readMopts w cfg m.cMopts
    let vars ← readVariables w cfg
    let m' : PModule := { m with
      name := name
      binary := strcpy binary
      cMopts := mopts
      logEnable := readLogEnable cfg
      vars := vars
      inputs := some (List.replicate (itfPrealloc + 1) Port.zero)
      outputs := some (List.replicate itfPrealloc Port.zero)
      id := w.nofParsedModules + 1
      index := w.nofParsedModules
      nofModes := w.modes.length }
    return { setModule w i m' with nofParsedModules := w.nofParsedModules + 1 }

/-- The name goes into the slot of the next module also for an included model. Behind the last
binary of a model this slot is past the modules. -/
def nameSlot (w : PWaveform) (slot : Option ℕ) (full : CStr) : Except Stop PWaveform :=
  match slot with
  | none => return w
  | some i => do
      let m ← moduleAt w i
      return setModule w i { m with name := full }

/-- `read_module`; `parseSub` is `waveform_parse`. -/
def readModule (parseSub : PWaveform → Except Stop PWaveform) (name : Option CStr)
    (cfg : Setting) (slot : Option ℕ) (inst : Option ℕ) (w : PWaveform) :
    Except Stop PWaveform := do
  match name with
  | none => throw .error
  | some name =>
    let full ← moduleName w name inst
    match cfg.lookupString "include" with
    | some file =>
      let w ← nameSlot w slot full
      let w ← parseSub { w with modelFile := strcpy file, namePrefix := strcpy full }
      return { w with namePrefix := [] }
    | none =>
      match slot with
      | none => throw .fault
      | some i => readBinary w cfg full i

/-! ## The model -/

def readMode (cfg : Setting) : Except Stop (CStr × CStr) :=
  match cfg.lookupString "name", cfg.lookupString "desc" with
  | some name, some desc => return (strcpy name, strcpy desc)
  | _, _ => throw .error

def readModes (root : Setting) (w : PWaveform) : Except Stop PWaveform :=
  match root.member "modes" with
  | none => return { w with modes := [("default".toList, "default".toList)] }
  | some cfg => do
      if cfg.length = 0 then throw .error
      else if maxModes < cfg.length then throw .error
      else
        let modes ← (cfg.parts.map (·.2)).mapM readMode
        return { w with modes := modes }

/-- How many modules a setting of the `modules` section stands for. -/
def instancesOf (cfg : Setting) : ℤ := (cfg.lookupInt "instances").getD 1

def countModules (cfg : Setting) : ℤ :=
  ((cfg.parts.map (·.2)).map fun s =>
    if (s.lookupString "include").isSome then 0 else instancesOf s).sum

def waveformAlloc (w : PWaveform) (n : ℤ) : Except Stop PWaveform :=
  if n < 0 then throw .fault
  else return { w with modules := w.modules ++ List.replicate n.toNat PModule.zero }

/-- The instances of one setting of the `modules` section. -/
def readInstances (parseSub : PWaveform → Except Stop PWaveform) (hasSlots : Bool)
    (w : PWaveform) (part : Option CStr × Setting) : Except Stop PWaveform :=
  let instances := instancesOf part.2
  (List.range instances.toNat).foldlM (fun w j =>
    readModule parseSub part.1 part.2 (if hasSlots then some w.nofParsedModules else none)
      (if instances = 1 then none else some j) w) w

/-- `join_stages`; a name that is no module's is followed as a null pointer. -/
def joinStages (w : PWaveform) (cfg : Option Setting) : Except Stop PWaveform :=
  match cfg with
  | none => return { w with stages := [] }
  | some cfg => do
      let stages ← (cfg.parts.map (·.2)).mapM fun stage =>
        if stage.length = 0 then throw Stop.error
        else (List.range stage.length).mapM fun j =>
          match stage.stringElem j with
          | none => throw Stop.error
          | some name =>
            match findModuleName w name with
            | none => throw Stop.fault
            | some i => do
                let m ← moduleAt w i
                return m.index
      return { w with stages := stages }

/-- An array of `n` ports after `realloc` from a table. -/
def reallocPorts (junk : Port) (ports : List Port) (n : ℕ) : List Port :=
  ports.take n ++ List.replicate (n - ports.length) junk

/-- One automatic control connection: the next output of the control module to the next
input of module `i`. -/
def connectCtrl (c : ℕ) (w : PWaveform) (i : ℕ) : Except Stop PWaveform := do
  let ctrl ← moduleAt w c
  let m ← moduleAt w i
  let outPort ← portAt ctrl.outputs ctrl.nofOutputs
  let outPort' := { outPort with
    remoteModuleId := m.id, remotePortIdx := m.nofInputs, delay := 1, totalMbpts := 1 / 10000 }
  let inPort ← portAt m.inputs m.nofInputs
  let inPort' := { inPort with
    remoteModuleId := ctrl.id, remotePortIdx := ctrl.nofOutputs }
  let w := setModule w c { ctrl with
    outputs := ctrl.outputs.map fun ports => ports.set ctrl.nofOutputs outPort'
    nofOutputs := ctrl.nofOutputs + 1 }
  return setModule w i { m with
    inputs := m.inputs.map fun ports => ports.set m.nofInputs inPort'
    nofInputs := m.nofInputs + 1 }

/-- The automatic control connections of `waveform_main_config`: room for one cleared output per
module, and one connection to each module after the control module. -/
def connectAutoCtrl (env : Env) (w : PWaveform) (c : ℕ) : Except Stop PWaveform := do
  let ctrl ← moduleAt w c
  match ctrl.outputs with
  | none => throw .fault
  | some ports =>
    let room := reallocPorts env.junk ports ctrl.nofOutputs ++
      List.replicate w.modules.length Port.zero
    let w := setModule w c { ctrl with outputs := some room }
    (List.range' (ctrl.index + 1) (w.modules.length - (ctrl.index + 1))).foldlM
      (connectCtrl c) w

def waveformMainConfig (env : Env) (w : PWaveform) (cfg : Option Setting) :
    Except Stop PWaveform :=
  match cfg with
  | none => return { w with granularityUs := 0 }
  | some cfg =>
    let w := { w with
      granularityUs := (cfg.lookupInt "waveform_granularity_us").getD 0
      precachPipeline := (cfg.lookupBool "precach_pipeline").getD false }
    match cfg.lookupString "auto_ctrl_module" with
    | none => return { w with autoCtrlModule := none }
    | some name =>
      match findModuleName w name with
      | none => throw .fault
      | some c => connectAutoCtrl env { w with autoCtrlModule := some c } c

/-- `check_interfaces` and `realloc_interfaces` on one table: the ports are numbered
from `first` on, and a table with ports is cut to their number. -/
def closeTable (env : Env) (table : Option (List Port)) (n first : ℕ) :
    Except Stop (Option (List Port)) :=
  if n = 0 then return table
  else
    match table with
    | none => throw .fault
    | some ports =>
      if ports.length < n then throw .fault
      else
        let numbered := ports.mapIdx fun i port =>
          if i < n then { port with id := ((first + i : ℕ) : ℤ) } else port
        return some (reallocPorts env.junk numbered n)

/-- `check_interfaces` and `realloc_interfaces`. -/
def closeInterfaces (env : Env) (m : PModule) : Except Stop PModule := do
  let inputs ← closeTable env m.inputs m.nofInputs 0
  let outputs ← closeTable env m.outputs m.nofOutputs m.nofInputs
  return { m with inputs := inputs, outputs := outputs }

/-- A part of `waveform_parse` that only the main model has. -/
def onMain (isMain : Bool) (part : PWaveform → Except Stop PWaveform) (w : PWaveform) :
    Except Stop PWaveform :=
  if isMain then part w else return w

/-- The end of `waveform_parse` of the main model. -/
def closeMain (env : Env) (root : Setting) (w : PWaveform) : Except Stop PWaveform := do
  let w ← waveformMainConfig env w (root.member "main")
  let modules ← w.modules.mapM (closeInterfaces env)
  return { w with modules := modules, id := env.waveformId }

/-- `waveform_parse`; the fuel bounds how deep models include each other. -/
def waveformParse (env : Env) : (fuel : ℕ) → (isMain : Bool) → PWaveform → Except Stop PWaveform
  | 0, _, _ => throw .fuel
  | fuel + 1, isMain, w => do
      if strLen ≤ w.modelFile.length then throw .fault
      else
        match env.files w.modelFile with
        | none => throw .error
        | some root =>
          let w ← onMain isMain (readModes root) w
          match root.member "modules" with
          | none => throw .error
          | some modules =>
            let n := countModules modules
            let w ← (if n ≠ 0 then waveformAlloc w n else pure w)
            let w ← modules.parts.foldlM
              (readInstances (waveformParse env fuel false) (n ≠ 0)) w
            let w ← onMain isMain (joinStages · (root.member "join_stages")) w
            match root.member "interfaces" with
            | none => throw .error
            | some interfaces =>
              if interfaces.length = 0 then throw .error
              else
                let w ← (interfaces.parts.map (·.2)).foldlM readInterface w
                onMain isMain (closeMain env root) w

def newWaveform (modelFile : CStr) : PWaveform :=
  ⟨0, [], [], [], 0, modelFile, [], 0, false, none, []⟩

end Aloe.Manager
