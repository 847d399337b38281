import Aloe.Lib.Stream
import Aloe.Oesr.Waveform
import Mathlib.Data.Finset.Basic

/-!
# The dispatcher of a node

Model of `oesr/src/node/nod_dispatcher.c`, with `nod_waveform_load` and `nod_waveform_remove` of
`nod_waveform.c` and `packet_sendto` of `common/packet.c`. A SET or GET packet addresses a variable
by ids; the searches index `loaded_waveforms` with the module index in three places, and an access
outside an array is a fault. A LOAD packet is decoded straight into a slot of `loaded_waveforms`;
then a process is created for each module. How the calls of the runtime end is an input.

The manager's bytes are copied into the node's packet, and what stands there when the node is done
is appended to the manager's, with its end as acknowledge word.
-/

namespace Aloe.Oesr

open Lib

/-- The `loaded_waveforms` of the node; `max_waveforms` is their number. -/
abbrev Anode : Type := List NodWaveform

/-! ## The searches -/

/-- The module loop, from index `mi` on; the list holds the slots from `mi` on, whose
first one bounds the loop in this round. -/
def moduleLoop (modules : List NodModule) (id : CInt) : List NodWaveform → ℕ → Option ℕ
  | [], _ => none
  | slot :: slots, mi =>
    if mi < slot.modules.length then
      match modules[mi]? with
      | none => none
      | some m => if m.parent.id = id then some mi else moduleLoop modules id slots (mi + 1)
    else some mi

def variableLoop (id : CInt) : List Variable → ℕ → Option ℕ
  | _, 0 => some 0
  | [], _ + 1 => none
  | v :: vs, left + 1 => if v.id = id then some 0 else (variableLoop id vs left).map (· + 1)

inductive Search where
  | missing
  | outOfBounds
  | found (mi vi : ℕ) (nofModes : CInt)
deriving DecidableEq

/-- The search for the variable, once the module loop ended at `mi`. -/
def searchVariable (anode : Anode) (w : NodWaveform) (mi : ℕ) (id : CInt) : Search :=
  match anode[mi]? with
  | none => .outOfBounds
  | some slot =>
    match slot.modules[mi]?, w.modules[mi]? with
    | some bounding, some own =>
      match variableLoop id own.parent.vars bounding.parent.vars.length with
      | none => .outOfBounds
      | some vi =>
        if vi = bounding.parent.vars.length then .missing
        else .found mi vi slot.nofModes
    | _, _ => .outOfBounds

/-- The searches inside the addressed waveform `w`. -/
def search (anode : Anode) (w : NodWaveform) (dest : PacketDest) : Search :=
  match moduleLoop w.modules dest.moduleId anode 0 with
  | none => .outOfBounds
  | some mi =>
    if mi = w.modules.length then .missing
    else if dest.variableId = 0 then .missing
    else searchVariable anode w mi dest.variableId

/-! ## The dispatcher -/

variable {α : Type}

def onWaveform (wi : ℕ) (p : Prog NodWaveform α) : Prog Anode α :=
  zoom .fault (fun anode => anode[wi]?) (fun w anode => anode.set wi w) p

def onVariable (wi mi vi : ℕ) (p : Prog Variable α) : Prog Anode α :=
  onWaveform wi <| onModule mi <| onParent <|
    zoom .fault (fun m => m.vars[vi]?) (fun v m => { m with vars := m.vars.set vi v }) p

def getDest {σ : Type} : Prog σ PacketDest := fun (pkt, s) => .ok pkt.dest (pkt, s)

lemma dispatch_run {σ α : Type} {pkt : Packet} {s : σ} (f : PacketDest → σ → Prog σ α) :
    (getDest >>= fun dest => getThis >>= f dest) (pkt, s) = f pkt.dest s (pkt, s) := rfl

/-- What `nod_dispatcher_set` and `nod_dispatcher_get` share; they differ in what they
do to the waveform and to the variable they find. -/
def nodDispatcherAccess (waveformAction : Prog NodWaveform Unit)
    (variableAction : CInt → Prog Variable Unit) : Prog Anode Unit := do
  let dest ← getDest
  let anode ← getThis
  if dest.waveformId = 0 then retErr
  else
    match anode.findIdx? fun w => w.id = dest.waveformId with
    | none => retErr
    | some wi =>
      if dest.moduleId = 0 ∧ dest.variableId = 0 then onWaveform wi waveformAction
      else if dest.moduleId = 0 then retErr
      else
        match anode[wi]? with
        | none => fault
        | some w =>
          match search anode w dest with
          | .missing => retErr
          | .outOfBounds => fault
          | .found mi vi nofModes => onVariable wi mi vi (variableAction nofModes)

def setVariable (pool : Pool) (nofModes : CInt) : Prog Variable Unit :=
  variableUnserializeTo pool .cpValue nofModes

def getVariable (nofModes : CInt) : Prog Variable Unit := do
  let v ← getThis
  variableSerialize v .cpValue nofModes

def nodDispatcherSet (machine : Machine) (ops : StatusOps) : Prog Anode Unit :=
  nodDispatcherAccess (nodWaveformUnserializeTo machine ops) (setVariable machine.pool)

def nodDispatcherGet : Prog Anode Unit :=
  nodDispatcherAccess (do let w ← getThis; nodWaveformSerialize w 0 .none) getVariable

/-! ## What they are for -/

def lookup (w : NodWaveform) (dest : PacketDest) : Option (ℕ × ℕ) := do
  let mi ← w.modules.findIdx? fun m => m.parent.id = dest.moduleId
  let m ← w.modules[mi]?
  let vi ← m.parent.vars.findIdx? fun v => v.id = dest.variableId
  return (mi, vi)

/-- The action on the variable that the ids name, with the number of modes of its own
waveform; -1 and no change when one of the three is missing. -/
def addressedAccess (variableAction : CInt → Prog Variable Unit) : Prog Anode Unit := do
  let dest ← getDest
  let anode ← getThis
  match anode.findIdx? fun w => w.id = dest.waveformId with
  | none => retErr
  | some wi =>
    match anode[wi]? with
    | none => fault
    | some w =>
      match lookup w dest with
      | none => retErr
      | some (mi, vi) => onVariable wi mi vi (variableAction w.nofModes)

def ActsOnAddressed (access : Prog Anode Unit) (variableAction : CInt → Prog Variable Unit)
    (pkt : Packet) (anode : Anode) : Prop :=
  access (pkt, anode) = addressedAccess variableAction (pkt, anode) ∧
    ∀ st, access (pkt, anode) ≠ .error .fault st

/-! ## A LOAD packet -/

def stopped : CInt := 6

structure Node where
  slots : Anode
  processes : Finset (ℕ × ℕ)

/-- How the runtime answers: `rtdal_process_new` for each module, the acknowledgement of all
modules in `nod_waveform_load`, and `rtdal_process_remove` for each module. -/
structure Runtime where
  create : ℕ → Bool
  acknowledged : Bool
  destroy : ℕ → Bool

def onSlot {α : Type} (wi : ℕ) (p : Prog NodWaveform α) : Prog Node α :=
  zoom .fault (fun node => node.slots[wi]?)
    (fun w node => { node with slots := node.slots.set wi w }) p

def getSlot (wi : ℕ) : Prog Node NodWaveform := do
  let node ← getThis
  match node.slots[wi]? with
  | none => fault
  | some w => return w

def nodModuleLoad (runtime : Runtime) (wi i : ℕ) : Prog Node Unit :=
  if runtime.create i then
    setObj fun node => { node with processes := insert (wi, i) node.processes }
  else retErr

/-- `nod_waveform_load`. The modules have their processes when they are set runnable. -/
def nodWaveformLoad (runtime : Runtime) (wi nofModules : ℕ) : Prog Node Unit := do
  (List.range nofModules).forM (nodModuleLoad runtime wi)
  if runtime.acknowledged then pure () else retErr

def NodModule.freed (m : NodModule) : NodModule where
  parent := { m.parent with vars := [], inputs := [], outputs := [], allocated := false, id := 0 }
  context := false

def nodModuleRemove (runtime : Runtime) (wi i : ℕ) : Prog Node Unit := do
  let node ← getThis
  if (wi, i) ∈ node.processes then
    if runtime.destroy i then
      setObj fun node => { node with processes := node.processes.erase (wi, i) }
    else retErr
  onSlot wi (onModule i (setObj NodModule.freed))

/-- The slot without its modules, `STOP` and without an id. -/
def NodWaveform.cleared (w : NodWaveform) : NodWaveform :=
  { w with modules := [], status := { w.status with curStatus := stopped }, id := 0 }

/-- One module of `nod_waveform_remove`; one without an id is passed over. -/
def nodWaveformRemoveModule (runtime : Runtime) (wi i : ℕ) : Prog Node Unit := do
  let w ← getSlot wi
  match w.modules[i]? with
  | none => fault
  | some m => if m.parent.id = 0 then pure () else nodModuleRemove runtime wi i

def nodWaveformRemove (runtime : Runtime) (wi : ℕ) : Prog Node Unit := do
  let w ← getSlot wi
  (List.range w.modules.length).forM (nodWaveformRemoveModule runtime wi)
  onSlot wi (setObj NodWaveform.cleared)

def ignoringError {σ : Type} (p : Prog σ Unit) : Prog σ Unit :=
  tryCatch p fun e =>
    match e with
    | .fault => fault
    | .ret => pure ()

def orElseFail {σ : Type} (p cleanup : Prog σ Unit) : Prog σ Unit :=
  tryCatch p fun e =>
    match e with
    | .fault => fault
    | .ret => do
        ignoringError cleanup
        retErr

def nodDispatcherLoad (machine : Machine) (ops : StatusOps) (runtime : Runtime) :
    Prog Node Unit := do
  let node ← getThis
  match node.slots.findIdx? fun w => w.status.curStatus = stopped with
  | none => retErr
  | some wi =>
    onSlot wi (nodWaveformUnserializeTo machine ops)
    let w ← getSlot wi
    orElseFail (nodWaveformLoad runtime wi w.modules.length) (nodWaveformRemove runtime wi)

/-! ## The node -/

def getCmd {σ : Type} : Prog σ PacketCommand := fun (pkt, s) => .ok pkt.cmd (pkt, s)

def setPacket {σ : Type} (f : Packet → Packet) : Prog σ Unit := modify fun (pkt, s) => (f pkt, s)

def onSlots (p : Prog Anode α) : Prog Node α :=
  zoom .fault (fun node => some node.slots) (fun slots node => { node with slots := slots }) p

def returned {σ : Type} (p : Prog σ Unit) : Prog σ CInt :=
  tryCatch (do p; pure 0) fun e =>
    match e with
    | .fault => fault
    | .ret => pure (-1)

/-- `nod_anode_dispatch`. The last three commands are not implemented in the source. -/
def nodAnodeDispatch (machine : Machine) (ops : StatusOps) (runtime : Runtime) :
    Prog Node CInt := do
  let cmd ← getCmd
  match cmd with
  | .load =>
    let n ← returned (nodDispatcherLoad machine ops runtime)
    setPacket packetClear
    return n
  | .set =>
    let n ← returned (onSlots (nodDispatcherSet machine ops))
    setPacket packetClear
    return n
  | .get => returned (onSlots nodDispatcherGet)
  | .connect | .disconnect | .hwinfo => return -1

/-! ## The exchange -/

structure Exchange where
  packet : Packet
  waveform : Waveform
  nodePacket : Packet
  node : Node

def onManager (p : Prog Waveform α) : EStateM Fail Exchange α := fun x =>
  match p (x.packet, x.waveform) with
  | .ok a (packet, waveform) => .ok a { x with packet := packet, waveform := waveform }
  | .error e (packet, waveform) => .error e { x with packet := packet, waveform := waveform }

def onNode (p : Prog Node α) : EStateM Fail Exchange α := fun x =>
  match p (x.nodePacket, x.node) with
  | .ok a (packet, node) => .ok a { x with nodePacket := packet, node := node }
  | .error e (packet, node) => .error e { x with nodePacket := packet, node := node }

/-- The second half of `packet_sendto`: the node is called in place, and its answer is left in the
acknowledge word. -/
def packetAnswer (machine : Machine) (ops : StatusOps) (runtime : Runtime) :
    EStateM Fail Exchange Unit := do
  let ack ← onNode (nodAnodeDispatch machine ops runtime)
  onManager (setPacket fun pkt => { pkt with ack := ack })
  let x ← get
  onManager (packetAddData (some x.nodePacket.data) x.nodePacket.data.length)

def packetSendto (machine : Machine) (ops : StatusOps) (runtime : Runtime) (dest : PacketDest) :
    EStateM Fail Exchange Unit := do
  let x ← get
  onNode (setPacket fun pkt => { packetClear pkt with cmd := x.packet.cmd, dest := dest })
  onNode (packetAddData (some x.packet.data) x.packet.data.length)
  packetAnswer machine ops runtime

end Aloe.Oesr
