import Aloe.Oesr.Waveform
import Aloe.Rtdal.Itfspscq

/-!
# Control packets

Model of `ctrl_skeleton_send_idx` and `process_ctrl_packets` of `skeleton/ctrl_skeleton.c`, of the
first part of `Run` of `skeleton/skeleton.c`, of `skeleton/ctrl_pkt.h`, and of
`oesr_var_param_set_value_idx` of `oesr_api/oesr_var.c`.

A control packet travels as its memory image through the queue of the receiver's control
interface. The sender announces more bytes than header and value have: `CTRL_PKT_HEADER_SZ` is
defined as the size of the value field.
-/

namespace Aloe.Oesr.Ctrl

open Lib Rtdal

def ctrlPktValueSz : ℕ := 20 * sizeofInt

def ctrlPktHeaderSz : ℕ := 20 * sizeofInt

abbrev Value : Type := { bs : List UInt8 // bs.length = ctrlPktValueSz }

structure CtrlInPkt where
  pmIdx : CInt
  size : CInt
  value : Value

/-- The memory image of a `struct ctrl_in_pkt`. -/
def ctrlInPkt : Codec CtrlInPkt := Codec.record (.pair cint (.pair cint (.block ctrlPktValueSz)))
    (fun p => (p.pmIdx, p.size, p.value)) (fun t => ⟨t.1, t.2.1, t.2.2⟩) fun _ => rfl

def sizeofCtrlInPkt : ℕ := sizeofInt + sizeofInt + ctrlPktValueSz

/-! ## The sender -/

/-- An entry of `remote_variables`, with the number of the queue behind `addr->itf`. -/
structure RemoteVariable where
  variableIdx : CInt
  queue : ℕ

structure Sender where
  remoteVariables : ℕ → RemoteVariable
  nofRemoteVariables : ℤ
  ctrlOutBuffer : CtrlInPkt

/-- `memcpy(dest,value,size)` into the first bytes of a block. -/
def overwrite (dest value : List UInt8) : List UInt8 := value ++ dest.drop value.length

lemma length_overwrite {dest value : List UInt8} (h : value.length ≤ dest.length) :
    (overwrite dest value).length = dest.length := by
  rw [overwrite, List.length_append, List.length_drop]
  omega

abbrev Payload : Type := { bs : List UInt8 // bs.length ≤ ctrlPktValueSz }

def pasteValue (old : Value) (value : Payload) : Value :=
  ⟨overwrite old.1 value.1, (length_overwrite (old.2.symm ▸ value.2)).trans old.2⟩

/-- The first `n` bytes from the address of the buffer on. What lies behind the buffer is of no
interest: a packet that long does not fit into the queue. -/
def fromBuffer (buffer : CtrlInPkt) (n : ℕ) : List UInt8 :=
  (ctrlInPkt.enc buffer ++ List.replicate n 0).take n

/-- `ctrl_skeleton_send_idx` in time slot `now`: the return value, the sender and the queues
afterwards. `none` while the call waits for a blocking queue. -/
def ctrlSkeletonSendIdx (snd : Sender) (queues : ℕ → Itfspscq.Itf) (now destIdx : ℤ)
    (value : Payload) : Option (ℤ × Sender × (ℕ → Itfspscq.Itf)) :=
  if destIdx < 0 ∨ snd.nofRemoteVariables < destIdx then some (-1, snd, queues)
  else
    let entry := snd.remoteVariables destIdx.toNat
    let buffer : CtrlInPkt := {
      pmIdx := entry.variableIdx
      size := BitVec.ofNat 32 value.1.length
      value := pasteValue snd.ctrlOutBuffer.value value }
    let snd := { snd with ctrlOutBuffer := buffer }
    match Itfspscq.send (queues entry.queue) now
        (fromBuffer buffer (value.1.length + ctrlPktHeaderSz)) with
    | none => none
    | some (n, queue) =>
      some (if n = -1 ∨ n = 0 then -1 else 0, snd, Function.update queues entry.queue queue)

/-! ## The receivers -/

structure Receiver where
  vars : List Variable
  curMode : Fin maxModes

/-- The value of a variable in the current mode after `memcpy` of the first `cpySz` bytes of
`value`; `none` if that is past the block, or there is none. -/
def copyValue (v : Variable) (mode : Fin maxModes) (value : List UInt8) (cpySz : ℤ) :
    Option Variable :=
  match v.initValue.get mode with
  | none => none
  | some block =>
    if 0 ≤ cpySz ∧ cpySz ≤ block.length ∧ cpySz ≤ value.length then
      some { v with
        initValue := v.initValue.set mode (some (overwrite block (value.take cpySz.toNat)))
          mode.isLt }
    else none

/-- The copy to the variable at place `i`. -/
def setValueAt (rcv : Receiver) (i : ℕ) (value : List UInt8) (size : CInt) :
    Option (ℤ × Receiver) :=
  match rcv.vars[i]? with
  | none => none
  | some v =>
    let cpySz := if v.size.toInt < size.toInt then v.size.toInt else size.toInt
    (copyValue v rcv.curMode value cpySz).map fun v' =>
      (cpySz, { rcv with vars := rcv.vars.set i v' })

/-- `oesr_var_param_set_value_idx`: the return value and the module; `none` for an access
outside the tables. -/
def oesrVarParamSetValueIdx (rcv : Receiver) (idx : CInt) (value : List UInt8) (size : CInt) :
    Option (ℤ × Receiver) :=
  if idx.toInt < 0 ∨ size.toInt ≤ 0 then some (-1, rcv)
  else setValueAt rcv idx.toInt.toNat value size

/-- What differs between the two skeletons: the buffer for one read, in packets, and how many
packets are taken from `n` bytes. -/
structure Skeleton where
  bufferPackets : ℕ
  nofPackets : ℕ → ℕ

/-- `Run` of the plain skeleton reads into one packet, which it takes as it is. -/
def plainSkeleton : Skeleton where
  bufferPackets := 1
  nofPackets := fun _ => 1

/-- `process_ctrl_packets` of the control skeleton, with `MAX_INPUT_PACKETS`. -/
def ctrlSkeleton : Skeleton where
  bufferPackets := 20
  nofPackets := fun n => n / sizeofCtrlInPkt

/-- `process_ctrl_packet`, on packet `i` of the input buffer: whether it returns 0. -/
def processCtrlPacket (buffer : List UInt8) (rcv : Receiver) (i : ℕ) : Option (Bool × Receiver) :=
  let packet := ctrlInPkt.dec ((buffer.drop (i * sizeofCtrlInPkt)).take sizeofCtrlInPkt)
  (oesrVarParamSetValueIdx rcv packet.pmIdx packet.value.1 packet.size).map fun r => (r.1 ≠ -1, r.2)

def processPackets (buffer : List UInt8) : List ℕ → Receiver → Option (Bool × Receiver)
  | [], rcv => some (true, rcv)
  | i :: is, rcv =>
    match processCtrlPacket buffer rcv i with
    | none => none
    | some (false, rcv) => some (false, rcv)
    | some (true, rcv) => processPackets buffer is rcv

/-- What a drained control input leaves. `applied` is not data of the source: it records, read by
read, how many packets were applied. -/
structure Drained where
  ret : ℤ
  queue : Itfspscq.Itf
  buffer : List UInt8
  rcv : Receiver
  applied : List ℕ

/-- The loop that drains the control input in time slot `now`, for at most `fuel` turns. -/
def drain (skeleton : Skeleton) (now tstamp : ℤ) (fuel : ℕ) (queue : Itfspscq.Itf)
    (buffer : List UInt8) (rcv : Receiver) : Option Drained :=
  match fuel with
  | 0 => none
  | fuel + 1 =>
    match Itfspscq.recv queue now tstamp (skeleton.bufferPackets * sizeofCtrlInPkt) with
    | none => none
    | some (n, bytes, queue) =>
      let buffer := overwrite buffer bytes
      if n = -1 then some ⟨-1, queue, buffer, rcv, []⟩
      else if 0 < n then
        let nofPackets := skeleton.nofPackets n.toNat
        match processPackets buffer (List.range nofPackets) rcv with
        | none => none
        | some (false, rcv) => some ⟨-1, queue, buffer, rcv, []⟩
        | some (true, rcv) =>
          (drain skeleton now tstamp fuel queue buffer rcv).map fun d =>
            { d with applied := nofPackets :: d.applied }
      else some ⟨0, queue, buffer, rcv, []⟩

end Aloe.Oesr.Ctrl
