import Aloe.Oesr.CtrlPacket
import Aloe.Rtdal.ItfspscqRuns

/-!
# The delivery of control packets

A value of `n` bytes is announced to the queue with `n + 80` bytes, and the queue takes 88. The
plain skeleton takes whatever it reads for one packet, the control skeleton as many packets as there
are whole ones. So values of at most 8 bytes arrive at the plain skeleton, of 8 bytes at the control
skeleton (`control_delivery_iff`). A queue that blocks is never found empty, which is what ends the
receiver's loop.
-/

namespace Aloe.Oesr.Ctrl

open Lib Rtdal Rtdal.Itfspscq Function List Cyclic

/-! ## The queue -/

def Nonblocking (delay : ℤ) : Prop := 0 ≤ delay ∨ delay = -2

/-- A queue of control packets that stores `pend`, all of it due in slot `now`. -/
structure Stores (queue : Itf) (pend : List Itfspscq.Packet) (now : ℤ) : Prop where
  holds : Holds queue pend
  size : queue.maxMsgSz = sizeofCtrlInPkt
  due : 0 ≤ queue.delay → ∀ k < pend.length,
    (queue.packets (Cyclic.slot queue.maxMsg queue.read k)).tstamp ≤ now

variable {queue : Itf} {pend : List Itfspscq.Packet} {now later tstamp : ℤ} {bytes : List UInt8}

lemma spscqIsEmpty_of_nonblocking (h : Nonblocking queue.delay) :
    spscqIsEmpty queue tstamp = .ret (queue.readPkt.valid = 0) := if_pos h

lemma spscqIsEmpty_of_valid (h : queue.readPkt.valid ≠ 0) :
    spscqIsEmpty queue tstamp = .ret false := by
  have hwaits : ¬(queue.readPkt.valid = 0 ∧ tstamp < queue.readPkt.tstamp) := fun hw => h hw.1
  rw [spscqIsEmpty, if_neg hwaits, decide_eq_false h, ite_self]

lemma Stores.send_of_lt (h : Stores queue pend later) (hlong : sizeofCtrlInPkt < bytes.length) :
    send queue now bytes = some (-1, queue) := by
  rw [Itfspscq.send, if_pos (h.size ▸ hlong)]

lemma due_push {len : ℤ} (h : Stores queue pend later) (hfree : pend.length < queue.maxMsg)
    (hlen : len ≠ 0) (hdelay : 0 ≤ queue.delay) (hdue : now + queue.delay ≤ later) :
    ∀ k < pend.length + 1, ((push queue now len).packets
      (slot queue.maxMsg queue.read k)).tstamp ≤ later := by
  intro k hk
  rw [push, if_neg hlen]
  dsimp only
  rw [h.holds.write_eq]
  by_cases heq : k = pend.length
  · rw [heq, update_self]
    exact hdue
  · have hk' : k < pend.length := by omega
    rw [update_of_ne fun hslot => heq (slot_inj (hk'.trans hfree) hfree hslot)]
    exact h.due hdelay k hk'

lemma Stores.send_of_le (h : Stores queue pend later) (hfree : pend.length < queue.maxMsg)
    (hshort : bytes.length ≤ sizeofCtrlInPkt) (hpos : 0 < bytes.length)
    (hdue : 0 ≤ queue.delay → now + queue.delay ≤ later) :
    ∃ queue', send queue now bytes = some (1, queue') ∧ queue'.maxMsg = queue.maxMsg ∧
      queue'.delay = queue.delay ∧
      Stores queue' (pend ++ [(bytes, (bytes.length : ℤ))]) later := by
  have hvalid : queue.writePkt.valid = 0 := by
    by_contra hne
    exact hfree.ne (h.holds.write_valid_iff.mp hne)
  have hrequest : request queue = some (1, some queue.writePkt.data) := by
    have hfull : spscqIsFull queue = .ret false := by
      rw [spscqIsFull, hvalid]
      split <;> rfl
    rw [request, hfull]
  have hsize := h.size
  have hlen : (bytes.length : ℤ) ≠ 0 := by omega
  have hfill : Stores { queue with data := Memory.memcpy queue.data queue.writePkt.data bytes }
      pend later := ⟨h.holds.fill hfree (by omega), h.size, h.due⟩
  have hpacket : pushed { queue with data := Memory.memcpy queue.data queue.writePkt.data bytes }
      bytes.length = (bytes, (bytes.length : ℤ)) := by
    simp [pushed, Itf.writePkt]
  have hpush : Holds
      (push { queue with data := Memory.memcpy queue.data queue.writePkt.data bytes } now
        bytes.length) (pend ++ [(bytes, (bytes.length : ℤ))]) := by
    rw [← hpacket]
    exact hfill.holds.push hfree (by omega) (by dsimp only; omega)
  have hsame : ∀ itf : Itf, (push itf now bytes.length).maxMsg = itf.maxMsg ∧
      (push itf now bytes.length).delay = itf.delay ∧
      (push itf now bytes.length).maxMsgSz = itf.maxMsgSz ∧
      (push itf now bytes.length).read = itf.read := fun itf => by
    rw [push, if_neg hlen]
    exact ⟨rfl, rfl, rfl, rfl⟩
  refine ⟨push { queue with data := Memory.memcpy queue.data queue.writePkt.data bytes } now
    bytes.length, ?_, (hsame _).1, (hsame _).2.1, hpush, ?_, ?_⟩
  · rw [Itfspscq.send, if_neg (by omega), hrequest]
  · rw [(hsame _).2.2.1]
    exact h.size
  · rw [(hsame _).1, (hsame _).2.2.2, length_append, length_singleton]
    intro hdelay
    rw [(hsame _).2.1] at hdelay
    exact due_push hfill hfree hlen hdelay (hdue hdelay)

variable {len fuel : ℕ} {value buffer : List UInt8} {rcv : Receiver} {idx : CInt}

lemma Stores.recv_cons {p : Itfspscq.Packet} (h : Stores queue (p :: pend) now) (hlen : p.2 ≤ len) :
    ∃ queue', recv queue now tstamp len = some (p.2, p.1, queue') ∧ Stores queue' pend now ∧
      queue'.delay = queue.delay ∧ queue'.maxMsg = queue.maxMsg := by
  have hvalid : queue.readPkt.valid ≠ 0 := h.holds.read_valid_iff.mpr (cons_ne_nil p pend)
  have hdue : 0 ≤ queue.delay → queue.readPkt.tstamp ≤ now := fun hdelay => by
    have := h.due hdelay 0 (by simp)
    rwa [slot_zero h.holds.read_lt] at this
  have hpop : pop queue now tstamp = some (1, some queue.readPkt.data, queue.readPkt.len) := by
    rw [pop, spscqIsEmpty_of_valid hvalid]
    exact if_neg fun hearly => absurd hearly.2 (not_lt.mpr (hdue hearly.1))
  have hhead := h.holds.bytesAt_head
  refine ⟨release queue, ?_, ⟨h.holds.release, h.size, fun hdelay k hk => ?_⟩, rfl, rfl⟩
  · rw [recv, hpop]
    dsimp only
    rw [h.holds.readPkt_len, if_neg (not_lt.mpr hlen), h.holds.readPkt_data]
    rw [← hhead]
  · have hnext := h.due hdelay (k + 1) (by simpa using hk)
    rw [release]
    dsimp only
    rw [slot_next h.holds.read_lt, update_of_ne]
    · exact hnext
    · intro heq
      have hzero : slot queue.maxMsg queue.read (k + 1) =
          slot queue.maxMsg queue.read 0 := by
        rw [heq, slot_zero h.holds.read_lt]
      have hle := h.holds.length_le
      rw [length_cons] at hle
      exact absurd (slot_inj (by omega) (by omega) hzero) (Nat.succ_ne_zero k)

lemma Stores.recv_nil (h : Stores queue [] now) (hdelay : Nonblocking queue.delay) :
    recv queue now tstamp len = some (0, [], queue) := by
  have hvalid : queue.readPkt.valid = 0 := by
    by_contra hne
    exact h.holds.read_valid_iff.mp hne rfl
  rw [recv, pop, spscqIsEmpty_of_nonblocking hdelay, hvalid]
  rfl

/-! ## The image of a packet -/

/-- `bytes` begin with the header and the first `n` bytes of the value of `packet`. -/
def Begins (packet : CtrlInPkt) (n : ℕ) (bytes : List UInt8) : Prop :=
  8 + n ≤ bytes.length ∧ bytes.take (8 + n) = (ctrlInPkt.enc packet).take (8 + n)

lemma length_enc (packet : CtrlInPkt) : (ctrlInPkt.enc packet).length = sizeofCtrlInPkt :=
  ctrlInPkt.length_enc packet

lemma enc_eq (packet : CtrlInPkt) :
    ctrlInPkt.enc packet = cint.enc packet.pmIdx ++ (cint.enc packet.size ++ packet.value.1) := rfl

lemma length_cint (x : CInt) : (cint.enc x).length = 4 := cint.length_enc x

lemma Begins.dec {packet : CtrlInPkt} {n : ℕ} {bytes : List UInt8} (h : Begins packet n bytes)
    (hlen : bytes.length = sizeofCtrlInPkt) :
    (ctrlInPkt.dec bytes).pmIdx = packet.pmIdx ∧ (ctrlInPkt.dec bytes).size = packet.size ∧
      (ctrlInPkt.dec bytes).value.1.take n = packet.value.1.take n := by
  have hpm : bytes.take 4 = cint.enc packet.pmIdx := by
    have := congrArg (List.take 4) h.2
    rw [take_take, take_take, min_eq_left (by omega)] at this
    rw [this, enc_eq, take_left' (length_cint _)]
  have hsize : (bytes.drop 4).take 4 = cint.enc packet.size := by
    have := congrArg (fun bs => (bs.drop 4).take 4) h.2
    simp only [drop_take, take_take] at this
    rw [min_eq_left (by omega)] at this
    rw [this, enc_eq, drop_left' (length_cint _), take_left' (length_cint _)]
  have hvalue : ((bytes.drop 4).drop 4).take n = packet.value.1.take n := by
    have := congrArg (List.drop 8) h.2
    simp only [drop_take, Nat.add_sub_cancel_left] at this
    rw [drop_drop, this, enc_eq, ← append_assoc, drop_left']
    rw [length_append, length_cint, length_cint]
  have hblock : ((bytes.drop 4).drop 4).length = ctrlPktValueSz := by
    rw [length_drop, length_drop, hlen]
    rfl
  refine ⟨?_, ?_, ?_⟩
  · exact (congrArg cint.dec hpm).trans (cint.dec_enc _)
  · exact (congrArg cint.dec hsize).trans (cint.dec_enc _)
  · have hdec : (ctrlInPkt.dec bytes).value.1 = (bytes.drop 4).drop 4 := by
      change (Codec.dec (.block ctrlPktValueSz) ((bytes.drop 4).drop 4)).1 = _
      rw [Codec.block]
      dsimp only
      rw [dif_pos hblock]
    rw [hdec, hvalue]

/-- `bytes` are what is sent for a value of variable `idx`. -/
def Carries (idx : CInt) (value bytes : List UInt8) : Prop :=
  bytes.length = value.length + ctrlPktHeaderSz ∧
    ∃ packet, packet.pmIdx = idx ∧ packet.size = BitVec.ofNat 32 value.length ∧
      packet.value.1.take value.length = value ∧ Begins packet value.length bytes

lemma length_fromBuffer (buffer : CtrlInPkt) (n : ℕ) : (fromBuffer buffer n).length = n := by
  rw [fromBuffer, length_take, length_append, length_replicate]
  omega

lemma fromBuffer_carries (old : CtrlInPkt) (idx : CInt) (value : Payload) :
    Carries idx value.1 (fromBuffer
      ⟨idx, BitVec.ofNat 32 value.1.length, pasteValue old.value value⟩
      (value.1.length + ctrlPktHeaderSz)) := by
  have hvalue : value.1.length ≤ 80 := value.2
  have hheader : ctrlPktHeaderSz = 80 := rfl
  refine ⟨length_fromBuffer _ _, ⟨idx, BitVec.ofNat 32 value.1.length, pasteValue old.value value⟩,
    rfl, rfl, ?_, ?_, ?_⟩
  · exact take_left' rfl
  · rw [length_fromBuffer]
    omega
  · rw [fromBuffer, take_take, min_eq_left (by omega), take_append_of_le_length]
    rw [length_enc]
    change 8 + value.1.length ≤ 88
    omega

/-! ## Setting a variable -/

def Allocated (v : Variable) (mode : Fin maxModes) : Prop :=
  ∃ block, v.initValue.get mode = some block ∧ v.size.toInt = block.length

def assignVariable (mode : Fin maxModes) (value : List UInt8) (v : Variable) : Variable :=
  { v with
    initValue := v.initValue.set mode
      ((v.initValue.get mode).map fun block => overwrite block (value.take block.length))
      mode.isLt }

/-- Variable `idx` set to a value, and no other. -/
def Receiver.assign (rcv : Receiver) (idx : CInt) (value : List UInt8) : Receiver :=
  { rcv with vars := rcv.vars.modify idx.toInt.toNat (assignVariable rcv.curMode value) }

def Addresses (rcv : Receiver) (idx : CInt) : Prop :=
  0 ≤ idx.toInt ∧ ∃ v, rcv.vars[idx.toInt.toNat]? = some v ∧ Allocated v rcv.curMode

lemma copyValue_eq {v : Variable} {mode : Fin maxModes} {field : List UInt8}
    (hv : Allocated v mode) (hfield : field.take value.length = value) :
    copyValue v mode field (if v.size.toInt < value.length then v.size.toInt else value.length) =
        some (assignVariable mode value v) := by
  obtain ⟨block, hblock, hsize⟩ := hv
  have hlen : value.length ≤ field.length := by
    rw [← hfield, length_take]
    exact min_le_right _ _
  rw [copyValue, hblock, hsize]
  dsimp only
  split
  · rename_i hlt
    rw [if_pos (by omega), assignVariable, hblock, Option.map_some]
    have hinitial : field.take block.length = value.take block.length := by
      rw [← hfield, take_take, min_eq_left (by omega)]
    rw [Int.toNat_natCast, hinitial]
  · rename_i hge
    rw [if_pos (by omega), assignVariable, hblock, Option.map_some, Int.toNat_natCast, hfield,
      take_of_length_le (by omega)]

lemma setValueIdx_eq {field : List UInt8}
    (hidx : Addresses rcv idx) (hfield : field.take value.length = value) (hpos : 0 < value.length)
    (hlen : value.length ≤ ctrlPktValueSz) :
    ∃ n, n ≠ -1 ∧ oesrVarParamSetValueIdx rcv idx field (BitVec.ofNat 32 value.length) =
      some (n, rcv.assign idx value) := by
  obtain ⟨hnonneg, v, hv, halloc⟩ := hidx
  have hsize : (BitVec.ofNat 32 value.length : CInt).toInt = value.length :=
    CInt.toInt_ofNat (hlen.trans_lt (by decide))
  rw [oesrVarParamSetValueIdx, setValueAt, hsize, if_neg (by omega), hv]
  dsimp only
  rw [copyValue_eq halloc hfield, Option.map_some]
  refine ⟨if v.size.toInt < value.length then v.size.toInt else value.length, ?_, ?_⟩
  · obtain ⟨block, -, hblock⟩ := halloc
    split <;> omega
  · rw [Receiver.assign, modify_eq_set_getElem?, hv]
    rfl

lemma Allocated.assign {v : Variable} {mode : Fin maxModes} (h : Allocated v mode)
    (value : List UInt8) : Allocated (assignVariable mode value v) mode := by
  obtain ⟨block, hblock, hsize⟩ := h
  refine ⟨overwrite block (value.take block.length), ?_, ?_⟩
  · rw [assignVariable, hblock, Option.map_some]
    exact Vector.getElem_set_self mode.isLt
  · rw [length_overwrite (length_take_le _ _)]
    exact hsize

lemma Addresses.assign (h : Addresses rcv idx) (idx' : CInt)
    (value : List UInt8) : Addresses (rcv.assign idx' value) idx := by
  obtain ⟨hnonneg, v, hv, halloc⟩ := h
  refine ⟨hnonneg, ?_⟩
  rw [Receiver.assign]
  rw [getElem?_modify, hv]
  by_cases heq : idx'.toInt.toNat = idx.toInt.toNat
  · exact ⟨_, congrArg some (if_pos heq), halloc.assign value⟩
  · exact ⟨_, congrArg some (if_neg heq), halloc⟩

/-! ## The receiver's loop -/

lemma Begins.overwrite {packet : CtrlInPkt} {n : ℕ} {bytes : List UInt8}
    (h : Begins packet n bytes) (hn : n ≤ ctrlPktValueSz) (hbytes : bytes.length ≤ sizeofCtrlInPkt)
    (hbuffer : sizeofCtrlInPkt ≤ buffer.length) :
    Begins packet n ((overwrite buffer bytes).take sizeofCtrlInPkt) := by
  have hsizeof : sizeofCtrlInPkt = 8 + ctrlPktValueSz := rfl
  have hlen := length_overwrite (hbytes.trans hbuffer)
  refine ⟨?_, ?_⟩
  · rw [length_take]
    omega
  · rw [take_take, min_eq_left (by omega), Ctrl.overwrite, take_append_of_le_length h.1, h.2]

lemma processCtrlPacket_of_carries
    {bytes : List UInt8} (hidx : Addresses rcv idx) (h : Carries idx value bytes)
    (hpos : 0 < value.length) (hbytes : bytes.length ≤ sizeofCtrlInPkt)
    (hbuffer : sizeofCtrlInPkt ≤ buffer.length) :
    processCtrlPacket (overwrite buffer bytes) rcv 0 = some (true, rcv.assign idx value) := by
  obtain ⟨hlen, packet, hpm, hsize, hvalue, hbegins⟩ := h
  have hn : value.length ≤ ctrlPktValueSz := by
    have : ctrlPktHeaderSz = 80 ∧ ctrlPktValueSz = 80 ∧ sizeofCtrlInPkt = 88 := ⟨rfl, rfl, rfl⟩
    omega
  have himage := hbegins.overwrite hn hbytes hbuffer
  have htake : ((overwrite buffer bytes).take sizeofCtrlInPkt).length = sizeofCtrlInPkt := by
    rw [length_take, length_overwrite (hbytes.trans hbuffer)]
    omega
  obtain ⟨hpm', hsize', hvalue'⟩ := himage.dec htake
  obtain ⟨n, hn1, hset⟩ := setValueIdx_eq hidx (hvalue'.trans hvalue) hpos hn
  rw [processCtrlPacket, zero_mul, drop_zero, hpm', hpm, hsize', hsize, hset, Option.map_some,
    decide_eq_true hn1]

abbrev Update : Type := CInt × List UInt8

def CarriesAll (us : List Update) (pend : List Itfspscq.Packet) : Prop :=
  List.Forall₂ (fun u p => Carries u.1 u.2 p.1 ∧ p.2 = p.1.length ∧ 0 < u.2.length ∧
    p.1.length ≤ sizeofCtrlInPkt) us pend

def Skeleton.applies (skeleton : Skeleton) (u : Update) : ℕ :=
  skeleton.nofPackets (u.2.length + ctrlPktHeaderSz)

def Skeleton.update (skeleton : Skeleton) (rcv : Receiver) (u : Update) : Receiver :=
  if skeleton.applies u = 1 then rcv.assign u.1 u.2 else rcv

structure Skeleton.Single (skeleton : Skeleton) : Prop where
  buffer : 1 ≤ skeleton.bufferPackets
  packets : ∀ n ≤ sizeofCtrlInPkt, skeleton.nofPackets n ≤ 1

lemma Addresses.update (h : Addresses rcv idx)
    (skeleton : Skeleton) (u : Update) : Addresses (skeleton.update rcv u) idx := by
  rw [Skeleton.update]
  split
  · exact h.assign u.1 u.2
  · exact h

variable {skeleton : Skeleton}

lemma processPackets_of_carries (hsingle : skeleton.Single) {u : Update}
    {bytes : List UInt8} (hidx : Addresses rcv u.1) (h : Carries u.1 u.2 bytes)
    (hpos : 0 < u.2.length) (hbytes : bytes.length ≤ sizeofCtrlInPkt)
    (hbuffer : sizeofCtrlInPkt ≤ buffer.length) :
    processPackets (overwrite buffer bytes) (List.range (skeleton.applies u)) rcv =
      some (true, skeleton.update rcv u) := by
  have hle : skeleton.applies u ≤ 1 := hsingle.packets _ (h.1 ▸ hbytes)
  rw [Skeleton.update]
  split
  · rename_i hone
    rw [hone, range_one, processPackets, processCtrlPacket_of_carries hidx h hpos hbytes hbuffer]
    rfl
  · rename_i hone
    rw [show skeleton.applies u = 0 by omega]
    rfl

/-- **One turn** of the loop on a packet. -/
theorem drain_cons (tstamp : ℤ) (fuel : ℕ) (hsingle : skeleton.Single)
    {u : Update} {p : Itfspscq.Packet} (h : Stores queue (p :: pend) now)
    (hidx : Addresses rcv u.1) (hp : Carries u.1 u.2 p.1) (hlen : p.2 = p.1.length)
    (hpos : 0 < u.2.length) (hbytes : p.1.length ≤ sizeofCtrlInPkt)
    (hbuffer : buffer.length = skeleton.bufferPackets * sizeofCtrlInPkt) :
    ∃ queue', Stores queue' pend now ∧ queue'.delay = queue.delay ∧ queue'.maxMsg = queue.maxMsg ∧
      drain skeleton now tstamp (fuel + 1) queue buffer rcv =
        (drain skeleton now tstamp fuel queue' (overwrite buffer p.1)
          (skeleton.update rcv u)).map fun d =>
            { d with applied := skeleton.applies u :: d.applied } := by
  have hroom : sizeofCtrlInPkt ≤ skeleton.bufferPackets * sizeofCtrlInPkt :=
    Nat.le_mul_of_pos_left _ hsingle.buffer
  have hread : p.2 ≤ (skeleton.bufferPackets * sizeofCtrlInPkt : ℕ) := by
    rw [hlen]
    exact_mod_cast hbytes.trans hroom
  obtain ⟨queue', hrecv, hstores, hdelay, hmsg⟩ := h.recv_cons hread
  refine ⟨queue', hstores, hdelay, hmsg, ?_⟩
  have hbytespos : 0 < p.1.length := by
    rw [hp.1]
    omega
  rw [drain, hrecv, hlen]
  dsimp only
  rw [if_neg (by omega), if_pos (by omega), Int.toNat_natCast, hp.1]
  have happlied := processPackets_of_carries hsingle hidx hp hpos hbytes (hroom.trans hbuffer.ge)
  rw [Skeleton.applies] at happlied
  rw [happlied]
  rfl

/-- The loop **up to the last packet**. -/
theorem drain_append (hsingle : skeleton.Single) {us : List Update} (h : Stores queue pend now)
    (hus : CarriesAll us pend) (hidx : ∀ u ∈ us, Addresses rcv u.1)
    (hbuffer : buffer.length = skeleton.bufferPackets * sizeofCtrlInPkt) :
    ∃ queue' buffer', Stores queue' [] now ∧ queue'.delay = queue.delay ∧
      queue'.maxMsg = queue.maxMsg ∧
      drain skeleton now tstamp (fuel + us.length) queue buffer rcv =
        (drain skeleton now tstamp fuel queue' buffer' (us.foldl skeleton.update rcv)).map fun d =>
          { d with applied := us.map skeleton.applies ++ d.applied } := by
  induction hus generalizing queue buffer rcv with
  | nil => exact ⟨queue, buffer, h, rfl, rfl, by simp⟩
  | @cons u p us pend hu _ ih =>
    obtain ⟨hcarries, hlen, hpos, hbytes⟩ := hu
    obtain ⟨queue', hstores, hdelay, hmsg, hturn⟩ := drain_cons tstamp
      (fuel + us.length) hsingle h (hidx u (by simp)) hcarries hlen hpos hbytes hbuffer
    have hbuffer' : (overwrite buffer p.1).length =
        skeleton.bufferPackets * sizeofCtrlInPkt := by
      rw [length_overwrite, hbuffer]
      rw [hbuffer]
      exact hbytes.trans (Nat.le_mul_of_pos_left _ hsingle.buffer)
    obtain ⟨queue'', buffer'', hstores', hdelay', hmsg', hrest⟩ := ih hstores
      (fun u' hu' => (hidx u' (by simp [hu'])).update skeleton u) hbuffer'
    refine ⟨queue'', buffer'', hstores', hdelay'.trans hdelay, hmsg'.trans hmsg, ?_⟩
    rw [length_cons, ← add_assoc, hturn, hrest, Option.map_map]
    rfl

lemma drain_nil (h : Stores queue [] now) (hdelay : Nonblocking queue.delay) :
    drain skeleton now tstamp (fuel + 1) queue buffer rcv = some ⟨0, queue, buffer, rcv, []⟩ := by
  rw [drain, h.recv_nil hdelay]
  rfl

lemma pop_of_blocking (hdelay : ¬Nonblocking queue.delay) : pop queue now tstamp = none ∨
      pop queue now tstamp = some (1, some queue.readPkt.data, queue.readPkt.len) := by
  have hneg : ¬0 ≤ queue.delay := fun hnonneg => hdelay (.inl hnonneg)
  have hempty : spscqIsEmpty queue tstamp =
      if queue.readPkt.valid = 0 ∧ tstamp < queue.readPkt.tstamp then .waits else .ret false :=
    if_neg hdelay
  rw [pop, hempty]
  by_cases hwaits : queue.readPkt.valid = 0 ∧ tstamp < queue.readPkt.tstamp
  · rw [if_pos hwaits]
    exact .inl rfl
  · rw [if_neg hwaits, if_neg fun hearly => hneg hearly.1]
    exact .inr rfl

lemma recv_of_blocking {r : ℤ × List UInt8 × Itf}
    (hdelay : ¬Nonblocking queue.delay) (hrecv : recv queue now tstamp len = some r) :
    r.2.2 = release queue := by
  rw [recv] at hrecv
  obtain hpop | hpop := pop_of_blocking hdelay
  all_goals
    rw [hpop] at hrecv
    cases hrecv
  rfl

lemma not_holds_release (h : Stores queue [] now) (hmsg : 1 < queue.maxMsg) :
    ¬Holds (release queue) [] := by
  intro hholds
  have hmoved : slot queue.maxMsg (next queue.maxMsg queue.read) 0 = queue.write :=
    hholds.write_eq.symm
  rw [slot_next h.holds.read_lt, h.holds.write_eq] at hmoved
  exact absurd (slot_inj hmsg (Nat.lt_of_succ_lt hmsg) hmoved) one_ne_zero

lemma not_drained_of_blocking {d : Drained}
    (h : Stores queue [] now) (hdelay : ¬Nonblocking queue.delay) (hmsg : 1 < queue.maxMsg)
    (hd : drain skeleton now tstamp fuel queue buffer rcv = some d) :
    ¬(d.ret = 0 ∧ d.applied = [] ∧ Holds d.queue []) := by
  rintro ⟨hret, happlied, hholds⟩
  cases fuel with
  | zero => cases hd
  | succ fuel =>
    rw [drain] at hd
    split at hd
    · cases hd
    · rename_i n bytes queue' hrecv
      have hqueue : queue' = release queue := recv_of_blocking hdelay hrecv
      dsimp only at hd
      split at hd
      · cases hd
        cases hret
      · split at hd
        · split at hd
          · cases hd
          · cases hd
            cases hret
          · obtain ⟨d', -, rfl⟩ := Option.map_eq_some_iff.mp hd
            cases happlied
        · cases hd
          rw [hqueue] at hholds
          exact not_holds_release h hmsg hholds

/-! ## The sender -/

structure Sending where
  slot : ℤ
  dest : ℕ
  value : Payload

def sendAll (snd : Sender) (queues : ℕ → Itf) :
    List Sending → Option (List ℤ × Sender × (ℕ → Itf))
  | [] => some ([], snd, queues)
  | p :: ps =>
    match ctrlSkeletonSendIdx snd queues p.slot p.dest p.value with
    | none => none
    | some (ret, snd, queues) => (sendAll snd queues ps).map fun r => (ret :: r.1, r.2)

def Sending.update (p : Sending) (snd : Sender) : Update :=
  ((snd.remoteVariables p.dest).variableIdx, p.value.1)

def Sending.packet (p : Sending) (snd : Sender) : CtrlInPkt :=
  ⟨(p.update snd).1, BitVec.ofNat 32 p.value.1.length, pasteValue snd.ctrlOutBuffer.value p.value⟩

/-- The call is for an entry with the queue `q`, its value is not empty, and what it sends is due
in slot `later`. -/
structure Sending.Valid (p : Sending) (snd : Sender) (queues : ℕ → Itf) (q : ℕ) (later : ℤ) :
    Prop where
  entry : (p.dest : ℤ) < snd.nofRemoteVariables
  queue : (snd.remoteVariables p.dest).queue = q
  value : 0 < p.value.1.length
  due : 0 ≤ (queues q).delay → p.slot + (queues q).delay ≤ later

variable {snd : Sender} {queues : ℕ → Itf} {q : ℕ} {p : Sending} {ps : List Sending}

lemma ctrlSkeletonSendIdx_eq (hp : p.Valid snd queues q later) :
    ctrlSkeletonSendIdx snd queues p.slot p.dest p.value = match Itfspscq.send (queues q) p.slot
          (fromBuffer (p.packet snd) (p.value.1.length + ctrlPktHeaderSz)) with
      | none => none
      | some (n, queue) =>
        some (if n = -1 ∨ n = 0 then -1 else 0, { snd with ctrlOutBuffer := p.packet snd },
          update queues q queue) := by
  have hentry := hp.entry
  rw [ctrlSkeletonSendIdx, if_neg (by omega), ← hp.queue]
  rfl

section

variable (h : Stores (queues q) pend later) (hp : p.Valid snd queues q later)
include h hp

lemma send_of_long (hlong : 8 < p.value.1.length) :
    ctrlSkeletonSendIdx snd queues p.slot p.dest p.value =
      some (-1, { snd with ctrlOutBuffer := p.packet snd }, queues) := by
  have hbytes : sizeofCtrlInPkt <
      (fromBuffer (p.packet snd) (p.value.1.length + ctrlPktHeaderSz)).length := by
    rw [length_fromBuffer]
    change 88 < p.value.1.length + 80
    omega
  rw [ctrlSkeletonSendIdx_eq hp, h.send_of_lt hbytes]
  dsimp only
  rw [update_eq_self]
  rfl

/-- A shorter one is **sent**. -/
theorem send_of_short (hfree : pend.length < (queues q).maxMsg) (hshort : p.value.1.length ≤ 8) :
    ∃ queue' bytes, ctrlSkeletonSendIdx snd queues p.slot p.dest p.value =
        some (0, { snd with ctrlOutBuffer := p.packet snd }, update queues q queue') ∧
      queue'.maxMsg = (queues q).maxMsg ∧ queue'.delay = (queues q).delay ∧
      Stores queue' (pend ++ [(bytes, (bytes.length : ℤ))]) later ∧
      Carries (p.update snd).1 (p.update snd).2 bytes ∧ bytes.length ≤ sizeofCtrlInPkt := by
  have hcarries : Carries (p.update snd).1 (p.update snd).2
      (fromBuffer (p.packet snd) (p.value.1.length + ctrlPktHeaderSz)) :=
    fromBuffer_carries snd.ctrlOutBuffer (p.update snd).1 p.value
  have hlen := length_fromBuffer (p.packet snd) (p.value.1.length + ctrlPktHeaderSz)
  have hconst : ctrlPktHeaderSz = 80 ∧ sizeofCtrlInPkt = 88 := ⟨rfl, rfl⟩
  have hle : (fromBuffer (p.packet snd) (p.value.1.length + ctrlPktHeaderSz)).length ≤
      sizeofCtrlInPkt := by omega
  obtain ⟨queue', hsend, hmsg, hdelay, hstores⟩ := h.send_of_le hfree hle (by omega) hp.due
  refine ⟨queue', _, ?_, hmsg, hdelay, hstores, hcarries, hle⟩
  rw [ctrlSkeletonSendIdx_eq hp, hsend]
  rfl

end

lemma Sending.Valid.next (buffer : CtrlInPkt) {queue' : Itf}
    (hp : p.Valid snd queues q later) (hdelay : queue'.delay = (queues q).delay) :
    p.Valid { snd with ctrlOutBuffer := buffer } (Function.update queues q queue') q later where
  entry := hp.entry
  queue := hp.queue
  value := hp.value
  due := by
    rw [update_self, hdelay]
    exact hp.due

section

variable (h : Stores (queues q) pend later) (hps : ∀ p ∈ ps, p.Valid snd queues q later)
  (hfree : pend.length + ps.length ≤ (queues q).maxMsg)
include h hps hfree

/-- All values are short: **all calls return 0**, and the queue carries the packets. -/
theorem sendAll_of_short (hshort : ∀ p ∈ ps, p.value.1.length ≤ 8) :
    ∃ snd' queues' pend', sendAll snd queues ps = some (List.replicate ps.length 0, snd', queues') ∧
      (queues' q).maxMsg = (queues q).maxMsg ∧ (queues' q).delay = (queues q).delay ∧
      Stores (queues' q) (pend ++ pend') later ∧
      CarriesAll (ps.map fun p => p.update snd) pend' := by
  induction ps generalizing snd queues pend with
  | nil => exact ⟨snd, queues, [], rfl, rfl, rfl, by simpa using h, .nil⟩
  | cons p ps ih =>
    rw [length_cons] at hfree
    have hp := hps p mem_cons_self
    obtain ⟨queue', bytes, hsend, hmsg, hdelay, hstores, hcarries, hle⟩ :=
      send_of_short h hp (by omega) (hshort p mem_cons_self)
    have hstores' : Stores (update queues q queue' q)
        (pend ++ [(bytes, (bytes.length : ℤ))]) later := by rwa [update_self]
    obtain ⟨snd', queues', pend', hall, hmsg', hdelay', hstores'', hcarries'⟩ := ih hstores'
      (fun p' hp' => (hps p' (mem_cons_of_mem p hp')).next (p.packet snd) hdelay)
      (by rw [update_self, hmsg, length_append, length_singleton]; omega)
      (fun p' hp' => hshort p' (mem_cons_of_mem p hp'))
    rw [update_self] at hmsg' hdelay'
    refine ⟨snd', queues', (bytes, (bytes.length : ℤ)) :: pend', ?_, hmsg'.trans hmsg,
      hdelay'.trans hdelay, ?_, .cons ⟨hcarries, rfl, hp.value, hle⟩ hcarries'⟩
    · rw [sendAll, hsend]
      dsimp only
      rw [hall, Option.map_some]
      rfl
    · rwa [append_assoc, singleton_append] at hstores''

/-- One is not: its call **does not return 0**. -/
theorem short_of_sendAll {r : List ℤ × Sender × (ℕ → Itf)}
    (hall : sendAll snd queues ps = some r) (hret : ∀ n ∈ r.1, n = 0) :
    ∀ p ∈ ps, p.value.1.length ≤ 8 := by
  induction ps generalizing snd queues pend r with
  | nil => exact fun p hp => absurd hp not_mem_nil
  | cons p ps ih =>
    rw [length_cons] at hfree
    have hp := hps p mem_cons_self
    rw [sendAll] at hall
    by_cases hshort : p.value.1.length ≤ 8
    · obtain ⟨queue', bytes, hsend, hmsg, hdelay, hstores, -⟩ :=
        send_of_short h hp (by omega) hshort
      rw [hsend] at hall
      obtain ⟨r', hrest, rfl⟩ := Option.map_eq_some_iff.mp hall
      have hstores' : Stores (update queues q queue' q)
          (pend ++ [(bytes, (bytes.length : ℤ))]) later := by rwa [update_self]
      have htail := ih hstores'
        (fun p' hp' => (hps p' (mem_cons_of_mem p hp')).next (p.packet snd) hdelay)
        (by rw [update_self, hmsg, length_append, length_singleton]; omega)
        hrest (fun n hn => hret n (mem_cons_of_mem 0 hn))
      intro p' hp'
      obtain rfl | hmem := mem_cons.mp hp'
      · exact hshort
      · exact htail p' hmem
    · rw [send_of_long h hp (by omega)] at hall
      obtain ⟨r', -, rfl⟩ := Option.map_eq_some_iff.mp hall
      exact absurd (hret (-1) mem_cons_self) (by decide)

end

/-! ## Delivery -/

/-- A sender, its queues with room for the calls, and a receiver, with the calls for its entries
until it drains its control input in slot `later`. -/
structure Setting where
  snd : Sender
  queues : ℕ → Itf
  queue : ℕ
  sendings : List Sending
  rcv : Receiver
  later : ℤ
  empty : Holds (queues queue) []
  size : (queues queue).maxMsgSz = sizeofCtrlInPkt
  slots : 1 < (queues queue).maxMsg
  room : sendings.length ≤ (queues queue).maxMsg
  valid : ∀ p ∈ sendings, p.Valid snd queues queue later
  addressed : ∀ p ∈ sendings, Addresses rcv (snd.remoteVariables p.dest).variableIdx

namespace Setting

def delay (w : Setting) : ℤ := (w.queues w.queue).delay

def updates (w : Setting) : List Update := w.sendings.map fun p => p.update w.snd

/-- Every call returns 0. The receiver sets the variables that were addressed in the order of the
calls, and no others; every packet that is read is applied once, and the queue is empty again. -/
def Delivered (w : Setting) (skeleton : Skeleton) : Prop :=
  ∃ snd' queues', sendAll w.snd w.queues w.sendings =
      some (List.replicate w.sendings.length 0, snd', queues') ∧
    ∀ (tstamp : ℤ) (buffer : List UInt8) (fuel : ℕ),
      buffer.length = skeleton.bufferPackets * sizeofCtrlInPkt → w.sendings.length < fuel →
        ∃ queue' buffer', drain skeleton w.later tstamp fuel (queues' w.queue) buffer w.rcv = some {
            ret := 0
            queue := queue'
            buffer := buffer'
            rcv := w.updates.foldl (fun rcv u => rcv.assign u.1 u.2) w.rcv
            applied := List.replicate w.sendings.length 1 } ∧
          Holds queue' []

lemma stores (w : Setting) : Stores (w.queues w.queue) [] w.later :=
  ⟨w.empty, w.size, fun _ k hk => absurd hk (Nat.not_lt_zero k)⟩

lemma length_updates (w : Setting) : w.updates.length = w.sendings.length := length_map _

lemma addresses_updates (w : Setting) : ∀ u ∈ w.updates, Addresses w.rcv u.1 := by
  intro u hu
  obtain ⟨p, hp, rfl⟩ := mem_map.mp hu
  exact w.addressed p hp

lemma room_nil (w : Setting) :
    ([] : List Itfspscq.Packet).length + w.sendings.length ≤ (w.queues w.queue).maxMsg := by
  rw [length_nil, zero_add]
  exact w.room

end Setting

variable {w : Setting}

lemma sent_of_short (hshort : ∀ p ∈ w.sendings, p.value.1.length ≤ 8) :
    ∃ snd' queues' pend, sendAll w.snd w.queues w.sendings =
        some (List.replicate w.sendings.length 0, snd', queues') ∧
      (queues' w.queue).maxMsg = (w.queues w.queue).maxMsg ∧
      (queues' w.queue).delay = w.delay ∧ Stores (queues' w.queue) pend w.later ∧
      CarriesAll w.updates pend :=
  sendAll_of_short w.stores w.valid w.room_nil hshort

lemma drain_sent (hsingle : skeleton.Single) (tstamp : ℤ) (fuel : ℕ)
    (h : Stores queue pend w.later) (hcarries : CarriesAll w.updates pend)
    (hbuffer : buffer.length = skeleton.bufferPackets * sizeofCtrlInPkt) :
    ∃ queue' buffer', Stores queue' [] w.later ∧ queue'.delay = queue.delay ∧
      queue'.maxMsg = queue.maxMsg ∧
      drain skeleton w.later tstamp (fuel + w.sendings.length) queue buffer w.rcv =
        (drain skeleton w.later tstamp fuel queue' buffer'
          (w.updates.foldl skeleton.update w.rcv)).map fun d =>
            { d with applied := w.updates.map skeleton.applies ++ d.applied } := by
  rw [← w.length_updates]
  exact drain_append hsingle h hcarries w.addresses_updates hbuffer

/-- **Delivery**, for a skeleton that takes no more than one packet from a read. -/
theorem delivered_iff (hsingle : skeleton.Single) :
    w.Delivered skeleton ↔ Nonblocking w.delay ∧ ∀ p ∈ w.sendings, p.value.1.length ≤ 8 ∧
        skeleton.nofPackets (p.value.1.length + ctrlPktHeaderSz) = 1 := by
  constructor
  · rintro ⟨snd', queues', hall, hdrain⟩
    have hshort := short_of_sendAll w.stores w.valid w.room_nil hall
      fun n hn => eq_of_mem_replicate hn
    obtain ⟨snd'', queues'', pend, hall', hmsg, hdelay, hstores, hcarries⟩ := sent_of_short hshort
    obtain rfl : queues' = queues'' := by
      have := hall.symm.trans hall'
      simp only [Option.some.injEq, Prod.mk.injEq] at this
      exact this.2.2
    have hbuffer : (List.replicate (skeleton.bufferPackets * sizeofCtrlInPkt) (0 : UInt8)).length =
        skeleton.bufferPackets * sizeofCtrlInPkt := length_replicate
    obtain ⟨queue, buffer, hdrained, hholds⟩ :=
      hdrain 0 _ (1 + w.sendings.length) hbuffer (by omega)
    obtain ⟨queue', buffer', hstores', hdelay', hmsg', hturns⟩ :=
      drain_sent hsingle 0 1 hstores hcarries hbuffer
    rw [hturns] at hdrained
    obtain ⟨d, hlast, hd⟩ := Option.map_eq_some_iff.mp hdrained
    simp only [Drained.mk.injEq] at hd
    obtain ⟨hret, hqueue, -, -, happlied⟩ := hd
    have hlen := congrArg List.length happlied
    rw [length_append, length_map, length_replicate, w.length_updates] at hlen
    have hnil : d.applied = [] := length_eq_zero_iff.mp (by omega)
    refine ⟨?_, fun p hp => ⟨hshort p hp, ?_⟩⟩
    · by_contra hblocks
      rw [← hdelay, ← hdelay'] at hblocks
      exact not_drained_of_blocking hstores' hblocks (by rw [hmsg', hmsg]; exact w.slots) hlast
        ⟨hret, hnil, hqueue ▸ hholds⟩
    · rw [hnil, append_nil] at happlied
      have hmem : skeleton.applies (p.update w.snd) ∈ w.updates.map skeleton.applies :=
        mem_map_of_mem (mem_map_of_mem hp)
      rw [happlied] at hmem
      exact eq_of_mem_replicate hmem
  · rintro ⟨hnonblocking, hps⟩
    obtain ⟨snd', queues', pend, hall, -, hdelay, hstores, hcarries⟩ :=
      sent_of_short fun p hp => (hps p hp).1
    have hone : ∀ u ∈ w.updates, skeleton.applies u = 1 := by
      intro u hu
      obtain ⟨p, hp, rfl⟩ := mem_map.mp hu
      exact (hps p hp).2
    have hrcv : w.updates.foldl skeleton.update w.rcv =
        w.updates.foldl (fun rcv u => rcv.assign u.1 u.2) w.rcv :=
      foldl_ext _ _ _ fun rcv u hu => if_pos (hone u hu)
    have happlied : w.updates.map skeleton.applies = List.replicate w.sendings.length 1 := by
      rw [← w.length_updates]
      exact map_eq_replicate_iff.mpr hone
    refine ⟨snd', queues', hall, fun tstamp buffer fuel hbuffer hfuel => ?_⟩
    obtain ⟨spare, rfl⟩ : ∃ spare, fuel = spare + 1 + w.sendings.length :=
      ⟨fuel - 1 - w.sendings.length, by omega⟩
    obtain ⟨queue', buffer', hstores', hdelay', -, hturns⟩ :=
      drain_sent hsingle tstamp (spare + 1) hstores hcarries hbuffer
    have hquiet : Nonblocking queue'.delay := by
      rw [hdelay', hdelay]
      exact hnonblocking
    refine ⟨queue', buffer', ?_, hstores'.holds⟩
    rw [hturns, drain_nil hstores' hquiet, Option.map_some, append_nil, hrcv, happlied]

lemma plainSkeleton_single : plainSkeleton.Single := ⟨le_rfl, fun _ _ => le_rfl⟩

lemma ctrlSkeleton_single : ctrlSkeleton.Single :=
  ⟨by decide, fun n hn => Nat.div_le_of_le_mul (by omega)⟩

/-- Control packets reach the plain skeleton exactly if the queue does not block and no value has
more than 8 bytes, and the control skeleton exactly if every value has 8 bytes. -/
theorem control_delivery_iff (w : Setting) :
    (w.Delivered plainSkeleton ↔ Nonblocking w.delay ∧ ∀ p ∈ w.sendings, p.value.1.length ≤ 8) ∧
    (w.Delivered ctrlSkeleton ↔ Nonblocking w.delay ∧ ∀ p ∈ w.sendings, p.value.1.length = 8) := by
  have hframe : ∀ n : ℕ, n ≤ 8 ∧ ctrlSkeleton.nofPackets (n + ctrlPktHeaderSz) = 1 ↔ n = 8 := by
    intro n
    change n ≤ 8 ∧ (n + 80) / 88 = 1 ↔ n = 8
    omega
  constructor
  · rw [delivered_iff plainSkeleton_single]
    exact and_congr_right fun _ => forall₂_congr fun p _ => and_iff_left rfl
  · rw [delivered_iff ctrlSkeleton_single]
    exact and_congr_right fun _ => forall₂_congr fun p _ => hframe _

def oneWord : Receiver where
  vars := [{ Variable.zero with
    id := 1
    size := 4
    initValue := .replicate maxModes (some [0, 0, 0, 0]) }]
  curMode := ⟨0, maxModes_pos⟩

def oneEntry : Sender where
  remoteVariables := fun _ => ⟨0, 0⟩
  nofRemoteVariables := 1
  ctrlOutBuffer := ⟨0, 0, ⟨List.replicate ctrlPktValueSz 0, length_replicate⟩⟩

def ctrlQueue : Itf := Itfspscq.new 136 sizeofCtrlInPkt 1

lemma valid_oneEntry {value : Payload} (hvalue : 0 < value.1.length) :
    ∀ p ∈ [Sending.mk 0 0 value], p.Valid oneEntry (fun _ => ctrlQueue) 0 1 := by
  intro p hp
  obtain rfl := mem_singleton.mp hp
  exact ⟨Int.one_pos, rfl, hvalue, fun _ => le_rfl⟩

lemma addresses_oneWord (p : Sending) :
    Addresses oneWord (oneEntry.remoteVariables p.dest).variableIdx :=
  ⟨le_refl (0 : ℤ), _, rfl, [0, 0, 0, 0], rfl, rfl⟩

def oneCall (value : Payload) (hvalue : 0 < value.1.length) : Setting where
  snd := oneEntry
  queues := fun _ => ctrlQueue
  queue := 0
  sendings := [⟨0, 0, value⟩]
  rcv := oneWord
  later := 1
  empty := holds_new (Nat.zero_lt_succ 135)
  size := rfl
  slots := Nat.one_lt_succ_succ 134
  room := Nat.succ_le_succ (Nat.zero_le 135)
  valid := valid_oneEntry hvalue
  addressed := fun p _ => addresses_oneWord p

theorem control_packet_lost :
    ¬(oneCall ⟨List.replicate 12 1, by decide⟩ (by decide)).Delivered plainSkeleton ∧
      ¬(oneCall ⟨List.replicate 4 1, by decide⟩ (by decide)).Delivered ctrlSkeleton := by
  constructor
  · rw [delivered_iff plainSkeleton_single]
    rintro ⟨-, hps⟩
    exact absurd (hps _ (mem_singleton_self _)).1 (by decide)
  · rw [delivered_iff ctrlSkeleton_single]
    rintro ⟨-, hps⟩
    exact absurd (hps _ (mem_singleton_self _)).2 (by decide)

end Aloe.Oesr.Ctrl
