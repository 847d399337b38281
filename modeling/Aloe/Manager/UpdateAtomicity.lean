import Aloe.Oesr.NodDispatcher

/-!
# Updating the manager's copy of a waveform

Model of `waveform_update` of `oesr/src/manager/man_waveform.c`. The node answers a GET packet with
the `execinfo` of its modules. It writes field after field and stops at the first one that does not
fit its packet; what it has written is sent back all the same, and the manager decodes it in place,
module by module, without looking at the acknowledge word. The modules that arrived whole are
overwritten before a missing one is noticed.
-/

namespace Aloe.Manager

open Lib Oesr List Image

def waveformUpdate (machine : Machine) (ops : StatusOps) (runtime : Runtime) (pool : Pool) :
    EStateM Fail Exchange Unit := do
  onManager (setPacket fun pkt => packetClear { pkt with cmd := .get })
  let x ← get
  packetSendto machine ops runtime ⟨x.waveform.id, 0, 0⟩
  onManager (waveformUnserializeTo pool .none)

/-! ## The reply -/

@[simp] lemma length_id (n : CInt) : (cint.enc n).length = 4 := cint.length_enc n

@[simp] lemma length_execInfo (info : ExecInfo) : (execInfo.enc info).length = 104 :=
  execInfo.length_enc info

/-- The modules of the reply, in `free` bytes: 4 for the id and 104 for the `execinfo` of each. -/
def replyModules : List NodModule → ℕ → List UInt8
  | [], _ => []
  | n :: ns, free =>
    if 108 ≤ free then
      cint.enc n.parent.id ++ Image.execInfo.enc n.parent.execinfo ++ replyModules ns (free - 108)
    else if 4 ≤ free then cint.enc n.parent.id
    else []

variable {free : ℕ}

lemma replyModules_of_le (n : NodModule) (ns : List NodModule) (h : 108 ≤ free) :
    replyModules (n :: ns) free = cint.enc n.parent.id ++
      execInfo.enc n.parent.execinfo ++ replyModules ns (free - 108) := by
  rw [replyModules, if_pos h]

lemma replyModules_of_lt (n : NodModule) (ns : List NodModule) (h : free < 108) :
    replyModules (n :: ns) free = if 4 ≤ free then cint.enc n.parent.id else [] := by
  rw [replyModules, if_neg (by omega)]

def overrunModules (free : ℕ) : ℕ := free / 108 * 108 + if free % 108 < 4 then 4 else 108

def reply (slot : NodWaveform) (size : ℕ) : List UInt8 :=
  if size < 4 then []
  else if size < 8 then cint.enc 0
  else cint.enc 0 ++ cint.enc (lengthI slot.modules) ++ replyModules slot.modules (size - 8)

def overrun (size : ℕ) : ℕ :=
  if size < 4 then 4 else if size < 8 then 8 else 8 + overrunModules (size - 8)

lemma overrunModules_of_le (h : 108 ≤ free) :
    overrunModules free = 108 + overrunModules (free - 108) := by
  have hdiv : free / 108 = (free - 108) / 108 + 1 := by omega
  have hmod : free % 108 = (free - 108) % 108 := by omega
  rw [overrunModules, overrunModules, hdiv, hmod]
  omega

section Write

variable {σ : Type} {s : σ} {pkt : Packet}

def moduleInfoSerialize (n : NodModule) : Prog σ Unit := do
  addI n.parent.id
  addObj Image.execInfo n.parent.execinfo

lemma moduleInfoSerialize_of_le (n : NodModule) (s : σ) (h : pkt.data.length + 108 ≤ pkt.size) :
    ∃ pkt' : Packet, pkt'.size = pkt.size ∧
      pkt'.data = pkt.data ++ (cint.enc n.parent.id ++ execInfo.enc n.parent.execinfo) ∧
      moduleInfoSerialize n (pkt, s) = .ok () (pkt', s) := by
  have hid := length_id n.parent.id
  have hinfo := length_execInfo n.parent.execinfo
  have hroom : pkt.data.length + (cint.enc n.parent.id).length ≤ pkt.size := by omega
  have hroom' : (pkt.append _ hroom).data.length +
      (execInfo.enc n.parent.execinfo).length ≤ (pkt.append _ hroom).size := by
    show (pkt.data ++ cint.enc n.parent.id).length + _ ≤ pkt.size
    rw [length_append]
    omega
  refine ⟨(pkt.append _ hroom).append _ hroom', rfl, append_assoc _ _ _, ?_⟩
  exact (bind_of_ok (addObj_of_le cint _ s hroom)).trans (addObj_of_le execInfo _ s hroom')

lemma moduleInfoSerialize_of_lt (n : NodModule) (s : σ) (h : pkt.size < pkt.data.length + 108) :
    ∃ pkt' : Packet, pkt'.data = pkt.data ++
        (if 4 ≤ pkt.size - pkt.data.length then cint.enc n.parent.id else []) ∧
      moduleInfoSerialize n (pkt, s) =
        .error (refusal (pkt.data.length + overrunModules (pkt.size - pkt.data.length)))
          (pkt', s) := by
  have hid := length_id n.parent.id
  have hdiv : (pkt.size - pkt.data.length) / 108 = 0 := by omega
  have hmod : (pkt.size - pkt.data.length) % 108 = pkt.size - pkt.data.length := by omega
  rw [overrunModules, hdiv, hmod]
  split_ifs with hroom hover hover
  · omega
  · have hroom : pkt.data.length + (cint.enc n.parent.id).length ≤ pkt.size := by omega
    have hlength : (pkt.append _ hroom).data.length = pkt.data.length + 4 := by
      show (pkt.data ++ cint.enc n.parent.id).length = _
      rw [length_append, hid]
    refine ⟨pkt.append _ hroom, rfl, (bind_of_ok (addObj_of_le cint _ s hroom)).trans ?_⟩
    have hfull : (pkt.append _ hroom).size < (pkt.append _ hroom).data.length + execInfo.size := by
      show pkt.size < _ + 104
      omega
    have hrun := addObj_of_lt execInfo n.parent.execinfo s (by decide) hfull
    rw [hlength] at hrun
    exact hrun
  · refine ⟨pkt, (append_nil _).symm, bind_of_error ?_⟩
    exact addObj_of_lt cint _ s (by decide) (show pkt.size < _ + 4 by omega)
  · omega

lemma moduleInfoSerialize_run (ns : List NodModule) (pkt : Packet) (s : σ) :
    ∃ pkt' : Packet, pkt'.data = pkt.data ++ replyModules ns (pkt.size - pkt.data.length) ∧
      ns.forM moduleInfoSerialize (pkt, s) =
        if pkt.data.length + 108 * ns.length ≤ pkt.size then .ok () (pkt', s)
        else .error (refusal (pkt.data.length + overrunModules (pkt.size - pkt.data.length)))
          (pkt', s) := by
  have hle := pkt.length_le
  induction ns generalizing pkt with
  | nil =>
    refine ⟨pkt, (append_nil _).symm, ?_⟩
    rw [length_nil, Nat.mul_zero, Nat.add_zero, if_pos hle]
    rfl
  | cons n ns ih =>
    rcases lt_or_ge pkt.size (pkt.data.length + 108) with hfull | hroom
    · obtain ⟨pkt', hdata, hrun⟩ := moduleInfoSerialize_of_lt n s hfull
      refine ⟨pkt', ?_, ?_⟩
      · rw [hdata, replyModules_of_lt _ _ (by omega)]
      · rw [if_neg (by rw [length_cons]; omega), forM_cons_of_error hrun]
    · obtain ⟨pkt1, hsize, hdata1, hrun1⟩ := moduleInfoSerialize_of_le n s hroom
      have hlength : pkt1.data.length = pkt.data.length + 108 := by
        have hid := length_id n.parent.id
        have hinfo := length_execInfo n.parent.execinfo
        rw [hdata1, length_append, length_append]
        omega
      obtain ⟨pkt', hdata, hrun⟩ := ih pkt1 pkt1.length_le
      have hfree : pkt1.size - pkt1.data.length = pkt.size - pkt.data.length - 108 := by omega
      refine ⟨pkt', ?_, ?_⟩
      · rw [hdata, hfree, hdata1, replyModules_of_le _ _ (by omega)]
        simp
      · have hover := overrunModules_of_le (show 108 ≤ pkt.size - pkt.data.length by omega)
        rw [forM_cons_of_ok hrun1, hrun, hfree, hover, hsize,
           hlength, length_cons, Nat.mul_add_one, add_comm (108 * _) 108]
        simp only [add_assoc]

lemma nodWaveformSerialize_run (slot : NodWaveform) (hempty : pkt.data = []) (s : σ) :
    ∃ pkt' : Packet, pkt'.data = reply slot pkt.size ∧ nodWaveformSerialize slot 0 .none (pkt, s) =
        if 8 + 108 * slot.modules.length ≤ pkt.size then .ok () (pkt', s)
        else .error (refusal (overrun pkt.size)) (pkt', s) := by
  have hzero : pkt.data.length = 0 := by rw [hempty]; rfl
  have hid := length_id 0
  have hcount := length_id (lengthI slot.modules)
  have hbody : (fun m : NodModule => (do
      addI m.parent.id
      if (0 : CInt) = 0 then addObj execInfo m.parent.execinfo
      else moduleSerialize SerializeData.none m.parent : Prog σ Unit)) = moduleInfoSerialize := by
    funext m
    rw [if_pos rfl]
    rfl
  unfold nodWaveformSerialize
  rw [hbody]
  rcases lt_or_ge pkt.size 4 with hnone | hfirst
  · refine ⟨pkt, ?_, ?_⟩
    · rw [hempty, reply, if_pos hnone]
    · rw [if_neg (by omega), overrun, if_pos hnone]
      have hrun := addObj_of_lt cint 0 s (by decide) (show pkt.size < pkt.data.length + 4 by omega)
      rw [hzero] at hrun
      exact bind_of_error hrun
  have hroom : pkt.data.length + (cint.enc 0).length ≤ pkt.size := by omega
  have hrun1 : addI 0 (pkt, s) = .ok () (pkt.append _ hroom, s) := addObj_of_le cint 0 s hroom
  rw [bind_of_ok hrun1]
  have hlength1 : (pkt.append _ hroom).data.length = 4 := by
    show (pkt.data ++ cint.enc 0).length = 4
    rw [length_append]
    omega
  rcases lt_or_ge pkt.size 8 with hone | hsecond
  · refine ⟨pkt.append _ hroom, ?_, ?_⟩
    · show pkt.data ++ _ = _
      rw [hempty, reply, if_neg (by omega), if_pos hone, nil_append]
    · rw [if_neg (by omega), overrun, if_neg (by omega), if_pos hone]
      have hfull : (pkt.append _ hroom).size < (pkt.append _ hroom).data.length + cint.size := by
        rw [hlength1]
        exact hone
      have hrun := addObj_of_lt cint (lengthI slot.modules) s (by decide) hfull
      rw [hlength1] at hrun
      exact bind_of_error hrun
  have hroom' : (pkt.append _ hroom).data.length + (cint.enc (lengthI slot.modules)).length ≤
      (pkt.append _ hroom).size := by
    rw [hlength1, hcount]
    exact hsecond
  have hrun2 : addI (lengthI slot.modules) (pkt.append _ hroom, s) =
      .ok () ((pkt.append _ hroom).append _ hroom', s) := addObj_of_le cint _ s hroom'
  rw [bind_of_ok hrun2]
  obtain ⟨pkt', hdata, hrun⟩ :=
    moduleInfoSerialize_run slot.modules ((pkt.append _ hroom).append _ hroom') s
  have hlength2 : ((pkt.append _ hroom).append _ hroom').data.length = 8 := by
    show ((pkt.append _ hroom).data ++ cint.enc (lengthI slot.modules)).length = 8
    rw [length_append]
    omega
  have hsize : ((pkt.append _ hroom).append _ hroom').size = pkt.size := rfl
  rw [hlength2, hsize] at hrun hdata
  refine ⟨pkt', ?_, ?_⟩
  · rw [hdata, reply, if_neg (by omega), if_neg (by omega)]
    show pkt.data ++ _ ++ _ ++ _ = _
    rw [hempty, nil_append]
  · rw [hrun, overrun, if_neg (show ¬ pkt.size < 4 by omega), if_neg (show ¬ pkt.size < 8 by omega)]

end Write

/-! ## The exchange -/

section Exchange

variable (machine : Machine) (ops : StatusOps) (runtime : Runtime) {slot : NodWaveform}
  {node : Node} {α : Type} {x : Exchange} {q : Packet}

structure Holds (node : Node) (id : CInt) (slot : NodWaveform) : Prop where
  id_ne : id ≠ 0
  found : ∃ wi, (node.slots.findIdx? fun w => w.id = id) = some wi ∧ node.slots[wi]? = some slot

lemma nodDispatcherGet_run {pkt : Packet} (hholds : Holds node pkt.dest.waveformId slot)
    (hdest : pkt.dest.moduleId = 0 ∧ pkt.dest.variableId = 0) (hempty : pkt.data = []) :
    ∃ pkt' : Packet, pkt'.data = reply slot pkt.size ∧ nodDispatcherGet (pkt, node.slots) =
        if 8 + 108 * slot.modules.length ≤ pkt.size then .ok () (pkt', node.slots)
        else .error (refusal (overrun pkt.size)) (pkt', node.slots) := by
  obtain ⟨hid, wi, hfind, hslot⟩ := hholds
  obtain ⟨hwi, hslot'⟩ := List.getElem?_eq_some_iff.mp hslot
  obtain ⟨pkt', hdata, hrun⟩ := nodWaveformSerialize_run slot hempty slot
  refine ⟨pkt', hdata, ?_⟩
  have hset : node.slots.set wi slot = node.slots := by
    rw [← hslot']
    exact set_getElem_self hwi
  have hthis : getThis (pkt, slot) = .ok slot (pkt, slot) := rfl
  have hwrite : (getThis >>= fun w => nodWaveformSerialize w 0 .none : Prog NodWaveform Unit)
      (pkt, slot) = nodWaveformSerialize slot 0 .none (pkt, slot) := bind_of_ok hthis
  rw [hrun] at hwrite
  refine (bind_of_ok (rfl : getDest (pkt, node.slots) = .ok pkt.dest (pkt, node.slots))).trans ?_
  refine (bind_of_ok (getThis_run pkt node.slots)).trans ?_
  rw [if_neg hid, hfind]
  split_ifs at hwrite ⊢ with hfits
  · exact zoom_ok_same hslot hset hwrite
  · exact zoom_error_same hslot hset hwrite

lemma nodAnodeDispatch_get (pkt : Packet) (node : Node) (hcmd : pkt.cmd = .get)
    (hholds : Holds node pkt.dest.waveformId slot)
    (hdest : pkt.dest.moduleId = 0 ∧ pkt.dest.variableId = 0) (hempty : pkt.data = []) :
    ∃ pkt' : Packet, pkt'.data = reply slot pkt.size ∧
      ((8 + 108 * slot.modules.length ≤ pkt.size ∨ overrun pkt.size < 2 ^ 31) →
        ∃ ack, nodAnodeDispatch machine ops runtime (pkt, node) = .ok ack (pkt', node)) ∧
      (¬ (8 + 108 * slot.modules.length ≤ pkt.size ∨ overrun pkt.size < 2 ^ 31) →
        nodAnodeDispatch machine ops runtime (pkt, node) = .error .fault (pkt', node)) := by
  obtain ⟨pkt', hdata, hrun⟩ := nodDispatcherGet_run hholds hdest hempty
  have hget : nodAnodeDispatch machine ops runtime (pkt, node) =
      returned (onSlots nodDispatcherGet) (pkt, node) := by
    refine (bind_of_ok (rfl : getCmd (pkt, node) = .ok pkt.cmd (pkt, node))).trans ?_
    rw [hcmd]
  rw [hget]
  have hslots : some node.slots = some node.slots := rfl
  refine ⟨pkt', hdata, fun hsafe => ?_, fun hwrap => ?_⟩
  · split_ifs at hrun with hfits
    · have hok : onSlots nodDispatcherGet (pkt, node) = .ok () (pkt', node) := zoom_ok hslots hrun
      exact ⟨0, tryCatch_of_ok (bind_of_ok hok)⟩
    · rw [refusal, if_pos (hsafe.resolve_left hfits)] at hrun
      have herror : onSlots nodDispatcherGet (pkt, node) = .error .ret (pkt', node) :=
        zoom_error hslots hrun
      exact ⟨-1, tryCatch_of_error (bind_of_error herror)⟩
  · rw [if_neg fun hfits => hwrap (.inl hfits), refusal,
      if_neg fun hsafe => hwrap (.inr hsafe)] at hrun
    have herror : onSlots nodDispatcherGet (pkt, node) = .error .fault (pkt', node) :=
      zoom_error hslots hrun
    exact tryCatch_of_error (bind_of_error herror)

variable {p : Prog Node α} {a : α} {e : Fail} {w : Waveform}

lemma onNode_ok (h : p (x.nodePacket, x.node) = .ok a (q, node)) :
    onNode p x = .ok a { x with nodePacket := q, node := node } := by
  simp only [onNode, h]

lemma onNode_error (h : p (x.nodePacket, x.node) = .error e (q, node)) :
    onNode p x = .error e { x with nodePacket := q, node := node } := by
  simp only [onNode, h]

lemma onManager_ok {p : Prog Waveform α} (h : p (x.packet, x.waveform) = .ok a (q, w)) :
    onManager p x = .ok a { x with packet := q, waveform := w } := by
  simp only [onManager, h]

lemma onManager_error {p : Prog Waveform α} (h : p (x.packet, x.waveform) = .error e (q, w)) :
    onManager p x = .error e { x with packet := q, waveform := w } := by
  simp only [onManager, h]

def requestPacket (x : Exchange) (dest : PacketDest) : Packet :=
  { packetClear x.nodePacket with cmd := x.packet.cmd, dest := dest }

lemma packetSendto_request (hempty : x.packet.data = []) (dest : PacketDest) :
    packetSendto machine ops runtime dest x =
      packetAnswer machine ops runtime { x with nodePacket := requestPacket x dest } := by
  have hget : (get : EStateM Fail Exchange Exchange) x = .ok x x := rfl
  have hclear : onNode (setPacket fun pkt =>
      { packetClear pkt with cmd := x.packet.cmd, dest := dest }) x =
        .ok () { x with nodePacket := requestPacket x dest } := rfl
  have hcopy : onNode (packetAddData (some x.packet.data) x.packet.data.length)
      { x with nodePacket := requestPacket x dest } =
        .ok () { x with nodePacket := requestPacket x dest } := by
    rw [hempty]
    exact onNode_ok (packetAddData_of_le _ (Nat.zero_le _))
  exact (bind_of_ok hget).trans ((bind_of_ok hclear).trans (bind_of_ok hcopy))

def Contained (slot : NodWaveform) (size : ℕ) : Prop :=
  8 + 108 * slot.modules.length ≤ size ∨ overrun size < 2 ^ 31

lemma packetSendto_get {id : CInt} (hcmd : x.packet.cmd = .get)
    (hempty : x.packet.data = []) (hholds : Holds x.node id slot) :
    (Contained slot x.nodePacket.size → ∃ x' : Exchange, x'.waveform = x.waveform ∧
      ((reply slot x.nodePacket.size).length ≤ x.packet.size →
        x'.packet.unread = reply slot x.nodePacket.size ∧
        packetSendto machine ops runtime ⟨id, 0, 0⟩ x = .ok () x') ∧
      (x.packet.size < (reply slot x.nodePacket.size).length →
        packetSendto machine ops runtime ⟨id, 0, 0⟩ x = .error .ret x')) ∧
    (¬ Contained slot x.nodePacket.size →
      ∃ x', packetSendto machine ops runtime ⟨id, 0, 0⟩ x = .error .fault x') := by
  rw [packetSendto_request machine ops runtime hempty]
  obtain ⟨pkt', hdata, hsafe, hwrap⟩ := nodAnodeDispatch_get machine ops runtime
    (requestPacket x ⟨id, 0, 0⟩) x.node hcmd hholds ⟨rfl, rfl⟩ rfl
  change pkt'.data = reply slot x.nodePacket.size at hdata
  refine ⟨fun hcontained => ?_, fun hlost => ⟨_, bind_of_error (onNode_error (hwrap hlost))⟩⟩
  obtain ⟨ack, hrun⟩ := hsafe hcontained
  obtain ⟨x2, hx2⟩ : ∃ x2 : Exchange, x2 =
      { x with packet := { x.packet with ack := ack }, nodePacket := pkt' } := ⟨_, rfl⟩
  have hsent : packetAnswer machine ops runtime
      { x with nodePacket := requestPacket x ⟨id, 0, 0⟩ } =
        onManager (packetAddData (some pkt'.data) pkt'.data.length) x2 := by
    have hdispatch : onNode (nodAnodeDispatch machine ops runtime)
        { x with nodePacket := requestPacket x ⟨id, 0, 0⟩ } =
        .ok ack { x with nodePacket := pkt' } :=
      onNode_ok hrun
    have hack : onManager (setPacket fun pkt => { pkt with ack := ack })
        { x with nodePacket := pkt' } = .ok () x2 := by
      rw [hx2]
      rfl
    have hget : (get : EStateM Fail Exchange Exchange) x2 = .ok x2 x2 := rfl
    refine (bind_of_ok hdispatch).trans ((bind_of_ok hack).trans ((bind_of_ok hget).trans ?_))
    rw [hx2]
  rw [hsent, ← hdata]
  have hbytes : pkt'.data.length < 2 ^ 31 := lt_of_le_of_lt pkt'.length_le pkt'.size_lt
  have hsize : x2.packet.size = x.packet.size := by rw [hx2]
  have hkept : x2.waveform = x.waveform := by rw [hx2]
  have hnil : x2.packet.data = [] := by rw [hx2]; exact hempty
  have hlength : x2.packet.data.length = 0 := by rw [hnil]; rfl
  have hptr : x2.packet.rPtr = 0 := by
    have := x2.packet.rPtr_le
    omega
  rcases lt_or_ge x.packet.size pkt'.data.length with hfull | hroom
  · refine ⟨x2, hkept, fun hle => absurd hle (Nat.not_le_of_lt hfull), fun _ => ?_⟩
    have hadd := packetAddData_of_lt x2.waveform hbytes
      (show x2.packet.size < x2.packet.data.length + _ by omega)
    rw [refusal, if_pos (by omega)] at hadd
    exact onManager_error hadd
  · have hfits : x2.packet.data.length + pkt'.data.length ≤ x2.packet.size := by omega
    refine ⟨{ x2 with packet := x2.packet.append pkt'.data hfits }, hkept, fun _ =>
      ⟨?_, onManager_ok (packetAddData_of_le x2.waveform hfits)⟩,
      fun hlt => absurd hroom (Nat.not_le_of_lt hlt)⟩
    show (x2.packet.data ++ pkt'.data).drop x2.packet.rPtr = _
    rw [hnil, hptr]
    rfl

end Exchange

open Nat

/-! ## The manager's copy -/

/-- The module with the `execinfo` of the node's module of the same id, if there is one. -/
def infoFrom (ns : List NodModule) (m : Module) : Module :=
  match ns.find? fun n => n.parent.id = m.id with
  | some n => { m with execinfo := n.parent.execinfo }
  | none => m

def refreshed (w : Waveform) (ns : List NodModule) : Waveform :=
  { w with modules := w.modules.map (infoFrom ns) }

def moduleIds (w : Waveform) : List CInt := w.modules.map Module.id

def nodModuleIds (ns : List NodModule) : List CInt := ns.map fun n => n.parent.id

@[simp] lemma infoFrom_id (ns : List NodModule) (m : Module) : (infoFrom ns m).id = m.id := by
  unfold infoFrom
  split <;> rfl

@[simp] lemma refreshed_nil (w : Waveform) : refreshed w [] = w := by
  have hmap : w.modules.map (infoFrom []) = w.modules := map_id'' (fun _ => rfl) _
  rw [refreshed, hmap]

@[simp] lemma moduleIds_refreshed (w : Waveform) (ns : List NodModule) :
    moduleIds (refreshed w ns) = moduleIds w := by
  simp [moduleIds, refreshed, Function.comp_def]

variable {n : NodModule} {ns : List NodModule} {m : Module} {w : Waveform}

lemma infoFrom_infoFrom (h : n.parent.id ∉ nodModuleIds ns) (m : Module) :
    infoFrom ns (infoFrom [n] m) = infoFrom (n :: ns) m := by
  by_cases hid : n.parent.id = m.id
  · have hnone : ns.find? (fun k => k.parent.id = m.id) = none := by
      refine find?_eq_none.mpr fun k hk hkid => h ?_
      rw [hid, ← of_decide_eq_true hkid]
      exact mem_map_of_mem (f := fun k : NodModule => k.parent.id) hk
    simp [infoFrom, hid, hnone]
  · simp [infoFrom, hid]

lemma refreshed_refreshed (h : n.parent.id ∉ nodModuleIds ns) (w : Waveform) :
    refreshed (refreshed w [n]) ns = refreshed w (n :: ns) := by
  have hmap : (w.modules.map (infoFrom [n])).map (infoFrom ns) =
      w.modules.map (infoFrom (n :: ns)) := by
    rw [map_map]
    exact map_congr_left fun m _ => infoFrom_infoFrom h m
  simp only [refreshed, hmap]

lemma infoFrom_of_mem (hnodes : (nodModuleIds ns).Nodup) (hn : n ∈ ns) (hid : n.parent.id = m.id) :
    infoFrom ns m = { m with execinfo := n.parent.execinfo } := by
  unfold infoFrom
  cases hfind : ns.find? fun k => k.parent.id = m.id with
  | none => exact absurd hid (by simpa using find?_eq_none.mp hfind n hn)
  | some k =>
    have hkid : k.parent.id = m.id := by simpa using find?_some hfind
    obtain rfl : k = n :=
      inj_on_of_nodup_map hnodes (mem_of_find?_eq_some hfind) hn (hkid.trans hid.symm)
    rfl

lemma refreshed_eq_self_iff (hnodes : (nodModuleIds ns).Nodup) : refreshed w ns = w ↔
      ∀ n ∈ ns, ∀ m ∈ w.modules, n.parent.id = m.id → m.execinfo = n.parent.execinfo := by
  have hmodules : refreshed w ns = w ↔ ∀ m ∈ w.modules, infoFrom ns m = m := by
    have hmap := map_inj_left (l := w.modules) (f := infoFrom ns) (g := id)
    rw [map_id] at hmap
    exact ⟨fun h => hmap.mp (congrArg Waveform.modules h), fun h => by
      rw [refreshed, hmap.mpr h]⟩
  rw [hmodules]
  constructor
  · intro h n hn m hm hid
    have hsame := h m hm
    rw [infoFrom_of_mem hnodes hn hid] at hsame
    exact (congrArg Module.execinfo hsame).symm
  · intro h m hm
    unfold infoFrom
    split
    · rename_i n hfind
      have hid : n.parent.id = m.id := by simpa using find?_some hfind
      rw [← h n (mem_of_find?_eq_some hfind) m hm hid]
    · rfl

lemma set_eq_refreshed (hnodup : (moduleIds w).Nodup) {i : ℕ}
    (hfind : (w.modules.findIdx? fun m => m.id = n.parent.id) = some i)
    (hm : w.modules[i]? = some m) :
    { w with modules := w.modules.set i { m with execinfo := n.parent.execinfo } } =
      refreshed w [n] := by
  obtain ⟨hi, hid⟩ : ∃ hi : i < w.modules.length, w.modules[i].id = n.parent.id := by
    obtain ⟨hi, hid, -⟩ := findIdx?_eq_some_iff_getElem.mp hfind
    exact ⟨hi, of_decide_eq_true hid⟩
  obtain rfl : w.modules[i] = m := by rwa [getElem?_eq_getElem hi, Option.some.injEq] at hm
  have hmodules : w.modules.set i { w.modules[i] with execinfo := n.parent.execinfo } =
      w.modules.map (infoFrom [n]) := by
    refine ext_getElem? fun j => ?_
    rw [getElem?_map]
    by_cases hij : i = j
    · subst hij
      rw [getElem?_set_self hi, hm]
      simp [infoFrom, hid]
    · rw [getElem?_set_ne hij]
      cases hk : w.modules[j]? with
      | none => rfl
      | some k =>
        have hne : n.parent.id ≠ k.id := by
          intro heq
          refine hij ((getElem?_inj (by simpa [moduleIds] using hi) hnodup).mp ?_)
          rw [moduleIds, getElem?_map, getElem?_map, hk, hm]
          exact congrArg some (hid.trans heq)
        simp [infoFrom, hne]
  rw [hmodules, refreshed]

/-! ## Decoding the reply -/

section Read

variable (pool : Pool) {w : Waveform} {n : NodModule} {pkt : Packet}

def infoUnserialize (i : ℕ) : Prog Waveform Unit :=
  zoom .fault (fun w => w.modules[i]?) (fun m w => { w with modules := w.modules.set i m })
    (getObj Image.execInfo fun info (m : Module) => { m with execinfo := info })

lemma unserializeModule_of_id (hmem : n.parent.id ∈ moduleIds w) {pkt1 : Packet}
    (hid : readI (pkt, w) = .ok n.parent.id (pkt1, w)) :
    ∃ i m, (w.modules.findIdx? fun m => m.id = n.parent.id) = some i ∧ w.modules[i]? = some m ∧
      waveformUnserializeModule pool 0 .none (pkt, w) = infoUnserialize i (pkt1, w) := by
  cases hfind : w.modules.findIdx? fun m => m.id = n.parent.id with
  | none =>
    obtain ⟨m, hm, hmid⟩ := mem_map.mp hmem
    have hno := findIdx?_eq_none_iff.mp hfind m hm
    exact absurd hmid (of_decide_eq_false hno)
  | some i =>
    obtain ⟨hi, -⟩ := findIdx?_eq_some_iff_getElem.mp hfind
    refine ⟨i, w.modules[i], rfl, getElem?_eq_getElem hi, (bind_of_ok hid).trans ?_⟩
    have hthis : getThis (pkt1, w) = .ok w (pkt1, w) := rfl
    refine (bind_of_ok hthis).trans ?_
    simp only [hfind]
    rfl

lemma unserializeModule_of_whole (hnodup : (moduleIds w).Nodup)
    (hmem : n.parent.id ∈ moduleIds w) {rest : List UInt8} (h : pkt.unread =
      cint.enc n.parent.id ++ Image.execInfo.enc n.parent.execinfo ++ rest) :
    ∃ pkt' : Packet, pkt'.unread = rest ∧
      waveformUnserializeModule pool 0 .none (pkt, w) = .ok () (pkt', refreshed w [n]) := by
  rw [append_assoc] at h
  obtain ⟨pkt1, hunread1, hid⟩ := readObj_of_append (succ_pos 3) h w
  obtain ⟨i, m, hfind, hm, hrun⟩ := unserializeModule_of_id pool hmem hid
  obtain ⟨pkt', hunread, hinfo⟩ := readObj_of_append (succ_pos 103) hunread1 m
  refine ⟨pkt', hunread, ?_⟩
  rw [hrun, ← set_eq_refreshed hnodup hfind hm]
  exact zoom_ok hm (bind_of_ok hinfo)

lemma unserializeModule_of_cut (hmem : n.parent.id ∈ moduleIds w) {free : ℕ}
    (h : pkt.unread = if 4 ≤ free then cint.enc n.parent.id else []) :
    ∃ pkt' : Packet, waveformUnserializeModule pool 0 .none (pkt, w) = .error .ret (pkt', w) := by
  split_ifs at h with hfree
  · rw [← append_nil (cint.enc n.parent.id)] at h
    obtain ⟨pkt1, hunread1, hid⟩ := readObj_of_append (succ_pos 3) h w
    obtain ⟨i, m, hfind, hm, hrun⟩ := unserializeModule_of_id pool hmem hid
    have hnothing : pkt1.unread.length < Image.execInfo.size := by
      rw [hunread1]
      exact succ_pos 103
    obtain ⟨hi, rfl⟩ := List.getElem?_eq_some_iff.mp hm
    refine ⟨pkt1, hrun.trans (zoom_error_same hm ?_ (bind_of_error (readObj_of_lt _ hnothing _)))⟩
    rw [set_getElem_self hi]
  · refine ⟨pkt, bind_of_error (readObj_of_lt _ ?_ _)⟩
    rw [h]
    exact succ_pos 3

lemma unserializeModules_run (ns : List NodModule) {cs : List ℕ}
    (hlength : cs.length = ns.length) (free : ℕ) (hnodup : (moduleIds w).Nodup)
    (hnodes : (nodModuleIds ns).Nodup) (hmem : ∀ n ∈ ns, n.parent.id ∈ moduleIds w)
    (h : pkt.unread = replyModules ns free) :
    ∃ pkt' : Packet, cs.forM (fun _ => waveformUnserializeModule pool 0 .none) (pkt, w) =
      if 108 * ns.length ≤ free then .ok () (pkt', refreshed w ns)
      else .error .ret (pkt', refreshed w (ns.take (free / 108))) := by
  induction ns generalizing cs free w pkt with
  | nil =>
    obtain rfl : cs = [] := length_eq_zero_iff.mp hlength
    refine ⟨pkt, ?_⟩
    rw [length_nil, Nat.mul_zero, if_pos (Nat.zero_le free), refreshed_nil]
    rfl
  | cons n ns ih =>
    obtain ⟨c, cs, rfl⟩ := exists_cons_of_length_eq_add_one hlength
    obtain ⟨hnotMem, hnodes⟩ := nodup_cons.mp hnodes
    have hfirst := hmem n mem_cons_self
    rcases lt_or_ge free 108 with hcut | hwhole
    · rw [replyModules_of_lt n ns hcut] at h
      obtain ⟨pkt', hrun⟩ := unserializeModule_of_cut pool hfirst h
      refine ⟨pkt', (forM_cons_of_error (p := fun _ => waveformUnserializeModule pool 0 .none)
        hrun).trans ?_⟩
      rw [if_neg (by rw [length_cons]; omega), div_eq_of_lt hcut, take_zero, refreshed_nil]
    · rw [replyModules_of_le n ns hwhole] at h
      obtain ⟨pkt1, hunread, hrun⟩ := unserializeModule_of_whole pool hnodup hfirst h
      obtain ⟨pkt', hrest⟩ := ih (w := refreshed w [n]) (succ.inj hlength) (free - 108)
        (by rwa [moduleIds_refreshed]) hnodes
        (fun k hk => by
          rw [moduleIds_refreshed]
          exact hmem k (mem_cons_of_mem n hk))
        hunread
      have hdiv : free / 108 = (free - 108) / 108 + 1 := by omega
      have hnotMem' : n.parent.id ∉ nodModuleIds (ns.take ((free - 108) / 108)) := fun hin =>
        hnotMem ((take_sublist _ ns).map _ |>.subset hin)
      have hfits : 108 * ns.length ≤ free - 108 ↔ 108 * (n :: ns).length ≤ free := by
        rw [length_cons]
        omega
      refine ⟨pkt', (forM_cons_of_ok (p := fun _ => waveformUnserializeModule pool 0 .none)
        hrun).trans ?_⟩
      rw [hrest, refreshed_refreshed hnotMem, refreshed_refreshed hnotMem', hdiv, take_succ_cons]
      simp only [hfits]

lemma waveformAlloc_none (hnone : w.modules = []) :
    Oesr.waveformAlloc pool (BitVec.ofNat 32 0) (pkt, w) =
      if pool 0 .module = true then .ok () (pkt, w) else .error .ret (pkt, w) := by
  obtain ⟨id, modules, status, modes, name, nofModes, granularityUs, precachPipeline⟩ := w
  obtain rfl : modules = [] := hnone
  refine (bind_of_ok (getThis_run pkt _)).trans ?_
  by_cases hserved : pool 0 .module = true
  · exact (congrFun (if_pos hserved) _).trans (if_pos hserved).symm
  · exact (congrFun (if_neg hserved) _).trans (if_neg hserved).symm

lemma waveformUnserializeTo_run (slot : NodWaveform) (size : ℕ)
    (hcount : slot.modules.length < 2 ^ 31) (hnodup : (moduleIds w).Nodup)
    (hnodes : (nodModuleIds slot.modules).Nodup)
    (hmem : ∀ n ∈ slot.modules, n.parent.id ∈ moduleIds w) (h : pkt.unread = reply slot size) :
    ∃ pkt' : Packet, waveformUnserializeTo pool .none (pkt, w) =
      if 8 + 108 * slot.modules.length ≤ size ∧ (w.modules = [] → pool 0 .module = true) then
        .ok () (pkt', refreshed w slot.modules)
      else .error .ret (pkt', refreshed w (slot.modules.take ((size - 8) / 108))) := by
  rcases lt_or_ge size 8 with hshort | hlong
  · -- not even the number of modules arrived
    have hkept : (size - 8) / 108 = 0 := by omega
    have hcut : ¬ (8 + 108 * slot.modules.length ≤ size ∧
        (w.modules = [] → pool 0 .module = true)) := fun hfits => by omega
    simp only [if_neg hcut, hkept, take_zero, refreshed_nil]
    rcases lt_or_ge size 4 with hnone | hone
    · rw [reply, if_pos hnone] at h
      exact ⟨pkt, bind_of_error (readObj_of_lt cint (by rw [h]; exact succ_pos 3) w)⟩
    · rw [reply, if_neg (by omega), if_pos hshort, ← append_nil (cint.enc 0)] at h
      obtain ⟨pkt1, hunread, hzero⟩ := readObj_of_append (succ_pos 3) h w
      refine ⟨pkt1, (bind_of_ok hzero).trans (bind_of_error (readObj_of_lt cint ?_ w))⟩
      rw [hunread]
      exact succ_pos 3
  rw [reply, if_neg (by omega), if_neg (by omega), append_assoc] at h
  obtain ⟨pkt1, hunread1, hzero⟩ := readObj_of_append (succ_pos 3) h w
  obtain ⟨pkt2, hunread2, hnumber⟩ := readObj_of_append (succ_pos 3) hunread1 w
  have hthis : getThis (pkt2, w) = .ok w (pkt2, w) := rfl
  have hheader : waveformUnserializeTo pool .none (pkt, w) = (do
      if w.modules.length = 0 then Oesr.waveformAlloc pool (lengthI slot.modules)
      (List.range (lengthI slot.modules).count).forM fun _ =>
        waveformUnserializeModule pool 0 .none) (pkt2, w) :=
    (bind_of_ok hzero).trans ((bind_of_ok hnumber).trans (bind_of_ok hthis))
  rw [hheader, lengthI, CInt.count_ofNat hcount]
  by_cases hnone : w.modules = []
  · have hempty : slot.modules = [] := by
      refine eq_nil_iff_forall_not_mem.mpr fun n hn => ?_
      have hin := hmem n hn
      rw [moduleIds, hnone] at hin
      exact not_mem_nil hin
    refine ⟨pkt2, ?_⟩
    rw [hempty, length_nil, if_pos (length_eq_zero_iff.mpr hnone), take_nil, refreshed_nil]
    by_cases hserved : pool 0 .module = true
    · rw [if_pos ⟨by omega, fun _ => hserved⟩]
      exact bind_of_ok ((waveformAlloc_none pool hnone).trans (if_pos hserved))
    · rw [if_neg fun hfits => hserved (hfits.2 hnone)]
      exact bind_of_error ((waveformAlloc_none pool hnone).trans (if_neg hserved))
  · have hpos : ¬ w.modules.length = 0 := fun hzero => hnone (length_eq_zero_iff.mp hzero)
    obtain ⟨pkt', hrun⟩ := unserializeModules_run pool slot.modules (length_range)
      (size - 8) hnodup hnodes hmem hunread2
    have hfits : 108 * slot.modules.length ≤ size - 8 ↔
        8 + 108 * slot.modules.length ≤ size ∧ (w.modules = [] → pool 0 .module = true) :=
      ⟨fun hle => ⟨by omega, fun hnil => absurd hnil hnone⟩, fun hle => by omega⟩
    refine ⟨pkt', ?_⟩
    rw [if_neg hpos]
    refine Eq.trans hrun ?_
    simp only [hfits]

end Read

/-! ## The bytes that are sent back -/

/-- The number of bytes of the reply of `n` modules in a packet of `size` bytes. -/
def sentBytes (n size : ℕ) : ℕ :=
  if size < 4 then 0
  else if size < 8 then 4
  else if 8 + 108 * n ≤ size then 8 + 108 * n
  else 8 + (size - 8) / 108 * 108 + if (size - 8) % 108 < 4 then 0 else 4

lemma length_replyModules (ns : List NodModule) (free : ℕ) : (replyModules ns free).length =
      if 108 * ns.length ≤ free then 108 * ns.length
      else free / 108 * 108 + if free % 108 < 4 then 0 else 4 := by
  induction ns generalizing free with
  | nil => simp [replyModules]
  | cons n ns ih =>
    have hid := length_id n.parent.id
    have hinfo := length_execInfo n.parent.execinfo
    rcases lt_or_ge free 108 with hcut | hwhole
    · have hnil : ([] : List UInt8).length = 0 := rfl
      rw [replyModules_of_lt n ns hcut, div_eq_of_lt hcut, mod_eq_of_lt hcut, length_cons]
      split_ifs <;> omega
    · have hdiv : free / 108 = (free - 108) / 108 + 1 := by omega
      have hmod : free % 108 = (free - 108) % 108 := by omega
      rw [replyModules_of_le n ns hwhole, length_append, length_append, ih, length_cons, hdiv, hmod]
      split_ifs <;> omega

lemma length_reply (slot : NodWaveform) (size : ℕ) :
    (reply slot size).length = sentBytes slot.modules.length size := by
  have hid := length_id 0
  have hcount := length_id (lengthI slot.modules)
  rcases lt_or_ge size 4 with hnone | hfirst
  · rw [reply, if_pos hnone, sentBytes, if_pos hnone]
    rfl
  rcases lt_or_ge size 8 with hone | hsecond
  · rw [reply, if_neg (by omega), if_pos hone, sentBytes, if_neg (by omega), if_pos hone]
    exact hid
  rw [reply, if_neg (by omega), if_neg (by omega), length_append, length_append,
    length_replyModules, sentBytes, if_neg (show ¬ size < 4 by omega),
    if_neg (show ¬ size < 8 by omega)]
  split_ifs <;> omega

/-! ## The update -/

structure Loaded (x : Exchange) (slot : NodWaveform) : Prop where
  holds : Holds x.node x.waveform.id slot
  count_lt : slot.modules.length < 2 ^ 31
  nodup : (moduleIds x.waveform).Nodup
  nodup_node : (nodModuleIds slot.modules).Nodup
  mem : ∀ n ∈ slot.modules, n.parent.id ∈ moduleIds x.waveform

def withoutInfo (w : Waveform) : Waveform :=
  { w with modules := w.modules.map fun m => { m with execinfo := ExecInfo.zero } }

/-- An update that returns 0 brings every `execinfo` and changes nothing else; one that returns
-1 changes nothing. -/
def AllOrNothing (slot : NodWaveform) (w : Waveform) :
    EStateM.Result Fail Exchange Unit → Prop
  | .ok _ x' => (∀ m ∈ x'.waveform.modules, ∀ n ∈ slot.modules, n.parent.id = m.id →
      m.execinfo = n.parent.execinfo) ∧
    withoutInfo x'.waveform = withoutInfo w
  | .error .ret x' => x'.waveform = w
  | .error .fault _ => False

lemma withoutInfo_refreshed (w : Waveform) (ns : List NodModule) :
    withoutInfo (refreshed w ns) = withoutInfo w := by
  have hmap : (w.modules.map (infoFrom ns)).map (fun m => { m with execinfo := ExecInfo.zero }) =
      w.modules.map fun m => { m with execinfo := ExecInfo.zero } := by
    rw [map_map]
    refine map_congr_left fun m _ => ?_
    simp only [Function.comp_def, infoFrom]
    split <;> rfl
  simp only [withoutInfo, refreshed, hmap]

lemma refreshed_info (hnodes : (nodModuleIds ns).Nodup) (hm : m ∈ (refreshed w ns).modules)
    (hn : n ∈ ns) (hid : n.parent.id = m.id) : m.execinfo = n.parent.execinfo := by
  obtain ⟨m0, -, rfl⟩ := mem_map.mp hm
  rw [infoFrom_id] at hid
  rw [infoFrom_of_mem hnodes hn hid]

section Update

variable (machine : Machine) (ops : StatusOps) (runtime : Runtime) (pool : Pool) {x : Exchange}
  {slot : NodWaveform}

def requesting (x : Exchange) : Exchange :=
  { x with packet := packetClear { x.packet with cmd := .get } }

lemma waveformUpdate_eq (x : Exchange) : waveformUpdate machine ops runtime pool x = (do
        packetSendto machine ops runtime ⟨x.waveform.id, 0, 0⟩
        onManager (waveformUnserializeTo pool .none)) (requesting x) := by
  have hclear : onManager (setPacket fun pkt => packetClear { pkt with cmd := .get }) x =
      .ok () (requesting x) := rfl
  have hget : (get : EStateM Fail Exchange Exchange) (requesting x) =
      .ok (requesting x) (requesting x) := rfl
  refine (bind_of_ok hclear).trans ((bind_of_ok hget).trans ?_)
  rfl

lemma waveformUpdate_of_wrapped (h : Loaded x slot) (hwrap : ¬ Contained slot x.nodePacket.size) :
    ∃ x', waveformUpdate machine ops runtime pool x = .error .fault x' := by
  rw [waveformUpdate_eq]
  obtain ⟨-, hlost⟩ := packetSendto_get machine ops runtime (x := requesting x) rfl rfl h.holds
  obtain ⟨x', hsend⟩ := hlost hwrap
  exact ⟨x', bind_of_error hsend⟩

section

variable (h : Loaded x slot) (hcontained : Contained slot x.nodePacket.size)
include h hcontained

lemma waveformUpdate_of_lt
    (hfull : x.packet.size < sentBytes slot.modules.length x.nodePacket.size) :
    ∃ x' : Exchange, waveformUpdate machine ops runtime pool x = .error .ret x' ∧
      x'.waveform = x.waveform := by
  rw [waveformUpdate_eq]
  rw [← length_reply] at hfull
  obtain ⟨hsend, -⟩ := packetSendto_get machine ops runtime (x := requesting x) rfl rfl h.holds
  obtain ⟨x', hkept, -, hrefused⟩ := hsend hcontained
  exact ⟨x', bind_of_error (hrefused hfull), hkept⟩

lemma waveformUpdate_of_le
    (hroom : sentBytes slot.modules.length x.nodePacket.size ≤ x.packet.size) :
    ∃ (x' : Exchange) (pkt' : Packet), waveformUpdate machine ops runtime pool x =
      if 8 + 108 * slot.modules.length ≤ x.nodePacket.size ∧
          (x.waveform.modules = [] → pool 0 .module = true) then
        .ok () { x' with packet := pkt', waveform := refreshed x.waveform slot.modules }
      else .error .ret { x' with
        packet := pkt'
        waveform := refreshed x.waveform (slot.modules.take ((x.nodePacket.size - 8) / 108)) } := by
  rw [waveformUpdate_eq]
  rw [← length_reply] at hroom
  obtain ⟨hsend, -⟩ := packetSendto_get machine ops runtime (x := requesting x) rfl rfl h.holds
  obtain ⟨x', hkept, hsent, -⟩ := hsend hcontained
  obtain ⟨hunread, hsent⟩ := hsent hroom
  obtain ⟨pkt', hrun⟩ := waveformUnserializeTo_run pool slot x.nodePacket.size h.count_lt h.nodup
    h.nodup_node h.mem hunread
  have hwaveform : x'.waveform = x.waveform := hkept
  refine ⟨x', pkt', ?_⟩
  rw [bind_of_ok hsent]
  rw [← hwaveform] at hrun ⊢
  split_ifs at hrun ⊢ with hfits
  · rw [onManager_ok hrun]
  · rw [onManager_error hrun]

end

/-- **An update is all or nothing** exactly when the node's packet takes the whole reply, or nothing
is lost by the cut: the reply comes back to a packet too small for it, or the modules that arrive
whole bring nothing new. It returns 0 when the reply fits both packets. -/
theorem waveformUpdate_all_or_nothing_iff (h : Loaded x slot) :
    (AllOrNothing slot x.waveform (waveformUpdate machine ops runtime pool x) ↔
      8 + 108 * slot.modules.length ≤ x.nodePacket.size ∨
      overrun x.nodePacket.size < 2 ^ 31 ∧
        (x.packet.size < sentBytes slot.modules.length x.nodePacket.size ∨
          ∀ n ∈ slot.modules.take ((x.nodePacket.size - 8) / 108), ∀ m ∈ x.waveform.modules,
            n.parent.id = m.id → m.execinfo = n.parent.execinfo)) ∧
    ((∃ x', waveformUpdate machine ops runtime pool x = .ok () x') ↔
      8 + 108 * slot.modules.length ≤ x.nodePacket.size ∧
      8 + 108 * slot.modules.length ≤ x.packet.size ∧
      (x.waveform.modules = [] → pool 0 .module = true)) := by
  have hsent : 8 + 108 * slot.modules.length ≤ x.nodePacket.size →
      sentBytes slot.modules.length x.nodePacket.size = 8 + 108 * slot.modules.length := by
    intro hfits
    rw [sentBytes, if_neg (by omega), if_neg (by omega), if_pos hfits]
  by_cases hcontained : Contained slot x.nodePacket.size
  · rcases lt_or_ge x.packet.size (sentBytes slot.modules.length x.nodePacket.size) with
      hfull | hroom
    · obtain ⟨x', hrun, hkept⟩ := waveformUpdate_of_lt machine ops runtime pool h hcontained hfull
      rw [hrun]
      refine ⟨iff_of_true hkept (hcontained.imp_right fun hover => ⟨hover, .inl hfull⟩), ?_⟩
      refine iff_of_false (fun ⟨x'', hok⟩ => nomatch hok) fun hfits => ?_
      omega
    · obtain ⟨x', pkt', hrun⟩ := waveformUpdate_of_le machine ops runtime pool h hcontained hroom
      rw [hrun]
      split_ifs with hfits
      · refine ⟨iff_of_true ⟨fun m hm n hn hid => refreshed_info h.nodup_node hm hn hid,
          withoutInfo_refreshed _ _⟩ (.inl hfits.1), iff_of_true ⟨_, rfl⟩ ?_⟩
        exact ⟨hfits.1, by omega, hfits.2⟩
      · have hnodes : (nodModuleIds (slot.modules.take ((x.nodePacket.size - 8) / 108))).Nodup :=
          h.nodup_node.sublist ((take_sublist _ _).map _)
        refine ⟨Iff.trans (refreshed_eq_self_iff hnodes) ⟨fun hsame => ?_, ?_⟩, ?_⟩
        · exact hcontained.imp_right fun hover => ⟨hover, .inr hsame⟩
        · rintro (hwhole | ⟨-, hfull | hsame⟩)
          · -- the waveform has no modules, and the pool refused to allocate none
            intro n _ m hm
            have hnone : x.waveform.modules = [] := by
              by_contra hsome
              exact hfits ⟨hwhole, fun hnil => absurd hnil hsome⟩
            rw [hnone] at hm
            exact absurd hm not_mem_nil
          · exact absurd hroom (Nat.not_le_of_lt hfull)
          · exact hsame
        · exact iff_of_false (fun ⟨x'', hok⟩ => nomatch hok) fun hall => hfits ⟨hall.1, hall.2.2⟩
  · obtain ⟨x', hrun⟩ := waveformUpdate_of_wrapped machine ops runtime pool h hcontained
    rw [hrun]
    refine ⟨iff_of_false (fun hno => hno) fun hfits => hcontained (hfits.imp_right And.left), ?_⟩
    exact iff_of_false (fun ⟨x'', hok⟩ => nomatch hok) fun hfits => hcontained (.inl hfits.1)

end Update

/-! ## An update on a small packet -/

def busyModule (id : CInt) : NodModule :=
  ⟨{ Module.zero with id := id, execinfo := { ExecInfo.zero with moduleTs := 5 } }, true⟩

def busySlot : NodWaveform :=
  ⟨[busyModule 1, busyModule 2], ⟨1, 0⟩, .replicate Oesr.maxModes WaveformMode.zero, 0, 3, 1, 0,
    Str.empty⟩

def staleWaveform : Waveform :=
  ⟨3, [{ Module.zero with id := 1 }, { Module.zero with id := 2 }], ⟨1, 0⟩,
    .replicate Oesr.maxModes WaveformMode.zero, Str.empty, 0, 0, 0⟩

lemma managerSize_lt : 1024 < 2 ^ 31 := by decide

def busyExchange (size : ℕ) (h : size < 2 ^ 31) : Exchange :=
  ⟨emptyPacket 1024 managerSize_lt, staleWaveform, emptyPacket size h, ⟨[busySlot], ∅⟩⟩

lemma busyExchange_loaded (size : ℕ) (h : size < 2 ^ 31) :
    Loaded (busyExchange size h) busySlot where
  holds := ⟨show staleWaveform.id ≠ 0 by decide, 0,
    show (([busySlot] : Anode).findIdx? fun w => w.id = staleWaveform.id) = some 0 by decide, rfl⟩
  count_lt := by decide
  nodup := show (moduleIds staleWaveform).Nodup by decide
  nodup_node := by decide
  mem := show ∀ n ∈ busySlot.modules, n.parent.id ∈ moduleIds staleWaveform by decide

def idleRuntime : Runtime := ⟨fun _ => true, true, fun _ => true⟩

theorem waveformUpdate_all_or_nothing_wide :
    AllOrNothing busySlot (busyExchange 224 (by decide)).waveform
        (waveformUpdate plainMachine plainOps idleRuntime (fun _ _ => true)
          (busyExchange 224 (by decide))) ∧
      ∃ x', waveformUpdate plainMachine plainOps idleRuntime (fun _ _ => true)
        (busyExchange 224 (by decide)) = .ok () x' := by
  obtain ⟨hatomic, hok⟩ := waveformUpdate_all_or_nothing_iff plainMachine plainOps idleRuntime
    (fun _ _ => true) (busyExchange_loaded 224 (by decide))
  have hnode : 8 + 108 * busySlot.modules.length ≤
      (busyExchange 224 (by decide)).nodePacket.size := by decide
  have hmanager : 8 + 108 * busySlot.modules.length ≤
      (busyExchange 224 (by decide)).packet.size := by decide
  rw [hatomic, hok]
  exact ⟨.inl hnode, hnode, hmanager, fun _ => rfl⟩

theorem waveformUpdate_half_done :
    ∃ x' : Exchange, waveformUpdate plainMachine plainOps idleRuntime (fun _ _ => true)
        (busyExchange 223 (by decide)) = .error .ret x' ∧
      x'.waveform ≠ (busyExchange 223 (by decide)).waveform := by
  obtain ⟨x', pkt', hrun⟩ := waveformUpdate_of_le plainMachine plainOps idleRuntime
    (fun _ _ => true) (busyExchange_loaded 223 (by decide)) (.inr (by decide)) (by decide)
  refine ⟨_, hrun, fun hsame => ?_⟩
  have hinfo : (refreshed staleWaveform (busySlot.modules.take 1)).modules.map
      (fun m => m.execinfo.moduleTs) = staleWaveform.modules.map fun m => m.execinfo.moduleTs :=
    congrArg (fun w : Waveform => w.modules.map fun m => m.execinfo.moduleTs) hsame
  exact absurd hinfo (by decide)

end Aloe.Manager
