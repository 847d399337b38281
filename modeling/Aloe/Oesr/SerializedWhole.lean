import Aloe.Oesr.Waveform

/-!
# What is serialized when it fits

`waveform_serialize` returns 0 or -1. For `WAVEFORM_LOAD` and `WAVEFORM_STATUS` a 0 means that the
whole image is in the packet. For `WAVEFORM_MODE` the value of `packet_add_data` is not looked at
when the mode of a module is added: a packet with too little room gets the ids of the modules
without their modes, as long as there is room for ids (`waveform_serialize_whole_iff`).
-/

namespace Aloe.Oesr

open Lib List Image SerializeAction

/-! ## Images -/

/-- `size` bytes from the start of a block. -/
def valueImage (ptr : Ptr) (size : CInt) : Option (List UInt8) :=
  ptr.bind fun bs =>
    if 0 ≤ size.toInt ∧ size.toInt ≤ bs.length then some (bs.take size.toInt.toNat) else none

def modeImage (v : Variable) (i : ℕ) : Option (List UInt8) :=
  if h : i < maxModes then valueImage v.initValue[i] v.size else none

def variableImage (copyData : SerializeData) (nofModes : CInt) (v : Variable) :
    Option (List UInt8) :=
  joined (some (cint.enc v.id)) (joined (some (cint.enc v.size)) (joined (some (cint.enc v.type))
    (match copyData with
    | .cpInit => joined (some (Image.str.enc v.name))
        (images (modeImage v) (List.range nofModes.count))
    | .cpValue => valueImage v.curValue v.size
    | .none => joined (some (cint.enc v.window)) (some (cint.enc v.period))
    | .other => some [])))

def moduleImage (copyData : SerializeData) (m : Module) : Option (List UInt8) :=
  joined (some (cint.enc m.id)) (joined (some (cint.enc m.processorIdx))
    (joined (some (cint.enc m.execPosition)) (joined (some (cint.enc m.nofModes))
    (joined (some (cint.enc m.mode.curMode)) (joined (some (cint.enc m.logEnable))
    (joined (some (Image.str.enc m.name)) (joined (some (Image.str.enc m.binary))
    (joined (some (Image.execInfo.enc m.execinfo)) (joined (some (cint.enc (lengthI m.vars)))
    (joined (some (cint.enc (lengthI m.inputs))) (joined (some (cint.enc (lengthI m.outputs)))
    (joined (images (variableImage copyData m.nofModes) m.vars)
    (joined (images (fun itf => some (Image.interface.enc itf)) m.inputs)
      (images (fun itf => some (Image.interface.enc itf)) m.outputs))))))))))))))

def waveformModeImage (src : Waveform) (i : ℕ) : Option (List UInt8) :=
  if h : i < maxModes then some (Image.waveformMode.enc src.modes[i]) else none

def nextModeImage (m : Module) : List UInt8 := cint.enc m.id ++ Image.moduleMode.enc m.mode

def waveformImage (src : Waveform) (nodeId : CInt) (action : SerializeAction)
    (copyData : SerializeData) : Option (List UInt8) :=
  joined (some (cint.enc action.code)) (match action with
    | .load =>
      joined (some (cint.enc copyData.code)) (joined (some (cint.enc src.id))
      (joined (some (cint.enc src.granularityUs)) (joined (some (cint.enc src.precachPipeline))
      (joined (some (Image.str.enc src.name)) (joined (some (cint.enc src.nofModes))
      (joined (images (waveformModeImage src) (List.range src.nofModes.count))
      (joined (some (cint.enc (lengthI (src.modulesOn nodeId))))
        (images (moduleImage copyData) (src.modulesOn nodeId)))))))))
    | .status => some (Image.waveformStatus.enc src.status)
    | .mode => joined (some (cint.enc (lengthI (src.modulesOn nodeId))))
        (images (fun m => some (nextModeImage m)) (src.modulesOn nodeId))
    | .other => some [])

/-! ## The writers -/

section Writers

variable {σ α : Type}

lemma appends_data (ptr : Ptr) (size : CInt) :
    Appends (packetAddData ptr size.toInt : Prog σ Unit) (valueImage ptr size) := by
  intro pkt s pkt' s' hw
  cases ptr with
  | none => cases hw
  | some bs =>
    obtain ⟨hpos, hle, hdata, -⟩ := packetAddData_ok hw
    exact ⟨_, if_pos ⟨hpos, by omega⟩, hdata⟩

lemma appends_obj (c : Codec α) (a : α) : Appends (addObj c a : Prog σ Unit) (some (c.enc a)) := by
  intro pkt s pkt' s' hw
  obtain ⟨-, -, hdata, -⟩ := packetAddData_ok hw
  rw [Int.toNat_natCast, take_of_length_le (le_of_eq (c.length_enc a))] at hdata
  exact ⟨_, rfl, hdata⟩

lemma appends_i (n : CInt) : Appends (addI n : Prog σ Unit) (some (cint.enc n)) :=
  appends_obj cint n

lemma appends_mode (v : Variable) (i : ℕ) :
    Appends (variableSerializeMode v i : Prog σ Unit) (modeImage v i) := by
  rw [variableSerializeMode, modeImage]
  split
  · exact appends_data _ _
  · intro pkt s pkt' s' hw
    cases hw

lemma appends_variable (copyData : SerializeData) (nofModes : CInt) (v : Variable) :
    Appends (variableSerialize v copyData nofModes : Prog σ Unit)
      (variableImage copyData nofModes v) := by
  refine (appends_i _).bind ((appends_i _).bind ((appends_i _).bind ?_))
  cases copyData with
  | none => exact (appends_i _).bind (appends_i _)
  | cpValue => exact appends_data _ _
  | cpInit => exact (appends_obj _ _).bind (.forM (appends_mode v) _)
  | other => exact .nil

lemma appends_module (copyData : SerializeData) (m : Module) :
    Appends (moduleSerialize copyData m : Prog σ Unit) (moduleImage copyData m) :=
  (appends_i _).bind <| (appends_i _).bind <| (appends_i _).bind <| (appends_i _).bind <|
    (appends_i _).bind <| (appends_i _).bind <| (appends_obj _ _).bind <|
    (appends_obj _ _).bind <| (appends_obj _ _).bind <| (appends_i _).bind <|
    (appends_i _).bind <| (appends_i _).bind <|
    Appends.bind (.forM (appends_variable copyData m.nofModes) _) <|
    Appends.bind (.forM (appends_obj interface) _) (.forM (appends_obj interface) _)

lemma appends_waveformMode (src : Waveform) (i : ℕ) :
    Appends (waveformSerializeMode src i : Prog σ Unit) (waveformModeImage src i) := by
  rw [waveformSerializeMode, waveformModeImage]
  split
  · exact appends_obj _ _
  · intro pkt s pkt' s' hw
    cases hw

lemma appends_waveform (src : Waveform) (nodeId : CInt) {action : SerializeAction}
    (haction : action ≠ .mode) (copyData : SerializeData) :
    Appends (waveformSerialize src nodeId action copyData : Prog σ Unit)
      (waveformImage src nodeId action copyData) := by
  refine (appends_i _).bind ?_
  cases action with
  | load =>
    have hmodules := forM_filter (moduleSerialize copyData : Module → Prog σ Unit)
      (fun m => m.nodeId = nodeId) src.modules
    simp only [decide_eq_true_eq] at hmodules
    rw [hmodules]
    exact (appends_i _).bind <| (appends_i _).bind <| (appends_i _).bind <|
      (appends_i _).bind <| (appends_obj _ _).bind <| (appends_i _).bind <|
      Appends.bind (.forM (appends_waveformMode src) _) <|
      (appends_i _).bind (.forM (appends_module copyData) _)
  | status => exact appends_obj _ _
  | mode => exact absurd rfl haction
  | other => exact .nil

end Writers

/-! ## The modes of the modules -/

lemma length_nextModeImage (m : Module) : (nextModeImage m).length = 16 := by
  rfl

def nextModesImage (ms : List Module) : List UInt8 := ms.flatMap nextModeImage

lemma images_nextMode (ms : List Module) :
    images (fun m => some (nextModeImage m)) ms = some (nextModesImage ms) := by
  induction ms with
  | nil => rfl
  | cons m ms ih =>
    rw [images, ih, nextModesImage, nextModesImage, flatMap_cons]
    rfl

lemma length_nextModesImage (ms : List Module) : (nextModesImage ms).length = 16 * ms.length := by
  induction ms with
  | nil => rfl
  | cons m ms ih =>
    rw [nextModesImage, flatMap_cons, length_append, length_nextModeImage]
    change 16 + (nextModesImage ms).length = _
    rw [ih, length_cons]
    omega

section ModeLoop

variable {pkt pkt' : Packet} {m : Module} {ms : List Module} {k : ℕ}

/-- A packet of `size` bytes with `used` written gets the ids of `k` modules, and not all of their
modes: after the modules that fit there is room for the other ids. -/
def Truncates (size used k : ℕ) : Prop :=
  size < used + 16 * k ∧ k ≤ (size - used) / 16 + (size - used) % 16 / 4 ∧
  -- the sum of the cursor and the size of a mode does not wrap
  used + 16 * ((size - used) / 16) + 4 * (k - (size - used) / 16) + 12 < 2 ^ 31

lemma addI_fits (n : CInt) (s : Unit) (h : pkt.data.length + 4 ≤ pkt.size) :
    ∃ pkt1 : Packet, (addI n : Prog Unit Unit) (pkt, s) = .ok () (pkt1, s) ∧
      pkt1.data = pkt.data ++ cint.enc n ∧ pkt1.size = pkt.size ∧ pkt1.rPtr = pkt.rPtr := by
  have hroom : pkt.data.length + (cint.enc n).length ≤ pkt.size := by
    exact h
  exact ⟨pkt.append _ hroom, addObj_of_le cint n s hroom, rfl, rfl, rfl⟩

lemma addI_refused (n : CInt) (s : Unit) (h : pkt.size < pkt.data.length + 4) :
    ∃ e, (addI n : Prog Unit Unit) (pkt, s) = .error e (pkt, s) :=
  ⟨_, addObj_of_lt cint n s (by decide) h⟩

lemma moduleMode_fits (m : Module) (s : Unit) (h : pkt.data.length + 16 ≤ pkt.size) :
    ∃ pkt1 : Packet, (moduleModeSerialize m : Prog Unit Unit) (pkt, s) = .ok () (pkt1, s) ∧
      pkt1.data = pkt.data ++ nextModeImage m ∧ pkt1.size = pkt.size ∧ pkt1.rPtr = pkt.rPtr := by
  obtain ⟨pkt1, hid, hdata, hsize, hptr⟩ := addI_fits m.id s
    (by omega : pkt.data.length + 4 ≤ pkt.size)
  have hroom : pkt1.data.length + (moduleMode.enc m.mode).length ≤ pkt1.size := by
    rw [hdata, hsize, length_append, cint.length_enc, moduleMode.length_enc]
    change pkt.data.length + 4 + 12 ≤ pkt.size
    omega
  refine ⟨pkt1.append _ hroom, ?_, ?_, hsize, hptr⟩
  · rw [moduleModeSerialize, bind_of_ok hid]
    exact tryCatch_of_ok (addObj_of_le _ _ s hroom)
  · change pkt1.data ++ _ = _
    rw [hdata, nextModeImage, append_assoc]

lemma moduleMode_truncated (m : Module) (s : Unit) (hid : pkt.data.length + 4 ≤ pkt.size)
    (h : pkt.size < pkt.data.length + 16) :
    (∃ pkt1 : Packet, (moduleModeSerialize m : Prog Unit Unit) (pkt, s) = .ok () (pkt1, s) ∧
      pkt.data.length + 16 < 2 ^ 31 ∧ pkt1.data = pkt.data ++ cint.enc m.id ∧
      pkt1.size = pkt.size) ∨
    (2 ^ 31 ≤ pkt.data.length + 16 ∧
      ∃ st, (moduleModeSerialize m : Prog Unit Unit) (pkt, s) = .error .fault st) := by
  obtain ⟨pkt1, hadd, hdata, hsize, -⟩ := addI_fits m.id s hid
  have hlen : pkt1.data.length = pkt.data.length + 4 := by
    rw [hdata, length_append, cint.length_enc]
    rfl
  have hmode : moduleMode.size = 12 := rfl
  have hrefused := addObj_of_lt moduleMode m.mode s (by rw [hmode]; omega)
    (by rw [hmode, hlen, hsize]; omega : pkt1.size < pkt1.data.length + moduleMode.size)
  rw [hmode, hlen, refusal] at hrefused
  by_cases hwrap : pkt.data.length + 16 < 2 ^ 31
  · rw [if_pos (by omega)] at hrefused
    refine .inl ⟨pkt1, ?_, hwrap, hdata, hsize⟩
    rw [moduleModeSerialize, bind_of_ok hadd]
    exact tryCatch_of_error hrefused
  · rw [if_neg (by omega)] at hrefused
    refine .inr ⟨by omega, (pkt1, s), ?_⟩
    rw [moduleModeSerialize, bind_of_ok hadd]
    exact tryCatch_of_error hrefused

lemma modeLoop_ok {s s' : Unit}
    (h : (ms.forM moduleModeSerialize : Prog Unit Unit) (pkt, s) = .ok () (pkt', s')) :
    (pkt'.data = pkt.data ++ nextModesImage ms ∧ pkt'.rPtr = pkt.rPtr ∧ pkt'.size = pkt.size) ∨
      Truncates pkt.size pkt.data.length ms.length := by
  induction ms generalizing pkt with
  | nil =>
    cases h
    exact .inl ⟨(append_nil _).symm, rfl, rfl⟩
  | cons m ms ih =>
    by_cases hfull : pkt.data.length + 16 ≤ pkt.size
    · obtain ⟨pkt1, hstep, hdata, hsize, hptr⟩ := moduleMode_fits m s hfull
      rw [forM_cons_of_ok hstep] at h
      have hlen : pkt1.data.length = pkt.data.length + 16 := by
        rw [hdata, length_append, length_nextModeImage]
      obtain ⟨hall, hptr', hsize'⟩ | ⟨hshort, hids, hwrap⟩ := ih h
      · refine .inl ⟨?_, hptr'.trans hptr, hsize'.trans hsize⟩
        rw [hall, hdata, append_assoc]
        rfl
      · rw [hlen, hsize] at hshort hids hwrap
        refine .inr ⟨?_, ?_, ?_⟩
        all_goals rw [length_cons]
        all_goals omega
    · by_cases hid : pkt.data.length + 4 ≤ pkt.size
      · obtain ⟨pkt1, hstep, hnowrap, hdata, hsize⟩ | ⟨-, st, hstep⟩ :=
          moduleMode_truncated m s hid (by omega)
        · rw [forM_cons_of_ok hstep] at h
          have hlen : pkt1.data.length = pkt.data.length + 4 := by
            rw [hdata, length_append, cint.length_enc]
            rfl
          obtain ⟨hall, -, hsize'⟩ | ⟨hshort, hids, hwrap⟩ := ih h
          · -- nothing more fits, so this was the last module
            have hfits := pkt'.length_le
            rw [hall, hsize', hsize, length_append, length_nextModesImage, hlen] at hfits
            refine .inr ⟨?_, ?_, ?_⟩
            all_goals rw [length_cons]
            all_goals omega
          · rw [hlen, hsize] at hshort hids hwrap
            refine .inr ⟨?_, ?_, ?_⟩
            all_goals rw [length_cons]
            all_goals omega
        · rw [forM_cons_of_error hstep] at h
          cases h
      · obtain ⟨e, hstep⟩ := addI_refused m.id s (by omega : pkt.size < pkt.data.length + 4)
        have hmodule : (moduleModeSerialize m : Prog Unit Unit) (pkt, s) = .error e (pkt, s) := by
          rw [moduleModeSerialize, bind_of_error hstep]
        rw [forM_cons_of_error hmodule] at h
        cases h

lemma modeLoop_of_truncates (s : Unit) (h : Truncates pkt.size pkt.data.length ms.length) :
    ∃ pkt' : Packet, (ms.forM moduleModeSerialize : Prog Unit Unit) (pkt, s) = .ok () (pkt', s) ∧
      pkt'.data.length < pkt.data.length + 16 * ms.length := by
  induction ms generalizing pkt with
  | nil =>
    have hle := pkt.length_le
    exact absurd h.1 (by simp only [length_nil]; omega)
  | cons m ms ih =>
    obtain ⟨hshort, hids, hwrap⟩ := h
    rw [length_cons] at hshort hids hwrap
    by_cases hfull : pkt.data.length + 16 ≤ pkt.size
    · obtain ⟨pkt1, hstep, hdata, hsize, -⟩ := moduleMode_fits m s hfull
      have hlen : pkt1.data.length = pkt.data.length + 16 := by
        rw [hdata, length_append, length_nextModeImage]
      have hrest : Truncates pkt1.size pkt1.data.length ms.length := by
        refine ⟨?_, ?_, ?_⟩
        all_goals rw [hlen, hsize]
        all_goals omega
      obtain ⟨pkt', hloop, hlt⟩ := ih hrest
      refine ⟨pkt', ?_, ?_⟩
      · rw [forM_cons_of_ok hstep, hloop]
      · rw [length_cons]
        omega
    · obtain ⟨pkt1, hstep, -, hdata, hsize⟩ | ⟨hfault, -⟩ :=
        moduleMode_truncated m s (by omega : pkt.data.length + 4 ≤ pkt.size) (by omega)
      · have hlen : pkt1.data.length = pkt.data.length + 4 := by
          rw [hdata, length_append, cint.length_enc]
          rfl
        cases ms with
        | nil =>
          refine ⟨pkt1, ?_, ?_⟩
          · rw [forM_cons_of_ok hstep]
            rfl
          · rw [hlen, length_singleton]
            omega
        | cons m' ms =>
          rw [length_cons] at hshort hids hwrap
          have hrest : Truncates pkt1.size pkt1.data.length (m' :: ms).length := by
            refine ⟨?_, ?_, ?_⟩
            all_goals rw [length_cons, hlen, hsize]
            all_goals omega
          obtain ⟨pkt', hloop, hlt⟩ := ih hrest
          refine ⟨pkt', ?_, ?_⟩
          · rw [forM_cons_of_ok hstep, hloop]
          · rw [length_cons]
            omega
      · omega

end ModeLoop

/-! ## The reader -/

def withNextMode (nm : NodModule) (m : Module) : NodModule :=
  { nm with parent := { nm.parent with
    mode := { nm.parent.mode with nextMode := m.mode.nextMode, nextTslot := m.mode.nextTslot } } }

/-- The node's part of a waveform: its modules are those of the manager for this node, and each has
an id of its own. -/
structure Hosts (src : Waveform) (nodeId : CInt) (dest : NodWaveform) : Prop where
  ids : dest.modules.map (fun nm => nm.parent.id) = (src.modulesOn nodeId).map Module.id
  distinct : ((src.modulesOn nodeId).map Module.id).Nodup

section Reader

variable {dest : NodWaveform} {nm : NodModule} {m : Module} {before todo : List NodModule}
  {ms : List Module}

lemma consumes_obj {σ α : Type} {c : Codec α} (hc : 0 < c.size) (a : α) (t : σ) :
    Consumes (readObj c : Prog σ α) (c.enc a) t a t := by
  have hne : c.enc a ≠ [] := by
    intro hnil
    have hlen := c.length_enc a
    rw [hnil] at hlen
    exact ne_of_lt hc hlen
  have hdata := consumes_data hne t
  rw [c.length_enc a] at hdata
  have hdec : Consumes (pure (c.dec (c.enc a)) : Prog σ α) [] t a t :=
    .nil fun q => by rw [c.dec_enc]; rfl
  have hread := hdata.bind (f := fun bs => pure (c.dec bs)) hdec
  rwa [append_nil] at hread

lemma consumes_nextMode (dest : NodWaveform) (todo : List NodModule) (hid : nm.parent.id = m.id)
    (hbefore : ∀ nm' ∈ before, nm'.parent.id ≠ m.id) :
    Consumes nodWaveformUnserializeModuleMode (nextModeImage m)
      { dest with modules := before ++ nm :: todo } ()
      { dest with modules := before ++ withNextMode nm m :: todo } := by
  have hfind : (before ++ nm :: todo).findIdx? (fun nm => nm.parent.id = m.id) =
      some before.length := by
    rw [findIdx?_append, findIdx?_eq_none_iff.mpr fun nm' hnm' =>
      decide_eq_false (hbefore nm' hnm'), Option.none_or, findIdx?_cons,
      if_pos (decide_eq_true hid), Option.map_some, zero_add]
  have hthis : Consumes (getThis : Prog NodWaveform NodWaveform) []
      { dest with modules := before ++ nm :: todo } { dest with modules := before ++ nm :: todo }
      { dest with modules := before ++ nm :: todo } := .nil fun q => rfl
  refine (consumes_obj (by decide) m.id _).bind (hthis.bind ?_)
  rw [hfind]
  have hget : (before ++ nm :: todo)[before.length]? = some nm := by
    rw [getElem?_append_right (Nat.le_refl _), Nat.sub_self]
    rfl
  have hset : (before ++ nm :: todo).set before.length (withNextMode nm m) =
      before ++ withNextMode nm m :: todo := by
    rw [set_append_right _ _ (Nat.le_refl _), Nat.sub_self]
    rfl
  have hstore : Consumes (onModule before.length (setObj fun nm =>
    { nm with parent := { nm.parent with
      mode := { nm.parent.mode with
        nextMode := m.mode.nextMode, nextTslot := m.mode.nextTslot } } }) :
          Prog NodWaveform Unit) []
      { dest with modules := before ++ nm :: todo } ()
      { dest with modules := before ++ withNextMode nm m :: todo } := by
    rw [← hset]
    exact .nil fun q => zoom_ok hget rfl
  have hmode := (consumes_obj (c := moduleMode) (by decide) m.mode { dest with modules := before ++
    nm :: todo }).bind
    (f := fun mode => onModule before.length (setObj fun nm => { nm with parent := { nm.parent with
      mode := { nm.parent.mode with
        nextMode := mode.nextMode, nextTslot := mode.nextTslot } } })) hstore
  rwa [append_nil] at hmode

lemma consumes_nextModes (dest : NodWaveform)
    (hids : todo.map (fun nm => nm.parent.id) = ms.map Module.id)
    (hdistinct : (before.map (fun nm => nm.parent.id) ++ ms.map Module.id).Nodup) :
    Consumes ((List.range ms.length).forM fun _ => nodWaveformUnserializeModuleMode)
      (nextModesImage ms) { dest with modules := before ++ todo } ()
      { dest with modules := before ++ List.zipWith withNextMode todo ms } := by
  induction ms generalizing before todo with
  | nil =>
    obtain rfl : todo = [] := map_eq_nil_iff.mp hids
    exact .nil fun q => rfl
  | cons m ms ih =>
    obtain ⟨nm, todo, rfl, hnm, hrest⟩ := map_eq_cons_iff.mp hids
    have hbefore : ∀ nm' ∈ before, nm'.parent.id ≠ m.id := by
      intro nm' hnm' heq
      exact (nodup_append.mp hdistinct).2.2 _ (mem_map_of_mem hnm') _
        mem_cons_self heq
    have hhead := consumes_nextMode dest todo hnm hbefore
    have hdistinct' : ((before ++ [withNextMode nm m]).map (fun nm => nm.parent.id) ++
        ms.map Module.id).Nodup := by
      rw [map_append, append_assoc]
      change (_ ++ nm.parent.id :: _).Nodup
      rw [hnm]
      exact hdistinct
    have htail := ih hrest hdistinct'
    rw [append_assoc, append_assoc] at htail
    have hloop : ((List.range (m :: ms).length).forM fun _ => nodWaveformUnserializeModuleMode) =
        nodWaveformUnserializeModuleMode >>= fun _ =>
          (List.range ms.length).forM fun _ => nodWaveformUnserializeModuleMode := by
      rw [length_cons, range_succ_eq_map, forM_eq_forM, forM_cons, forM_map]
    rw [hloop]
    exact hhead.bind htail

lemma consumes_modePacket (machine : Machine) (ops : StatusOps) {src : Waveform} {nodeId : CInt}
    (h : Hosts src nodeId dest) (hlen : (src.modulesOn nodeId).length < 2 ^ 31) :
    Consumes (nodWaveformUnserializeTo machine ops)
      (cint.enc mode.code ++ (cint.enc (lengthI (src.modulesOn nodeId)) ++
        nextModesImage (src.modulesOn nodeId))) dest ()
      { dest with modules := List.zipWith withNextMode dest.modules (src.modulesOn nodeId) } := by
  have hcount : (lengthI (src.modulesOn nodeId)).count = (src.modulesOn nodeId).length :=
    CInt.count_ofNat hlen
  have hmodules : Consumes ((List.range (lengthI (src.modulesOn nodeId)).count).forM fun _ =>
      nodWaveformUnserializeModuleMode) (nextModesImage (src.modulesOn nodeId)) dest ()
      { dest with modules := List.zipWith withNextMode dest.modules (src.modulesOn nodeId) } := by
    rw [hcount]
    have hall : Consumes _ _ { dest with modules := [] ++ dest.modules } () { dest with
        modules := [] ++ List.zipWith withNextMode dest.modules (src.modulesOn nodeId) } :=
      consumes_nextModes dest h.ids h.distinct
    exact hall
  exact (consumes_obj (by decide) _ dest).bind ((consumes_obj (by decide) _ dest).bind hmodules)

end Reader

/-! ## The whole packet -/

/-- When `waveform_serialize` returns 0, all that the action sends is written. From a packet for new
modes the node sets the next modes of its modules to the manager's, and nothing else. -/
def SerializesWhole (src : Waveform) (nodeId : CInt) (action : SerializeAction)
    (copyData : SerializeData) (pkt : Packet) : Prop :=
  ∀ pkt', waveformSerialize src nodeId action copyData (pkt, ()) = .ok () (pkt', ()) →
    (∃ image, waveformImage src nodeId action copyData = some image ∧
      pkt'.data = pkt.data ++ image) ∧
    (action = .mode → pkt.unread = [] → ∀ machine ops dest, Hosts src nodeId dest →
      ∃ pkt'', nodWaveformUnserializeTo machine ops (pkt', dest) = .ok () (pkt'',
        { dest with modules := List.zipWith withNextMode dest.modules (src.modulesOn nodeId) }))

def modePacketImage (src : Waveform) (nodeId : CInt) : List UInt8 :=
  cint.enc SerializeAction.mode.code ++ (cint.enc (lengthI (src.modulesOn nodeId)) ++
    nextModesImage (src.modulesOn nodeId))

lemma waveformImage_mode (src : Waveform) (nodeId : CInt) (copyData : SerializeData) :
    waveformImage src nodeId .mode copyData = some (modePacketImage src nodeId) := by
  rw [waveformImage, images_nextMode]
  rfl

section Modes

variable {pkt pkt' : Packet} {src : Waveform} {nodeId : CInt}

lemma modeSerialize_fits (src : Waveform) (nodeId : CInt) (copyData : SerializeData)
    (h : pkt.data.length + 8 ≤ pkt.size) :
    ∃ pkt1 : Packet, waveformSerialize src nodeId .mode copyData (pkt, ()) =
        ((src.modulesOn nodeId).forM moduleModeSerialize : Prog Unit Unit) (pkt1, ()) ∧
      pkt1.data = pkt.data ++ (cint.enc mode.code ++ cint.enc (lengthI (src.modulesOn nodeId))) ∧
      pkt1.data.length = pkt.data.length + 8 ∧ pkt1.size = pkt.size ∧ pkt1.rPtr = pkt.rPtr := by
  obtain ⟨pkt1, haction, hdata1, hsize1, hptr1⟩ :=
    addI_fits mode.code () (by omega : pkt.data.length + 4 ≤ pkt.size)
  have hlen1 : pkt1.data.length = pkt.data.length + 4 := by
    rw [hdata1, length_append, cint.length_enc]
    rfl
  obtain ⟨pkt2, hnumber, hdata2, hsize2, hptr2⟩ := addI_fits (lengthI (src.modulesOn nodeId)) ()
    (by omega : pkt1.data.length + 4 ≤ pkt1.size)
  have hmodules := forM_filter (moduleModeSerialize : Module → Prog Unit Unit)
    (fun m => m.nodeId = nodeId) src.modules
  simp only [decide_eq_true_eq] at hmodules
  refine ⟨pkt2, ?_, ?_, ?_, hsize2.trans hsize1, hptr2.trans hptr1⟩
  · rw [waveformSerialize, bind_of_ok haction, bind_of_ok hnumber, hmodules]
    rfl
  · rw [hdata2, hdata1, append_assoc]
  · rw [hdata2, length_append, cint.length_enc, hlen1]
    rfl

lemma modeSerialize_refused (src : Waveform) (nodeId : CInt) (copyData : SerializeData)
    (h : pkt.size < pkt.data.length + 8) :
    ∃ e st, waveformSerialize src nodeId .mode copyData (pkt, ()) = .error e st := by
  by_cases hroom : pkt.data.length + 4 ≤ pkt.size
  · obtain ⟨pkt1, haction, hdata1, hsize1, -⟩ := addI_fits mode.code () hroom
    have hlen1 : pkt1.data.length = pkt.data.length + 4 := by
      rw [hdata1, length_append, cint.length_enc]
      rfl
    obtain ⟨e, hnumber⟩ := addI_refused (lengthI (src.modulesOn nodeId)) ()
      (by omega : pkt1.size < pkt1.data.length + 4)
    exact ⟨e, (pkt1, ()), (bind_of_ok haction).trans (bind_of_error hnumber)⟩
  · obtain ⟨e, haction⟩ := addI_refused mode.code () (by omega : pkt.size < pkt.data.length + 4)
    exact ⟨e, (pkt, ()), bind_of_error haction⟩

lemma modeSerialize_whole {copyData : SerializeData} (hnot : ¬(pkt.data.length + 8 ≤ pkt.size ∧
      Truncates pkt.size (pkt.data.length + 8) (src.modulesOn nodeId).length))
    (h : waveformSerialize src nodeId .mode copyData (pkt, ()) = .ok () (pkt', ())) :
    pkt'.data = pkt.data ++ modePacketImage src nodeId ∧ pkt'.rPtr = pkt.rPtr := by
  by_cases hroom : pkt.data.length + 8 ≤ pkt.size
  · obtain ⟨pkt1, hserialize, hdata, hlen, hsize, hptr⟩ :=
      modeSerialize_fits src nodeId copyData hroom
    rw [hserialize] at h
    obtain ⟨hall, hptr', -⟩ | htruncates := modeLoop_ok h
    · refine ⟨?_, hptr'.trans hptr⟩
      rw [hall, hdata, modePacketImage, append_assoc, append_assoc]
    · rw [hsize, hlen] at htruncates
      exact absurd ⟨hroom, htruncates⟩ hnot
  · obtain ⟨e, st, herror⟩ := modeSerialize_refused src nodeId copyData (not_le.mp hroom)
    rw [herror] at h
    cases h

lemma length_modePacketImage (src : Waveform) (nodeId : CInt) :
    (modePacketImage src nodeId).length = 8 + 16 * (src.modulesOn nodeId).length := by
  rw [modePacketImage, length_append, length_append, cint.length_enc, cint.length_enc,
    length_nextModesImage]
  change 4 + (4 + _) = _
  omega

end Modes

/-- **Serialization.** A 0 means that the whole image has been written, unless it is one of new
modes and the packet has room for the ids of the modules but not for their modes. -/
theorem waveform_serialize_whole_iff (src : Waveform) (nodeId : CInt) (action : SerializeAction)
    (copyData : SerializeData) (pkt : Packet) :
    SerializesWhole src nodeId action copyData pkt ↔
      ¬(action = .mode ∧ pkt.data.length + 8 ≤ pkt.size ∧
        Truncates pkt.size (pkt.data.length + 8) (src.modulesOn nodeId).length) := by
  constructor
  · rintro h ⟨rfl, hroom, htruncates⟩
    obtain ⟨pkt₁, hserialize, -, hlen, hsize, -⟩ := modeSerialize_fits src nodeId copyData hroom
    rw [← hsize, ← hlen] at htruncates
    obtain ⟨pkt', hloop, hlt⟩ := modeLoop_of_truncates () htruncates
    obtain ⟨⟨image, himage, hdata⟩, -⟩ := h pkt' (hserialize.trans hloop)
    rw [waveformImage_mode, Option.some.injEq] at himage
    rw [hdata, ← himage, length_append, length_modePacketImage, hlen] at hlt
    omega
  · intro hnot pkt' hserialize
    by_cases haction : action = .mode
    · subst haction
      obtain ⟨hdata, hptr⟩ := modeSerialize_whole (fun h => hnot ⟨rfl, h⟩) hserialize
      refine ⟨⟨_, waveformImage_mode src nodeId copyData, hdata⟩, ?_⟩
      intro _ hunread machine ops dest hhosts
      have hmodules : (src.modulesOn nodeId).length < 2 ^ 31 := by
        have hle := pkt'.length_le
        have hlt := pkt'.size_lt
        rw [hdata, length_append, length_modePacketImage] at hle
        omega
      have hunread' : pkt'.unread = modePacketImage src nodeId ++ [] := by
        have hptr_le : pkt.data.length ≤ pkt.rPtr := drop_eq_nil_iff.mp hunread
        have heq : pkt.rPtr = pkt.data.length := le_antisymm pkt.rPtr_le hptr_le
        rw [Packet.unread, hdata, hptr, heq, drop_left, append_nil]
      obtain ⟨pkt'', hread, -, -⟩ :=
        consumes_modePacket machine ops hhosts hmodules pkt' [] hunread'
      exact ⟨pkt'', hread⟩
    · exact ⟨appends_waveform src nodeId haction copyData pkt () pkt' () hserialize,
        fun h => absurd h haction⟩

def changingWaveform : Waveform where
  id := 1
  modules := [{ Module.zero with nodeId := 1, id := 1, mode := ⟨0, 2, 7⟩ }]
  status := ⟨1, 0⟩
  modes := .replicate maxModes WaveformMode.zero
  name := Str.empty
  nofModes := 3
  granularityUs := 0
  precachPipeline := 0

theorem waveform_serialize_whole_one :
    SerializesWhole changingWaveform 1 .mode .none (emptyPacket 24 (by decide)) := by
  refine (waveform_serialize_whole_iff changingWaveform 1 .mode .none
    (emptyPacket 24 (by decide))).mpr ?_
  rintro ⟨-, -, hshort, -⟩
  exact absurd hshort (by decide)

theorem waveform_serialize_cut : ∃ pkt',
    waveformSerialize changingWaveform 1 .mode .none (emptyPacket 12 (by decide), ()) =
      .ok () (pkt', ()) ∧ pkt'.data.length < (modePacketImage changingWaveform 1).length ∧
    ¬ SerializesWhole changingWaveform 1 .mode .none (emptyPacket 12 (by decide)) := by
  have hroom : (emptyPacket 12 (by decide)).data.length + 8 ≤ (emptyPacket 12 (by decide)).size :=
    show 0 + 8 ≤ 12 by decide
  obtain ⟨pkt₁, hserialize, -, hlen, hsize, -⟩ := modeSerialize_fits changingWaveform 1 .none hroom
  have htruncates : Truncates pkt₁.size pkt₁.data.length (changingWaveform.modulesOn 1).length := by
    rw [hlen, hsize]
    exact ⟨show 12 < 0 + 8 + 16 * 1 by decide, show 1 ≤ 4 / 16 + 4 % 16 / 4 by decide,
      show 8 + 16 * 0 + 4 * 1 + 12 < 2 ^ 31 by decide⟩
  obtain ⟨pkt', hloop, hlt⟩ := modeLoop_of_truncates () htruncates
  have hshort : pkt'.data.length < (modePacketImage changingWaveform 1).length := by
    rw [length_modePacketImage]
    have hlen' : pkt₁.data.length = 8 := hlen
    omega
  refine ⟨pkt', hserialize.trans hloop, hshort, fun h => ?_⟩
  obtain ⟨⟨image, himage, hdata⟩, -⟩ := h pkt' (hserialize.trans hloop)
  rw [waveformImage_mode, Option.some.injEq] at himage
  rw [hdata, ← himage] at hshort
  rw [length_append] at hshort
  omega

end Aloe.Oesr
