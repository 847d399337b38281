import Aloe.Oesr.LoadRoundTrip
import Aloe.Oesr.NodDispatcher

/-!
# What a failed LOAD leaves

The decoding writes the id of the waveform into the slot as soon as it has read it. If it fails
after that, nothing takes the id back. If it succeeds and the processes cannot be created,
`nod_waveform_remove` frees the slot and removes the processes.
-/

namespace Aloe.Oesr

open Lib List

/-! ## The decoding and the id -/

section Decode

variable {α : Type} {n : CInt}

abbrev KeepsId (n : CInt) (p : Prog NodWaveform α) : Prop :=
  Maintains (fun st : Packet × NodWaveform => st.2.id = n) p

lemma keepsId_getData (len : ℤ) : KeepsId n (packetGetData len) := by
  rintro ⟨pkt, w⟩ h
  simp only [packetGetData]
  split_ifs <;> exact h

lemma keepsId_readObj (c : Codec α) : KeepsId n (readObj c) :=
  (keepsId_getData _).bind fun _ => Maintains.pure _

lemma keepsId_setObj {f : NodWaveform → NodWaveform} (hf : ∀ w, (f w).id = w.id) :
    KeepsId n (setObj f) :=
  fun st h => (hf st.2).trans h

lemma keepsId_getObj (c : Codec α) {store : α → NodWaveform → NodWaveform}
    (hstore : ∀ a w, (store a w).id = w.id) : KeepsId n (getObj c store) :=
  (keepsId_readObj c).bind fun a => keepsId_setObj (hstore a)

lemma keepsId_getThis : KeepsId n (getThis : Prog NodWaveform NodWaveform) := fun _ h => h

lemma keepsId_onModule (i : ℕ) (p : Prog NodModule α) : KeepsId n (onModule i p) :=
  Maintains.zoom (fun _ _ _ _ h => h) p

lemma keepsId_mode (i : ℕ) : KeepsId n (waveformUnserializeMode i) := by
  unfold waveformUnserializeMode
  split_ifs
  · exact keepsId_getObj _ fun _ _ => rfl
  · exact Maintains.throw _

lemma keepsId_alloc (pool : Pool) (nofModules : CInt) :
    KeepsId n (nodWaveformAlloc pool nofModules) := by
  unfold nodWaveformAlloc
  split_ifs
  · exact keepsId_setObj fun _ => rfl
  · refine Maintains.bind ?_ fun _ => Maintains.throw _
    exact keepsId_setObj fun _ => rfl

lemma keepsId_body (machine : Machine) (copyData : CInt) :
    KeepsId n (nodWaveformUnserializeBody machine copyData) := by
  refine Maintains.bind ?_ fun _ => ?_
  · exact keepsId_getObj _ fun _ _ => rfl
  refine Maintains.bind ?_ fun _ => ?_
  · exact keepsId_getObj _ fun _ _ => rfl
  refine Maintains.bind ?_ fun _ => ?_
  · exact keepsId_getObj _ fun _ _ => rfl
  refine Maintains.bind ?_ fun _ => ?_
  · exact keepsId_getObj _ fun _ _ => rfl
  refine keepsId_getThis.bind fun w => ?_
  refine (Maintains.forM fun i _ => keepsId_mode i).bind fun _ => ?_
  refine (keepsId_readObj _).bind fun nofModules => ?_
  refine (keepsId_alloc _ _).bind fun _ => ?_
  refine keepsId_getThis.bind fun w => ?_
  refine (Maintains.forM fun i _ => keepsId_onModule i _).bind fun _ => ?_
  exact keepsId_setObj fun _ => rfl

end Decode

def AnnouncesLoad (pkt : Packet) : Prop :=
  4 ≤ pkt.unread.length → SerializeAction.ofCode (cint.dec (pkt.unread.take 4)) = .load

def announcedId (pkt : Packet) : CInt := cint.dec ((pkt.unread.drop 8).take 4)

section Header

variable {machine : Machine} {ops : StatusOps} {pkt : Packet} {w : NodWaveform}

lemma unserializeTo_load (hload : AnnouncesLoad pkt) (h : pkt.rPtr + 4 ≤ pkt.data.length) :
    nodWaveformUnserializeTo machine ops (pkt, w) = (do
        let copyData ← readI
        getI fun n (w : NodWaveform) => { w with id := n }
        nodWaveformUnserializeBody machine copyData) (pkt.advance 4 h, w) := by
  have hfour : 4 ≤ pkt.unread.length := by
    rw [pkt.length_unread]
    omega
  refine (bind_of_ok (readI_of_le pkt h w)).trans ?_
  rw [hload hfour]
  rfl

lemma unserializeTo_short (hload : AnnouncesLoad pkt) (hshort : pkt.unread.length < 12) :
    ∃ pkt', nodWaveformUnserializeTo machine ops (pkt, w) = .error .ret (pkt', w) := by
  rw [pkt.length_unread] at hshort
  rcases lt_or_ge pkt.data.length (pkt.rPtr + 4) with h | h
  · exact ⟨pkt, bind_of_error (readI_of_lt pkt h w)⟩
  · rw [unserializeTo_load hload h]
    rcases lt_or_ge pkt.data.length (pkt.rPtr + 8) with h' | h'
    · exact ⟨_, bind_of_error (readI_of_lt (pkt.advance 4 h) h' w)⟩
    · refine ⟨(pkt.advance 4 h).advance 4 h',
        (bind_of_ok (readI_of_le (pkt.advance 4 h) h' w)).trans (bind_of_error ?_)⟩
      refine getI_of_lt _ ?_ _ w
      show pkt.data.length < pkt.rPtr + 4 + 4 + 4
      omega

lemma unserializeTo_long (hload : AnnouncesLoad pkt) (hlong : 12 ≤ pkt.unread.length) :
    (endState (nodWaveformUnserializeTo machine ops (pkt, w))).2.id = announcedId pkt := by
  have hlong' := hlong
  rw [pkt.length_unread] at hlong'
  have h : pkt.rPtr + 4 ≤ pkt.data.length := by omega
  have h' : (pkt.advance 4 h).rPtr + 4 ≤ (pkt.advance 4 h).data.length := by
    show pkt.rPtr + 4 + 4 ≤ pkt.data.length
    omega
  have h'' : ((pkt.advance 4 h).advance 4 h').rPtr + 4 ≤
      ((pkt.advance 4 h).advance 4 h').data.length := by
    show pkt.rPtr + 4 + 4 + 4 ≤ pkt.data.length
    omega
  rw [unserializeTo_load hload h, bind_of_ok (readI_of_le (pkt.advance 4 h) h' w),
    bind_of_ok (getI_of_le ((pkt.advance 4 h).advance 4 h') h'' _ w)]
  refine keepsId_body machine _ _ ?_
  rw [Packet.unread_advance, Packet.unread_advance, drop_drop]
  rfl

end Header

/-! ## The processes -/

section Runtime

variable {runtime : Runtime} {pkt : Packet} {node : Node} {slots : Anode} {w : NodWaveform}
  {wi n : ℕ} {ps0 : Finset (ℕ × ℕ)} {i : ℕ}

/-- The slots are as given, and beside the processes `ps0` there are some of modules of slot
`wi`. -/
def Creating (slots : Anode) (wi n : ℕ) (ps₀ : Finset (ℕ × ℕ)) (st : Packet × Node) : Prop :=
  st.2.slots = slots ∧ ps₀ ⊆ st.2.processes ∧ ∀ x ∈ st.2.processes, x ∈ ps₀ ∨ (x.1 = wi ∧ x.2 < n)

lemma maintains_nodModuleLoad (hi : i < n) :
    Maintains (Creating slots wi n ps0) (nodModuleLoad runtime wi i) := by
  unfold nodModuleLoad
  split_ifs
  · rintro ⟨pkt, node⟩ ⟨hslots, hold, hnew⟩
    refine ⟨hslots, hold.trans (Finset.subset_insert _ _), fun x hx => ?_⟩
    rcases Finset.mem_insert.mp hx with rfl | hx
    · exact .inr ⟨rfl, hi⟩
    · exact hnew x hx
  · exact Maintains.throw _

lemma maintains_nodWaveformLoad :
    Maintains (Creating slots wi n ps0) (nodWaveformLoad runtime wi n) := by
  refine (Maintains.forM fun i hi => maintains_nodModuleLoad (mem_range.mp hi)).bind fun _ => ?_
  split_ifs
  · exact Maintains.pure _
  · exact Maintains.throw _

/-- The modules before `i` are removed: of these, processes are left only where the module has no
id. -/
def Removing (slots : Anode) (w : NodWaveform) (wi : ℕ) (ps₀ : Finset (ℕ × ℕ)) (i : ℕ)
    (st : Packet × Node) : Prop :=
  ∃ ms, st.2.slots = slots.set wi { w with modules := ms } ∧ ms.length = w.modules.length ∧
    (∀ j, i ≤ j → ms[j]? = w.modules[j]?) ∧ (∀ x ∈ ps₀, x.1 ≠ wi → x ∈ st.2.processes) ∧
    ∀ x ∈ st.2.processes, x ∈ ps₀ ∨ (x.1 = wi ∧ x.2 < w.modules.length ∧
      (i ≤ x.2 ∨ ∃ m, w.modules[x.2]? = some m ∧ m.parent.id = 0))

lemma getSlot_eq (h : node.slots[wi]? = some w) : getSlot wi (pkt, node) = .ok w (pkt, node) := by
  refine (bind_of_ok (getThis_run pkt node)).trans ?_
  rw [h]
  rfl

lemma nodModuleRemove_eq {m : NodModule} (hdestroy : runtime.destroy i = true)
    (hw : node.slots[wi]? = some w) (hm : w.modules[i]? = some m) :
    nodModuleRemove runtime wi i (pkt, node) = .ok ()
      (pkt, ⟨node.slots.set wi { w with modules := w.modules.set i m.freed },
        node.processes.erase (wi, i)⟩) := by
  have hfree : ∀ ps : Finset (ℕ × ℕ), onSlot wi (onModule i (setObj NodModule.freed))
      (pkt, ⟨node.slots, ps⟩) = .ok ()
        (pkt, ⟨node.slots.set wi { w with modules := w.modules.set i m.freed }, ps⟩) := fun ps =>
    zoom_ok hw (zoom_ok hm rfl)
  refine (bind_of_ok (getThis_run pkt node)).trans ?_
  split_ifs with hmem
  · exact (bind_of_ok rfl).trans (hfree _)
  · rw [Finset.erase_eq_of_notMem hmem]
    exact (bind_of_ok rfl).trans (hfree _)

section

variable (hwi : wi < slots.length) (hdestroy : ∀ i, runtime.destroy i = true)
include hwi hdestroy

lemma removing_step (hi : i < w.modules.length)
    {st : Packet × Node} (h : Removing slots w wi ps0 i st) :
    ∃ st', nodWaveformRemoveModule runtime wi i st = .ok () st' ∧
      Removing slots w wi ps0 (i + 1) st' := by
  obtain ⟨pkt, node⟩ := st
  obtain ⟨ms, hslots, hlength, hrest, hold, hnew⟩ := h
  have hslot : node.slots[wi]? = some { w with modules := ms } := by
    rw [hslots]
    exact getElem?_set_self hwi
  obtain ⟨m, hm⟩ : ∃ m, w.modules[i]? = some m := ⟨_, getElem?_eq_getElem hi⟩
  have hms : ms[i]? = some m := (hrest i le_rfl).trans hm
  have hread : nodWaveformRemoveModule runtime wi i (pkt, node) =
      (if m.parent.id = 0 then pure () else nodModuleRemove runtime wi i) (pkt, node) := by
    refine (bind_of_ok (getSlot_eq hslot)).trans ?_
    simp only [hms]
  rw [hread]
  split_ifs with hid
  · refine ⟨_, rfl, ms, hslots, hlength, fun j hj => hrest j (by omega), hold, fun x hx => ?_⟩
    refine (hnew x hx).imp_right fun ⟨hxwi, hlt, hcase⟩ => ⟨hxwi, hlt, ?_⟩
    rcases hcase with hle | hzero
    · rcases Nat.eq_or_lt_of_le hle with heq | hlt
      · exact .inr ⟨m, heq ▸ hm, hid⟩
      · exact .inl hlt
    · exact .inr hzero
  · rw [nodModuleRemove_eq (hdestroy i) hslot hms]
    refine ⟨_, rfl, ms.set i m.freed, ?_, ?_, ?_, ?_, ?_⟩
    · show node.slots.set wi _ = _
      rw [hslots, set_set]
    · rw [length_set, hlength]
    · intro j hj
      rw [getElem?_set_ne (by omega)]
      exact hrest j (by omega)
    · intro x hx hne
      refine Finset.mem_erase.mpr ⟨?_, hold x hx hne⟩
      rintro rfl
      exact hne rfl
    · grind

lemma nodWaveformRemove_run (h : Creating (slots.set wi w) wi w.modules.length ps0 (pkt, node)) :
    ∃ pkt' node', nodWaveformRemove runtime wi (pkt, node) = .ok () (pkt', node') ∧
      node'.slots = slots.set wi w.cleared ∧
      ((∀ x ∈ ps0, x.1 ≠ wi) → (∀ m ∈ w.modules, m.parent.id ≠ 0) → node'.processes = ps0) := by
  obtain ⟨hslots, hold, hnew⟩ := h
  have hslot : node.slots[wi]? = some w := by
    rw [show node.slots = slots.set wi w from hslots]
    exact getElem?_set_self hwi
  have hzero : Removing slots w wi ps0 0 (pkt, node) :=
    ⟨w.modules, hslots, rfl, fun _ _ => rfl, fun x hx _ => hold hx, fun x hx =>
      (hnew x hx).imp_right fun ⟨hxwi, hlt⟩ => ⟨hxwi, hlt, .inl (Nat.zero_le _)⟩⟩
  obtain ⟨⟨pkt', node'⟩, hrun, ms, hslots', hlength, -, hold', hnew'⟩ :=
    forM_range_run (Removing slots w wi ps0)
      (fun i hi st hst => removing_step hwi hdestroy hi hst) hzero
  have hslot' : node'.slots[wi]? = some { w with modules := ms } := by
    rw [show node'.slots = _ from hslots']
    exact getElem?_set_self hwi
  refine ⟨pkt', ⟨node'.slots.set wi w.cleared, node'.processes⟩, ?_, ?_, ?_⟩
  · refine (bind_of_ok (getSlot_eq hslot)).trans ((bind_of_ok hrun).trans ?_)
    exact zoom_ok hslot' rfl
  · show node'.slots.set wi _ = _
    rw [show node'.slots = _ from hslots', set_set]
  · grind

end

end Runtime

/-! ## The dispatcher -/

section Dispatcher

variable {machine : Machine} {ops : StatusOps} {runtime : Runtime} {pkt pkt' : Packet}
  {node node' : Node} {wi : ℕ} {slot : NodWaveform} {w : NodWaveform} {q : Packet}

def Node.FirstStopped (node : Node) (wi : ℕ) (slot : NodWaveform) : Prop :=
  (node.slots.findIdx? fun w => w.status.curStatus = stopped) = some wi ∧
    node.slots[wi]? = some slot

section

variable (h : node.FirstStopped wi slot)
include h

lemma Node.FirstStopped.unique {wi' : ℕ} {slot' : NodWaveform}
    (h' : node.FirstStopped wi' slot') : wi' = wi ∧ slot' = slot := by
  obtain ⟨hfind, hslot⟩ := h
  obtain ⟨hfind', hslot'⟩ := h'
  obtain rfl : wi = wi' := Option.some.inj (hfind.symm.trans hfind')
  exact ⟨rfl, Option.some.inj (hslot'.symm.trans hslot)⟩

lemma Node.FirstStopped.mem : slot ∈ node.slots ∧ slot.status.curStatus = stopped := by
  obtain ⟨hfind, hslot⟩ := h
  obtain ⟨hlt, hstop, -⟩ := findIdx?_eq_some_iff_getElem.mp hfind
  obtain rfl : node.slots[wi] = slot := by
    rwa [getElem?_eq_getElem hlt, Option.some.injEq] at hslot
  exact ⟨getElem_mem hlt, of_decide_eq_true hstop⟩

lemma Node.FirstStopped.set_self : node.slots.set wi slot = node.slots := by
  obtain ⟨hlt, rfl⟩ := List.getElem?_eq_some_iff.mp h.2
  exact set_getElem_self hlt

lemma Node.FirstStopped.eq_of_set (hset : node.slots.set wi w = node.slots) : w = slot := by
  obtain ⟨hlt, hslot⟩ := List.getElem?_eq_some_iff.mp h.2
  rw [← hslot]
  exact (getElem_set_self (by rwa [length_set])).symm.trans
    (getElem_of_eq hset (by rwa [length_set]))

end

lemma Node.firstStopped_cases (node : Node) :
    (∀ w ∈ node.slots, w.status.curStatus ≠ stopped) ∨ ∃ wi slot, node.FirstStopped wi slot := by
  cases hfind : node.slots.findIdx? fun w => w.status.curStatus = stopped with
  | none =>
    refine .inl fun w hw => ?_
    simpa using findIdx?_eq_none_iff.mp hfind w hw
  | some wi =>
    obtain ⟨hlt, -⟩ := findIdx?_eq_some_iff_getElem.mp hfind
    exact .inr ⟨wi, node.slots[wi], hfind, getElem?_eq_getElem hlt⟩

lemma nodDispatcherLoad_of_none (h : ∀ w ∈ node.slots, w.status.curStatus ≠ stopped) :
    nodDispatcherLoad machine ops runtime (pkt, node) = .error .ret (pkt, node) := by
  have hfind : (node.slots.findIdx? fun w => w.status.curStatus = stopped) = none :=
    findIdx?_eq_none_iff.mpr fun w hw => decide_eq_false (h w hw)
  refine (bind_of_ok (getThis_run pkt node)).trans ?_
  rw [hfind]
  rfl

lemma nodDispatcherLoad_of_error {e : Fail} (h : node.FirstStopped wi slot)
    (hdecode : nodWaveformUnserializeTo machine ops (pkt, slot) = .error e (q, w)) :
    nodDispatcherLoad machine ops runtime (pkt, node) =
      .error e (q, { node with slots := node.slots.set wi w }) := by
  refine (bind_of_ok (getThis_run pkt node)).trans ?_
  rw [h.1]
  exact bind_of_error (zoom_error h.2 hdecode)

lemma nodDispatcherLoad_of_decoded (h : node.FirstStopped wi slot)
    (hdecode : nodWaveformUnserializeTo machine ops (pkt, slot) = .ok () (q, w)) :
    nodDispatcherLoad machine ops runtime (pkt, node) =
      orElseFail (nodWaveformLoad runtime wi w.modules.length) (nodWaveformRemove runtime wi)
        (q, { node with slots := node.slots.set wi w }) := by
  obtain ⟨hwi, -⟩ := List.getElem?_eq_some_iff.mp h.2
  refine (bind_of_ok (getThis_run pkt node)).trans ?_
  rw [h.1]
  have hstore : onSlot wi (nodWaveformUnserializeTo machine ops) (pkt, node) =
      .ok () (q, { node with slots := node.slots.set wi w }) := zoom_ok h.2 hdecode
  exact (bind_of_ok hstore).trans (bind_of_ok (getSlot_eq (getElem?_set_self hwi)))

lemma ignoringError_eq {σ : Type} (p : Prog σ Unit) (st : Packet × σ) :
    (∃ st', ignoringError p st = .ok () st' ∧ (p st = .ok () st' ∨ p st = .error .ret st')) ∨
      ∃ st', ignoringError p st = .error .fault st' := by
  cases hp : p st with
  | ok a st' => exact .inl ⟨st', tryCatch_of_ok hp, .inl rfl⟩
  | error e st' =>
    cases e with
    | fault => exact .inr ⟨st', tryCatch_of_error hp⟩
    | ret => exact .inl ⟨st', tryCatch_of_error hp, .inr rfl⟩

lemma orElseFail_error {σ : Type} {p cleanup : Prog σ Unit} {st st' : Packet × σ}
    (h : orElseFail p cleanup st = .error .ret st') :
    ∃ st1, p st = .error .ret st1 ∧ (cleanup st1 = .ok () st' ∨ cleanup st1 = .error .ret st') := by
  cases hp : p st with
  | ok a st1 =>
    rw [orElseFail, tryCatch_of_ok hp] at h
    cases h
  | error e st1 =>
    rw [orElseFail, tryCatch_of_error hp] at h
    cases e with
    | fault => cases h
    | ret =>
      have hafter : (ignoringError cleanup >>= fun _ => retErr) st1 = .error .ret st' := h
      refine ⟨st1, rfl, ?_⟩
      rcases ignoringError_eq cleanup st1 with ⟨st2, hrun, hcases⟩ | ⟨st2, hrun⟩
      · rw [bind_of_ok hrun] at hafter
        cases hafter
        exact hcases
      · rw [bind_of_error hrun] at hafter
        cases hafter

section

variable (hdestroy : ∀ i, runtime.destroy i = true)
  (hfail : nodDispatcherLoad machine ops runtime (pkt, node) = .error .ret (pkt', node'))

include hdestroy hfail in
lemma nodDispatcherLoad_of_ok (h : node.FirstStopped wi slot)
    (hdecode : nodWaveformUnserializeTo machine ops (pkt, slot) = .ok () (q, w)) :
    node'.slots = node.slots.set wi w.cleared ∧
      ((∀ x ∈ node.processes, x.1 ≠ wi) → (∀ m ∈ w.modules, m.parent.id ≠ 0) →
        node'.processes = node.processes) := by
  obtain ⟨hwi, -⟩ := List.getElem?_eq_some_iff.mp h.2
  rw [nodDispatcherLoad_of_decoded h hdecode] at hfail
  obtain ⟨⟨q1, node1⟩, hload, hremove⟩ := orElseFail_error hfail
  have hcreating : Creating (node.slots.set wi w) wi w.modules.length node.processes
      (endState (nodWaveformLoad runtime wi w.modules.length
        (q, { node with slots := node.slots.set wi w }))) :=
    maintains_nodWaveformLoad _ ⟨rfl, Finset.Subset.refl _, fun x hx => .inl hx⟩
  rw [hload] at hcreating
  obtain ⟨q2, node2, hrun, hfreed⟩ := nodWaveformRemove_run hwi hdestroy hcreating
  rw [hrun] at hremove
  rcases hremove with hremove | hremove
  · cases hremove
    exact hfreed
  · cases hremove

lemma nodDispatcherAccess_absent (waveformAction : Prog NodWaveform Unit)
    (variableAction : CInt → Prog Variable Unit) {anode : Anode}
    (h : ∀ w ∈ anode, w.id ≠ pkt.dest.waveformId) :
    nodDispatcherAccess waveformAction variableAction (pkt, anode) = .error .ret (pkt, anode) := by
  have hfind : (anode.findIdx? fun w => w.id = pkt.dest.waveformId) = none :=
    findIdx?_eq_none_iff.mpr fun w hw => decide_eq_false (h w hw)
  refine (dispatch_run _).trans ?_
  rw [hfind]
  split_ifs <;> rfl

/-- The packet holds a waveform that the slot can take, and the slot is then as `w` says. -/
def Decodes (machine : Machine) (ops : StatusOps) (pkt : Packet) (slot w : NodWaveform) : Prop :=
  ∃ q, nodWaveformUnserializeTo machine ops (pkt, slot) = .ok () (q, w)

/-- There is no slot to fill, or the packet ends before the id, or it holds a waveform that
differs from what the slot had only in what `nod_waveform_remove` resets. -/
def LeavesNoTrace (machine : Machine) (ops : StatusOps) (pkt : Packet) (node : Node) : Prop :=
  (∀ w ∈ node.slots, w.status.curStatus ≠ stopped) ∨ pkt.unread.length < 12 ∨
    ∃ wi slot w, node.FirstStopped wi slot ∧ Decodes machine ops pkt slot w ∧ w.cleared = slot

/-- The slots that are `STOP` have no id. -/
def Node.StoppedFree (node : Node) : Prop :=
  ∀ w ∈ node.slots, w.status.curStatus = stopped → w.id = 0

include hdestroy hfail

lemma nodDispatcherLoad_slots_of_leavesNoTrace (hload : AnnouncesLoad pkt)
    (h : LeavesNoTrace machine ops pkt node) : node'.slots = node.slots := by
  rcases h with hnone | hshort | ⟨wi, slot, w, hfirst, ⟨q, hdecode⟩, hcleared⟩
  · rw [nodDispatcherLoad_of_none hnone] at hfail
    cases hfail
    rfl
  · rcases node.firstStopped_cases with hnone | ⟨wi, slot, hfirst⟩
    · rw [nodDispatcherLoad_of_none hnone] at hfail
      cases hfail
      rfl
    · obtain ⟨q, hdecode⟩ : ∃ q, nodWaveformUnserializeTo machine ops (pkt, slot) =
          .error .ret (q, slot) := unserializeTo_short hload hshort
      rw [nodDispatcherLoad_of_error hfirst hdecode] at hfail
      cases hfail
      exact hfirst.set_self
  · obtain ⟨hslots, -⟩ := nodDispatcherLoad_of_ok hdestroy hfail hfirst hdecode
    rw [hslots, hcleared]
    exact hfirst.set_self

lemma leavesNoTrace_of_slots (hfree : node.StoppedFree) (hload : AnnouncesLoad pkt)
    (hid : announcedId pkt ≠ 0)
    (h : node'.slots = node.slots) : LeavesNoTrace machine ops pkt node := by
  rcases node.firstStopped_cases with hnone | ⟨wi, slot, hfirst⟩
  · exact .inl hnone
  refine .inr ?_
  rcases lt_or_ge pkt.unread.length 12 with hshort | hlong
  · exact .inl hshort
  refine .inr ⟨wi, slot, ?_⟩
  cases hdecode : nodWaveformUnserializeTo machine ops (pkt, slot) with
  | ok u st =>
    obtain ⟨hslots, -⟩ := nodDispatcherLoad_of_ok hdestroy hfail hfirst hdecode
    exact ⟨st.2, hfirst, ⟨st.1, hdecode⟩, hfirst.eq_of_set (hslots.symm.trans h)⟩
  | error e st =>
    -- the id that was read stays in the slot, which had none
    rw [nodDispatcherLoad_of_error hfirst hdecode] at hfail
    cases hfail
    have hread : st.2.id = announcedId pkt := by
      have hend : (endState (nodWaveformUnserializeTo machine ops (pkt, slot))).2.id =
          announcedId pkt := unserializeTo_long hload hlong
      rwa [hdecode] at hend
    obtain ⟨hmem, hstop⟩ := hfirst.mem
    have hzero := hfree slot hmem hstop
    rw [← hfirst.eq_of_set h, hread] at hzero
    exact absurd hzero hid

omit hdestroy hfail in
lemma nodDispatcherAccess_of_cleared {request : Packet}
    (hslots : node'.slots = node.slots.set wi w.cleared) (hid : request.dest.waveformId ≠ 0)
    (habsent : ∀ w ∈ node.slots, w.id ≠ request.dest.waveformId) :
    nodDispatcherSet machine ops (request, node'.slots) = .error .ret (request, node'.slots) ∧
      nodDispatcherGet (request, node'.slots) = .error .ret (request, node'.slots) := by
  have habsent' : ∀ v ∈ node'.slots, v.id ≠ request.dest.waveformId := by
    intro v hv
    rw [hslots] at hv
    rcases mem_or_eq_of_mem_set hv with hv | rfl
    · exact habsent v hv
    · exact hid.symm
  exact ⟨nodDispatcherAccess_absent _ _ habsent', nodDispatcherAccess_absent _ _ habsent'⟩

lemma nodDispatcherLoad_processes
    (hids : ∀ wi slot w, node.FirstStopped wi slot → Decodes machine ops pkt slot w →
      (∀ x ∈ node.processes, x.1 ≠ wi) ∧ ∀ m ∈ w.modules, m.parent.id ≠ 0) :
    node'.processes = node.processes := by
  rcases node.firstStopped_cases with hnone | ⟨wi, slot, hfirst⟩
  · rw [nodDispatcherLoad_of_none hnone] at hfail
    cases hfail
    rfl
  cases hdecode : nodWaveformUnserializeTo machine ops (pkt, slot) with
  | ok u st =>
    obtain ⟨-, hprocesses⟩ := nodDispatcherLoad_of_ok hdestroy hfail hfirst hdecode
    obtain ⟨hforeign, hmodules⟩ := hids wi slot st.2 hfirst ⟨st.1, hdecode⟩
    exact hprocesses hforeign hmodules
  | error e st =>
    rw [nodDispatcherLoad_of_error hfirst hdecode] at hfail
    cases hfail
    rfl

end

/-- **A failed LOAD.** The slots are as before exactly when there was no slot to fill, the packet
ended before the id, or the decoded waveform differed from the slot only in what
`nod_waveform_remove` resets. The slot of a decoded waveform is free again and its id refused; no
process is left of modules that have an id. -/
theorem nodDispatcherLoad_failed (hload : AnnouncesLoad pkt)
    (hdestroy : ∀ i, runtime.destroy i = true)
    (hfail : nodDispatcherLoad machine ops runtime (pkt, node) = .error .ret (pkt', node')) :
    (LeavesNoTrace machine ops pkt node → node'.slots = node.slots) ∧
    (node.StoppedFree → announcedId pkt ≠ 0 → node'.slots = node.slots →
      LeavesNoTrace machine ops pkt node) ∧
    (∀ wi slot w, node.FirstStopped wi slot → Decodes machine ops pkt slot w →
      node'.slots = node.slots.set wi w.cleared ∧
      ∀ request : Packet, request.dest.waveformId ≠ 0 →
        (∀ v ∈ node.slots, v.id ≠ request.dest.waveformId) →
        nodDispatcherSet machine ops (request, node'.slots) = .error .ret (request, node'.slots) ∧
        nodDispatcherGet (request, node'.slots) = .error .ret (request, node'.slots)) ∧
    ((∀ wi slot w, node.FirstStopped wi slot → Decodes machine ops pkt slot w →
        (∀ x ∈ node.processes, x.1 ≠ wi) ∧ ∀ m ∈ w.modules, m.parent.id ≠ 0) →
      node'.processes = node.processes) := by
  refine ⟨nodDispatcherLoad_slots_of_leavesNoTrace hdestroy hfail hload,
    fun hfree hid => leavesNoTrace_of_slots hdestroy hfail hfree hload hid, ?_,
    nodDispatcherLoad_processes hdestroy hfail⟩
  rintro wi slot w hfirst ⟨q, hdecode⟩
  obtain ⟨hslots, -⟩ := nodDispatcherLoad_of_ok hdestroy hfail hfirst hdecode
  exact ⟨hslots, fun request => nodDispatcherAccess_of_cleared hslots⟩

end Dispatcher

/-! ## Runs -/

def amplifierLoad : Packet :=
  { (endState (waveformSerialize amplifierWaveform 0 .load .cpInit
      (emptyPacket 1024 (by decide), ()))).1 with rPtr := 0, rPtr_le := Nat.zero_le _ }

def silentRuntime : Runtime := ⟨fun _ => true, false, fun _ => true⟩

def idleNode : Node := ⟨[emptySlot], ∅⟩

theorem nodDispatcherLoad_failed_amplifier :
    ∃ pkt' node', nodDispatcherLoad plainMachine plainOps silentRuntime (amplifierLoad, idleNode) =
        .error .ret (pkt', node') ∧
      node'.processes = ∅ ∧ ∃ w : NodWaveform, node'.slots = [w.cleared] := by
  have hfirst : idleNode.FirstStopped 0 emptySlot := ⟨by decide, rfl⟩
  have hdecodes : (match nodWaveformUnserializeTo plainMachine plainOps
        (amplifierLoad, emptySlot) with
      | .ok _ st => st.2.modules.all fun m => m.parent.id ≠ 0
      | .error _ _ => false) = true := by
    decide +kernel
  have hfails : (match nodDispatcherLoad plainMachine plainOps silentRuntime
        (amplifierLoad, idleNode) with
      | .error .ret _ => true
      | _ => false) = true := by
    decide +kernel
  cases hdecode : nodWaveformUnserializeTo plainMachine plainOps (amplifierLoad, emptySlot) with
  | error e st =>
    rw [hdecode] at hdecodes
    cases hdecodes
  | ok u st =>
    rw [hdecode] at hdecodes
    cases hfail : nodDispatcherLoad plainMachine plainOps silentRuntime
        (amplifierLoad, idleNode) with
    | ok u st' =>
      rw [hfail] at hfails
      cases hfails
    | error e st' =>
      rw [hfail] at hfails
      cases e with
      | fault => cases hfails
      | ret =>
        obtain ⟨-, -, hfreed, hprocesses⟩ := nodDispatcherLoad_failed
          (fun _ => by decide +kernel) (fun _ => rfl) hfail
        refine ⟨st'.1, st'.2, rfl, hprocesses ?_, st.2,
          (hfreed 0 emptySlot st.2 hfirst ⟨st.1, hdecode⟩).1⟩
        rintro wi slot w hfirst' ⟨q, hdecode'⟩
        obtain ⟨rfl, rfl⟩ := hfirst.unique hfirst'
        refine ⟨fun x hx => absurd hx (Finset.notMem_empty x), fun m hm => ?_⟩
        rw [hdecode] at hdecode'
        cases hdecode'
        simpa using all_eq_true.mp hdecodes m hm

def cutLoad : Packet :=
  ⟨.load, ⟨0, 0, 0⟩, 0, 1024, [0, 0, 0, 0, 2, 0, 0, 0, 7, 0, 0, 0], 0, by decide, by decide,
    by decide⟩

def getSeven : Packet := ⟨.get, ⟨7, 0, 0⟩, 0, 1024, [], 0, by decide, by decide, by decide⟩

theorem nodDispatcherLoad_leaves_id :
    ∃ pkt' node', nodDispatcherLoad plainMachine plainOps silentRuntime (cutLoad, idleNode) =
        .error .ret (pkt', node') ∧
      node'.slots ≠ idleNode.slots ∧
      nodDispatcherGet (getSeven, idleNode.slots) = .error .ret (getSeven, idleNode.slots) ∧
      ∃ reply, nodDispatcherGet (getSeven, node'.slots) = .ok () (reply, node'.slots) := by
  refine ⟨_, _, rfl, ?_, rfl, _, rfl⟩
  intro h
  have hid := congrArg (List.map NodWaveform.id) h
  revert hid
  decide

end Aloe.Oesr
