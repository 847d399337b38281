import Aloe.Lib.FirstMatch
import Aloe.Oesr.RunCycle

/-!
# Manager and node

Model of `waveform_load` and `waveform_status_set` of `manager/man_waveform.c` together with what
the node does when it receives their packets: `nod_dispatcher_load` and `nod_dispatcher_set` of
`node/nod_dispatcher.c`, `nod_waveform_unserializeTo`, `nod_waveform_remove` and
`nod_waveform_status_new` of `node/nod_waveform.c`.

Every call that may fail is an input: `LoadOutcome` and `StatusOutcome` say how the calls made on
behalf of one request end. There is one node, as in `man_platform_config`.
-/

namespace Aloe.Manager.Control

open Lib Oesr.Exec

/-- A slot of `loaded_waveforms`. `launched` tells that each of its modules has a process. -/
structure Slot where
  id : ℕ
  status : Status
  precachPipeline : Bool
  modules : ℕ
  launched : Bool
deriving DecidableEq, Repr

/-- `waveform_t`. `onNode` tells that `modules_x_node` counts some module. -/
structure ManWaveform where
  status : Status
  precachPipeline : Bool
  modules : ℕ
  onNode : Bool
deriving DecidableEq, Repr

structure System where
  waveforms : ℕ → ManWaveform
  slots : List Slot

/-! ## How the calls end -/

/-- How far the node reads a LOAD packet: it fails before the id is read; it fails later and
leaves these fields behind; or it reads all of it. -/
inductive Decode where
  | early
  | late (precachPipeline : Bool) (modules : ℕ)
  | whole
deriving DecidableEq, Repr

/-- For `waveform_load`: `mapping_map`; `waveform_serialize` and `packet_sendto`; the decoding; the
modules' processes and their acknowledgement; and `nod_waveform_remove`. -/
structure LoadOutcome where
  mapped : Bool
  delivered : Bool
  decode : Decode
  launched : Bool
  acknowledged : Bool
  removed : Bool
deriving DecidableEq, Repr

/-- For `nod_waveform_status_stop`: `rtdal_task_new` and `nod_waveform_remove`. -/
structure StopOutcome where
  task : Bool
  removed : Bool
deriving DecidableEq, Repr

/-- For `waveform_status_set`: `waveform_serialize` and `packet_sendto`; the task that initiates the
modules (`none` if it is not in time) and `nod_waveform_remove` after its failure;
`nod_waveform_status_stop`, by the command and after a failed one. -/
structure StatusOutcome where
  delivered : Bool
  initTask : Bool
  initiated : Option Bool
  removed : Bool
  stop : StopOutcome
  stopAgain : StopOutcome
deriving DecidableEq, Repr

def LoadOutcome.fine : LoadOutcome := ⟨true, true, .whole, true, true, true⟩

def StatusOutcome.fine : StatusOutcome := ⟨true, true, some true, true, ⟨true, true⟩, ⟨true, true⟩⟩

/-! ## The node -/

namespace Slot

/-- `nod_waveform_run` succeeds: `rtdal_process_run` asks for a process. -/
def canRun (s : Slot) : Bool := s.modules = 0 ∨ s.launched

def remove (s : Slot) : Slot :=
  { s with id := 0, status := .stop, modules := 0, launched := false }

/-- `nod_waveform_status_stop`. -/
def statusStop (o : StopOutcome) (s : Slot) : Slot × Bool :=
  if s.canRun then
    let s := { s with status := .stop }
    if o.task then if o.removed then (s.remove, true) else (s, false)
    else (s, false)
  else (s, false)

/-- `nod_waveform_status_init`. -/
def statusInit (o : StatusOutcome) (s : Slot) : Slot × Bool :=
  let s := { s with status := .init }
  if o.initTask then
    match o.initiated with
    | some false => if o.removed then (s.remove, false) else (s, false)
    | _ => (s, true)
  else (s, false)

/-- `nod_waveform_precach_pipeline`: the pipeline runs for a while and pauses. -/
def precach (s : Slot) : Slot := { s with status := .pause }

/-- `nod_waveform_status_new`. -/
def statusNew (new : Status) (o : StatusOutcome) (s : Slot) : Slot × Bool :=
  match new with
  | .init =>
    let r := s.statusInit o
    (if r.2 ∧ r.1.precachPipeline then r.1.precach else r.1, r.2)
  | .stop => if s.canRun then s.statusStop o.stop else (s, false)
  | new => ({ s with status := new }, true)

/-- The `WAVEFORM_STATUS` case of `nod_waveform_unserializeTo`. -/
def setStatus (new : Status) (o : StatusOutcome) (s : Slot) : Slot × Bool :=
  let r := s.statusNew new o
  (if r.2 then r.1 else (r.1.statusStop o.stopAgain).1, r.2)

/-- What `nod_dispatcher_load` does in the slot it has found. -/
def load (id : ℕ) (w : ManWaveform) (o : LoadOutcome) (s : Slot) : Slot × Bool :=
  match o.decode with
  | .early => (s, false)
  | .late precach modules =>
    ({ s with id := id, precachPipeline := precach, modules := modules, launched := false }, false)
  | .whole =>
    let s : Slot := ⟨id, .loaded, w.precachPipeline, w.modules, o.launched⟩
    if o.launched ∧ o.acknowledged then (s, true)
    else (if o.removed then s.remove else s, false)

end Slot

def dispatcherLoad (id : ℕ) (w : ManWaveform) (o : LoadOutcome) (slots : List Slot) :
    List Slot × Bool :=
  modifyFirst (fun s => s.status = .stop) (Slot.load id w o) slots

/-- `nod_dispatcher_set` for a packet to a whole waveform. -/
def dispatcherSet (id : ℕ) (new : Status) (o : StatusOutcome) (slots : List Slot) :
    List Slot × Bool :=
  if id = 0 then (slots, false)
  else modifyFirst (fun s => s.id = id) (Slot.setStatus new o) slots

/-! ## The manager -/

namespace System

def setWaveform (sys : System) (id : ℕ) (w : ManWaveform) : System :=
  { sys with waveforms := Function.update sys.waveforms id w }

def setSlots (sys : System) (slots : List Slot) : System := { sys with slots := slots }

/-- `waveform_send`: nothing is sent for a waveform without modules on the node. -/
def send (sys : System) (id : ℕ) (delivered : Bool)
    (node : List Slot → List Slot × Bool) : System × Bool :=
  if (sys.waveforms id).onNode then
    if delivered then (sys.setSlots (node sys.slots).1, (node sys.slots).2)
    else (sys, false)
  else (sys, true)

/-- `waveform_load`. -/
def load (sys : System) (id : ℕ) (o : LoadOutcome) : System × Bool :=
  let w := { sys.waveforms id with status := .parsed }
  if o.mapped then
    let w := { w with onNode := w.modules ≠ 0 }
    let r := (sys.setWaveform id w).send id o.delivered (dispatcherLoad id w o)
    (if r.2 then r.1.setWaveform id { w with status := .loaded } else r.1, r.2)
  else (sys.setWaveform id w, false)

/-- `waveform_status_set`. -/
def statusSet (sys : System) (id : ℕ) (new : Status) (o : StatusOutcome) : System × Bool :=
  let w := sys.waveforms id
  if waveformStatusIsValid w.status new then
    let w := { w with status := new }
    let r := (sys.setWaveform id w).send id o.delivered (dispatcherSet id new o)
    (if r.2 then r.1.setWaveform id { w with status := if new = .stop then .parsed else new }
      else r.1, r.2)
  else (sys, false)

section

variable (sys : System)

@[simp] lemma setWaveform_slots (id : ℕ) (w : ManWaveform) :
    (sys.setWaveform id w).slots = sys.slots := rfl

@[simp] lemma setWaveform_self (id : ℕ) (w : ManWaveform) :
    (sys.setWaveform id w).waveforms id = w :=
  Function.update_self ..

lemma setWaveform_of_ne {id id' : ℕ} (w : ManWaveform) (h : id' ≠ id) :
    (sys.setWaveform id w).waveforms id' = sys.waveforms id' :=
  Function.update_of_ne h ..

@[simp] lemma setWaveform_setWaveform (id : ℕ) (v w : ManWaveform) :
    (sys.setWaveform id v).setWaveform id w = sys.setWaveform id w := by
  unfold setWaveform
  rw [Function.update_idem]

@[simp] lemma setSlots_slots (slots : List Slot) : (sys.setSlots slots).slots = slots := rfl

@[simp] lemma setSlots_waveforms (slots : List Slot) :
    (sys.setSlots slots).waveforms = sys.waveforms := rfl

lemma setSlots_setWaveform (slots : List Slot) (id : ℕ) (w : ManWaveform) :
    (sys.setSlots slots).setWaveform id w = (sys.setWaveform id w).setSlots slots := rfl

end

def nodeStatus (sys : System) (id : ℕ) : Status :=
  match sys.slots.find? fun s => s.id = id with
  | some s => s.status
  | none => .stop

end System

/-! ## What a call does -/

section Cases

variable {sys : System} {id : ℕ}

lemma System.send_of_onNode (hnode : (sys.waveforms id).onNode = true)
    (node : List Slot → List Slot × Bool) :
    sys.send id true node = (sys.setSlots (node sys.slots).1, (node sys.slots).2) := by
  rw [System.send, if_pos hnode, if_pos rfl]

lemma System.load_cases (sys : System) (id : ℕ) (o : LoadOutcome) :
    (∃ w, w.modules = (sys.waveforms id).modules ∧ (w.modules ≠ 0 → w.status = .parsed ∧
          ((sys.waveforms id).onNode = true → w.onNode = true)) ∧
        (sys.load id o).1 = sys.setWaveform id w) ∨
      ∃ before s after w, sys.slots = before ++ s :: after ∧ (∀ b ∈ before, b.status ≠ .stop) ∧
        s.status = .stop ∧ w = { sys.waveforms id with status := .parsed, onNode := true } ∧
        w.modules ≠ 0 ∧ (sys.load id o).1 = (sys.setWaveform id
          (if (s.load id w o).2 then { w with status := .loaded } else w)).setSlots
            (before ++ (s.load id w o).1 :: after) := by
  by_cases hmapped : o.mapped = true
  swap
  · refine .inl ⟨{ sys.waveforms id with status := .parsed }, rfl, fun _ => ⟨rfl, fun h => h⟩, ?_⟩
    rw [System.load, if_neg hmapped]
  by_cases hmodules : (sys.waveforms id).modules = 0
  · refine .inl ⟨{ sys.waveforms id with status := .loaded, onNode := false }, rfl,
      fun h => absurd hmodules h, ?_⟩
    simp [System.load, System.send, hmapped, hmodules]
  have honNode : decide ((sys.waveforms id).modules ≠ 0) = true := decide_eq_true hmodules
  obtain ⟨w, hw⟩ : ∃ w : ManWaveform,
    w = { sys.waveforms id with status := .parsed, onNode := true } := ⟨_, rfl⟩
  have hload : sys.load id o =
      let r := (sys.setWaveform id w).send id o.delivered (dispatcherLoad id w o)
      (if r.2 then r.1.setWaveform id { w with status := .loaded } else r.1, r.2) := by
    rw [System.load, if_pos hmapped]
    simp only [honNode, hw]
  have hmodulesw : w.modules = (sys.waveforms id).modules := by rw [hw]
  have hfail : (sys.load id o).1 = sys.setWaveform id w → ∃ w : ManWaveform,
      w.modules = (sys.waveforms id).modules ∧ (w.modules ≠ 0 → w.status = .parsed ∧
        ((sys.waveforms id).onNode = true → w.onNode = true)) ∧
      (sys.load id o).1 = sys.setWaveform id w :=
    fun h => ⟨w, hmodulesw, fun _ => by rw [hw]; exact ⟨rfl, fun _ => rfl⟩, h⟩
  have hnode : ((sys.setWaveform id w).waveforms id).onNode = true := by
    rw [System.setWaveform_self, hw]
  cases hdelivered : o.delivered with
  | false =>
    refine .inl (hfail ?_)
    rw [hload, hdelivered, System.send, if_pos hnode]
    rfl
  | true =>
    rw [hdelivered, System.send_of_onNode hnode] at hload
    rcases modifyFirst_cases (fun s : Slot => s.status = .stop) (Slot.load id w o) sys.slots with
      ⟨-, hnone⟩ | ⟨before, s, after, hslots, hbefore, hs, hsome⟩
    · refine .inl (hfail ?_)
      rw [hload, System.setWaveform_slots, dispatcherLoad, hnone]
      rfl
    · refine .inr ⟨before, s, after, w, hslots, fun b hb => ?_, by simpa using hs, hw,
        hmodulesw ▸ hmodules, ?_⟩
      · simpa using hbefore b hb
      · rw [hload, System.setWaveform_slots, dispatcherLoad, hsome]
        simp only
        split_ifs
        · rw [System.setSlots_setWaveform, System.setWaveform_setWaveform]
        · rfl

lemma System.statusSet_cases {new : Status} (o : StatusOutcome) (hid : id ≠ 0)
    (hvalid : waveformStatusIsValid (sys.waveforms id).status new = true) :
    (∃ st, (st = new ∨ st = .parsed ∧ new = .stop) ∧
        ((sys.waveforms id).onNode = true → o.delivered = true → ∀ s ∈ sys.slots, s.id ≠ id) ∧
        ((sys.statusSet id new o).2 = true → (sys.waveforms id).onNode = false) ∧
        (sys.statusSet id new o).1 = sys.setWaveform id { sys.waveforms id with status := st }) ∨
      ∃ before s after, sys.slots = before ++ s :: after ∧ (∀ b ∈ before, b.id ≠ id) ∧ s.id = id ∧
        sys.statusSet id new o = ((sys.setWaveform id { sys.waveforms id with
              status := if (s.setStatus new o).2 ∧ new = .stop then .parsed else new }).setSlots
            (before ++ (s.setStatus new o).1 :: after), (s.setStatus new o).2) := by
  obtain ⟨w, hw⟩ : ∃ w : ManWaveform, w = { sys.waveforms id with status := new } := ⟨_, rfl⟩
  have hset : sys.statusSet id new o =
      let r := (sys.setWaveform id w).send id o.delivered (dispatcherSet id new o)
      (if r.2 then r.1.setWaveform id { w with status := if new = .stop then .parsed else new }
        else r.1, r.2) := by
    rw [System.statusSet, if_pos hvalid, hw]
  have honNode : ((sys.setWaveform id w).waveforms id).onNode = (sys.waveforms id).onNode := by
    rw [System.setWaveform_self, hw]
  by_cases hnode : (sys.waveforms id).onNode = true
  swap
  · refine .inl ⟨if new = .stop then .parsed else new, ?_, fun h => absurd h hnode,
      fun _ => Bool.eq_false_iff.mpr hnode, ?_⟩
    · split_ifs with hstop
      · exact .inr ⟨rfl, hstop⟩
      · exact .inl rfl
    · rw [hset, System.send, honNode, if_neg hnode, hw]
      simp
  rw [hnode] at honNode
  cases hdelivered : o.delivered with
  | false =>
    have hsame : sys.statusSet id new o = (sys.setWaveform id w, false) := by
      rw [hset, hdelivered, System.send, if_pos honNode]
      rfl
    refine .inl ⟨new, .inl rfl, fun _ h => absurd h Bool.false_ne_true, ?_, ?_⟩
    · rw [hsame]
      exact fun h => absurd h Bool.false_ne_true
    · rw [hsame, hw]
  | true =>
    rw [hdelivered, System.send_of_onNode honNode, System.setWaveform_slots] at hset
    rcases modifyFirst_cases (fun s : Slot => s.id = id) (Slot.setStatus new o) sys.slots with
      ⟨hnone, hsame⟩ | ⟨before, s, after, hslots, hbefore, hs, hsome⟩
    · rw [dispatcherSet, if_neg hid, hsame] at hset
      refine .inl ⟨new, .inl rfl, fun _ _ s hs => by simpa using hnone s hs, ?_, ?_⟩
      · rw [hset]
        exact fun h => absurd h Bool.false_ne_true
      · rw [hset, hw]
        rfl
    · refine .inr ⟨before, s, after, hslots, fun b hb => by simpa using hbefore b hb,
        by simpa using hs, ?_⟩
      rw [hset, dispatcherSet, if_neg hid, hsome, hw]
      by_cases hok : (s.setStatus new o).2 = true
      · simp only [hok, if_true, true_and]
        rw [System.setSlots_setWaveform, System.setWaveform_setWaveform]
      · simp [hok]

end Cases

inductive Call where
  | load (id : ℕ) (o : LoadOutcome)
  | statusSet (id : ℕ) (new : Status) (o : StatusOutcome)
deriving DecidableEq, Repr

def Call.id : Call → ℕ
  | .load id _ => id
  | .statusSet id _ _ => id

def System.call (sys : System) : Call → System × Bool
  | .load id o => sys.load id o
  | .statusSet id new o => sys.statusSet id new o

def System.step (c : Call) (sys : System) : Option System := some (sys.call c).1

def System.start (waveforms : ℕ → ManWaveform) (n : ℕ) : System where
  waveforms := fun id => { waveforms id with status := .parsed, onNode := false }
  slots := List.replicate n ⟨0, .stop, false, 0, false⟩

end Aloe.Manager.Control
