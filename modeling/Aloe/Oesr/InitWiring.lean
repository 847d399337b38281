import Aloe.Lib.Board
import Aloe.Lib.Stream
import Aloe.Oesr.SkeletonInit

/-!
# The wiring of a waveform

A module first creates the queues of its outputs and then looks for those of its inputs, which other
modules create. The queues are the objects of a `Board` on which the outputs publish and the inputs
take over; every part of `Init` is a sequence of its steps (`Touches`) and keeps the invariant
`Inv`, whatever the graph is.
-/

namespace Aloe.Oesr.Skeleton

open Lib Rtdal Function List Option Skeleton.Module State ModuleState

/-! ## The graph -/

/-- Output `y` and input `x`, each a module and a port, name each other. -/
def Connected (w : Waveform) (y x : ℕ × ℕ) : Prop :=
  ∃ sender out receiver inp, w[y.1]? = some sender ∧ sender.outputs[y.2]? = some out ∧
    w[x.1]? = some receiver ∧ receiver.inputs[x.2]? = some inp ∧
    out.physicItfId = 0 ∧ out.remoteModuleId = receiver.id ∧ out.remotePortIdx = x.2 ∧
    inp.physicItfId = 0 ∧ inp.remoteModuleId = sender.id ∧ inp.remotePortIdx = y.2

/-- A waveform with reciprocal point-to-point connections: an internal port that names a module
is named by the port at the other end. -/
structure Reciprocal (w : Waveform) : Prop where
  ids : (w.map Module.id).Nodup
  inputs : ∀ i (m : Module) p inp, w[i]? = some m → m.inputs[p]? = some inp → inp.physicItfId = 0 →
    (∃ remote ∈ w, remote.id = inp.remoteModuleId) → ∃ y, Connected w y (i, p)
  outputs : ∀ k (m : Module) q out, w[k]? = some m → m.outputs[q]? = some out →
    out.physicItfId = 0 →
    (∃ remote ∈ w, remote.id = out.remoteModuleId) → ∃ x, Connected w (k, q) x

def UsesConnected (w : Waveform) : Prop :=
  ∀ y x, Connected w y x → ∀ sender receiver, w[y.1]? = some sender → w[x.1]? = some receiver →
    y.2 < sender.nofOutputItf ∧ x.2 < receiver.nofInputItf

/-- A waveform as `nod_waveform_load` leaves it: the modules have acknowledged the load, no port
has its `hw_itf`, and the static memory of the libraries is zero. -/
structure Loaded (w : Waveform) (s : State) : Prop where
  registered : ∀ m ∈ w, m.registered = true
  status : ∀ i, (s.modules i).status = .loaded
  hwInput : ∀ i p, (s.modules i).hwInput p = none
  hwOutput : ∀ i q, (s.modules i).hwOutput q = none
  inputs : ∀ i p, (s.modules i).inputs p = false
  outputs : ∀ i q, (s.modules i).outputs q = false
  memOk : ∀ i, (s.modules i).memOk = false
  checkOk : ∀ i, (s.modules i).checkOk = false

/-- Queue creation succeeds, and `initialize` always returns 0. -/
structure Obliging (runtime : Runtime) (w : Waveform) : Prop where
  itfspscqNew : ∀ n, runtime.itfspscqNew n = true
  initializeValue : ∀ m ∈ w, ∀ n, m.initializeValue n = 0

/-- Input `x` holds exactly the queue that output `y` has created. -/
def HoldsQueueOf (w : Waveform) (s : State) (y x : ℕ × ℕ) : Prop :=
  ∃ n sender out, (s.modules x.1).hwInput x.2 = some (.queue n) ∧
    (s.modules y.1).hwOutput y.2 = some (.queue n) ∧
    w[y.1]? = some sender ∧ sender.outputs[y.2]? = some out ∧
    s.queues[n]? = some (newQueue out sender.outputSize) ∧
    ∀ z : ℕ × ℕ, (s.modules z.1).hwOutput z.2 = some (.queue n) → z = y

def Usable (w : Waveform) (x : ℕ × ℕ) : Prop :=
  ∃ m inp, w[x.1]? = some m ∧ m.inputs[x.2]? = some inp ∧
    (inp.physicItfId = 0 → ∃ y, Connected w y x)

/-- What the skeleton asks of module `i`: room for its ports, and no input left open. -/
def Fits (w : Waveform) (i : ℕ) (m : Module) : Prop :=
  m.nofInputItf ≤ maxInputs ∧ m.nofOutputItf ≤ maxOutputs ∧ ∀ p < m.nofInputItf, Usable w (i, p)

def Admissible (w : Waveform) : Prop := ∀ i m, w[i]? = some m → Fits w i m

/-! ## The board -/

def queueNumber : Option Handle → Option ℕ
  | some (.queue n) => some n
  | _ => none

def board (s : State) : Board (ℕ × ℕ) Itfspscq.Itf where
  objects := s.queues
  published := fun y => queueNumber ((s.modules y.1).hwOutput y.2)
  taken := fun x => queueNumber ((s.modules x.1).hwInput x.2)

def queueOf (w : Waveform) (y : ℕ × ℕ) : Option Itfspscq.Itf := do
  let sender ← w[y.1]?
  let out ← sender.outputs[y.2]?
  if out.physicItfId = 0 then some (newQueue out sender.outputSize) else none

def sourceOf (w : Waveform) (x : ℕ × ℕ) : Option (ℕ × ℕ) := do
  let receiver ← w[x.1]?
  let inp ← receiver.inputs[x.2]?
  if inp.physicItfId = 0 then
    let (_, k) ← nodWaveformFindModuleId w inp.remoteModuleId
    some (k, inp.remotePortIdx.toNat)
  else none

section Graph

variable {w : Waveform} {x y : ℕ × ℕ} {k : ℕ}

lemma nodWaveformFindModuleId_some {id : ℤ} {remote : Module}
    (h : nodWaveformFindModuleId w id = some (remote, k)) :
    w[k]? = some remote ∧ remote.id = id := by
  have hid := find?_some h
  have hmem := mem_of_find?_eq_some h
  exact ⟨mem_zipIdx_iff_getElem?.mp hmem, of_decide_eq_true hid⟩

lemma Reciprocal.ids_inj (h : Reciprocal w) {i j : ℕ} {m m' : Module} (hi : w[i]? = some m)
    (hj : w[j]? = some m') (hid : m.id = m'.id) : i = j := by
  have hlt : i < (w.map Module.id).length := by
    rw [length_map]
    exact (List.getElem?_eq_some_iff.mp hi).1
  apply (getElem?_inj hlt h.ids).mp
  rw [getElem?_map, getElem?_map, hi, hj, map_some, map_some, hid]

variable {sender : Module}

lemma find_of_unique (hk : w[k]? = some sender)
    (hunique : ∀ j m, w[j]? = some m → m.id = sender.id → j = k) :
    nodWaveformFindModuleId w sender.id = some (sender, k) := by
  have hmem : (sender, k) ∈ w.zipIdx := mem_zipIdx_iff_getElem?.mpr hk
  cases hfind : nodWaveformFindModuleId w sender.id with
  | none =>
    have hnone := find?_eq_none.mp hfind (sender, k) hmem
    simp at hnone
  | some r =>
    obtain ⟨hr, hid⟩ := nodWaveformFindModuleId_some hfind
    obtain rfl := hunique r.2 r.1 hr hid
    rw [hr] at hk
    rw [← some.inj hk]

lemma Reciprocal.find (h : Reciprocal w) (hk : w[k]? = some sender) :
    nodWaveformFindModuleId w sender.id = some (sender, k) :=
  find_of_unique hk fun _ _ hj hid => h.ids_inj hj hk hid

lemma Reciprocal.sourceOf_eq (h : Reciprocal w) (hconn : Connected w y x) :
    sourceOf w x = some y := by
  obtain ⟨sender, out, receiver, inp, hy, hout, hx, hinp, -, -, -, hinternal, hid, hport⟩ := hconn
  simp [sourceOf, hx, hinp, hinternal, hid, h.find hy, hport]

end Graph

/-! ## The invariant -/

/-- What holds of a module between two calls of `nod_module_init`, and inside of one between two
ports. -/
structure Local (m : Module) (ms : ModuleState) : Prop where
  /-- An internal output holds a queue or nothing, and the skeleton knows which. -/
  made : ∀ q out, m.outputs[q]? = some out → out.physicItfId = 0 →
    (ms.outputs q = false ∧ ms.hwOutput q = none) ∨
      (ms.outputs q = true ∧ ∃ n, ms.hwOutput q = some (.queue n))
  /-- An input that the skeleton has exists, and holds a queue if it is internal. -/
  found : ∀ p, ms.inputs p = true → ∃ inp, m.inputs[p]? = some inp ∧
    (inp.physicItfId = 0 → ∃ n, ms.hwInput p = some (.queue n))
  cleared : ms.memOk = false → ∀ p, ms.inputs p = false ∧ ms.outputs p = false
  checked : ms.checkOk = true → m.nofInputItf ≤ maxInputs ∧ m.nofOutputItf ≤ maxOutputs
  /-- A module in status `INIT` has passed the checks and has all its inputs. -/
  finished : ms.status = .init → ms.checkOk = true ∧ ∀ p < m.nofInputItf, ms.inputs p = true

structure Inv (w : Waveform) (s : State) : Prop where
  wired : (board s).Wired (queueOf w) (sourceOf w)
  modules : ∀ i m, w[i]? = some m → Local m (s.modules i)

lemma Loaded.inv {w : Waveform} {s : State} (h : Loaded w s) : Inv w s where
  wired := Board.Wired.empty (fun y => by simp [board, queueNumber, h.hwOutput])
    (fun x => by simp [board, queueNumber, h.hwInput])
  modules := fun i _ _ =>
    { made := fun q _ _ _ => .inl ⟨h.outputs i q, h.hwOutput i q⟩
      found := fun p hp => absurd ((h.inputs i p).symm.trans hp) nofun
      cleared := fun _ p => ⟨h.inputs i p, h.outputs i p⟩
      checked := fun hi => absurd ((h.checkOk i).symm.trans hi) nofun
      finished := fun hi => absurd ((h.status i).symm.trans hi) nofun }

/-- What a part of `Init` of module `i` can do: steps on the board, and nothing to the other
modules. -/
structure Touches (w : Waveform) (i : ℕ) (s s' : State) : Prop where
  steps : Board.Steps (queueOf w) (sourceOf w) (board s) (board s')
  others : ∀ j, j ≠ i → s'.modules j = s.modules j
  status : (s'.modules i).status = (s.modules i).status
  memOk : (s.modules i).memOk = true → (s'.modules i).memOk = true
  checkOk : (s.modules i).checkOk = true → (s'.modules i).checkOk = true

section Parts

variable {w : Waveform} {i port : ℕ} {s s' s'' : State} {m : Module} {ms ms' : ModuleState}
  {hw : Option Handle} {f : ModuleState → ModuleState}

lemma Touches.refl : Touches w i s s where
  steps := Relation.ReflTransGen.refl
  others := fun _ _ => rfl
  status := rfl
  memOk := id
  checkOk := id

lemma Touches.trans (h : Touches w i s s') (h' : Touches w i s' s'') : Touches w i s s'' where
  steps := h.steps.trans h'.steps
  others := fun j hj => (h'.others j hj).trans (h.others j hj)
  status := h'.status.trans h.status
  memOk := fun hmem => h'.memOk (h.memOk hmem)
  checkOk := fun hcheck => h'.checkOk (h.checkOk hcheck)

lemma Inv.of_steps (h : Inv w s)
    (hsteps : Board.Steps (queueOf w) (sourceOf w) (board s) (board s'))
    (hothers : ∀ j, j ≠ i → s'.modules j = s.modules j)
    (hlocal : ∀ m, w[i]? = some m → Local m (s'.modules i)) : Inv w s' where
  wired := h.wired.steps hsteps
  modules := fun j m hj => by
    by_cases hji : j = i
    · subst hji
      exact hlocal m hj
    · rw [hothers j hji]
      exact h.modules j m hj

@[simp] lemma modify_self (f : ModuleState → ModuleState) :
    (s.modify i f).modules i = f (s.modules i) :=
  update_self ..

@[simp] lemma modify_of_ne (f : ModuleState → ModuleState) {j : ℕ} (h : j ≠ i) :
    (s.modify i f).modules j = s.modules j :=
  update_of_ne h ..

lemma numbers_update (g : ModuleState → ℕ → Option Handle)
    (hown : g (f (s.modules i)) = update (g (s.modules i)) port hw) :
    (fun x : ℕ × ℕ => queueNumber (g ((s.modify i f).modules x.1) x.2)) =
      update (fun x : ℕ × ℕ => queueNumber (g (s.modules x.1) x.2)) (i, port) (queueNumber hw) := by
  funext ⟨k, q⟩
  by_cases hk : k = i
  · subst hk
    by_cases hq : q = port
    · subst hq
      simp [hown]
    · simp [hown, hq]
  · simp [hk]

lemma numbers_same (g : ModuleState → ℕ → Option Handle)
    (hown : g (f (s.modules i)) = g (s.modules i)) :
    (fun x : ℕ × ℕ => queueNumber (g ((s.modify i f).modules x.1) x.2)) =
      fun x => queueNumber (g (s.modules x.1) x.2) := by
  funext ⟨k, q⟩
  by_cases hk : k = i
  · subst hk
    simp only [modify_self, hown]
  · simp only [modify_of_ne f hk]

variable {queues : List Itfspscq.Itf} {inp : Interface}

/-! ### A change that has nothing to do with the wiring -/

structure SameWiring (ms ms' : ModuleState) : Prop where
  hwInput : ms'.hwInput = ms.hwInput
  hwOutput : ms'.hwOutput = ms.hwOutput
  inputs : ms'.inputs = ms.inputs
  outputs : ms'.outputs = ms.outputs
  memOk : ms'.memOk = ms.memOk
  checkOk : ms'.checkOk = ms.checkOk
  status : ms'.status = ms.status

lemma SameWiring.local (h : SameWiring ms ms') (hlocal : Local m ms) : Local m ms' where
  made := by
    rw [h.outputs, h.hwOutput]
    exact hlocal.made
  found := by
    rw [h.inputs, h.hwInput]
    exact hlocal.found
  cleared := by
    rw [h.memOk, h.inputs, h.outputs]
    exact hlocal.cleared
  checked := by
    rw [h.checkOk]
    exact hlocal.checked
  finished := by
    rw [h.status, h.checkOk, h.inputs]
    exact hlocal.finished

lemma board_modify (hin : (f (s.modules i)).hwInput = (s.modules i).hwInput)
    (hout : (f (s.modules i)).hwOutput = (s.modules i).hwOutput) :
    board (s.modify i f) = board s :=
  Board.ext rfl (numbers_same hwOutput hout) (numbers_same hwInput hin)

section

variable (h : Inv w s) (hstatus : (f (s.modules i)).status = (s.modules i).status)
  (hmem : (s.modules i).memOk = true → (f (s.modules i)).memOk = true)
  (hcheck : (s.modules i).checkOk = true → (f (s.modules i)).checkOk = true)
  (hlocal : ∀ m, w[i]? = some m → Local m (f (s.modules i)))
include h hstatus hmem hcheck hlocal

lemma Inv.modified (hsteps : Board.Steps (queueOf w) (sourceOf w) (board s)
      (board ({ s with queues := queues }.modify i f))) :
    Touches w i s ({ s with queues := queues }.modify i f) ∧
      Inv w ({ s with queues := queues }.modify i f) := by
  have hothers : ∀ j, j ≠ i → ({ s with queues := queues }.modify i f).modules j = s.modules j :=
    fun j hj => modify_of_ne f hj
  refine ⟨⟨hsteps, hothers, ?_, ?_, ?_⟩, h.of_steps hsteps hothers ?_⟩
  all_goals rwa [modify_self]

lemma Inv.inner (hin : (f (s.modules i)).hwInput = (s.modules i).hwInput)
    (hout : (f (s.modules i)).hwOutput = (s.modules i).hwOutput) :
    Touches w i s (s.modify i f) ∧ Inv w (s.modify i f) :=
  h.modified hstatus hmem hcheck hlocal (board_modify hin hout ▸ .refl)

end

lemma Inv.quiet (h : Inv w s) (hf : SameWiring (s.modules i) (f (s.modules i))) :
    Touches w i s (s.modify i f) ∧ Inv w (s.modify i f) :=
  h.inner hf.status hf.memOk.trans hf.checkOk.trans (fun m hi => hf.local (h.modules i m hi))
    hf.hwInput hf.hwOutput

/-! ### A change at one port -/

structure OutputSet (port : ℕ) (hw : Option Handle) (ms ms' : ModuleState) : Prop where
  hwOutput : ms'.hwOutput = update ms.hwOutput port hw
  outputs : ms'.outputs = update ms.outputs port true
  hwInput : ms'.hwInput = ms.hwInput
  inputs : ms'.inputs = ms.inputs
  memOk : ms'.memOk = ms.memOk
  checkOk : ms'.checkOk = ms.checkOk
  status : ms'.status = ms.status

/-- A module whose input `port` was given a handle; the control interface has none in
`inputs`. -/
structure InputSet (port : ℕ) (hw : Option Handle) (ms ms' : ModuleState) : Prop where
  hwInput : ms'.hwInput = update ms.hwInput port hw
  inputs : ms'.inputs = update ms.inputs port true ∨ ms'.inputs = ms.inputs
  hwOutput : ms'.hwOutput = ms.hwOutput
  outputs : ms'.outputs = ms.outputs
  memOk : ms'.memOk = ms.memOk
  checkOk : ms'.checkOk = ms.checkOk
  status : ms'.status = ms.status

lemma OutputSet.local (h : OutputSet port hw ms ms') (hlocal : Local m ms)
    (hmem : ms.memOk = true) (hhw : ∀ out, m.outputs[port]? = some out → out.physicItfId = 0 →
      ∃ n, hw = some (.queue n)) : Local m ms' where
  made := fun q out hq hinternal => by
    rw [h.outputs, h.hwOutput]
    by_cases hqp : q = port
    · grind
    · rw [update_of_ne hqp, update_of_ne hqp]
      exact hlocal.made q out hq hinternal
  found := by
    rw [h.inputs, h.hwInput]
    exact hlocal.found
  cleared := fun hclear => by
    rw [h.memOk, hmem] at hclear
    exact absurd hclear nofun
  checked := by
    rw [h.checkOk]
    exact hlocal.checked
  finished := by
    rw [h.status, h.checkOk, h.inputs]
    exact hlocal.finished

lemma InputSet.local (h : InputSet port hw ms ms') (hlocal : Local m ms)
    (hmem : ms.memOk = true) (hport : m.inputs[port]? = some inp)
    (hhw : inp.physicItfId = 0 → ∃ n, hw = some (.queue n)) : Local m ms' where
  made := by
    rw [h.outputs, h.hwOutput]
    exact hlocal.made
  found := fun p hp => by
    rw [h.hwInput]
    by_cases hpp : p = port
    · grind
    · rw [update_of_ne hpp]
      apply hlocal.found
      rcases h.inputs with hin | hin
      · rwa [hin, update_of_ne hpp] at hp
      · rwa [hin] at hp
  cleared := fun hclear => by
    rw [h.memOk, hmem] at hclear
    exact absurd hclear nofun
  checked := by
    rw [h.checkOk]
    exact hlocal.checked
  finished := fun hstatus => by
    obtain ⟨hcheck, hall⟩ := hlocal.finished (h.status ▸ hstatus)
    refine ⟨h.checkOk ▸ hcheck, fun p hp => ?_⟩
    rcases h.inputs with hin | hin
    · rw [hin, update_apply, hall p hp, ite_self]
    · rw [hin, hall p hp]

lemma Inv.outputSet (h : Inv w s) (hf : OutputSet port hw (s.modules i) (f (s.modules i)))
    (hmem : (s.modules i).memOk = true) (hsteps : Board.Steps (queueOf w) (sourceOf w) (board s)
      ⟨queues, update (board s).published (i, port) (queueNumber hw), (board s).taken⟩)
    (hhw : ∀ m out, w[i]? = some m → m.outputs[port]? = some out → out.physicItfId = 0 →
      ∃ n, hw = some (.queue n)) :
    Touches w i s ({ s with queues := queues }.modify i f) ∧
      Inv w ({ s with queues := queues }.modify i f) := by
  have hboard : board ({ s with queues := queues }.modify i f) =
      ⟨queues, update (board s).published (i, port) (queueNumber hw), (board s).taken⟩ :=
    Board.ext rfl (numbers_update hwOutput hf.hwOutput) (numbers_same hwInput hf.hwInput)
  refine h.modified hf.status hf.memOk.trans hf.checkOk.trans (fun m hi => ?_) (hboard ▸ hsteps)
  exact hf.local (h.modules i m hi) hmem (hhw m · hi)

lemma Inv.inputSet (h : Inv w s)
    (hf : InputSet port hw (s.modules i) (f (s.modules i))) (hmem : (s.modules i).memOk = true)
    (hsteps : Board.Steps (queueOf w) (sourceOf w) (board s)
      { board s with taken := update (board s).taken (i, port) (queueNumber hw) })
    (hi : w[i]? = some m) (hport : m.inputs[port]? = some inp)
    (hhw : inp.physicItfId = 0 → ∃ n, hw = some (.queue n)) :
    Touches w i s (s.modify i f) ∧ Inv w (s.modify i f) := by
  have hboard : board (s.modify i f) =
      { board s with taken := update (board s).taken (i, port) (queueNumber hw) } :=
    Board.ext rfl (numbers_same hwOutput hf.hwOutput) (numbers_update hwInput hf.hwInput)
  refine h.modified hf.status hf.memOk.trans hf.checkOk.trans (fun m' hi' => ?_)
    (hboard ▸ hsteps)
  obtain rfl : m = m' := some.inj (hi.symm.trans hi')
  exact hf.local (h.modules i m hi) hmem hport hhw

lemma modify_modify (f g : ModuleState → ModuleState) :
    (s.modify i f).modify i g = s.modify i fun ms => g (f ms) := by
  simp [State.modify]

end Parts

/-! ## Creating the outputs -/

section Outputs

variable {runtime : Runtime} {w : Waveform} {i port : ℕ} {m : Module} {s s' : State}
    {out : Interface}

lemma moduleState_run : moduleState i s = .ok (s.modules i) s := rfl

lemma setModule_run (f : ModuleState → ModuleState) : setModule i f s = .ok () (s.modify i f) := rfl

lemma initOutput_of_made (h : (s.modules i).outputs port = true) :
    initOutput runtime w i m port s = .ok () s := by
  rw [initOutput, bind_of_ok moduleState_run, if_pos h]
  rfl

lemma initOutput_of_run {created : Bool} (h : (s.modules i).outputs port = false)
    (hrun : oesrItfCreate runtime w i m port .write m.outputSize s = .ok created s')
    (hcreated : created = true ∨ (s'.modules i).error = .notFound) :
    initOutput runtime w i m port s = .ok () (s'.modify i fun ms =>
      { ms with outputs := update ms.outputs port created }) := by
  rw [initOutput, bind_of_ok moduleState_run, if_neg (by rw [h]; exact nofun), bind_of_ok hrun]
  simp only [setModule, moduleState, bind, EStateM.bind, modify_self]
  rw [if_pos hcreated]
  rfl

lemma queueOf_eq (hi : w[i]? = some m) (hout : m.outputs[port]? = some out) : queueOf w (i, port) =
      if out.physicItfId = 0 then some (newQueue out m.outputSize) else none := by
  simp [queueOf, hi, hout]

lemma Inv.published_physic (h : Inv w s) (hi : w[i]? = some m)
    (hout : m.outputs[port]? = some out) (hphysic : out.physicItfId ≠ 0) :
    (board s).published (i, port) = none := by
  cases hpub : (board s).published (i, port) with
  | none => rfl
  | some n =>
    obtain ⟨obj, hobj, -⟩ := h.wired.object _ n hpub
    rw [queueOf_eq hi hout, if_neg hphysic] at hobj
    exact absurd hobj nofun

lemma create_write_physic (hout : m.outputs[port]? = some out)
    (hphysic : out.physicItfId ≠ 0) (size : ℕ) :
    ∃ hw code, queueNumber hw = none ∧
      oesrItfCreate runtime w i m port .write size s = .ok true (s.modify i fun ms =>
        { ms with hwOutput := update ms.hwOutput port hw, error := code }) := by
  cases hget : runtime.itfphysicGetId out.physicItfId with
  | true =>
    refine ⟨some (.physic out.physicItfId), (s.modules i).error, rfl, ?_⟩
    simp [oesrItfCreate, ports, hout, hphysic, hget, State.plug, State.modify]
  | false =>
    refine ⟨none, .rtdal, rfl, ?_⟩
    simp [oesrItfCreate, ports, hout, hphysic, hget, State.plug, State.setError, modify_modify]

lemma create_write_internal (hob : Obliging runtime w)
    (hout : m.outputs[port]? = some out) (hinternal : out.physicItfId = 0) (size : ℕ) :
    oesrItfCreate runtime w i m port .write size s =
      .ok true ({ s with queues := s.queues ++ [newQueue out size] }.modify i fun ms =>
        { ms with
          hwOutput := update ms.hwOutput port (some (.queue s.queues.length)) }) := by
  simp [oesrItfCreate, ports, hout, hinternal, hob.itfspscqNew, plug]

/-- What a round of the first loop leaves at output `port` of module `i`. -/
structure OutputDone (w : Waveform) (i port : ℕ) (m : Module) (s s' : State) : Prop where
  touches : Touches w i s s'
  inv : Inv w s'
  made : ∀ out, m.outputs[port]? = some out → out.physicItfId = 0 →
    (s'.modules i).hwOutput port ≠ none

lemma initOutput_missing (h : Inv w s) (hflag : (s.modules i).outputs port = false)
    (hout : m.outputs[port]? = none) :
    ∃ s', initOutput runtime w i m port s = .ok () s' ∧ OutputDone w i port m s s' := by
  have hrun : oesrItfCreate runtime w i m port .write m.outputSize s =
      .ok false (s.setError i .notFound) := by simp [oesrItfCreate, ports, hout]
  have hsame : update (s.modules i).outputs port false = (s.modules i).outputs :=
    Function.update_eq_self_iff.mpr hflag.symm
  refine ⟨_, initOutput_of_run hflag hrun (.inr (by simp [setError])), ?_⟩
  rw [setError, modify_modify]
  obtain ⟨htouches, hinv⟩ := h.quiet (i := i) (f := fun ms =>
    { ms with error := .notFound, outputs := update ms.outputs port false })
    ⟨rfl, rfl, rfl, hsame, rfl, rfl, rfl⟩
  exact ⟨htouches, hinv, fun out hout' => absurd (hout.symm.trans hout') nofun⟩

lemma initOutput_internal (hob : Obliging runtime w) (h : Inv w s) (hi : w[i]? = some m)
    (hmem : (s.modules i).memOk = true) (hflag : (s.modules i).outputs port = false)
    (hout : m.outputs[port]? = some out) (hinternal : out.physicItfId = 0) :
    ∃ s', initOutput runtime w i m port s = .ok () s' ∧ OutputDone w i port m s s' := by
  have hno : (s.modules i).hwOutput port = none := by
    rcases (h.modules i m hi).made port out hout hinternal with ⟨-, hno⟩ | ⟨hyes, -⟩
    · exact hno
    · exact absurd (hflag.symm.trans hyes) nofun
  have hstep : Board.Step (queueOf w) (sourceOf w) (board s)
      ((board s).publish (i, port) (newQueue out m.outputSize)) :=
    .publish (by rw [queueOf_eq hi hout, if_pos hinternal]) (by simp [board, hno, queueNumber])
  refine ⟨_, initOutput_of_run hflag (create_write_internal hob hout hinternal _) (.inl rfl), ?_⟩
  rw [modify_modify]
  obtain ⟨htouches, hinv⟩ := h.outputSet (i := i) (f := fun ms => { ms with
    hwOutput := update ms.hwOutput port (some (.queue s.queues.length))
    outputs := update ms.outputs port true })
    ⟨rfl, rfl, rfl, rfl, rfl, rfl, rfl⟩ hmem (.single hstep) fun _ _ _ _ _ => ⟨_, rfl⟩
  exact ⟨htouches, hinv, fun _ _ _ => by simp⟩

lemma initOutput_physic (h : Inv w s) (hi : w[i]? = some m) (hmem : (s.modules i).memOk = true)
    (hflag : (s.modules i).outputs port = false)
    (hout : m.outputs[port]? = some out) (hphysic : out.physicItfId ≠ 0) :
    ∃ s', initOutput runtime w i m port s = .ok () s' ∧ OutputDone w i port m s s' := by
  obtain ⟨hw, code, hnumber, hrun⟩ :=
    create_write_physic (s := s) (i := i) (w := w) hout hphysic m.outputSize
  have hsteps : Board.Steps (queueOf w) (sourceOf w) (board s)
      ⟨s.queues, update (board s).published (i, port) (queueNumber hw), (board s).taken⟩ := by
    rw [hnumber, ← h.published_physic hi hout hphysic, update_eq_self]
    exact .refl
  refine ⟨_, initOutput_of_run hflag hrun (.inl rfl), ?_⟩
  rw [modify_modify]
  obtain ⟨htouches, hinv⟩ := h.outputSet (i := i) (f := fun ms => { ms with
    hwOutput := update ms.hwOutput port hw, error := code
    outputs := update ms.outputs port true })
    ⟨rfl, rfl, rfl, rfl, rfl, rfl, rfl⟩ hmem hsteps fun m' out' hi' hout' hzero => by
      obtain rfl : m = m' := some.inj (hi.symm.trans hi')
      obtain rfl : out = out' := some.inj (hout.symm.trans hout')
      exact absurd hzero hphysic
  refine ⟨htouches, hinv, fun out' hout' hzero => ?_⟩
  obtain rfl : out = out' := some.inj (hout.symm.trans hout')
  exact absurd hzero hphysic

lemma initOutput_run (hob : Obliging runtime w) (h : Inv w s) (hi : w[i]? = some m)
    (hmem : (s.modules i).memOk = true) (port : ℕ) :
    ∃ s', initOutput runtime w i m port s = .ok () s' ∧ OutputDone w i port m s s' := by
  cases hflag : (s.modules i).outputs port with
  | true =>
    refine ⟨s, initOutput_of_made hflag, .refl, h, fun out hout hinternal => ?_⟩
    rcases (h.modules i m hi).made port out hout hinternal with ⟨hno, -⟩ | ⟨-, n, hn⟩
    · exact absurd (hno.symm.trans hflag) nofun
    · rw [hn]
      exact nofun
  | false =>
    cases hout : m.outputs[port]? with
    | none => exact initOutput_missing h hflag hout
    | some out =>
      by_cases hinternal : out.physicItfId = 0
      · exact initOutput_internal hob h hi hmem hflag hout hinternal
      · exact initOutput_physic h hi hmem hflag hout hinternal

end Outputs

/-! ## Finding the inputs -/

/-- What `oesr_itf_create` answers for input `port` of module `i`. -/
inductive ReadAnswer (w : Waveform) (i port : ℕ) (m : Module) (s : State) :
    EStateM.Result Exit State Bool → Prop
  /-- The queue is not there yet. -/
  | waits {y : ℕ × ℕ} (hconn : Connected w y (i, port))
      (hnone : (s.modules y.1).hwOutput y.2 = none) :
      ReadAnswer w i port m s (.ok false (s.setError i .notReady))
  /-- There is nothing to read from. -/
  | refuses {code : ErrorCode} (hcode : code ≠ .notReady) (hopen : ¬ Usable w (i, port)) :
      ReadAnswer w i port m s (.ok false (s.setError i code))
  | finds {inp : Interface} {hw : Option Handle} (code : ErrorCode)
      (hport : m.inputs[port]? = some inp)
      (hhw : inp.physicItfId = 0 → ∃ n, hw = some (.queue n))
      (hsteps : Board.Steps (queueOf w) (sourceOf w) (board s)
        { board s with taken := update (board s).taken (i, port) (queueNumber hw) }) :
      ReadAnswer w i port m s (.ok true (s.modify i fun ms =>
        { ms with hwInput := update ms.hwInput port hw, error := code }))

section Inputs

variable {runtime : Runtime} {w : Waveform} {i port : ℕ} {m : Module} {s s' : State}
  {inp : Interface}

lemma Inv.taken_physic (h : Inv w s) (hi : w[i]? = some m)
    (hinp : m.inputs[port]? = some inp) (hphysic : inp.physicItfId ≠ 0) :
    (board s).taken (i, port) = none := by
  cases htaken : (board s).taken (i, port) with
  | none => rfl
  | some n =>
    obtain ⟨y, hy, -⟩ := h.wired.taken _ n htaken
    simp [sourceOf, hi, hinp, hphysic] at hy

lemma create_read_physic (h : Inv w s) (hi : w[i]? = some m)
    (hinp : m.inputs[port]? = some inp) (hphysic : inp.physicItfId ≠ 0) (size : ℕ) :
    ReadAnswer w i port m s (oesrItfCreate runtime w i m port .read size s) := by
  have hsteps : ∀ hw, queueNumber hw = none → Board.Steps (queueOf w) (sourceOf w) (board s)
      { board s with taken := update (board s).taken (i, port) (queueNumber hw) } := by
    intro hw hnumber
    rw [hnumber, ← h.taken_physic hi hinp hphysic, update_eq_self]
  cases hget : runtime.itfphysicGetId inp.physicItfId with
  | true =>
    have hrun : oesrItfCreate runtime w i m port .read size s = .ok true (s.modify i fun ms =>
        { ms with
          hwInput := update ms.hwInput port (some (.physic inp.physicItfId))
          error := (s.modules i).error }) := by
      simp [oesrItfCreate, ports, hinp, hphysic, hget, State.plug, State.modify]
    rw [hrun]
    exact .finds _ hinp (fun hzero => absurd hzero hphysic) (hsteps _ rfl)
  | false =>
    have hrun : oesrItfCreate runtime w i m port .read size s = .ok true (s.modify i fun ms =>
        { ms with hwInput := update ms.hwInput port none, error := .rtdal }) := by
      simp [oesrItfCreate, ports, hinp, hphysic, hget, State.plug, State.setError, modify_modify]
    rw [hrun]
    exact .finds _ hinp (fun hzero => absurd hzero hphysic) (hsteps _ rfl)

lemma create_read_connected (hrec : Reciprocal w) (h : Inv w s) {y : ℕ × ℕ}
    (hconn : Connected w y (i, port)) (hi : w[i]? = some m) (size : ℕ) :
    ReadAnswer w i port m s (oesrItfCreate runtime w i m port .read size s) := by
  obtain ⟨sender, out, receiver, inp, hy, hout, hx, hinp, hzero, -, -, hinternal, hid, hidx⟩ :=
    id hconn
  obtain rfl : m = receiver := some.inj (hi.symm.trans hx)
  have hlt : y.2 < sender.outputs.length := (List.getElem?_eq_some_iff.mp hout).1
  have hge : ¬ sender.outputs.length < y.2 := not_lt.mpr hlt.le
  rcases (h.modules y.1 sender hy).made y.2 out hout hzero with ⟨-, hnone⟩ | ⟨-, n, hn⟩
  · have hrun : oesrItfCreate runtime w i m port .read size s =
        .ok false (s.setError i .notReady) := by
      simp [oesrItfCreate, ports, hinp, hinternal, hid, hrec.find hy, hidx, hlt, hge, hnone]
    rw [hrun]
    exact .waits hconn hnone
  · have hrun : oesrItfCreate runtime w i m port .read size s =
        .ok true (s.plug i .read port (some (.queue n))) := by
      simp [oesrItfCreate, ports, hinp, hinternal, hid, hrec.find hy, hidx, hlt, hge, hn]
    rw [hrun]
    have hstep : Board.Step (queueOf w) (sourceOf w) (board s) ((board s).take (i, port) n) :=
      .take (hrec.sourceOf_eq hconn) (by simp [board, hn, queueNumber])
    exact .finds (s.modules i).error hinp (fun _ => ⟨n, rfl⟩) (.single hstep)

lemma create_read (runtime : Runtime) (hrec : Reciprocal w) (h : Inv w s)
    (hi : w[i]? = some m) (port size : ℕ) :
    ReadAnswer w i port m s (oesrItfCreate runtime w i m port .read size s) := by
  cases hinp : m.inputs[port]? with
  | none =>
    have hrun : oesrItfCreate runtime w i m port .read size s =
        .ok false (s.setError i .notFound) := by simp [oesrItfCreate, ports, hinp]
    rw [hrun]
    refine .refuses nofun ?_
    rintro ⟨m', inp, hi', hinp', -⟩
    obtain rfl : m = m' := some.inj (hi.symm.trans hi')
    exact absurd (hinp.symm.trans hinp') nofun
  | some inp =>
    by_cases hinternal : inp.physicItfId = 0
    · by_cases hremote : ∃ remote ∈ w, remote.id = inp.remoteModuleId
      · obtain ⟨y, hconn⟩ := hrec.inputs i m port inp hi hinp hinternal hremote
        exact create_read_connected hrec h hconn hi size
      · have hfind : nodWaveformFindModuleId w inp.remoteModuleId = none := by
          rw [eq_none_iff_forall_ne_some]
          rintro ⟨remote, k⟩ hsome
          obtain ⟨hk, hid⟩ := nodWaveformFindModuleId_some hsome
          exact hremote ⟨remote, mem_of_getElem? hk, hid⟩
        have hrun : oesrItfCreate runtime w i m port .read size s =
            .ok false (s.setError i .modNotFound) := by
          simp [oesrItfCreate, ports, hinp, hinternal, hfind]
        rw [hrun]
        refine .refuses nofun ?_
        rintro ⟨m', inp', hi', hinp', husable⟩
        obtain rfl : m = m' := some.inj (hi.symm.trans hi')
        obtain rfl : inp = inp' := some.inj (hinp.symm.trans hinp')
        obtain ⟨y, sender, out, receiver, inp', hy, -, hx, hinp', -, -, -, -, hid, -⟩ :=
          husable hinternal
        obtain rfl : m = receiver := some.inj (hi.symm.trans hx)
        obtain rfl : inp = inp' := some.inj (hinp.symm.trans hinp')
        exact hremote ⟨sender, mem_of_getElem? hy, hid.symm⟩
    · exact create_read_physic h hi hinp hinternal size

lemma initInput_of_found (h : (s.modules i).inputs port = true) :
    initInput runtime w i m port s = .ok () s := by
  rw [initInput, bind_of_ok moduleState_run, if_pos h]
  rfl

lemma initInput_of_run {created : Bool} (h : (s.modules i).inputs port = false)
    (hrun : oesrItfCreate runtime w i m port .read m.inputSize s = .ok created s') :
    initInput runtime w i m port s = let s'' := s'.modify i fun ms =>
        { ms with inputs := update ms.inputs port created }
      if created then .ok () s''
      else if (s'.modules i).error = .notReady then .error (.ret 0) s''
      else .error (.ret (-1)) s'' := by
  rw [initInput, bind_of_ok moduleState_run, if_neg (by rw [h]; exact nofun), bind_of_ok hrun]
  simp only [setModule, moduleState, bind, EStateM.bind, modify_self]
  split_ifs <;> rfl

section

variable (runtime : Runtime) (hrec : Reciprocal w) (h : Inv w s) (hi : w[i]? = some m)
  (hmem : (s.modules i).memOk = true)
include hrec h hi hmem

lemma initInput_run (port : ℕ) : ∃ s', Touches w i s s' ∧ Inv w s' ∧
      (∀ p, (s.modules i).inputs p = true → (s'.modules i).inputs p = true) ∧
      ((initInput runtime w i m port s = .ok () s' ∧ (s'.modules i).inputs port = true) ∨
        (initInput runtime w i m port s = .error (.ret 0) s' ∧
          ∃ y, Connected w y (i, port) ∧ (s.modules y.1).hwOutput y.2 = none) ∨
        (initInput runtime w i m port s = .error (.ret (-1)) s' ∧ ¬ Usable w (i, port))) := by
  cases hflag : (s.modules i).inputs port with
  | true => exact ⟨s, .refl, h, fun _ hp => hp, .inl ⟨initInput_of_found hflag, hflag⟩⟩
  | false =>
    have hsame : update (s.modules i).inputs port false = (s.modules i).inputs :=
      Function.update_eq_self_iff.mpr hflag.symm
    have hanswer := create_read runtime hrec h hi port m.inputSize
    generalize hrun : oesrItfCreate runtime w i m port .read m.inputSize s = r at hanswer
    cases hanswer with
    | waits hconn hnone =>
      have hquiet := h.quiet (i := i) (f := fun ms =>
        { ms with error := .notReady, inputs := update ms.inputs port false })
        ⟨rfl, rfl, hsame, rfl, rfl, rfl, rfl⟩
      refine ⟨_, hquiet.1, hquiet.2, ?_, .inr (.inl ⟨?_, _, hconn, hnone⟩)⟩
      · simp [hsame]
      · rw [initInput_of_run hflag hrun, setError]
        simp [modify_modify]
    | @refuses code hcode hopen =>
      have hquiet := h.quiet (i := i) (f := fun ms =>
        { ms with error := code, inputs := update ms.inputs port false })
        ⟨rfl, rfl, hsame, rfl, rfl, rfl, rfl⟩
      refine ⟨_, hquiet.1, hquiet.2, ?_, .inr (.inr ⟨?_, hopen⟩)⟩
      · simp [hsame]
      · rw [initInput_of_run hflag hrun, setError]
        simp [modify_modify, hcode]
    | @finds inp hw code hport hhw hsteps =>
      have hset := h.inputSet (i := i) (f := fun ms => { ms with
        hwInput := update ms.hwInput port hw, error := code
        inputs := update ms.inputs port true })
        ⟨rfl, .inl rfl, rfl, rfl, rfl, rfl, rfl⟩ hmem hsteps hi hport hhw
      refine ⟨_, hset.1, hset.2, ?_, .inl ⟨?_, ?_⟩⟩
      · intro p hp
        simp [update_apply, hp]
      · rw [initInput_of_run hflag hrun]
        simp [modify_modify]
      · simp

lemma initCtrl_run : ∃ s', initCtrl runtime w i m s = .ok () s' ∧ Touches w i s s' ∧ Inv w s' := by
  by_cases hctrl : m.nofInputItf < m.inputs.length ∧ (s.modules i).ctrlIn = false
  · have hanswer := create_read runtime hrec h hi (m.inputs.length - 1) ctrlInBufferSz
    generalize hrun : oesrItfCreate runtime w i m (m.inputs.length - 1) .read ctrlInBufferSz s = r
      at hanswer
    have hinit : ∀ created s1, r = .ok created s1 → initCtrl runtime w i m s =
        .ok () (s1.modify i fun ms => { ms with ctrlIn := created }) := by
      intro created s1 hr
      rw [initCtrl, bind_of_ok moduleState_run, if_pos hctrl, bind_of_ok (hrun.trans hr)]
      rfl
    cases hanswer with
    | waits hconn hnone =>
      refine ⟨_, hinit _ _ rfl, ?_⟩
      rw [setError, modify_modify]
      exact h.quiet ⟨rfl, rfl, rfl, rfl, rfl, rfl, rfl⟩
    | refuses hcode hopen =>
      refine ⟨_, hinit _ _ rfl, ?_⟩
      rw [setError, modify_modify]
      exact h.quiet ⟨rfl, rfl, rfl, rfl, rfl, rfl, rfl⟩
    | finds code hport hhw hsteps =>
      refine ⟨_, hinit _ _ rfl, ?_⟩
      rw [modify_modify]
      exact h.inputSet ⟨rfl, .inr rfl, rfl, rfl, rfl, rfl, rfl⟩ hmem hsteps hi hport hhw
  · refine ⟨s, ?_, .refl, h⟩
    rw [initCtrl, bind_of_ok moduleState_run, if_neg hctrl]
    rfl

end

end Inputs

end Aloe.Oesr.Skeleton
