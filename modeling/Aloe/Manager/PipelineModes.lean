import Aloe.Lib.Run
import Aloe.Manager.StageJoining
import Aloe.Oesr.Packet
import Aloe.Rtdal.Itfspscq

/-!
# A packet and the mode it is processed in

Model of `waveform_mode_set` of `oesr/src/manager/man_waveform.c`, of the `WAVEFORM_MODE` case of
`nod_waveform_unserializeTo`, and of `oesr_var_param_get_value` of `oesr/src/oesr_api/oesr_var.c`.
The manager tells each module the next mode and the slot from which it holds; a module changes when
it reads a parameter in that slot or after it, and remembers one change only.

A packet of pipeline time `t - s` keeps it on its way from stage to stage, and a command announces
one pipeline time to all modules. So a module's mode depends on the pipeline time alone, unless a
command comes before all modules have followed the last one.
-/

namespace Aloe.Manager.Mode

open Lib Oesr

/-- `module_mode_t` of a module on the node. -/
structure ModuleMode where
  curMode : ℕ
  nextMode : ℕ
  nextTslot : ℤ
deriving DecidableEq, Repr

/-- `variable_t` as far as a parameter is read: its size, and its value in each mode. -/
structure Parameter where
  size : ℕ
  initValue : ℕ → List UInt8

/-- The change that `oesr_var_param_get_value` makes when its slot has come. -/
def ModuleMode.switch (slot : ℤ) (m : ModuleMode) : ModuleMode :=
  if m.nextTslot ≠ 0 ∧ m.nextTslot ≤ slot then { m with curMode := m.nextMode, nextTslot := 0 }
  else m

/-- `oesr_var_param_get_value` into a buffer of `size` bytes: the bytes copied, of which there are
as many as it returns, and the mode of the module afterwards. -/
def oesrVarParamGetValue (slot : ℤ) (parameter : Parameter) (size : ℕ) (m : ModuleMode) :
    List UInt8 × ModuleMode :=
  let cpySz := if size < parameter.size then size else parameter.size
  let m := m.switch slot
  ((parameter.initValue m.curMode).take cpySz, m)

structure Read where
  module : ℕ
  slot : ℤ
  mode : ℕ
  value : List UInt8
deriving DecidableEq, Repr

/-- The waveform on the node at a time: `rtdal_time_slot()`, the modes of the modules, and what
they have read, newest first. -/
structure System where
  slot : ℤ
  modules : ℕ → ModuleMode
  reads : List Read

/-- The index of the mode with that name, `none` where `waveform_mode_set` returns -1. -/
def modeIndex (wf : PWaveform) (name : CStr) : Option ℕ := wf.modes.findIdx? fun m => m.1 = name

/-- The slot that `waveform_mode_set` announces to a module, as the machine computes it. -/
def nextTslot (slot : ℤ) (stage : ℕ) : ℤ := addInt (addInt slot 10) stage

/-- `waveform_mode_set` and what the node makes of its packet: the next mode and slot of every
module. -/
def waveformModeSet (wf : PWaveform) (stage : ℕ → ℕ) (name : CStr) (sys : System) : System :=
  match modeIndex wf name with
  | none => sys
  | some i =>
    { sys with modules := fun j =>
        if j < wf.modules.length then
          { sys.modules j with nextMode := i, nextTslot := nextTslot sys.slot (stage j) }
        else sys.modules j }

inductive Event where
  | tick
  | modeSet (name : CStr)
  | getValue (module : ℕ) (parameter : Parameter) (size : ℕ)

def step (wf : PWaveform) (stage : ℕ → ℕ) : Event → System → Option System
  | .tick, sys => some { sys with slot := sys.slot + 1 }
  | .modeSet name, sys => some (waveformModeSet wf stage name sys)
  | .getValue j parameter size, sys =>
    if j < wf.modules.length then
      let r := oesrVarParamGetValue sys.slot parameter size (sys.modules j)
      some { sys with
        modules := Function.update sys.modules j r.2
        reads := ⟨j, sys.slot, r.2.curMode, r.1⟩ :: sys.reads }
    else none

/-- A waveform that was loaded in slot `slot`: all modules in one mode, and nothing announced. -/
def start (slot : ℤ) (mode : ℕ) : System := ⟨slot, fun _ => ⟨mode, 0, 0⟩, []⟩

open Function List Option Rtdal ModuleMode Itfspscq

/-! ## The automatic delays -/

section Delays

variable {wf : PWaveform} {stage : ℕ → ℕ} {port : Port} {k i : ℕ}

lemma foldl_stageDelay_of_ne (s : ℕ) (hset : port.delay ≠ -1) (ds : List (PModule × ℕ)) :
    ds.foldl (fun port d =>
      if port.remoteModuleId = d.1.id ∧ port.delay = -1 then
        { port with delay := |(s : ℤ) - stage d.2| }
      else port) port = port := by
  induction ds with
  | nil => rfl
  | cons d ds ih => rwa [foldl_cons, if_neg fun h => hset h.2]

lemma foldl_stageDelay (s : ℕ) (hauto : port.delay = -1) {ms : List PModule} (c : ℕ)
    (hk : (ms.findIdx? fun m => port.remoteModuleId = m.id) = some k) :
    ((ms.zipIdx c).foldl (fun port d =>
      if port.remoteModuleId = d.1.id ∧ port.delay = -1 then
        { port with delay := |(s : ℤ) - stage d.2| }
      else port) port).delay = |(s : ℤ) - stage (c + k)| := by
  induction ms generalizing c k with
  | nil => cases hk
  | cons m ms ih =>
    rw [zipIdx_cons, foldl_cons]
    by_cases hid : port.remoteModuleId = m.id
    · have hzero : k = 0 := by simpa [findIdx?_cons, hid] using hk.symm
      have hset : |(s : ℤ) - stage c| ≠ -1 := by
        have := abs_nonneg ((s : ℤ) - stage c)
        omega
      rw [if_pos ⟨hid, hauto⟩, foldl_stageDelay_of_ne s hset, hzero, add_zero]
    · obtain ⟨k', hk', rfl⟩ : ∃ k', (ms.findIdx? fun m => port.remoteModuleId = m.id) = some k' ∧
          k' + 1 = k := by
        simpa [findIdx?_cons, hid] using hk
      rw [if_neg fun h => hid h.1, ih (c + 1) hk', add_right_comm]
      rfl

lemma stageDelay_delay {s : ℕ} (hauto : port.delay = -1)
    (hk : (wf.modules.findIdx? fun m => port.remoteModuleId = m.id) = some k) :
    (stageDelay wf stage s port).delay = |(s : ℤ) - stage k| := by
  rw [stageDelay, foldl_stageDelay s hauto 0 hk, zero_add]

lemma outputPorts_map (m : PModule) (f : Port → Port) :
    PModule.outputPorts { m with outputs := m.outputs.map fun ports =>
      (ports.take m.nofOutputs).map f ++ ports.drop m.nofOutputs } = m.outputPorts.map f := by
  unfold PModule.outputPorts
  cases m.outputs with
  | none => simp
  | some ports =>
    simp only [map_some, getD_some]
    rcases le_total ports.length m.nofOutputs with hshort | hlong
    · rw [drop_of_length_le hshort, append_nil, take_of_length_le hshort,
        take_of_length_le (by rwa [length_map])]
    · rw [take_left' (by rw [length_map, length_take]; omega)]

/-- Output `j` of module `i` has an automatic delay and leads to module `k`; `delay` is the delay
that `generate_model_stages` has given it. -/
def AutomaticEdge (wf : PWaveform) (model : Model) (i k : ℕ) (delay : ℤ) : Prop :=
  ∃ (j : ℕ) (m m' : PModule) (port port' : Port), wf.modules[i]? = some m ∧ m.outputPorts[j]? =
  some port ∧
    port.delay = -1 ∧ (wf.modules.findIdx? fun m => port.remoteModuleId = m.id) = some k ∧
    (generateModelStages wf model).2[i]? = some m' ∧ m'.outputPorts[j]? = some port' ∧
    port'.delay = delay

lemma generateModelStages_getElem? (model : Model) {m : PModule} (hm : wf.modules[i]? = some m) :
    ∃ m', (generateModelStages wf model).2[i]? = some m' ∧ m'.outputPorts = m.outputPorts.map
        (stageDelay wf (generateModelStages wf model).1 ((generateModelStages wf model).1 i)) := by
  simp only [generateModelStages, getElem?_map, getElem?_zipIdx, hm, map_some, zero_add]
  exact ⟨_, rfl, outputPorts_map m _⟩

lemma AutomaticEdge.delay_eq {model : Model} {delay : ℤ} (h : AutomaticEdge wf model i k delay) :
    delay = |((generateModelStages wf model).1 i : ℤ) - (generateModelStages wf model).1 k| := by
  obtain ⟨j, m, m', port, port', hm, hport, hauto, hk, hm', hport', rfl⟩ := h
  obtain ⟨m1, hm1, houtputs⟩ := generateModelStages_getElem? model hm
  obtain rfl : m1 = m' := some.inj (hm1.symm.trans hm')
  rw [houtputs, getElem?_map, hport, map_some, some.injEq] at hport'
  rw [← hport']
  exact stageDelay_delay hauto hk

lemma automaticEdge_of_port (model : Model) {j : ℕ} {m : PModule}
    (hm : wf.modules[i]? = some m) (hport : m.outputPorts[j]? = some port) (hauto : port.delay = -1)
    (hk : (wf.modules.findIdx? fun m => port.remoteModuleId = m.id) = some k) :
    AutomaticEdge wf model i k
      |((generateModelStages wf model).1 i : ℤ) - (generateModelStages wf model).1 k| := by
  obtain ⟨m', hm', houtputs⟩ := generateModelStages_getElem? model hm
  refine ⟨j, m, m', port, _, hm, hport, hauto, hk, hm', ?_, stageDelay_delay hauto hk⟩
  rw [houtputs, getElem?_map, hport, map_some]

end Delays

/-! ## The modes in pipeline time -/

def ModuleMode.modeIn (slot : ℤ) (m : ModuleMode) : ℕ := (m.switch slot).curMode

lemma ModuleMode.modeIn_switch (m : ModuleMode) {slot s : ℤ} (h : slot ≤ s) :
    (m.switch slot).modeIn s = m.modeIn s := by
  unfold ModuleMode.modeIn ModuleMode.switch
  by_cases hdue : m.nextTslot ≠ 0 ∧ m.nextTslot ≤ slot
  · rw [if_pos hdue, if_neg (by simp), if_pos ⟨hdue.1, le_trans hdue.2 h⟩]
  · rw [if_neg hdue]

/-- A command comes when no module has a change announced, or when all have and none has yet
followed; and the slots it announces are `int`s. -/
def Undisturbed (wf : PWaveform) (stage : ℕ → ℕ) : Event → System → Prop
  | .modeSet name, sys => modeIndex wf name ≠ none →
      (∀ j < wf.modules.length, sys.slot + 10 + stage j < 2 ^ 31) ∧
      ((∀ j < wf.modules.length, (sys.modules j).nextTslot = 0) ∨ ∀ j < wf.modules.length,
          (sys.modules j).nextTslot ≠ 0 ∧ sys.slot < (sys.modules j).nextTslot)
  | _, _ => True

lemma update_switch (sys : System) (j k : ℕ) :
    update sys.modules j ((sys.modules j).switch sys.slot) k = sys.modules k ∨
      update sys.modules j ((sys.modules j).switch sys.slot) k =
        (sys.modules k).switch sys.slot := by
  by_cases hkj : k = j
  · subst hkj
    exact .inr (update_self _ _ _)
  · exact .inl (update_of_ne hkj _ _)

def Event.isCommand : Event → Bool
  | .modeSet _ => true
  | _ => false

lemma meets_undisturbed_once {wf : PWaveform} {stage : ℕ → ℕ} {slot : ℤ} {mode0 : ℕ}
    (pre post : List Event) (name : CStr) (hpre : ∀ e ∈ pre, e.isCommand = false)
    (hpost : ∀ e ∈ post, e.isCommand = false)
    (hint : ∀ sys, run (step wf stage) pre (start slot mode0) = some sys →
      ∀ j < wf.modules.length, sys.slot + 10 + stage j < 2 ^ 31) :
    Meets (step wf stage) (Undisturbed wf stage) (pre ++ .modeSet name :: post)
      (start slot mode0) := by
  have hquiet : ∀ e : Event, e.isCommand = false → ∀ sys, Undisturbed wf stage e sys := by
    intro e he sys
    cases e with
    | modeSet name => cases he
    | tick => trivial
    | getValue j parameter size => trivial
  refine meets_append.mpr ⟨meets_of_forall_mem (fun e he => hquiet e (hpre e he)) _, ?_⟩
  intro sys hrun
  refine ⟨fun _ => ⟨hint sys hrun, .inl fun j _ => ?_⟩,
    fun sys' _ => meets_of_forall_mem (fun e he => hquiet e (hpost e he)) sys'⟩
  -- before the command no module has anything announced
  have hmeets : Meets (step wf stage) (fun e _ => e.isCommand = false) pre
      (start slot mode0) := meets_of_forall_mem (fun e he _ => hpre e he) _
  refine run_invariant (fun sys => ∀ k, (sys.modules k).nextTslot = 0) ?_ (fun _ => rfl) hmeets
    hrun j
  intro e s s' hs he hstep k
  cases e with
  | tick =>
    cases hstep
    exact hs k
  | modeSet name => cases he
  | getValue i parameter size =>
    simp only [step] at hstep
    split_ifs at hstep
    cases hstep
    show (update s.modules i ((s.modules i).switch s.slot) k).nextTslot = 0
    rcases update_switch s i k with hsame | hswitch
    · rw [hsame]
      exact hs k
    · rw [hswitch, switch, if_neg fun h => h.1 (hs k)]
      exact hs k

/-- What was read, and what would be read from now on, are the modes that `mode` gives to the
pipeline times; a change is announced for the pipeline time `change`. -/
structure Aligned (wf : PWaveform) (stage : ℕ → ℕ) (mode : ℤ → ℕ) (change : ℤ)
    (sys : System) : Prop where
  slot_nonneg : 0 ≤ sys.slot
  reads : ∀ r ∈ sys.reads, r.module < wf.modules.length ∧ r.slot ≤ sys.slot ∧
    r.mode = mode (r.slot - stage r.module)
  modules : ∀ j < wf.modules.length, ∀ s, sys.slot ≤ s →
    (sys.modules j).modeIn s = mode (s - stage j)
  announced : ∀ j < wf.modules.length,
    (sys.modules j).nextTslot = 0 ∨ (sys.modules j).nextTslot = change + stage j

section Steps

variable {wf : PWaveform} {stage : ℕ → ℕ} {mode : ℤ → ℕ} {change : ℤ} {sys sys' : System}

lemma aligned_start {slot : ℤ} (hslot : 0 ≤ slot) (mode0 : ℕ) :
    Aligned wf stage (fun _ => mode0) 0 (start slot mode0) where
  slot_nonneg := hslot
  reads := fun r hr => absurd hr not_mem_nil
  modules := fun j _ s _ => by simp [start, modeIn, switch]
  announced := fun j _ => .inl rfl

variable (h : Aligned wf stage mode change sys)

include h in
lemma Aligned.tick : Aligned wf stage mode change { sys with slot := sys.slot + 1 } where
  slot_nonneg := Int.le_add_one h.slot_nonneg
  reads := fun r hr => by
    obtain ⟨hmodule, hslot, hmode⟩ := h.reads r hr
    exact ⟨hmodule, Int.le_add_one hslot, hmode⟩
  modules := fun j hj s hs => h.modules j hj s (by
    have hs : sys.slot + 1 ≤ s := hs
    omega)
  announced := h.announced

include h in
lemma Aligned.getValue {j : ℕ} (hj : j < wf.modules.length) (value : List UInt8) :
    Aligned wf stage mode change { sys with
      modules := update sys.modules j ((sys.modules j).switch sys.slot)
      reads := ⟨j, sys.slot, ((sys.modules j).switch sys.slot).curMode, value⟩ :: sys.reads } where
  slot_nonneg := h.slot_nonneg
  reads := fun r hr => by
    rcases mem_cons.mp hr with rfl | hr
    · exact ⟨hj, le_refl _, h.modules j hj sys.slot (le_refl _)⟩
    · exact h.reads r hr
  modules := fun k hk s hs => by
    show modeIn s (update sys.modules j _ k) = _
    rcases update_switch sys j k with hsame | hswitch
    · rw [hsame]
      exact h.modules k hk s hs
    · rw [hswitch, modeIn_switch _ hs]
      exact h.modules k hk s hs
  announced := fun k hk => by
    show (update sys.modules j _ k).nextTslot = 0 ∨ (update sys.modules j _ k).nextTslot = _
    rcases update_switch sys j k with hsame | hswitch
    · rw [hsame]
      exact h.announced k hk
    · rw [hswitch, switch]
      split_ifs
      · exact .inl rfl
      · exact h.announced k hk

lemma nextTslot_eq {slot : ℤ} {st : ℕ} (hslot : 0 ≤ slot) (h : slot + 10 + st < 2 ^ 31) :
    nextTslot slot st = slot + 10 + st := by
  have hfirst : addInt slot 10 = slot + 10 := addInt_eq hslot (by omega) (by omega)
  rw [nextTslot, hfirst, addInt_eq (by omega) (by omega) h]

lemma ModuleMode.modeIn_of_waiting {m : ModuleMode} {s : ℤ}
    (h : m.nextTslot = 0 ∨ s < m.nextTslot) : m.modeIn s = m.curMode := by
  unfold ModuleMode.modeIn ModuleMode.switch
  rw [if_neg]
  rintro ⟨hne, hle⟩
  rcases h with hzero | hlt
  · exact hne hzero
  · omega

lemma Aligned.announce (before : ℤ → ℕ) {i : ℕ} (hslot : 0 ≤ sys.slot)
    (hreads : ∀ r ∈ sys.reads, r.module < wf.modules.length ∧ r.slot ≤ sys.slot ∧
      r.mode = before (r.slot - stage r.module))
    (hcur : ∀ j < wf.modules.length, ∀ s, sys.slot ≤ s →
      (sys.modules j).curMode = before (s - stage j))
    (hint : ∀ j < wf.modules.length, sys.slot + 10 + stage j < 2 ^ 31) :
    Aligned wf stage (fun x => if sys.slot + 10 ≤ x then i else before x) (sys.slot + 10)
      { sys with modules := fun j =>
          if j < wf.modules.length then
            { sys.modules j with nextMode := i, nextTslot := nextTslot sys.slot (stage j) }
          else sys.modules j } where
  slot_nonneg := hslot
  reads := fun r hr => by
    obtain ⟨hmodule, hle, hmode⟩ := hreads r hr
    refine ⟨hmodule, hle, ?_⟩
    rw [if_neg (by omega), hmode]
  modules := fun j hj s hs => by
    have htslot := nextTslot_eq hslot (hint j hj)
    show modeIn s (if j < wf.modules.length then _ else _) = _
    rw [if_pos hj]
    rcases Int.lt_or_le s (sys.slot + 10 + stage j) with hearly | hdue
    · rw [if_neg (by omega), modeIn_of_waiting]
      · exact hcur j hj s hs
      · exact .inr (htslot ▸ hearly)
    · rw [if_pos (by omega), modeIn, switch, if_pos]
      show nextTslot sys.slot (stage j) ≠ 0 ∧ nextTslot sys.slot (stage j) ≤ s
      omega
  announced := fun j hj => by
    show ModuleMode.nextTslot (if j < wf.modules.length then _ else _) = 0 ∨
      ModuleMode.nextTslot (if j < wf.modules.length then _ else _) = _
    rw [if_pos hj]
    exact .inr (nextTslot_eq hslot (hint j hj))

include h in
lemma Aligned.modeSet {name : CStr} (hquiet : Undisturbed wf stage (.modeSet name) sys) :
    ∃ mode' change', Aligned wf stage mode' change' (waveformModeSet wf stage name sys) := by
  unfold waveformModeSet
  cases hname : modeIndex wf name with
  | none => exact ⟨mode, change, h⟩
  | some i =>
    obtain ⟨hint, hsettled | hwaiting⟩ := hquiet (by rw [hname]; exact some_ne_none i)
    · refine ⟨_, _, Aligned.announce mode h.slot_nonneg h.reads (fun j hj s hs => ?_) hint⟩
      rw [← h.modules j hj s hs, modeIn_of_waiting (.inl (hsettled j hj))]
    · -- the change that was announced is withdrawn from all modules before any has followed
      have hchange : ∀ j < wf.modules.length, sys.slot < change + stage j ∧
          ∀ s, s < change + stage j → (sys.modules j).modeIn s = (sys.modules j).curMode := by
        intro j hj
        obtain ⟨hne, hlt⟩ := hwaiting j hj
        have heq := (h.announced j hj).resolve_left hne
        rw [heq] at hlt
        exact ⟨hlt, fun s hs => modeIn_of_waiting (.inr (by rwa [heq]))⟩
      refine ⟨_, _, Aligned.announce
        (fun x => if change ≤ x then mode (change - 1) else mode x) h.slot_nonneg (fun r hr =>
        ?_) (fun j hj s hs => ?_) hint⟩
      · obtain ⟨hmodule, hle, hmode⟩ := h.reads r hr
        have hlt := (hchange r.module hmodule).1
        exact ⟨hmodule, hle, by rw [if_neg (by omega), hmode]⟩
      · obtain ⟨hlt, hcur⟩ := hchange j hj
        split_ifs with hx
        · have hlast := h.modules j hj (change + stage j - 1) (by omega)
          rw [hcur _ (by omega)] at hlast
          rw [hlast]
          congr 1
          omega
        · rw [← h.modules j hj s hs, hcur s (by omega)]

lemma aligned_step (e : Event) (h : ∃ mode change, Aligned wf stage mode change sys)
    (hquiet : Undisturbed wf stage e sys) (hstep : step wf stage e sys = some sys') :
    ∃ mode change, Aligned wf stage mode change sys' := by
  obtain ⟨mode, change, h⟩ := h
  cases e with
  | tick =>
    cases hstep
    exact ⟨mode, change, h.tick⟩
  | modeSet name =>
    cases hstep
    exact h.modeSet hquiet
  | getValue j parameter size =>
    simp only [step] at hstep
    split_ifs at hstep with hj
    cases hstep
    exact ⟨mode, change, h.getValue hj _⟩

end Steps

/-! ## Packets -/

lemma pop_push_iff {itf : Itfspscq.Itf} (hdelay : 0 ≤ itf.delay)
    (hread : itf.read = itf.write) {s len : ℤ} (hlen : len ≠ 0) (t tstamp : ℤ) :
    (∃ data, pop (push itf s len) t tstamp = some (1, data, len)) ↔ s + itf.delay ≤ t := by
  have hpkt : (push itf s len).readPkt =
      { itf.writePkt with tstamp := s + itf.delay, len := len, valid := 1 } := by
    unfold push Itfspscq.Itf.readPkt
    rw [if_neg hlen, hread]
    exact update_self _ _ _
  have hkept : (push itf s len).delay = itf.delay := by
    unfold push
    rw [if_neg hlen]
  have hfilled : spscqIsEmpty (push itf s len) tstamp = .ret false := by
    unfold spscqIsEmpty
    rw [hkept, hpkt, if_pos (.inl hdelay)]
    rfl
  unfold pop
  rw [hfilled, hkept, hpkt]
  rcases Int.lt_or_le t (s + itf.delay) with hearly | hdue
  · simp [hdelay, hearly]
  · exact iff_of_true ⟨_, if_neg fun h => absurd h.2 (Int.not_lt.mpr hdue)⟩ hdue

section Run

variable {wf : PWaveform} {model : Model} {sys : System}

/-- The second module reads in the slot in which a packet of the first one reaches it, which left
in the slot in which that one read. -/
def Follows (wf : PWaveform) (model : Model) (r₁ r₂ : Read) : Prop :=
  ∃ delay, AutomaticEdge wf model r₁.module r₂.module delay ∧
    (generateModelStages wf model).1 r₁.module ≤ (generateModelStages wf model).1 r₂.module ∧
    r₂.slot = r₁.slot + delay

lemma Aligned.follows {mode : ℤ → ℕ} {change : ℤ}
    (h : Aligned wf (generateModelStages wf model).1 mode change sys) {r1 r2 : Read}
    (h1 : r1 ∈ sys.reads) (h2 : r2 ∈ sys.reads) (hfollows : Follows wf model r1 r2) :
    r1.mode = r2.mode := by
  obtain ⟨delay, hedge, hstage, hslot⟩ := hfollows
  have hdelay := hedge.delay_eq
  rw [abs_of_nonpos (by omega)] at hdelay
  rw [(h.reads r1 h1).2.2, (h.reads r2 h2).2.2]
  congr 1
  omega

lemma Aligned.path {mode : ℤ → ℕ} {change : ℤ}
    (h : Aligned wf (generateModelStages wf model).1 mode change sys) {a : Read} {rs : List Read}
    (hreads : ∀ r ∈ a :: rs, r ∈ sys.reads) (hpath : (a :: rs).IsChain (Follows wf model)) :
    ∀ r ∈ a :: rs, r.mode = a.mode := by
  induction rs generalizing a with
  | nil =>
    intro r hr
    rw [mem_singleton.mp hr]
  | cons b rs ih =>
    obtain ⟨hfollows, hrest⟩ := isChain_cons_cons.mp hpath
    have hab := h.follows (hreads a mem_cons_self)
      (hreads b (mem_cons_of_mem a mem_cons_self)) hfollows
    intro r hr
    rcases mem_cons.mp hr with rfl | hr
    · rfl
    · exact (ih (fun r hr => hreads r (mem_cons_of_mem a hr)) hrest r hr).trans hab.symm

/-- **Modes and packets.** Where no command disturbs the change of an earlier one, a module reads
under the mode under which its packet's producer has read, along every path of such edges, and in
the first slot in which the queue hands out the packet. -/
theorem modes_follow_packets {slot : ℤ} (hslot : 0 ≤ slot) {mode₀ : ℕ} {events : List Event}
    (hquiet : Meets (step wf (generateModelStages wf model).1)
      (Undisturbed wf (generateModelStages wf model).1) events (start slot mode₀))
    (hrun : run (step wf (generateModelStages wf model).1) events (start slot mode₀) = some sys) :
    (∀ r₁ ∈ sys.reads, ∀ r₂ ∈ sys.reads, Follows wf model r₁ r₂ → ∀ M, r₁.mode = M ↔ r₂.mode = M) ∧
    (∀ a rs, (∀ r ∈ a :: rs, r ∈ sys.reads) → (a :: rs).IsChain (Follows wf model) →
      ∀ r ∈ a :: rs, r.mode = a.mode) ∧
    (∀ i k delay, AutomaticEdge wf model i k delay →
      ∀ itf : Rtdal.Itfspscq.Itf, itf.delay = delay → itf.read = itf.write →
      ∀ s len t tstamp : ℤ, len ≠ 0 →
      ((∃ data, Rtdal.Itfspscq.pop (Rtdal.Itfspscq.push itf s len) t tstamp =
        some (1, data, len)) ↔ s + delay ≤ t)) := by
  obtain ⟨mode, change, h⟩ := run_invariant
    (fun sys => ∃ mode change, Aligned wf (generateModelStages wf model).1 mode change sys)
    (fun e s s' hs hcond hstep => aligned_step e hs hcond hstep)
    ⟨_, _, aligned_start hslot mode₀⟩ hquiet hrun
  refine ⟨fun r₁ h₁ r₂ h₂ hfollows M => ?_, fun a rs hreads hpath => h.path hreads hpath, ?_⟩
  · rw [h.follows h₁ h₂ hfollows]
  · rintro i k delay hedge itf rfl hread s len t tstamp hlen
    have hnonneg : 0 ≤ itf.delay := by
      rw [hedge.delay_eq]
      exact abs_nonneg _
    exact pop_push_iff hnonneg hread hlen t tstamp

end Run

/-! ## Two modules -/

def pairWaveform : PWaveform :=
  { chainOf [1, 1] [] with modes := [(['a'], []), (['b'], [])] }

def pairModel : Model := generateModelWaveform pairWaveform 1

lemma pairModel_stages : (generateModelStages pairWaveform pairModel).1 0 = 1 ∧
    (generateModelStages pairWaveform pairModel).1 1 = 2 := by
  decide +kernel

lemma pairModel_edge : AutomaticEdge pairWaveform pairModel 0 1 1 := by
  have hedge : AutomaticEdge pairWaveform pairModel 0 1 _ :=
    automaticEdge_of_port pairModel (j := 0) rfl rfl rfl (by decide)
  rw [pairModel_stages.1, pairModel_stages.2] at hedge
  exact hedge

def gain : Parameter := ⟨1, fun mode => [UInt8.ofNat mode]⟩

/-- The mode is set to `b` in slot 0; the modules read in the slots in which they change. -/
def changeRun : List Event := [] ++ .modeSet ['b'] ::
    (List.replicate 11 .tick ++ [.getValue 0 gain 1, .tick, .getValue 1 gain 1])

/-- As before, and the mode is set back to `a` when the first module has changed. -/
def overtakenRun : List Event := .modeSet ['b'] :: (List.replicate 11 .tick ++
    [.getValue 0 gain 1, .modeSet ['a'], .tick, .getValue 1 gain 1])

theorem modes_follow_packets_pair :
    ∃ sys, run (step pairWaveform (generateModelStages pairWaveform pairModel).1) changeRun
        (start 0 0) = some sys ∧
      ∃ r₁ ∈ sys.reads, ∃ r₂ ∈ sys.reads, Follows pairWaveform pairModel r₁ r₂ ∧
        r₁.mode = 1 ∧ r₂.mode = 1 := by
  have hreads : (run (step pairWaveform (generateModelStages pairWaveform pairModel).1) changeRun
      (start 0 0)).map System.reads = some [⟨1, 12, 1, [1]⟩, ⟨0, 11, 1, [1]⟩] := by
    decide +kernel
  have hquiet : Meets (step pairWaveform (generateModelStages pairWaveform pairModel).1)
      (Undisturbed pairWaveform (generateModelStages pairWaveform pairModel).1) changeRun
      (start 0 0) := by
    refine meets_undisturbed_once [] _ ['b'] (by decide) (by decide) ?_
    rintro sys ⟨⟩
    decide +kernel
  obtain ⟨sys, hrun, hsys⟩ := map_eq_some_iff.mp hreads
  obtain ⟨hmodes, -, -⟩ := modes_follow_packets (le_refl 0) hquiet hrun
  have hfollows : Follows pairWaveform pairModel ⟨0, 11, 1, [1]⟩ ⟨1, 12, 1, [1]⟩ :=
    ⟨1, pairModel_edge, by rw [pairModel_stages.1, pairModel_stages.2]; decide, rfl⟩
  have h₁ : (⟨0, 11, 1, [1]⟩ : Read) ∈ sys.reads := by simp [hsys]
  have h₂ : (⟨1, 12, 1, [1]⟩ : Read) ∈ sys.reads := by simp [hsys]
  exact ⟨sys, hrun, _, h₁, _, h₂, hfollows, rfl, (hmodes _ h₁ _ h₂ hfollows 1).mp rfl⟩

theorem modes_overtaken :
    ∃ sys, run (step pairWaveform (generateModelStages pairWaveform pairModel).1) overtakenRun
        (start 0 0) = some sys ∧
      ∃ r₁ ∈ sys.reads, ∃ r₂ ∈ sys.reads, Follows pairWaveform pairModel r₁ r₂ ∧
        r₁.mode = 1 ∧ r₂.mode ≠ 1 := by
  have hreads : (run (step pairWaveform (generateModelStages pairWaveform pairModel).1)
      overtakenRun (start 0 0)).map System.reads = some [⟨1, 12, 0, [0]⟩, ⟨0, 11, 1, [1]⟩] := by
    decide +kernel
  obtain ⟨sys, hrun, hsys⟩ := map_eq_some_iff.mp hreads
  have hfollows : Follows pairWaveform pairModel ⟨0, 11, 1, [1]⟩ ⟨1, 12, 0, [0]⟩ :=
    ⟨1, pairModel_edge, by rw [pairModel_stages.1, pairModel_stages.2]; decide, rfl⟩
  exact ⟨sys, hrun, _, by simp [hsys], _, by simp [hsys], hfollows, rfl, by decide⟩

end Aloe.Manager.Mode
