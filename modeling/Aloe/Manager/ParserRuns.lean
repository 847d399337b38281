import Aloe.Lib.Fallible
import Aloe.Manager.WaveformParser
import Mathlib.Algebra.BigOperators.Group.List.Basic
import Mathlib.Tactic.Linarith

/-!
# The module table over a whole parse

A state of the parser is described by the list of the interface entries read so far, the newest
first. `outValue` is what the latest entry on an output port has left there and `outCount` how often
the counter was bumped; for the inputs the entries are read backwards. `Tables` says that the module
table is what the entries make of it.

`Progress n` relates two states of a parse: the invariant is kept, and at least `n` more modules
were read than slots allocated. So a parse with all its included models leaves no allocated slot
unread.
-/

namespace Aloe.Manager

open Lib List

section

open Option

/-! ## What a list of entries leaves in the tables -/

namespace Link

def isFrom (l : Link) (i p : ℕ) : Bool := l.src = some i ∧ l.srcPort = p

@[simps]
def flip (l : Link) : Link := ⟨l.dest, l.destPort, l.src, l.srcPort⟩

def farEnd (l : Link) : ℤ × ℤ :=
  match l.dest with
  | some k => ((k : ℤ) + 1, l.destPort)
  | none => (-((l.destPort : ℤ) + 1), l.destPort)

variable {l : Link}

lemma isFrom_iff {i p : ℕ} : l.isFrom i p = true ↔ l.src = some i ∧ l.srcPort = p := by
  simp [isFrom]

lemma farEnd_of_dest {k : ℕ} (h : l.dest = some k) :
    l.farEnd = ((k : ℤ) + 1, (l.destPort : ℤ)) := by
  simp [farEnd, h]

lemma farEnd_nonneg_iff : 0 ≤ l.farEnd.1 ↔ l.dest.isSome = true := by
  unfold farEnd
  cases l.dest with
  | none =>
    simp only [isSome_none, Bool.false_eq_true, iff_false]
    omega
  | some k =>
    simp only [isSome_some, iff_true]
    omega

lemma farEnd_eq_iff {k q : ℕ} :
    l.farEnd = ((k : ℤ) + 1, (q : ℤ)) ↔ l.dest = some k ∧ l.destPort = q := by
  unfold farEnd
  cases l.dest with
  | none =>
    simp only [Prod.mk.injEq, reduceCtorEq, false_and, iff_false]
    omega
  | some j =>
    simp only [Prod.mk.injEq, some.injEq]
    omega

end Link

/-- What stands in output port `p` of module `i`. -/
def outValue (links : List Link) (i p : ℕ) : ℤ × ℤ :=
  match links.find? fun l => l.isFrom i p with
  | none => (0, 0)
  | some l => l.farEnd

def outOpen (links : List Link) (i p : ℕ) : Bool :=
  match links.find? fun l => l.isFrom i p with
  | none => true
  | some l => l.dest.isSome

/-- How many entries have counted for the outputs of module `i`. -/
def outCount : List Link → ℕ → ℕ
  | [], _ => 0
  | l :: links, i =>
    outCount links i + if l.src = some i ∧ outOpen links i l.srcPort = true then 1 else 0

/-- What stands in input port `q` of module `k`. -/
def inValue (links : List Link) (k q : ℕ) : ℤ × ℤ := outValue (links.map Link.flip) k q

/-- How many entries have counted for the inputs of module `k`. -/
def inCount (links : List Link) (k : ℕ) : ℕ := outCount (links.map Link.flip) k

section Values

variable {l : Link} {links : List Link} {i p : ℕ}

lemma outValue_cons_self (h : l.src = some i) : outValue (l :: links) i l.srcPort = l.farEnd := by
  have hfrom : l.isFrom i l.srcPort = true := Link.isFrom_iff.mpr ⟨h, rfl⟩
  simp [outValue, hfrom]

lemma outValue_cons_of_not (h : ¬ l.isFrom i p = true) :
    outValue (l :: links) i p = outValue links i p := by
  simp [outValue, h]

lemma outCount_cons_of_not (h : l.src ≠ some i) : outCount (l :: links) i = outCount links i := by
  simp [outCount, h]

lemma outValue_nonneg_iff : 0 ≤ (outValue links i p).1 ↔ outOpen links i p = true := by
  unfold outValue outOpen
  cases links.find? fun l => l.isFrom i p with
  | none => simp
  | some l => exact Link.farEnd_nonneg_iff

lemma outValue_of_unused (h : ∀ l ∈ links, l.src ≠ some i) : outValue links i p = (0, 0) := by
  have hnone : (links.find? fun l => l.isFrom i p) = none := by
    rw [find?_eq_none]
    intro l hl hfrom
    exact h l hl (Link.isFrom_iff.mp hfrom).1
  simp [outValue, hnone]

lemma outCount_of_unused (h : ∀ l ∈ links, l.src ≠ some i) : outCount links i = 0 := by
  induction links with
  | nil => rfl
  | cons l links ih =>
    rw [outCount_cons_of_not (h l mem_cons_self)]
    exact ih fun l' hl' => h l' (mem_cons_of_mem l hl')

end Values

/-! ## One table -/

def Port.ref (port : Port) : ℤ × ℤ := (port.remoteModuleId, port.remotePortIdx)

/-- A table of module `i` and its counter are what the entries make of them. -/
structure Table (links : List Link) (i size : ℕ) (table : Option (List Port)) (count : ℕ) :
    Prop where
  ports : ∃ ports, table = some ports ∧ ports.length = size ∧
    ∀ p port, ports[p]? = some port → port.ref = outValue links i p
  count_eq : count = outCount links i

namespace Table

variable {links : List Link} {l : Link} {i size count : ℕ} {table : Option (List Port)}

lemma fresh (h : ∀ l ∈ links, l.src ≠ some i) :
    Table links i size (some (List.replicate size Port.zero)) 0 := by
  refine ⟨⟨_, rfl, length_replicate, ?_⟩, (outCount_of_unused h).symm⟩
  intro p port hport
  rw [outValue_of_unused h]
  rw [getElem?_replicate] at hport
  split at hport
  · cases hport
    rfl
  · cases hport

lemma skip (h : Table links i size table count) (hl : l.src ≠ some i) :
    Table (l :: links) i size table count := by
  obtain ⟨ports, rfl, hlen, hports⟩ := h.ports
  refine ⟨⟨ports, rfl, hlen, ?_⟩, ?_⟩
  · intro p port hport
    rw [outValue_cons_of_not fun hfrom => hl (Link.isFrom_iff.mp hfrom).1]
    exact hports p port hport
  · rw [outCount_cons_of_not hl]
    exact h.count_eq

/-- **Step lemma.** An entry of the module: its port names the far end, and the counter
moves unless the port has led out of the model. -/
theorem connect {ports : List Port} {port port' : Port}
    (h : Table links i size (some ports) count) (hl : l.src = some i)
    (hport : ports[l.srcPort]? = some port) (href : port'.ref = l.farEnd) :
    Table (l :: links) i size (some (ports.set l.srcPort port'))
      (if 0 ≤ port.remoteModuleId then count + 1 else count) := by
  obtain ⟨_, ⟨⟩, hlen, hports⟩ := h.ports
  have hopen : 0 ≤ port.remoteModuleId ↔ outOpen links i l.srcPort = true := by
    rw [← outValue_nonneg_iff, ← hports _ _ hport]
    rfl
  refine ⟨⟨_, rfl, by rw [length_set, hlen], ?_⟩, ?_⟩
  · intro p port'' hp
    by_cases heq : l.srcPort = p
    · subst heq
      rw [getElem?_set_self (List.getElem?_eq_some_iff.mp hport).1] at hp
      cases hp
      rw [outValue_cons_self hl, href]
    · rw [getElem?_set_ne heq] at hp
      rw [outValue_cons_of_not fun hfrom => heq (Link.isFrom_iff.mp hfrom).2]
      exact hports p port'' hp
  · simp only [outCount, hl, true_and, hopen, h.count_eq]
    split <;> rfl

end Table

/-! ## The module table -/

structure Unread (m : PModule) : Prop where
  inputs : m.inputs = none
  outputs : m.outputs = none
  nofInputs : m.nofInputs = 0
  nofOutputs : m.nofOutputs = 0

/-- A module that was read into slot `i`: its outputs are those of the entries `outs`, its
inputs those of `ins`. -/
structure Read (outs ins : List Link) (i : ℕ) (m : PModule) : Prop where
  id_eq : m.id = i + 1
  index_eq : m.index = i
  outputs : Table outs i itfPrealloc m.outputs m.nofOutputs
  inputs : Table (ins.map Link.flip) i (itfPrealloc + 1) m.inputs m.nofInputs

/-- The slots fill up from the front. The two lists of entries differ while an entry is
entered at its source and not yet at its destination. -/
structure Slots (outs ins : List Link) (w : PWaveform) : Prop where
  parsed_le : w.nofParsedModules ≤ w.modules.length
  read : ∀ i m, w.modules[i]? = some m → i < w.nofParsedModules → Read outs ins i m
  unread : ∀ i m, w.modules[i]? = some m → w.nofParsedModules ≤ i → Unread m

structure Tables (w : PWaveform) : Prop where
  slots : Slots w.links w.links w
  src_lt : ∀ l ∈ w.links, ∀ i, l.src = some i → i < w.nofParsedModules ∧ l.srcPort < itfPrealloc
  dest_lt : ∀ l ∈ w.links, ∀ k, l.dest = some k → k < w.nofParsedModules ∧ l.destPort ≤ itfPrealloc
  /-- No entry leads to an input port that a module feeds already. -/
  fed_once : w.links.Pairwise fun later earlier => ∀ k, earlier.src.isSome = true →
    earlier.dest = some k → ¬ later.flip.isFrom k earlier.destPort = true

section Slots

variable {outs ins outs' ins' : List Link} {w : PWaveform} {i : ℕ} {m m' : PModule}

lemma Slots.lt_of_outputs (h : Slots outs ins w) (hm : w.modules[i]? = some m)
    (hsome : m.outputs ≠ none) : i < w.nofParsedModules :=
  Nat.lt_of_not_le fun hle => hsome (h.unread i m hm hle).outputs

lemma Slots.lt_of_inputs (h : Slots outs ins w) (hm : w.modules[i]? = some m)
    (hsome : m.inputs ≠ none) : i < w.nofParsedModules :=
  Nat.lt_of_not_le fun hle => hsome (h.unread i m hm hle).inputs

lemma modules_setModule (w : PWaveform) (i j : ℕ) (m : PModule) : (setModule w i m).modules[j]? =
      if i = j then (w.modules[j]?).map fun _ => m else w.modules[j]? := by
  by_cases heq : i = j
  · subst heq
    simp [setModule, getElem?_set_self', Function.const_def]
  · simp [setModule, heq]

lemma Slots.replace (h : Slots outs ins w) (hi : i < w.nofParsedModules)
    (hself : Read outs' ins' i m')
    (hother : ∀ j n, j ≠ i → Read outs ins j n → Read outs' ins' j n) :
    Slots outs' ins' (setModule w i m') where
  parsed_le := by
    simpa [setModule] using h.parsed_le
  read j n hn hj := by
    rw [modules_setModule] at hn
    split at hn
    · next heq =>
      subst heq
      obtain ⟨_, _, rfl⟩ := map_eq_some_iff.mp hn
      exact hself
    · next hne => exact hother j n (Ne.symm hne) (h.read j n hn hj)
  unread j n hn hj := by
    have hne : i ≠ j := fun heq => absurd hj (by subst heq; exact not_le.mpr hi)
    rw [modules_setModule, if_neg hne] at hn
    exact h.unread j n hn hj

end Slots

/-! ## Entering an interface -/

section Connect

variable {w w' : PWaveform} {cfg : Setting} {l : Link} {links : List Link} {i k : ℕ}

lemma moduleAt_ok {m : PModule} : moduleAt w i = .ok m ↔ w.modules[i]? = some m := by
  unfold moduleAt
  cases w.modules[i]? with
  | none => exact iff_of_false (fun h => by cases h) (fun h => by cases h)
  | some n => exact ⟨fun h => by cases h; rfl, fun h => by cases h; rfl⟩

lemma portAt_ok {table : Option (List Port)} {p : ℕ} {port : Port} :
    portAt table p = .ok port ↔ ∃ ports, table = some ports ∧ ports[p]? = some port := by
  rw [← bind_eq_some_iff]
  unfold portAt
  cases table.bind (·[p]?) with
  | none => exact iff_of_false (fun h => by cases h) (fun h => by cases h)
  | some n => exact ⟨fun h => by cases h; rfl, fun h => by cases h; rfl⟩

lemma connectSource_ok (h : connectSource w cfg l = .ok w') (hl : l.src = some i) :
    ∃ m ports port port' remote, w.modules[i]? = some m ∧ m.outputs = some ports ∧
      ports[l.srcPort]? = some port ∧ remoteId w l.dest l.destPort = .ok remote ∧
      port'.ref = (remote, (l.destPort : ℤ)) ∧
      w' = setModule w i { m with
        nofOutputs := if 0 ≤ port.remoteModuleId then m.nofOutputs + 1 else m.nofOutputs
        outputs := some (ports.set l.srcPort port') } := by
  simp only [connectSource, hl] at h
  obtain ⟨m, hm, h⟩ := bind_eq_ok.mp h
  obtain ⟨port, hport, h⟩ := bind_eq_ok.mp h
  obtain ⟨remote, hremote, h⟩ := bind_eq_ok.mp h
  obtain ⟨ports, hports, hport⟩ := portAt_ok.mp hport
  cases h
  let port' : Port := { port.attributes cfg with
    remoteModuleId := remote, remotePortIdx := l.destPort }
  refine ⟨m, ports, port, port', remote, moduleAt_ok.mp hm, hports, hport, hremote, rfl, ?_⟩
  rw [hports]
  rfl

lemma connectDest_ok (h : connectDest w cfg l = .ok w') (hl : l.dest = some k) :
    ∃ m ports port port' remote, w.modules[k]? = some m ∧ m.inputs = some ports ∧
      ports[l.destPort]? = some port ∧ ¬ 0 < port.remoteModuleId ∧
      remoteId w l.src l.srcPort = .ok remote ∧ port'.ref = (remote, (l.srcPort : ℤ)) ∧
      w' = setModule w k { m with
        nofInputs := if 0 ≤ port.remoteModuleId then m.nofInputs + 1 else m.nofInputs
        inputs := some (ports.set l.destPort port') } := by
  simp only [connectDest, hl] at h
  obtain ⟨m, hm, h⟩ := bind_eq_ok.mp h
  obtain ⟨port, hport, h⟩ := bind_eq_ok.mp h
  obtain ⟨ports, hports, hport⟩ := portAt_ok.mp hport
  split at h
  · cases h
  · next hfree =>
    obtain ⟨remote, hremote, h⟩ := bind_eq_ok.mp h
    cases h
    let port' : Port := { (if l.src.isSome then port.attributes cfg else port) with
      remoteModuleId := remote, remotePortIdx := l.srcPort }
    refine ⟨m, ports, port, port', remote, moduleAt_ok.mp hm, hports, hport, hfree, hremote,
      rfl, ?_⟩
    rw [hports]
    rfl

lemma Slots.remoteId_eq {outs ins : List Link} (h : Slots outs ins w)
    (hread : ∀ k, l.dest = some k → k < w.nofParsedModules) {remote : ℤ}
    (hr : remoteId w l.dest l.destPort = .ok remote) :
    (remote, (l.destPort : ℤ)) = l.farEnd := by
  cases hd : l.dest with
  | none =>
    rw [hd] at hr
    cases hr
    simp [Link.farEnd, hd]
  | some k =>
    rw [hd] at hr
    obtain ⟨m, hm, hr⟩ := bind_eq_ok.mp hr
    cases hr
    have hid := (h.read k m (moduleAt_ok.mp hm) (hread k hd)).id_eq
    rw [Link.farEnd_of_dest hd, hid]
    rfl

lemma Slots.after_source (h : Slots links links w)
    (hread : ∀ k, l.dest = some k → k < w.nofParsedModules)
    (hok : connectSource w cfg l = .ok w') : Slots (l :: links) links w' := by
  cases hl : l.src with
  | none =>
    simp only [connectSource, hl] at hok
    cases hok
    refine ⟨h.parsed_le, fun i m hm hi => ?_, h.unread⟩
    have hm := h.read i m hm hi
    exact ⟨hm.id_eq, hm.index_eq, hm.outputs.skip (by simp [hl]), hm.inputs⟩
  | some i =>
    obtain ⟨m, ports, port, port', remote, hm, hports, hport, hremote, href, rfl⟩ :=
      connectSource_ok hok hl
    have hi := h.lt_of_outputs hm (by simp [hports])
    have hread' := h.read i m hm hi
    refine h.replace hi ⟨hread'.id_eq, hread'.index_eq, ?_, hread'.inputs⟩ ?_
    · refine Table.connect ?_ hl hport (href.trans (h.remoteId_eq hread hremote))
      rw [← hports]
      exact hread'.outputs
    · intro j n hne hn
      have hsrc : l.src ≠ some j := fun heq => hne (some.inj (heq.symm.trans hl))
      exact ⟨hn.id_eq, hn.index_eq, hn.outputs.skip hsrc, hn.inputs⟩

lemma Slots.after_dest {outs : List Link} (h : Slots outs links w)
    (hread : ∀ i, l.src = some i → i < w.nofParsedModules)
    (hok : connectDest w cfg l = .ok w') : Slots outs (l :: links) w' := by
  cases hl : l.dest with
  | none =>
    simp only [connectDest, hl] at hok
    cases hok
    refine ⟨h.parsed_le, fun i m hm hi => ?_, h.unread⟩
    have hm := h.read i m hm hi
    exact ⟨hm.id_eq, hm.index_eq, hm.outputs, hm.inputs.skip (by simp [hl])⟩
  | some k =>
    obtain ⟨m, ports, port, port', remote, hm, hports, hport, -, hremote, href, rfl⟩ :=
      connectDest_ok hok hl
    have hk := h.lt_of_inputs hm (by simp [hports])
    have hread' := h.read k m hm hk
    refine h.replace hk ⟨hread'.id_eq, hread'.index_eq, hread'.outputs, ?_⟩ ?_
    · -- the entry read backwards starts at the destination
      have hback : (remote, (l.flip.destPort : ℤ)) = l.flip.farEnd := h.remoteId_eq hread hremote
      refine Table.connect (l := l.flip) ?_ hl hport (href.trans hback)
      rw [← hports]
      exact hread'.inputs
    · intro j n hne hn
      have hdest : l.flip.src ≠ some j := fun heq => hne (some.inj (heq.symm.trans hl))
      exact ⟨hn.id_eq, hn.index_eq, hn.outputs, hn.inputs.skip hdest⟩

structure SameFrame (w w' : PWaveform) : Prop where
  parsed : w'.nofParsedModules = w.nofParsedModules
  links : w'.links = w.links
  length : w'.modules.length = w.modules.length
  ctrl : w'.autoCtrlModule = w.autoCtrlModule

lemma sameFrame_setModule (w : PWaveform) (i : ℕ) (m : PModule) :
    SameFrame w (setModule w i m) := ⟨rfl, rfl, length_set, rfl⟩

lemma connectSource_frame (h : connectSource w cfg l = .ok w') : SameFrame w w' := by
  cases hl : l.src with
  | none =>
    simp only [connectSource, hl] at h
    cases h
    exact ⟨rfl, rfl, rfl, rfl⟩
  | some i =>
    obtain ⟨_, _, _, _, _, _, _, _, _, _, rfl⟩ := connectSource_ok h hl
    exact sameFrame_setModule w i _

lemma connectDest_frame (h : connectDest w cfg l = .ok w') : SameFrame w w' := by
  cases hl : l.dest with
  | none =>
    simp only [connectDest, hl] at h
    cases h
    exact ⟨rfl, rfl, rfl, rfl⟩
  | some k =>
    obtain ⟨_, _, _, _, _, _, _, _, _, _, _, rfl⟩ := connectDest_ok h hl
    exact sameFrame_setModule w k _

lemma connectSource_inputs (h : connectSource w cfg l = .ok w') {m : PModule}
    (hm : w'.modules[k]? = some m) : ∃ n, w.modules[k]? = some n ∧ n.inputs = m.inputs := by
  cases hl : l.src with
  | none =>
    simp only [connectSource, hl] at h
    cases h
    exact ⟨m, hm, rfl⟩
  | some i =>
    obtain ⟨n, _, _, _, _, hn, _, _, _, _, rfl⟩ := connectSource_ok h hl
    rw [modules_setModule] at hm
    split at hm
    · next heq =>
      subst heq
      rw [hn] at hm
      cases hm
      exact ⟨n, hn, rfl⟩
    · exact ⟨m, hm, rfl⟩

lemma inValue_of_fed (honce : links.Pairwise fun later earlier => ∀ k, earlier.src.isSome = true →
      earlier.dest = some k → ¬ later.flip.isFrom k earlier.destPort = true)
    (hl : l ∈ links) (hsrc : l.src.isSome = true) (hdest : l.dest = some k) :
    inValue links k l.destPort = l.flip.farEnd := by
  induction links with
  | nil => cases hl
  | cons l' links ih =>
    obtain ⟨hhead, htail⟩ := pairwise_cons.mp honce
    rw [inValue, map_cons]
    rcases mem_cons.mp hl with rfl | hl
    · exact outValue_cons_self hdest
    · rw [outValue_cons_of_not (hhead l hl k hsrc hdest)]
      exact ih htail hl

lemma Slots.src_of_connect (h : Slots links links w) (hok : connectSource w cfg l = .ok w')
    (hl : l.src = some i) : i < w.nofParsedModules ∧ l.srcPort < itfPrealloc := by
  obtain ⟨m, ports, port, _, _, hm, hports, hport, -⟩ := connectSource_ok hok hl
  have hlt := h.lt_of_outputs hm (by simp [hports])
  obtain ⟨_, htable, hlen, -⟩ := (h.read i m hm hlt).outputs.ports
  rw [hports] at htable
  cases htable
  exact ⟨hlt, hlen ▸ (List.getElem?_eq_some_iff.mp hport).1⟩

lemma Slots.dest_of_connect (h : Slots links links w) {w1 : PWaveform}
    (hsource : connectSource w cfg l = .ok w1) (hok : connectDest w1 cfg l = .ok w')
    (hl : l.dest = some k) :
    k < w.nofParsedModules ∧ l.destPort ≤ itfPrealloc ∧ ¬ 0 < (inValue links k l.destPort).1 := by
  obtain ⟨m, ports, port, _, _, hm, hports, hport, hfree, -⟩ := connectDest_ok hok hl
  obtain ⟨n, hn, hsame⟩ := connectSource_inputs hsource hm
  have hlt := h.lt_of_inputs hn (by simp [hsame, hports])
  obtain ⟨_, htable, hlen, hvalue⟩ := (h.read k n hn hlt).inputs.ports
  rw [hsame, hports] at htable
  cases htable
  refine ⟨hlt, ?_, ?_⟩
  · have := (List.getElem?_eq_some_iff.mp hport).1
    omega
  · rw [inValue, ← hvalue _ _ hport]
    exact hfree

lemma readInterface_ok (h : readInterface w cfg = .ok w') :
    ∃ l w1 w2, connectSource w cfg l = .ok w1 ∧ connectDest w1 cfg l = .ok w2 ∧
      w' = { w2 with links := l :: w.links } := by
  obtain ⟨l, -, h⟩ := bind_eq_ok.mp h
  obtain ⟨w1, hsource, h⟩ := bind_eq_ok.mp h
  obtain ⟨w2, hdest, h⟩ := bind_eq_ok.mp h
  refine ⟨l, w1, w2, hsource, hdest, ?_⟩
  rw [← (connectSource_frame hsource).links, ← (connectDest_frame hdest).links]
  cases h
  rfl

/-- **Step lemma.** A successful `read_interface` keeps the invariant. -/
theorem Tables.after_interface (h : Tables w) (hok : readInterface w cfg = .ok w') : Tables w' := by
  obtain ⟨l, w1, w2, hsource, hdest, rfl⟩ := readInterface_ok hok
  have hparsed1 := (connectSource_frame hsource).parsed
  have hparsed2 := (connectDest_frame hdest).parsed.trans hparsed1
  have hsrc := fun i (hi : l.src = some i) => h.slots.src_of_connect hsource hi
  have hdst := fun k (hk : l.dest = some k) => h.slots.dest_of_connect hsource hdest hk
  have hslots : Slots (l :: w.links) (l :: w.links) w2 := by
    have hslots1 := h.slots.after_source (fun k hk => (hdst k hk).1) hsource
    exact hslots1.after_dest (fun i hi => hparsed1.symm ▸ (hsrc i hi).1) hdest
  refine ⟨⟨hslots.parsed_le, hslots.read, hslots.unread⟩, ?_, ?_, ?_⟩
  · intro l' hl' i hi
    show i < w2.nofParsedModules ∧ _
    rw [hparsed2]
    rcases mem_cons.mp hl' with rfl | hl'
    · exact hsrc i hi
    · exact h.src_lt l' hl' i hi
  · intro l' hl' k hk
    show k < w2.nofParsedModules ∧ _
    rw [hparsed2]
    rcases mem_cons.mp hl' with rfl | hl'
    · exact ⟨(hdst k hk).1, (hdst k hk).2.1⟩
    · exact h.dest_lt l' hl' k hk
  · refine pairwise_cons.mpr ⟨?_, h.fed_once⟩
    -- the port of an earlier entry still holds its module, and would have been refused
    intro earlier he k hfed hk hto
    obtain ⟨hl, hport⟩ := Link.isFrom_iff.mp hto
    apply (hdst k hl).2.2
    rw [show l.destPort = earlier.destPort from hport, inValue_of_fed h.fed_once he hfed hk]
    obtain ⟨i, hi⟩ := isSome_iff_exists.mp hfed
    rw [Link.farEnd_of_dest (l := earlier.flip) hi]
    exact Int.lt_add_one_of_le (Int.natCast_nonneg i)

end Connect

end

/-! ## Progress -/

structure Progress (n : ℤ) (w w' : PWaveform) : Prop where
  tables : Tables w → Tables w'
  parsed : (w'.modules.length : ℤ) + w.nofParsedModules + n ≤ w.modules.length + w'.nofParsedModules
  ctrl : w'.autoCtrlModule = w.autoCtrlModule

namespace Progress

variable {a b : ℤ} {w w' w'' : PWaveform}

lemma trans (h : Progress a w w') (h' : Progress b w' w'') : Progress (a + b) w w'' where
  tables hw := h'.tables (h.tables hw)
  parsed := by
    have := h.parsed
    have := h'.parsed
    omega
  ctrl := h'.ctrl.trans h.ctrl

lemma weaken (h : Progress a w w') (hle : b ≤ a) : Progress b w w' :=
  ⟨h.tables, by have := h.parsed; omega, h.ctrl⟩

lemma idle (hm : w'.modules = w.modules) (hp : w'.nofParsedModules = w.nofParsedModules)
    (hl : w'.links = w.links) (hc : w'.autoCtrlModule = w.autoCtrlModule) :
    Progress 0 w w' where
  tables hw := by
    refine ⟨⟨?_, ?_, ?_⟩, ?_, ?_, ?_⟩
    · rw [hm, hp]
      exact hw.slots.parsed_le
    · rw [hm, hp, hl]
      exact hw.slots.read
    · rw [hm, hp]
      exact hw.slots.unread
    · rw [hl, hp]
      exact hw.src_lt
    · rw [hl, hp]
      exact hw.dest_lt
    · rw [hl]
      exact hw.fed_once
  parsed := by
    rw [hm, hp]
    omega
  ctrl := hc

lemma refl (w : PWaveform) : Progress 0 w w := idle rfl rfl rfl rfl

/-- **Loop rule.** The progress of a loop is that of its rounds. -/
theorem foldlM {α : Type} {f : PWaveform → α → Except Stop PWaveform} {g : α → ℤ} {as : List α}
    (hstep : ∀ w, ∀ a ∈ as, ∀ w', f w a = .ok w' → Progress (g a) w w')
    (h : as.foldlM f w = .ok w') : Progress (as.map g).sum w w' := by
  induction as generalizing w with
  | nil =>
    cases h
    exact refl _
  | cons a as ih =>
    obtain ⟨w1, hfirst, hrest⟩ := foldlM_cons_ok.mp h
    have htail := ih (fun v b hb => hstep v b (mem_cons_of_mem a hb)) hrest
    exact (hstep w a mem_cons_self w1 hfirst).trans htail

end Progress

/-! ## The steps -/

section Steps

variable {w w' : PWaveform} {cfg : Setting}

lemma Unread.zero : Unread PModule.zero := ⟨rfl, rfl, rfl, rfl⟩

lemma waveformAlloc_progress {n : ℤ} (h : waveformAlloc w n = .ok w') : Progress (-n) w w' := by
  unfold waveformAlloc at h
  split at h
  · cases h
  · next hn =>
    cases h
    refine ⟨fun hw => ⟨⟨?_, ?_, ?_⟩, hw.src_lt, hw.dest_lt, hw.fed_once⟩, ?_, rfl⟩
    · exact le_trans hw.slots.parsed_le (by simp)
    · intro i m hm hi
      rw [getElem?_append_left (lt_of_lt_of_le hi hw.slots.parsed_le)] at hm
      exact hw.slots.read i m hm hi
    · intro i m hm hi
      rcases lt_or_ge i w.modules.length with hlt | hge
      · rw [getElem?_append_left hlt] at hm
        exact hw.slots.unread i m hm hi
      · rw [getElem?_append_right hge, getElem?_replicate] at hm
        split at hm
        · cases hm
          exact Unread.zero
        · cases hm
    · grind

lemma nameSlot_ok {slot : Option ℕ} {full : CStr} (h : nameSlot w slot full = .ok w') :
    slot = none ∧ w' = w ∨ ∃ i m, slot = some i ∧ w.modules[i]? = some m ∧
      w' = setModule w i { m with name := full } := by
  cases slot with
  | none =>
    cases h
    exact .inl ⟨rfl, rfl⟩
  | some i =>
    obtain ⟨m, hm, h⟩ := bind_eq_ok.mp h
    cases h
    exact .inr ⟨i, m, rfl, moduleAt_ok.mp hm, rfl⟩

lemma nameSlot_progress {slot : Option ℕ} {full : CStr} (h : nameSlot w slot full = .ok w') :
    Progress 0 w w' := by
  rcases nameSlot_ok h with ⟨-, rfl⟩ | ⟨i, m, -, hm, rfl⟩
  · exact Progress.idle rfl rfl rfl rfl
  · have hslot : ∀ (j : ℕ) (n : PModule),
        (setModule w i { m with name := full }).modules[j]? = some n →
        ∃ n', w.modules[j]? = some n' ∧ (n = n' ∨ n = { n' with name := full }) := by
      intro j n hn
      rw [modules_setModule] at hn
      split at hn
      · next heq =>
        subst heq
        rw [hm] at hn
        cases hn
        exact ⟨m, hm, .inr rfl⟩
      · exact ⟨n, hn, .inl rfl⟩
    refine ⟨fun hw => ⟨⟨?_, ?_, ?_⟩, hw.src_lt, hw.dest_lt, hw.fed_once⟩, by simp [setModule], rfl⟩
    · simpa [setModule] using hw.slots.parsed_le
    · intro j n hn hj
      obtain ⟨n', hn', rfl | rfl⟩ := hslot j n hn
      · exact hw.slots.read j n hn' hj
      · have hread := hw.slots.read j n' hn' hj
        exact ⟨hread.id_eq, hread.index_eq, hread.outputs, hread.inputs⟩
    · intro j n hn hj
      obtain ⟨n', hn', rfl | rfl⟩ := hslot j n hn
      · exact hw.slots.unread j n hn' hj
      · have hunread := hw.slots.unread j n' hn' hj
        exact ⟨hunread.inputs, hunread.outputs, hunread.nofInputs, hunread.nofOutputs⟩

lemma readBinary_progress {name : CStr}
    (h : readBinary w cfg name w.nofParsedModules = .ok w') : Progress 1 w w' := by
  unfold readBinary at h
  split at h
  · cases h
  · obtain ⟨m, hm, h⟩ := bind_eq_ok.mp h
    obtain ⟨mopts, -, h⟩ := bind_eq_ok.mp h
    obtain ⟨vars, -, h⟩ := bind_eq_ok.mp h
    cases h
    rw [moduleAt_ok] at hm
    refine ⟨fun hw => ⟨⟨?_, ?_, ?_⟩, ?_, ?_, hw.fed_once⟩, ?_, rfl⟩
    · simpa [setModule] using Nat.succ_le_of_lt (List.getElem?_eq_some_iff.mp hm).1
    · intro i n hn hi
      have hcases := modules_setModule w w.nofParsedModules i
      rcases Nat.lt_succ_iff_lt_or_eq.mp hi with hlt | rfl
      · rw [hcases, if_neg (ne_of_gt hlt)] at hn
        exact hw.slots.read i n hn hlt
      · rw [hcases, if_pos rfl, hm] at hn
        cases hn
        have hunread := hw.slots.unread _ m hm (le_refl _)
        refine ⟨rfl, rfl, ?_, ?_⟩
        · show Table _ _ _ _ m.nofOutputs
          rw [hunread.nofOutputs]
          exact Table.fresh fun l hl hsrc => lt_irrefl _ (hw.src_lt l hl _ hsrc).1
        · show Table _ _ _ _ m.nofInputs
          rw [hunread.nofInputs]
          refine Table.fresh fun l hl hsrc => ?_
          obtain ⟨l', hl', rfl⟩ := mem_map.mp hl
          exact lt_irrefl _ (hw.dest_lt l' hl' _ hsrc).1
    · intro i n hn hi
      rw [modules_setModule, if_neg (ne_of_lt hi)] at hn
      exact hw.slots.unread i n hn (le_of_lt hi)
    · intro l hl i hi
      have := hw.src_lt l hl i hi
      exact ⟨Nat.lt_succ_of_lt this.1, this.2⟩
    · intro l hl k hk
      have := hw.dest_lt l hl k hk
      exact ⟨Nat.lt_succ_of_lt this.1, this.2⟩
    · show ((w.modules.set _ _).length : ℤ) + w.nofParsedModules + 1 ≤
        w.modules.length + (w.nofParsedModules + 1 : ℕ)
      rw [length_set]
      omega

variable {parseSub : PWaveform → Except Stop PWaveform}
  (hsub : ∀ w w', parseSub w = .ok w' → Progress 0 w w')

include hsub in
lemma readModule_progress {name : Option CStr} {hasSlots : Bool} {inst : Option ℕ}
    (h : readModule parseSub name cfg (if hasSlots then some w.nofParsedModules else none) inst w
      = .ok w') :
    Progress (if (cfg.lookupString "include").isSome then 0 else 1) w w' := by
  cases name with
  | none => cases h
  | some name =>
    obtain ⟨full, -, h⟩ := bind_eq_ok.mp h
    cases hinc : cfg.lookupString "include" with
    | some file =>
      simp only [hinc] at h
      obtain ⟨w1, hnamed, h⟩ := bind_eq_ok.mp h
      obtain ⟨w2, hparse, h⟩ := bind_eq_ok.mp h
      cases h
      have hend : Progress 0 w2 { w2 with namePrefix := [] } := Progress.idle rfl rfl rfl rfl
      refine Progress.trans (a := 0) (b := 0) ?_ hend
      refine Progress.trans (a := 0) (b := 0) ?_ (hsub _ _ hparse)
      refine Progress.trans (a := 0) (b := 0) (nameSlot_progress hnamed) ?_
      exact Progress.idle rfl rfl rfl rfl
    | none =>
      simp only [hinc] at h
      cases hasSlots with
      | false => cases h
      | true => exact readBinary_progress h

include hsub in
lemma readInstances_progress {hasSlots : Bool} {part : Option CStr × Setting}
    (h : readInstances parseSub hasSlots w part = .ok w') :
    Progress (if (part.2.lookupString "include").isSome then 0 else instancesOf part.2) w w' := by
  have hall := Progress.foldlM (fun v _ _ v' hv => readModule_progress hsub hv) h
  refine hall.weaken ?_
  split
  · simp
  · simp

lemma readInterface_progress (h : readInterface w cfg = .ok w') : Progress 0 w w' := by
  refine ⟨fun hw => hw.after_interface h, ?_, ?_⟩
  all_goals
    obtain ⟨l, w1, w2, hsource, hdest, rfl⟩ := readInterface_ok h
    have h1 := connectSource_frame hsource
    have h2 := connectDest_frame hdest
  · show (w2.modules.length : ℤ) + w.nofParsedModules + 0 ≤ w.modules.length + w2.nofParsedModules
    rw [h2.length, h1.length, h2.parsed, h1.parsed]
    omega
  · exact h2.ctrl.trans h1.ctrl

lemma readInterfaces_progress {cfgs : List Setting}
    (h : cfgs.foldlM readInterface w = .ok w') : Progress 0 w w' := by
  have hall := Progress.foldlM (g := fun _ => 0) (fun _ _ _ _ => readInterface_progress) h
  exact hall.weaken (by simp)

lemma readModes_progress {root : Setting} (h : readModes root w = .ok w') : Progress 0 w w' := by
  unfold readModes at h
  split at h
  · cases h
    exact Progress.idle rfl rfl rfl rfl
  · split at h
    · cases h
    · split at h
      · cases h
      · obtain ⟨modes, -, h⟩ := bind_eq_ok.mp h
        cases h
        exact Progress.idle rfl rfl rfl rfl

lemma joinStages_progress {cfg : Option Setting} (h : joinStages w cfg = .ok w') :
    Progress 0 w w' := by
  cases cfg with
  | none =>
    cases h
    exact Progress.idle rfl rfl rfl rfl
  | some cfg =>
    obtain ⟨stages, -, h⟩ := bind_eq_ok.mp h
    cases h
    exact Progress.idle rfl rfl rfl rfl

lemma onMain_progress {isMain : Bool} {part : PWaveform → Except Stop PWaveform}
    (hpart : ∀ w w', part w = .ok w' → Progress 0 w w') (h : onMain isMain part w = .ok w') :
    Progress 0 w w' := by
  cases isMain with
  | true => exact hpart w w' h
  | false =>
    cases h
    exact Progress.refl w

end Steps

/-! ## The parse -/

section Parse

variable {env : Env} {w w' : PWaveform} {fuel : ℕ}

lemma waveformParse_ok {isMain : Bool} (h : waveformParse env (fuel + 1) isMain w = .ok w') :
    ∃ (root modules interfaces : Setting) (w1 w2 w3 w4 w5 : PWaveform),
      (w.modelFile.length < strLen ∧ env.files w.modelFile = some root ∧
        root.member "modules" = some modules ∧ root.member "interfaces" = some interfaces ∧
        interfaces.length ≠ 0) ∧
      onMain isMain (readModes root) w = .ok w1 ∧
      (if countModules modules ≠ 0 then waveformAlloc w1 (countModules modules) else pure w1)
        = .ok w2 ∧
      modules.parts.foldlM (readInstances (waveformParse env fuel false)
        (countModules modules ≠ 0)) w2 = .ok w3 ∧
      onMain isMain (joinStages · (root.member "join_stages")) w3 = .ok w4 ∧
      (interfaces.parts.map (·.2)).foldlM readInterface w4 = .ok w5 ∧
      onMain isMain (closeMain env root) w5 = .ok w' := by
  rw [waveformParse] at h
  split at h
  · cases h
  · next hname =>
    split at h
    · cases h
    · next root hroot =>
      obtain ⟨w1, h1, h⟩ := bind_eq_ok.mp h
      split at h
      · cases h
      · next modules hmodules =>
        obtain ⟨w2, h2, h⟩ := bind_eq_ok.mp h
        obtain ⟨w3, h3, h⟩ := bind_eq_ok.mp h
        obtain ⟨w4, h4, h⟩ := bind_eq_ok.mp h
        split at h
        · cases h
        · next interfaces hinterfaces =>
          split at h
          · cases h
          · next hlen =>
            obtain ⟨w5, h5, h⟩ := bind_eq_ok.mp h
            exact ⟨root, modules, interfaces, w1, w2, w3, w4, w5,
              ⟨Nat.lt_of_not_le hname, hroot, hmodules, hinterfaces, hlen⟩,
              h1, h2, h3, h4, h5, h⟩

lemma readModules_progress {parseSub : PWaveform → Except Stop PWaveform} {modules : Setting}
    {hasSlots : Bool} {w1 : PWaveform} (hsub : ∀ w w', parseSub w = .ok w' → Progress 0 w w')
    (halloc : (if countModules modules ≠ 0 then waveformAlloc w (countModules modules)
      else pure w) = .ok w1)
    (hread : modules.parts.foldlM (readInstances parseSub hasSlots) w1 = .ok w') :
    Progress 0 w w' := by
  have hslots : Progress (-countModules modules) w w1 := by
    split at halloc
    · exact waveformAlloc_progress halloc
    · next hzero =>
      cases halloc
      rw [Decidable.not_not.mp hzero]
      exact Progress.refl w
  have hparts := Progress.foldlM (g := fun part : Option CStr × Setting =>
      if (part.2.lookupString "include").isSome then 0 else instancesOf part.2)
    (fun _ _ _ _ hv => readInstances_progress hsub hv) hread
  have hsum : (modules.parts.map fun part =>
      if (part.2.lookupString "include").isSome then 0 else instancesOf part.2).sum =
        countModules modules := by
    rw [countModules, map_map]
    rfl
  refine (hslots.trans hparts).weaken ?_
  omega

lemma waveformParse_phases {isMain : Bool}
    (hsub : ∀ w w', waveformParse env fuel false w = .ok w' → Progress 0 w w')
    (h : waveformParse env (fuel + 1) isMain w = .ok w') :
    ∃ root w1, Progress 0 w w1 ∧ onMain isMain (closeMain env root) w1 = .ok w' := by
  obtain ⟨root, modules, interfaces, w1, w2, w3, w4, w5, -, h1, h2, h3, h4, h5, hend⟩ :=
    waveformParse_ok h
  have p1 := onMain_progress (fun _ _ => readModes_progress) h1
  have p3 := readModules_progress hsub h2 h3
  have p4 := onMain_progress (fun _ _ => joinStages_progress) h4
  have p5 := readInterfaces_progress h5
  exact ⟨root, w5, ((p1.trans p3).trans p4).trans p5, hend⟩

lemma waveformParse_progress (h : waveformParse env fuel false w = .ok w') : Progress 0 w w' := by
  induction fuel generalizing w w' with
  | zero => cases h
  | succ fuel ih =>
    obtain ⟨root, w1, hprogress, hend⟩ := waveformParse_phases (fun _ _ => ih) h
    cases hend
    exact hprogress

lemma Tables.new (file : CStr) : Tables (newWaveform file) := by
  refine ⟨⟨le_refl 0, ?_, ?_⟩, ?_, ?_, List.Pairwise.nil⟩
  · intro i m hm
    cases hm
  · intro i m hm
    cases hm
  · intro l hl
    cases hl
  · intro l hl
    cases hl

structure Parsed (w : PWaveform) : Prop where
  tables : Tables w
  all_read : w.nofParsedModules = w.modules.length
  no_ctrl : w.autoCtrlModule = none

/-- **Run lemma.** A successful parse of the main model ends by closing a state whose tables are
what the entries make of them. -/
theorem waveformParse_main {file : CStr}
    (h : waveformParse env fuel true (newWaveform file) = .ok w') :
    ∃ root w, Parsed w ∧ closeMain env root w = .ok w' := by
  cases fuel with
  | zero => cases h
  | succ fuel =>
    obtain ⟨root, w, hprogress, hend⟩ := waveformParse_phases (fun _ _ => waveformParse_progress) h
    have htables := hprogress.tables (Tables.new file)
    refine ⟨root, w, ⟨htables, ?_, hprogress.ctrl⟩, hend⟩
    have hle := htables.slots.parsed_le
    have hgap := hprogress.parsed
    simp only [newWaveform, length_nil, Nat.cast_zero, zero_add, add_zero] at hgap
    omega

end Parse

end Aloe.Manager
