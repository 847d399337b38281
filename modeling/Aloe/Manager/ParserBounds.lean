import Aloe.Manager.ParserConnections
import Aloe.Manager.SubModelPorts

/-!
# The bounds of the port tables

Every access of the parser to the `inputs` and `outputs` of a module, listed beside the
functions that make it: the searches for ports of included models, the two ports of an
interface, the automatic control connections and the final pass over the tables. The tables
have `ITF_PREALLOC + 1` inputs and `ITF_PREALLOC` outputs until the main model is closed.
`port_accesses_iff` states when all of them stay inside the tables.
-/

namespace Aloe.Manager

open Lib List

/-! ## Accesses -/

structure Access where
  table : Option (List Port)
  index : ℕ

def Access.Inside (a : Access) : Prop := ∃ ports, a.table = some ports ∧ a.index < ports.length

def scanAccesses (table : Option (List Port)) (remote : ℤ) : (left j : ℕ) → List Access
  | 0, _ => []
  | left + 1, j => ⟨table, j⟩ ::
      match (table.getD [])[j]? with
      | none => []
      | some port =>
        if port.remoteModuleId = remote then [] else scanAccesses table remote left (j + 1)

/-- The ports that a search for end `n` of an included model reads. -/
def searchAccesses (table : PModule → Option (List Port)) (name : CStr) (n : ℕ) :
    List PModule → List Access
  | [] => []
  | m :: ms =>
    andThen (startsWith m.name name) fun starts =>
      if starts then
        scanAccesses (table m) (-((n : ℤ) + 1)) m.nofInputs 0 ++
          andThen (scanPorts ((table m).getD []) (-((n : ℤ) + 1)) m.nofInputs 0) fun found =>
            if found.isSome then [] else searchAccesses table name n ms
      else searchAccesses table name n ms

def searchedEnd (w : PWaveform) (part : Setting) : Option (CStr × ℕ) :=
  match readInterfacePair part with
  | none => none
  | some (name, port) =>
    if port < 0 then none
    else if strEq name "_input".toList || strEq name "_output".toList then none
    else
      match lookupName w name with
      | .error _ => none
      | .ok full =>
        match findModuleName w full with
        | some _ => none
        | none => some (name, port.toNat)

def endAccesses (w : PWaveform) (part : Setting) (isInput : Bool) : List Access :=
  match searchedEnd w part with
  | none => []
  | some (name, n) => searchAccesses (searchedTable isInput) name n w.modules

def linkAccesses (w : PWaveform) (l : Link) : List Access :=
  (l.src.toList.map fun i => ⟨(w.modules[i]?).bind PModule.outputs, l.srcPort⟩) ++
    l.dest.toList.map fun k => ⟨(w.modules[k]?).bind PModule.inputs, l.destPort⟩

def interfaceAccesses (w : PWaveform) (cfg : Setting) : List Access :=
  match cfg.member "src", cfg.member "dest" with
  | some src, some dest => endAccesses w src true ++
      andThen (readInterfaceModItf w src true) (fun (_, port) =>
        let port := if w.autoCtrlModule.isSome then port + 1 else port
        if itfPrealloc < port then [] else endAccesses w dest false) ++
      andThen (resolveLink w cfg) (linkAccesses w)
  | _, _ => []

/-- The waveform when `waveform_main_config` has extended the control module's table. -/
def extendCtrl (env : Env) (w : PWaveform) (c : ℕ) : Except Stop PWaveform := do
  let ctrl ← moduleAt w c
  match ctrl.outputs with
  | none => throw .fault
  | some ports =>
    let room := reallocPorts env.junk ports ctrl.nofOutputs ++
      List.replicate w.modules.length Port.zero
    return setModule w c { ctrl with outputs := some room }

def ctrlAccesses (c : ℕ) (w : PWaveform) (i : ℕ) : List Access :=
  match w.modules[c]?, w.modules[i]? with
  | some ctrl, some m => [⟨ctrl.outputs, ctrl.nofOutputs⟩, ⟨m.inputs, m.nofInputs⟩]
  | _, _ => []

/-- The accesses of `waveform_main_config`: the new outputs of the control module are
cleared, and one connection is made to each module after it. -/
def mainAccesses (env : Env) (w : PWaveform) (cfg : Option Setting) : List Access :=
  match cfg.bind (·.lookupString "auto_ctrl_module") with
  | none => []
  | some name =>
    match findModuleName w name with
    | none => [⟨none, 0⟩]
    | some c =>
      andThen (extendCtrl env w c) fun v =>
        match v.modules[c]? with
        | none => []
        | some ctrl =>
          ((List.range' ctrl.nofOutputs w.modules.length).map fun p => ⟨ctrl.outputs, p⟩) ++
            loopLog (connectCtrl c) (ctrlAccesses c)
              (List.range' (ctrl.index + 1) (w.modules.length - (ctrl.index + 1))) v

def checkAccesses (w : PWaveform) : List Access :=
  w.modules.flatMap fun m => ((List.range m.nofInputs).map fun p => ⟨m.inputs, p⟩) ++
      (List.range m.nofOutputs).map fun p => ⟨m.outputs, p⟩

def Call.accesses (env : Env) : Call → List Access
  | .interface _ w cfg => interfaceAccesses w cfg
  | .close w root => mainAccesses env w (root.member "main") ++
      andThen (waveformMainConfig env w (root.member "main")) checkAccesses

/-! ## What fits -/

/-- An interface whose ends lead to modules that are read, with a source port that the table
has; a search for the source does not come to a module that uses all its inputs. -/
structure InterfaceFits (w : PWaveform) (cfg : Setting) : Prop where
  searched : ∀ part x n, cfg.member "src" = some part → (cfg.member "dest").isSome = true →
    searchedEnd w part = some (x, n) → ∀ i m, w.modules[i]? = some m →
      startsWith m.name x = .ok true → (∀ i' < i, PassesBy w true x n i') →
      inCount w.links i ≤ itfPrealloc ∨ ∃ j < itfPrealloc, leadsOut w.links i j n
  source : ∀ l i, resolveLink w cfg = .ok l → l.src = some i →
    i < w.nofParsedModules ∧ l.srcPort < itfPrealloc
  dest : ∀ l k, resolveLink w cfg = .ok l → l.dest = some k → k < w.nofParsedModules

def ctrlName (root : Setting) : Option CStr :=
  (root.member "main").bind (·.lookupString "auto_ctrl_module")

/-- The automatic control module, if one is named, is there, the modules after it have an input
left, and no other module has more output connections than ports. -/
structure CloseFits (w : PWaveform) (root : Setting) : Prop where
  ctrl : ∀ name, ctrlName root = some name → ∃ c, findModuleName w name = some c ∧
    ∀ i, c < i → i < w.modules.length → inCount w.links i ≤ itfPrealloc
  outputs : ∀ i < w.modules.length, (ctrlName root).bind (findModuleName w) ≠ some i →
    outCount w.links i ≤ itfPrealloc

def Call.Fits : Call → Prop
  | .interface _ w cfg => InterfaceFits w cfg
  | .close w root => CloseFits w root

/-- The tables are safe at a call: the accesses stay inside, an interface is accepted only with
ports that the tables have, and a control module that is not there is an error. -/
structure Call.Safe (env : Env) (c : Call) : Prop where
  inside : ∀ a ∈ c.accesses env, a.Inside
  accepted : ∀ path w cfg w', c = .interface path w cfg → readInterface w cfg = .ok w' →
    ∃ l, resolveLink w cfg = .ok l ∧ ∀ a ∈ linkAccesses w l, a.Inside
  reported : ∀ w root name, c = .close w root → ctrlName root = some name →
    findModuleName w name = none → waveformMainConfig env w (root.member "main") = .error .error

/-! ## Searches -/

section Search

variable {table : Option (List Port)} {tableOf : PModule → Option (List Port)} {remote : ℤ}
  {name : CStr} {n i j left : ℕ} {m : PModule} {ms : List PModule} {w : PWaveform}

lemma inside_iff : (⟨table, j⟩ : Access).Inside ↔ ∃ port, (table.getD [])[j]? = some port := by
  constructor
  · rintro ⟨ports, rfl, hlt⟩
    exact ⟨ports[j], getElem?_eq_getElem hlt⟩
  · rintro ⟨port, hport⟩
    cases table with
    | none => cases hport
    | some ports => exact ⟨ports, rfl, (List.getElem?_eq_some_iff.mp hport).1⟩

lemma scanAccesses_inside : (∀ a ∈ scanAccesses table remote left j, a.Inside) ↔
      ∃ found, scanPorts (table.getD []) remote left j = .ok found := by
  induction left generalizing j with
  | zero => exact iff_of_true (fun a ha => by cases ha) ⟨none, rfl⟩
  | succ left ih =>
    rw [scanAccesses, forall_mem_cons, inside_iff, scanPorts]
    cases (table.getD [])[j]? with
    | none => simp_all
    | some port =>
      simp only [Option.some.injEq, exists_eq', true_and]
      by_cases hmark : port.remoteModuleId = remote
      · simp only [if_pos hmark]
        exact iff_of_true (fun a ha => by cases ha) ⟨some j, rfl⟩
      · simp only [if_neg hmark]
        exact ih

lemma searchAccesses_cons :
    (∀ a ∈ searchAccesses tableOf name n (m :: ms), a.Inside) ↔ (startsWith m.name name = .ok true →
        ∃ found, scanPorts ((tableOf m).getD []) (-((n : ℤ) + 1)) m.nofInputs 0 = .ok found) ∧
      (Passed tableOf name n m → ∀ a ∈ searchAccesses tableOf name n ms, a.Inside) := by
  rw [searchAccesses, passed_iff]
  cases startsWith m.name name with
  | error e => simp [andThen]
  | ok starts =>
    cases starts with
    | false => simp [andThen]
    | true =>
      simp only [andThen, if_true, forall_mem_append, scanAccesses_inside]
      refine and_congr (by simp) ?_
      cases scanPorts ((tableOf m).getD []) (-((n : ℤ) + 1)) m.nofInputs 0 with
      | error e => simp
      | ok found =>
        cases found with
        | none => simp
        | some k => simp

lemma searchAccesses_inside : (∀ a ∈ searchAccesses tableOf name n ms, a.Inside) ↔
      ∀ (i : ℕ) m, ms[i]? = some m → startsWith m.name name = .ok true →
        (∀ i' < i, ∃ m', ms[i']? = some m' ∧ Passed tableOf name n m') →
        ∃ found, scanPorts ((tableOf m).getD []) (-((n : ℤ) + 1)) m.nofInputs 0 = .ok found := by
  induction ms with
  | nil =>
    refine iff_of_true (fun a ha => by cases ha) ?_
    intro i m hm
    cases hm
  | cons m ms ih =>
    rw [searchAccesses_cons, ih]
    constructor
    · rintro ⟨hfirst, hrest⟩ i m' hm' hstarts hpassed
      cases i with
      | zero =>
        cases hm'
        exact hfirst hstarts
      | succ i =>
        obtain ⟨_, ⟨⟩, hm⟩ := hpassed 0 (Nat.zero_lt_succ i)
        exact hrest hm i m' hm' hstarts fun i' hi' => hpassed (i' + 1) (Nat.succ_lt_succ hi')
    · intro h
      refine ⟨fun hstarts => h 0 m rfl hstarts fun i' hi' => absurd hi' (Nat.not_lt_zero i'), ?_⟩
      intro hpassed i m' hm' hstarts hbefore
      refine h (i + 1) m' hm' hstarts fun i' hi' => ?_
      cases i' with
      | zero => exact ⟨m, rfl, hpassed⟩
      | succ i' => exact hbefore i' (Nat.lt_of_succ_lt_succ hi')

/-- The scan from port `j` on stays in the table if the table is long enough, or a port with the
number ends it. -/
lemma Table.scan_from {links : List Link} {size count : ℕ} (h : Table links i size table count)
    (hj : j ≤ size) :
    (∃ found, scanPorts (table.getD []) (-((n : ℤ) + 1)) left j = .ok found) ↔
      j + left ≤ size ∨ ∃ k, j ≤ k ∧ k < size ∧ leadsOut links i k n := by
  have hmarked := fun k => h.marked_iff (n := n) (j := k)
  have hunmarked := fun k => h.unmarked_iff (n := n) (j := k)
  obtain ⟨ports, rfl, -⟩ := h.ports
  induction left generalizing j with
  | zero => exact iff_of_true ⟨none, rfl⟩ (.inl hj)
  | succ left ih =>
    simp only [Option.getD_some] at ih ⊢
    simp only [scanPorts_step, exists_or, exists_and_left, exists_eq, and_true, hmarked, hunmarked]
    rcases hj.lt_or_eq with hlt | rfl
    · have hrest := ih (j := j + 1) hlt
      grind
    · grind

lemma Tables.inCount_le (h : Tables w) (i : ℕ) : inCount w.links i ≤ itfPrealloc + 1 := by
  refine le_trans (outCount_le_card ?_) ?_
  · -- a port that a module feeds is given to no later entry
    intro later l earlier hsplit hsrc hdest l' hl' hfrom
    obtain ⟨later0, rest, hlinks, rfl, hrest⟩ := map_eq_append_iff.mp hsplit
    obtain ⟨l0, earlier0, rfl, rfl, -⟩ := map_eq_cons_iff.mp hrest
    obtain ⟨l0', hl0', rfl⟩ := mem_map.mp hl'
    have honce := h.fed_once
    rw [hlinks, pairwise_append] at honce
    exact honce.2.2 l0' hl0' l0 mem_cons_self i hdest hsrc hfrom
  · have hsub : usedPorts (w.links.map Link.flip) i ⊆ Finset.range (itfPrealloc + 1) := by
      intro p hp
      obtain ⟨l, hl, hfrom⟩ := mem_usedPorts.mp hp
      obtain ⟨l0, hl0, rfl⟩ := mem_map.mp hl
      obtain ⟨hsrc, rfl⟩ := Link.isFrom_iff.mp hfrom
      exact Finset.mem_range.mpr (Nat.lt_succ_of_le (h.dest_lt l0 hl0 i hsrc).2)
    have hcard := Finset.card_le_card hsub
    rwa [Finset.card_range] at hcard

variable {isInput : Bool}

lemma Tables.scan_iff (h : Tables w) (hm : w.modules[i]? = some m) :
    (∃ found, scanPorts ((searchedTable isInput m).getD []) (-((n : ℤ) + 1)) m.nofInputs 0
      = .ok found) ↔
      inCount w.links i ≤ searchedPorts isInput ∨
        ∃ j < searchedPorts isInput, leadsOut (fromPorts isInput w.links) i j n := by
  rcases lt_or_ge i w.nofParsedModules with hlt | hge
  · have hread := h.slots.read i m hm hlt
    obtain ⟨count, htable⟩ := hread.searched isInput
    rw [hread.inputs.count_eq]
    rw [htable.scan_from (Nat.zero_le _)]
    simp [inCount]
  · rw [(h.slots.unread i m hm hge).nofInputs, h.inCount_unread hge]
    exact iff_of_true ⟨none, rfl⟩ (.inl (Nat.zero_le _))

lemma Tables.search_inside (h : Tables w) {x : CStr} :
    (∀ a ∈ searchAccesses (searchedTable isInput) x n w.modules, a.Inside) ↔
      ∀ i m, w.modules[i]? = some m → startsWith m.name x = .ok true →
        (∀ i' < i, PassesBy w isInput x n i') →
        inCount w.links i ≤ searchedPorts isInput ∨
          ∃ j < searchedPorts isInput, leadsOut (fromPorts isInput w.links) i j n := by
  have hpasses : ∀ i', PassesBy w isInput x n i' ↔
      ∃ m', w.modules[i']? = some m' ∧ Passed (searchedTable isInput) x n m' := by
    intro i'
    constructor
    · intro hpass
      obtain ⟨m', hm', -⟩ := id hpass
      exact ⟨m', hm', (h.passed_iff hm').mpr hpass⟩
    · rintro ⟨m', hm', hpassed⟩
      exact (h.passed_iff hm').mp hpassed
  rw [searchAccesses_inside]
  simp only [hpasses]
  refine forall₂_congr fun i m => forall_congr' fun hm => ?_
  rw [h.scan_iff hm]

end Search

/-! ## Interfaces -/

section Interface

variable {w : PWaveform} {cfg : Setting} {l : Link}

lemma destPort_le (hauto : w.autoCtrlModule = none) (h : resolveLink w cfg = .ok l) :
    l.destPort ≤ itfPrealloc := by
  unfold resolveLink at h
  split at h
  · obtain ⟨source, -, h⟩ := bind_eq_ok.mp h
    simp only [hauto, Option.isSome_none, Bool.false_eq_true, if_false] at h
    split at h
    · cases h
    · obtain ⟨target, -, h⟩ := bind_eq_ok.mp h
      simp only [reduceCtorEq, if_false] at h
      split at h
      all_goals
        simp only [pure_bind] at h
        split at h
        · cases h
        · next hle =>
          cases h
          exact Nat.le_of_not_lt hle
  · cases h

lemma ends_of_resolve (h : resolveLink w cfg = .ok l) :
    ∃ src dest, cfg.member "src" = some src ∧ cfg.member "dest" = some dest := by
  unfold resolveLink at h
  split at h
  · next src dest hsrc hdest => exact ⟨src, dest, hsrc, hdest⟩
  · cases h

lemma Tables.link_inside (h : Tables w) (hport : l.destPort ≤ itfPrealloc) :
    (∀ a ∈ linkAccesses w l, a.Inside) ↔
      (∀ i, l.src = some i → i < w.nofParsedModules ∧ l.srcPort < itfPrealloc) ∧
        ∀ k, l.dest = some k → k < w.nofParsedModules := by
  rw [linkAccesses, forall_mem_append, forall_mem_map, forall_mem_map]
  simp only [Option.mem_toList]
  refine and_congr (forall₂_congr fun i hi => ?_) (forall₂_congr fun k hk => ?_)
  · constructor
    · rintro ⟨ports, htable, hlt⟩
      obtain ⟨m, hm, hports⟩ := Option.bind_eq_some_iff.mp htable
      have hread := h.slots.lt_of_outputs hm (by simp [hports])
      obtain ⟨ports', hports', hlen, -⟩ := (h.slots.read i m hm hread).outputs.ports
      cases hports.symm.trans hports'
      exact ⟨hread, hlen ▸ hlt⟩
    · rintro ⟨hread, hlt⟩
      have hm := getElem?_eq_getElem (Nat.lt_of_lt_of_le hread h.slots.parsed_le)
      obtain ⟨ports, hports, hlen, -⟩ := (h.slots.read i _ hm hread).outputs.ports
      exact ⟨ports, by rw [hm]; exact hports, hlen.symm ▸ hlt⟩
  · constructor
    · rintro ⟨ports, htable, -⟩
      obtain ⟨m, hm, hports⟩ := Option.bind_eq_some_iff.mp htable
      exact h.slots.lt_of_inputs hm (by simp [hports])
    · intro hread
      have hm := getElem?_eq_getElem (lt_of_lt_of_le hread h.slots.parsed_le)
      obtain ⟨ports, hports, hlen, -⟩ := (h.slots.read k _ hm hread).inputs.ports
      exact ⟨ports, by rw [hm]; exact hports, hlen.symm ▸ Nat.lt_succ_of_le hport⟩

lemma Tables.dest_inside (h : Tables w) (part : Setting) :
    ∀ a ∈ endAccesses w part false, a.Inside := by
  unfold endAccesses
  split
  · intro a ha
    cases ha
  · exact h.search_inside.mpr fun i _ _ _ _ => .inl (h.inCount_le i)

/-- **Step lemma.** The accesses of `read_interface` stay in the tables exactly when the entry
fits. -/
theorem Tables.interface_inside (h : Tables w) (hauto : w.autoCtrlModule = none) :
    (∀ a ∈ interfaceAccesses w cfg, a.Inside) ↔ InterfaceFits w cfg := by
  have hlink : (∀ a ∈ andThen (resolveLink w cfg) (linkAccesses w), a.Inside) ↔
      ∀ l, resolveLink w cfg = .ok l →
        (∀ i, l.src = some i → i < w.nofParsedModules ∧ l.srcPort < itfPrealloc) ∧
          ∀ k, l.dest = some k → k < w.nofParsedModules := by
    constructor
    · intro hall l hl
      refine (h.link_inside (destPort_le hauto hl)).mp fun a ha => hall a ?_
      exact mem_andThen.mpr ⟨l, hl, ha⟩
    · intro hall a ha
      obtain ⟨l, hl, ha⟩ := mem_andThen.mp ha
      exact (h.link_inside (destPort_le hauto hl)).mpr (hall l hl) a ha
  unfold interfaceAccesses
  split
  · next src dest hsrc hdest =>
    have hdests : ∀ a ∈ andThen (readInterfaceModItf w src true) (fun found =>
        let port := if w.autoCtrlModule.isSome then found.2 + 1 else found.2
        if itfPrealloc < port then [] else endAccesses w dest false), a.Inside := by
      have hchecked : ∀ p : ℕ, ∀ a ∈ if itfPrealloc < p then [] else endAccesses w dest false,
          a.Inside := by
        intro p a ha
        split at ha
        · cases ha
        · exact h.dest_inside dest a ha
      intro a ha
      obtain ⟨found, -, ha⟩ := mem_andThen.mp ha
      exact hchecked _ a ha
    have hsource : (∀ a ∈ endAccesses w src true, a.Inside) ↔
        ∀ x n, searchedEnd w src = some (x, n) → ∀ i m, w.modules[i]? = some m →
          startsWith m.name x = .ok true → (∀ i' < i, PassesBy w true x n i') →
          inCount w.links i ≤ itfPrealloc ∨ ∃ j < itfPrealloc, leadsOut w.links i j n := by
      rw [endAccesses]
      cases searchedEnd w src with
      | none => simp
      | some found =>
        simp only [Option.some.injEq]
        constructor
        · rintro hall x n rfl
          exact h.search_inside.mp hall
        · intro hall
          exact h.search_inside.mpr (hall found.1 found.2 rfl)
    rw [forall_mem_append, forall_mem_append, hlink, hsource]
    constructor
    · rintro ⟨⟨hsearch, -⟩, hlinks⟩
      refine ⟨fun part x n hpart _ hend => ?_, fun l i hl => (hlinks l hl).1 i,
        fun l k hl => (hlinks l hl).2 k⟩
      cases hsrc.symm.trans hpart
      exact hsearch x n hend
    · intro hfit
      refine ⟨⟨fun x n hend => ?_, hdests⟩, fun l hl => ⟨fun i => hfit.source l i hl,
        fun k => hfit.dest l k hl⟩⟩
      exact hfit.searched src x n hsrc (by rw [hdest]; rfl) hend
  · next hmissing =>
    -- without both ends nothing is read, and there is nothing to fit
    refine iff_of_true (fun a ha => by cases ha) ⟨?_, ?_, ?_⟩
    · intro part x n hsrc hdest
      obtain ⟨dest, hdest⟩ := Option.isSome_iff_exists.mp hdest
      exact absurd hdest (hmissing part dest hsrc)
    · intro l i hl
      obtain ⟨src, dest, hsrc, hdest⟩ := ends_of_resolve hl
      exact absurd hdest (hmissing src dest hsrc)
    · intro l k hl
      obtain ⟨src, dest, hsrc, hdest⟩ := ends_of_resolve hl
      exact absurd hdest (hmissing src dest hsrc)

end Interface

/-! ## The end of the main model -/

structure Sized (m : PModule) (ins nofIns outs nofOuts : ℕ) : Prop where
  inputs : ∃ ports, m.inputs = some ports ∧ ports.length = ins
  nofInputs : m.nofInputs = nofIns
  outputs : ∃ ports, m.outputs = some ports ∧ ports.length = outs
  nofOutputs : m.nofOutputs = nofOuts

/-- The waveform `w` when control module `c` is connected to the `k` modules after it. -/
structure Wiring (w : PWaveform) (c k : ℕ) (v : PWaveform) : Prop where
  length_eq : v.modules.length = w.modules.length
  ctrl : ∃ m, v.modules[c]? = some m ∧ Sized m (itfPrealloc + 1) (inCount w.links c)
    (outCount w.links c + w.modules.length) (outCount w.links c + k)
  other : ∀ i, i ≠ c → i < w.modules.length → ∃ m, v.modules[i]? = some m ∧
    Sized m (itfPrealloc + 1) (inCount w.links i + if c < i ∧ i ≤ c + k then 1 else 0)
      itfPrealloc (outCount w.links i)

section Close

variable {env : Env} {w u v v' : PWaveform} {m : PModule} {c i k n : ℕ} {root : Setting}
  {name : CStr} {cfg : Option Setting}

lemma forall_below_inside {table : Option (List Port)} {ports : List Port}
    (h : table = some ports) :
    (∀ a ∈ (List.range n).map (fun p => (⟨table, p⟩ : Access)), a.Inside) ↔ n ≤ ports.length := by
  rw [forall_mem_map, h]
  constructor
  · intro hall
    by_contra hlt
    obtain ⟨ports', hports, hlt'⟩ := hall ports.length (mem_range.mpr (by omega))
    cases hports
    exact lt_irrefl _ hlt'
  · intro hle p hp
    exact ⟨ports, rfl, lt_of_lt_of_le (mem_range.mp hp) hle⟩

variable {ins nofIns outs nofOuts : ℕ}

lemma Sized.check_inside (h : Sized m ins nofIns outs nofOuts) :
    (∀ a ∈ ((List.range m.nofInputs).map fun p => (⟨m.inputs, p⟩ : Access)) ++
      (List.range m.nofOutputs).map fun p => ⟨m.outputs, p⟩, a.Inside) ↔
      nofIns ≤ ins ∧ nofOuts ≤ outs := by
  obtain ⟨inPorts, hin, hins⟩ := h.inputs
  obtain ⟨outPorts, hout, houts⟩ := h.outputs
  rw [forall_mem_append, forall_below_inside hin, forall_below_inside hout, h.nofInputs,
    h.nofOutputs, hins, houts]

lemma Parsed.sized (h : Parsed w) (hi : i < w.modules.length) :
    ∃ m, w.modules[i]? = some m ∧ m.index = i ∧
      Sized m (itfPrealloc + 1) (inCount w.links i) itfPrealloc (outCount w.links i) := by
  obtain ⟨m, hm, hread⟩ := h.exists_read hi
  obtain ⟨ins, hins, hinlen, -⟩ := hread.inputs.ports
  obtain ⟨outs, houts, houtlen, -⟩ := hread.outputs.ports
  exact ⟨m, hm, hread.index_eq, ⟨ins, hins, hinlen⟩, hread.inputs.count_eq,
    ⟨outs, houts, houtlen⟩, hread.outputs.count_eq⟩

/-- Without automatic control connections the final pass stays in the tables exactly when no
module has more output connections than ports. -/
theorem Parsed.check_inside (h : Parsed w) (hm : v.modules = w.modules) :
    (∀ a ∈ checkAccesses v, a.Inside) ↔
      ∀ i < w.modules.length, outCount w.links i ≤ itfPrealloc := by
  rw [checkAccesses, forall_mem_flatMap, hm]
  constructor
  · intro hall i hi
    obtain ⟨m, hmod, -, hsized⟩ := h.sized hi
    exact (hsized.check_inside.mp (hall m (mem_of_getElem? hmod))).2
  · intro hall m hmem
    obtain ⟨i, hi, rfl⟩ := mem_iff_getElem.mp hmem
    obtain ⟨m, hmod, -, hsized⟩ := h.sized hi
    rw [getElem?_eq_getElem hi, Option.some.injEq] at hmod
    rw [hmod]
    exact hsized.check_inside.mpr ⟨h.tables.inCount_le i, hall i hi⟩

lemma Wiring.check_inside (h : Wiring w c k v) (hk : k ≤ w.modules.length)
    (hparsed : Parsed w) (hc : c < w.modules.length)
    (hins : ∀ i, c < i → i < w.modules.length → inCount w.links i ≤ itfPrealloc) :
    (∀ a ∈ checkAccesses v, a.Inside) ↔
      ∀ i < w.modules.length, i ≠ c → outCount w.links i ≤ itfPrealloc := by
  rw [checkAccesses, forall_mem_flatMap]
  constructor
  · intro hall i hi hne
    obtain ⟨m, hmod, hsized⟩ := h.other i hne hi
    exact (hsized.check_inside.mp (hall m (mem_of_getElem? hmod))).2
  · intro hall m hmem
    obtain ⟨i, hi, rfl⟩ := mem_iff_getElem.mp hmem
    have hcount := hparsed.tables.inCount_le i
    have hget := getElem?_eq_getElem hi
    rw [h.length_eq] at hi
    by_cases heq : i = c
    · subst heq
      obtain ⟨m, hmod, hsized⟩ := h.ctrl
      rw [hget, Option.some.injEq] at hmod
      rw [hmod]
      exact hsized.check_inside.mpr ⟨hcount, by omega⟩
    · obtain ⟨m, hmod, hsized⟩ := h.other i heq hi
      rw [hget, Option.some.injEq] at hmod
      rw [hmod]
      refine hsized.check_inside.mpr ⟨?_, hall i hi heq⟩
      split
      · next hafter =>
        have := hins i hafter.1 hi
        omega
      · exact hcount

lemma length_reallocPorts (junk : Port) (ports : List Port) :
    (reallocPorts junk ports n).length = n := by
  rw [reallocPorts, length_append, length_take, length_replicate]
  omega

/-- The table of the control module is cut or extended to its counter and one cleared port per
module; the connections start from there. -/
theorem extendCtrl_wiring (env : Env) (h : Parsed w) (hu : u.modules = w.modules)
    (hc : c < w.modules.length) :
    ∃ v, extendCtrl env u c = .ok v ∧ Wiring w c 0 v ∧
      (∃ ctrl, v.modules[c]? = some ctrl ∧ ctrl.index = c) ∧
      connectAutoCtrl env u c =
        (List.range' (c + 1) (w.modules.length - (c + 1))).foldlM (connectCtrl c) v := by
  obtain ⟨m, hm, hindex, hsized⟩ := h.sized hc
  obtain ⟨ports, hports, -⟩ := hsized.outputs
  rw [← hu] at hm
  let m' := { m with
    outputs := some (reallocPorts env.junk ports m.nofOutputs ++
      List.replicate u.modules.length Port.zero) }
  have hself : (setModule u c m').modules[c]? = some m' := by
    rw [modules_setModule, if_pos rfl, hm, Option.map_some]
  have hlength : (setModule u c m').modules.length = w.modules.length := by
    rw [setModule, length_set, hu]
  refine ⟨setModule u c m', ?_, ⟨hlength, ?_, ?_⟩, ⟨m', hself, hindex⟩, ?_⟩
  · exact bind_eq_ok.mpr ⟨m, moduleAt_ok.mpr hm, by simp only [hports]; rfl⟩
  · refine ⟨m', hself, hsized.inputs, hsized.nofInputs, ⟨_, rfl, ?_⟩, hsized.nofOutputs⟩
    rw [length_append, length_reallocPorts, length_replicate, hsized.nofOutputs, hu]
  · intro i hne hi
    obtain ⟨n, hn, -, hother⟩ := h.sized hi
    refine ⟨n, ?_, ?_⟩
    · rw [modules_setModule, if_neg hne.symm, hu, hn]
    · rwa [if_neg (by omega), add_zero]
  · rw [connectAutoCtrl, moduleAt_ok.mpr hm, ← hlength, ← hindex]
    simp only [bind, Except.bind, hports]
    rfl

lemma Sized.connectCtrl {ctrl : PModule} {ins' nofIns' outs' nofOuts' : ℕ}
    (hctrl : v.modules[c]? = some ctrl) (hm : v.modules[i]? = some m)
    (hc : Sized ctrl ins nofIns outs nofOuts) (hi : Sized m ins' nofIns' outs' nofOuts')
    (hout : nofOuts < outs) (hin : nofIns' < ins') :
    ∃ ctrl' m', Manager.connectCtrl c v i = .ok (setModule (setModule v c ctrl') i m') ∧
      Sized ctrl' ins nofIns outs (nofOuts + 1) ∧ Sized m' ins' (nofIns' + 1) outs' nofOuts' := by
  obtain ⟨outPorts, houts, houtlen⟩ := hc.outputs
  obtain ⟨inPorts, hins, hinlen⟩ := hi.inputs
  have hout' : ctrl.nofOutputs < outPorts.length := by rwa [hc.nofOutputs, houtlen]
  have hin' : m.nofInputs < inPorts.length := by rwa [hi.nofInputs, hinlen]
  refine ⟨_, _, bind_eq_ok.mpr ⟨ctrl, moduleAt_ok.mpr hctrl, bind_eq_ok.mpr ⟨m, moduleAt_ok.mpr hm,
    bind_eq_ok.mpr ⟨outPorts[ctrl.nofOutputs],
      portAt_ok.mpr ⟨outPorts, houts, getElem?_eq_getElem hout'⟩, bind_eq_ok.mpr
        ⟨inPorts[m.nofInputs],
          portAt_ok.mpr ⟨inPorts, hins, getElem?_eq_getElem hin'⟩, rfl⟩⟩⟩⟩, ?_, ?_⟩
  · refine ⟨hc.inputs, hc.nofInputs, ⟨_, congrArg (Option.map _) houts, ?_⟩,
      congrArg (· + 1) hc.nofOutputs⟩
    rw [length_set, houtlen]
  · refine ⟨⟨_, congrArg (Option.map _) hins, ?_⟩, congrArg (· + 1) hi.nofInputs, hi.outputs,
      hi.nofOutputs⟩
    rw [length_set, hinlen]

variable (h : Wiring w c k v) (hi : c + 1 + k < w.modules.length)

include h hi in
lemma Wiring.next : ∃ m, v.modules[c + 1 + k]? = some m ∧ Sized m (itfPrealloc + 1)
      (inCount w.links (c + 1 + k)) itfPrealloc (outCount w.links (c + 1 + k)) := by
  obtain ⟨m, hm, hsized⟩ := h.other (c + 1 + k) (by omega) hi
  rw [if_neg (by omega)] at hsized
  exact ⟨m, hm, hsized⟩

include h hi in
/-- **Step lemma.** A connection to a module that has an input left. -/
theorem Wiring.connect (hroom : inCount w.links (c + 1 + k) ≤ itfPrealloc) :
    ∃ v', connectCtrl c v (c + 1 + k) = .ok v' ∧ Wiring w c (k + 1) v' := by
  obtain ⟨ctrl, hctrl, hsized⟩ := h.ctrl
  obtain ⟨m, hm, hother⟩ := h.next hi
  obtain ⟨ctrl', m', hok, hctrl', hm'⟩ :=
    Sized.connectCtrl hctrl hm hsized hother (by omega) (by omega)
  refine ⟨_, hok, by simpa [setModule] using h.length_eq, ⟨ctrl', ?_, hctrl'⟩, ?_⟩
  · rw [modules_setModule, if_neg (by omega), modules_setModule, if_pos rfl, hctrl, Option.map_some]
  · intro i hne hlt
    rcases eq_or_ne (c + 1 + k) i with rfl | hnext
    · refine ⟨m', ?_, by rwa [if_pos (by omega)]⟩
      rw [modules_setModule, if_pos rfl, modules_setModule, if_neg hne.symm, hm, Option.map_some]
    · obtain ⟨n, hn, hn'⟩ := h.other i hne hlt
      have hsame : (c < i ∧ i ≤ c + (k + 1)) ↔ c < i ∧ i ≤ c + k := by omega
      refine ⟨n, ?_, by rwa [if_congr hsame rfl rfl]⟩
      rw [modules_setModule, if_neg hnext, modules_setModule, if_neg hne.symm, hn]

/-- **Run lemma.** The connections to the first `n` modules after the control module. -/
theorem Wiring.run (h : Wiring w c 0 v) (hn : c + 1 + n ≤ w.modules.length)
    (hroom : ∀ i, c < i → i < c + 1 + n → inCount w.links i ≤ itfPrealloc) :
    ∃ v', (List.range' (c + 1) n).foldlM (connectCtrl c) v = .ok v' ∧ Wiring w c n v' := by
  obtain ⟨v', hok, hv'⟩ := foldlM_range'_total (f := connectCtrl c) (a := c + 1) (n := n) (s := v)
    (fun i u => Wiring w c (i - (c + 1)) u) (fun i u hle hlt hu => by
      obtain ⟨u', hok, hu'⟩ := hu.connect (by omega) (hroom _ (by omega) (by omega))
      rw [show c + 1 + (i - (c + 1)) = i by omega] at hok
      exact ⟨u', hok, by rwa [show i + 1 - (c + 1) = i - (c + 1) + 1 by omega]⟩)
    (by rwa [Nat.sub_self])
  exact ⟨v', hok, by rwa [Nat.add_sub_cancel_left] at hv'⟩

include h hi in
lemma Wiring.ctrl_inside : (∀ a ∈ ctrlAccesses c v (c + 1 + k), a.Inside) ↔
      inCount w.links (c + 1 + k) ≤ itfPrealloc := by
  obtain ⟨ctrl, hctrl, hsized⟩ := h.ctrl
  obtain ⟨m, hm, hother⟩ := h.next hi
  obtain ⟨outs, houts, houtlen⟩ := hsized.outputs
  obtain ⟨ins, hins, hinlen⟩ := hother.inputs
  have hout : (⟨ctrl.outputs, ctrl.nofOutputs⟩ : Access).Inside := by
    refine ⟨outs, houts, ?_⟩
    change ctrl.nofOutputs < outs.length
    rw [hsized.nofOutputs, houtlen]
    omega
  have hin : (⟨m.inputs, m.nofInputs⟩ : Access).Inside ↔
      inCount w.links (c + 1 + k) ≤ itfPrealloc := by
    rw [← Nat.lt_succ_iff, ← hother.nofInputs, Nat.succ_eq_add_one, ← hinlen]
    constructor
    · rintro ⟨ports, hports, hlt⟩
      cases hins.symm.trans hports
      exact hlt
    · intro hlt
      exact ⟨ins, hins, hlt⟩
  rw [ctrlAccesses, hctrl, hm, forall_mem_cons, forall_mem_singleton, hin]
  exact and_iff_right hout

/-- The connections stay in the tables exactly when every module after the control module has an
input left. -/
theorem Wiring.loop_inside (h : Wiring w c 0 v) : (∀ a ∈ loopLog (connectCtrl c) (ctrlAccesses c)
      (List.range' (c + 1) (w.modules.length - (c + 1))) v, a.Inside) ↔
      ∀ i, c < i → i < w.modules.length → inCount w.links i ≤ itfPrealloc := by
  constructor
  · intro hall i
    induction i using Nat.strong_induction_on with
    | h i ih =>
      intro hci hi
      obtain ⟨k, rfl⟩ := Nat.exists_eq_add_of_lt hci
      rw [add_right_comm] at hi ih ⊢
      obtain ⟨v', hok, hv'⟩ := h.run (n := k) (by omega) (fun i hci' hi' =>
        ih i (by omega) hci' (by omega))
      refine (hv'.ctrl_inside hi).mp fun a ha => hall a ?_
      have hsplit : w.modules.length - (c + 1) = k + ((w.modules.length - (c + 2 + k)) + 1) := by
        omega
      rw [hsplit, ← range'_append_1, range'_succ]
      exact mem_loopLog_of_reached hok ha
  · intro hroom
    refine forall_mem_loopLog_range' (fun i u => Wiring w c (i - (c + 1)) u) ?_ ?_
      (by rwa [Nat.sub_self])
    · intro i u u' hle hlt hu hok
      obtain ⟨u'', hok', hu''⟩ := hu.connect (by omega) (hroom _ (by omega) (by omega))
      rw [show c + 1 + (i - (c + 1)) = i by omega, hok] at hok'
      cases hok'
      rwa [show i + 1 - (c + 1) = i - (c + 1) + 1 by omega]
    · intro i u hle hlt hu
      have hi : i = c + 1 + (i - (c + 1)) := by omega
      rw [hi]
      exact (hu.ctrl_inside (by omega)).mpr (hroom _ (by omega) (by omega))

lemma lt_of_findModuleName (h : findModuleName w name = some c) : c < w.modules.length :=
  (findIdx?_eq_some_iff_getElem.mp h).1

lemma Parsed.main_inside (h : Parsed w)
    (hname : cfg.bind (·.lookupString "auto_ctrl_module") = some name)
    (hfind : findModuleName w name = some c) :
    (∀ a ∈ mainAccesses env w cfg, a.Inside) ↔
      ∀ i, c < i → i < w.modules.length → inCount w.links i ≤ itfPrealloc := by
  obtain ⟨v, hext, hv, ⟨ctrl, hctrl, hindex⟩, -⟩ :=
    extendCtrl_wiring env h rfl (lt_of_findModuleName hfind)
  simp only [mainAccesses, hname, hfind, hext, andThen, hctrl, hindex]
  rw [forall_mem_append, hv.loop_inside]
  refine and_iff_right ?_
  rw [forall_mem_map]
  intro p hp
  obtain ⟨m, hm, hsized⟩ := hv.ctrl
  cases hctrl.symm.trans hm
  obtain ⟨outs, houts, houtlen⟩ := hsized.outputs
  refine ⟨outs, houts, ?_⟩
  have hlt := (mem_range'_1.mp hp).2
  rw [hsized.nofOutputs] at hlt
  rw [houtlen]
  exact hlt

lemma Parsed.mainConfig_wiring (env : Env) (h : Parsed w)
    (hname : cfg.bind (·.lookupString "auto_ctrl_module") = some name)
    (hfind : findModuleName w name = some c)
    (hroom : ∀ i, c < i → i < w.modules.length → inCount w.links i ≤ itfPrealloc) :
    ∃ v, waveformMainConfig env w cfg = .ok v ∧ Wiring w c (w.modules.length - (c + 1)) v := by
  cases cfg with
  | none => cases hname
  | some cfg =>
    let u := { w with
      granularityUs := (cfg.lookupInt "waveform_granularity_us").getD 0
      precachPipeline := (cfg.lookupBool "precach_pipeline").getD false
      autoCtrlModule := some c }
    have hc := lt_of_findModuleName hfind
    obtain ⟨v, -, hv, -, hconnect⟩ := extendCtrl_wiring (u := u) env h rfl hc
    obtain ⟨v', hok, hv'⟩ := hv.run (n := w.modules.length - (c + 1)) (by omega)
      (fun i hci hi => hroom i hci (by omega))
    refine ⟨v', ?_, hv'⟩
    rw [← hok, ← hconnect]
    simp only [Option.bind_some] at hname
    unfold findModuleName at hfind
    simp only [waveformMainConfig, hname, findModuleName, hfind]
    rfl

lemma mainConfig_of_none (env : Env) (hname : cfg.bind (·.lookupString "auto_ctrl_module") = none) :
    ∃ v, waveformMainConfig env w cfg = .ok v ∧ v.modules = w.modules := by
  cases cfg with
  | none => exact ⟨_, rfl, rfl⟩
  | some cfg =>
    simp only [Option.bind_some] at hname
    simp only [waveformMainConfig, hname]
    exact ⟨_, rfl, rfl⟩

lemma Parsed.close_inside (h : Parsed w) :
    (∀ a ∈ (Call.close w root).accesses env, a.Inside) ↔ CloseFits w root := by
  rw [Call.accesses, forall_mem_append]
  cases hname : ctrlName root with
  | none =>
    obtain ⟨v, hok, hmodules⟩ := mainConfig_of_none (w := w) env hname
    rw [hok, mainAccesses, show (root.member "main").bind _ = none from hname]
    refine Iff.trans ?_ (Iff.trans (h.check_inside hmodules) ?_)
    · exact and_iff_right (forall_mem_nil _)
    · constructor
      · intro houts
        exact ⟨fun name hsome => (by rw [hname] at hsome; cases hsome), fun i hi _ => houts i hi⟩
      · intro hfits i hi
        refine hfits.outputs i hi fun hsome => ?_
        rw [hname] at hsome
        cases hsome
  | some name =>
    cases hfind : findModuleName w name with
    | none =>
      -- the null pointer is followed although the source has just warned about it
      refine iff_of_false ?_ ?_
      · rintro ⟨hmain, -⟩
        rw [mainAccesses, show (root.member "main").bind _ = some name from hname] at hmain
        simp only [hfind] at hmain
        obtain ⟨ports, hports, -⟩ := hmain _ (mem_singleton.mpr rfl)
        cases hports
      · intro hfits
        obtain ⟨c, hc, -⟩ := hfits.ctrl name hname
        cases hfind.symm.trans hc
    | some c =>
      rw [h.main_inside hname hfind]
      constructor
      · rintro ⟨hroom, hcheck⟩
        obtain ⟨v, hok, hv⟩ := h.mainConfig_wiring env hname hfind hroom
        rw [hok] at hcheck
        have houts := (hv.check_inside (by omega) h (lt_of_findModuleName hfind) hroom).mp
          hcheck
        refine ⟨fun name' hname' => ?_, fun i hi hne => ?_⟩
        · cases hname.symm.trans hname'
          exact ⟨c, hfind, hroom⟩
        · rw [hname, Option.bind_some, hfind] at hne
          exact houts i hi fun heq => hne (congrArg some heq.symm)
      · intro hfits
        obtain ⟨c', hc', hroom⟩ := hfits.ctrl name hname
        cases hfind.symm.trans hc'
        obtain ⟨v, hok, hv⟩ := h.mainConfig_wiring env hname hfind hroom
        refine ⟨hroom, ?_⟩
        rw [hok]
        refine (hv.check_inside (by omega) h (lt_of_findModuleName hfind) hroom).mpr ?_
        intro i hi hne
        refine hfits.outputs i hi ?_
        rw [hname, Option.bind_some, hfind]
        exact fun heq => hne (Option.some.inj heq).symm

end Close

/-! ## All accesses -/

section Result

variable {env : Env} {w w' : PWaveform} {cfg root : Setting} {path : List CStr}

lemma linkAccesses_subset {l : Link} (h : resolveLink w cfg = .ok l) :
    linkAccesses w l ⊆ interfaceAccesses w cfg := by
  intro a ha
  unfold interfaceAccesses
  split
  · exact mem_append_right _ (mem_andThen.mpr ⟨l, h, ha⟩)
  · next hnone =>
    unfold resolveLink at h
    split at h
    · next src dest hsrc hdest => exact absurd hdest (hnone src dest hsrc)
    · cases h

lemma Tables.interface_safe (h : Tables w) (hauto : w.autoCtrlModule = none) :
    (Call.interface path w cfg).Safe env ↔ InterfaceFits w cfg := by
  rw [← h.interface_inside hauto]
  refine ⟨Call.Safe.inside, fun hinside => ⟨hinside, ?_, ?_⟩⟩
  · intro path w cfg w' heq hok
    cases heq
    obtain ⟨l, hl, -⟩ := bind_eq_ok.mp hok
    exact ⟨l, hl, fun a ha => hinside a (linkAccesses_subset hl ha)⟩
  · intro w root name heq
    cases heq

lemma Parsed.close_safe (h : Parsed w) : (Call.close w root).Safe env ↔ CloseFits w root := by
  refine ⟨fun hsafe => h.close_inside.mp hsafe.inside, fun hfits => ⟨?_, ?_, ?_⟩⟩
  · exact h.close_inside.mpr hfits
  · intro path w cfg w' heq
    cases heq
  · intro w root name heq hname hfind
    cases heq
    obtain ⟨c, hc, -⟩ := hfits.ctrl name hname
    cases hfind.symm.trans hc

/-- **Theorem.** In a parse of any file the accesses to the port tables are safe exactly when
every interface and the end of the main model fit. -/
theorem port_accesses_iff (env : Env) (fuel : ℕ) (file : CStr) :
    (∀ c ∈ calls env fuel [] true (newWaveform file), c.Safe env) ↔
      ∀ c ∈ calls env fuel [] true (newWaveform file), c.Fits := by
  refine forall₂_congr fun c hc => ?_
  cases c with
  | interface path w cfg =>
    obtain ⟨htables, hauto⟩ := tables_of_call hc
    exact htables.interface_safe hauto
  | close w root => exact ((close_of_call hc).2 rfl).close_safe

end Result

def oneModule (main : List (CStr × Setting)) (interfaces : List Setting) : Env :=
  filesEnv [("main", .group [("main".toList, .group main),
    ("modules".toList, .group [("mod".toList, .group [("binary".toList, .string "mod".toList)])]),
    ("interfaces".toList, .list interfaces)])]

def highPort : Env := oneModule [] [.group [("src".toList, .list [.string "mod".toList, .int 100]),
    ("dest".toList, .string "_output".toList)]]

def missingCtrl : Env := oneModule [("auto_ctrl_module".toList, .string "ctrl".toList)]
    [.group [("src".toList, .string "_input".toList), ("dest".toList, .string "mod".toList)]]

/-- Output port 100 passes the check for `ITF_PREALLOC` and is not in the table of
`ITF_PREALLOC` ports; a control module that was not found is used all the same. -/
theorem port_accesses_outside :
    (∃ w cfg, calls highPort 1 [] true (newWaveform "main".toList) = [.interface [] w cfg] ∧
      resolveLink w cfg = .ok ⟨some 0, 100, none, 0⟩ ∧
      (∃ m, w.modules[0]? = some m ∧ (m.outputs.map List.length) = some 100) ∧
      readInterface w cfg = .error .fault ∧ ¬ (Call.interface [] w cfg).Safe highPort) ∧
    ∃ v w cfg root, calls missingCtrl 1 [] true (newWaveform "main".toList) =
        [.interface [] v cfg, .close w root] ∧
      ctrlName root = some "ctrl".toList ∧ findModuleName w "ctrl".toList = none ∧
      waveformMainConfig missingCtrl w (root.member "main") = .error .fault ∧
      ¬ (Call.close w root).Safe missingCtrl := by
  constructor
  · obtain ⟨w, cfg, hcalls, hlink, ⟨m, hm, hlength⟩, hfault⟩ : ∃ w cfg,
        calls highPort 1 [] true (newWaveform "main".toList) = [.interface [] w cfg] ∧
        resolveLink w cfg = .ok ⟨some 0, 100, none, 0⟩ ∧
        (∃ m, w.modules[0]? = some m ∧ (m.outputs.map List.length) = some 100) ∧
        readInterface w cfg = .error .fault :=
      ⟨_, _, rfl, rfl, ⟨_, rfl, rfl⟩, rfl⟩
    refine ⟨w, cfg, hcalls, hlink, ⟨m, hm, hlength⟩, hfault, fun hsafe => ?_⟩
    obtain ⟨ports, hports, hlt⟩ := hsafe.inside ⟨m.outputs, 100⟩ (linkAccesses_subset hlink (by
      rw [linkAccesses, Option.toList_some, map_singleton, hm]
      exact mem_append_left _ (mem_singleton.mpr rfl)))
    change m.outputs = some ports at hports
    rw [hports, Option.map_some, Option.some.injEq] at hlength
    exact ne_of_lt hlt hlength.symm
  · refine ⟨_, _, _, _, rfl, rfl, rfl, rfl, fun hsafe => ?_⟩
    -- the call would have to be refused
    cases hsafe.reported _ _ _ rfl rfl rfl

end Aloe.Manager
