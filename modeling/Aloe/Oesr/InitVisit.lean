import Aloe.Oesr.InitWiring

/-!
# A visit of the initialisation

What a call of `nod_module_init` leaves that does not fail, for a module of the plain skeleton and
whatever the graph, the runtime and `initialize` are: its outputs are made, and it is done exactly
if all outputs that feed its inputs are (`nodModuleInit_visits`). Its control input is attached
then or stays null, and the call does not mind.
-/

namespace Aloe.Oesr.Skeleton

open Lib Function List Skeleton.Module EStateM

/-! ## Functions that refuse -/

def Refuses {σ α : Type} (p : EStateM Exit σ α) : Prop :=
  ∀ s e s', p s = .error e s' → e = .ret (-1) ∨ e = .fault

section Refusing

variable {σ α β : Type}

lemma Refuses.bind {p : EStateM Exit σ α} {f : α → EStateM Exit σ β} (hp : Refuses p)
    (hf : ∀ a, Refuses (f a)) : Refuses (p >>= f) := by
  intro s e s' h
  cases hrun : p s with
  | error e' s1 =>
    rw [bind_of_error hrun] at h
    cases h
    exact hp s e s' hrun
  | ok a s1 =>
    rw [bind_of_ok hrun] at h
    exact hf a s1 e s' h

lemma refuses_pure (a : α) : Refuses (pure a : EStateM Exit σ α) := fun _ _ _ h => by cases h

lemma refuses_throw : Refuses (throw (.ret (-1)) : EStateM Exit σ α) := by
  intro s e s' h
  cases h
  exact .inl rfl

lemma refuses_mapM {p : α → EStateM Exit σ β} (h : ∀ a, Refuses (p a)) (as : List α) :
    Refuses (as.mapM p) := by
  induction as with
  | nil => exact refuses_pure []
  | cons a as ih =>
    rw [mapM_cons]
    exact (h a).bind fun b => ih.bind fun bs => refuses_pure _

lemma refuses_forM {p : α → EStateM Exit σ Unit} (h : ∀ a, Refuses (p a)) (as : List α) :
    Refuses (as.forM p) := by
  induction as with
  | nil => exact refuses_pure ()
  | cons a as ih => exact (h a).bind fun _ => ih

lemma Refuses.past {p : Prog α} {f : α → Prog ℤ} {s s' : State} {n : ℤ} (hp : Refuses p)
    (h : returning (p >>= f) s = .ok n s') (hn : n ≠ -1) :
    ∃ a s1, p s = .ok a s1 ∧ returning (f a) s1 = .ok n s' := by
  rw [returning] at h
  cases hrun : p s with
  | ok a s1 =>
    rw [bind_of_ok hrun] at h
    exact ⟨a, s1, rfl, h⟩
  | error e s1 =>
    rw [bind_of_error hrun] at h
    obtain rfl | rfl := hp s e s1 hrun
    · obtain ⟨rfl, -⟩ := Result.ok.inj h
      exact absurd rfl hn
    · cases h

end Refusing

/-! ## Inputs and the outputs that feed them -/

def feeder (w : Waveform) (x : ℕ × ℕ) : Option (ℕ × ℕ) := do
  let receiver ← w[x.1]?
  let inp ← receiver.inputs[x.2]?
  let (remote, k) ← nodWaveformFindModuleId w inp.remoteModuleId
  if 0 ≤ inp.remotePortIdx ∧ inp.remotePortIdx < remote.outputs.length then
    some (k, inp.remotePortIdx.toNat)
  else none

structure Internal (w : Waveform) : Prop where
  inputs : ∀ m ∈ w, ∀ inp ∈ m.inputs, inp.physicItfId = 0
  outputs : ∀ m ∈ w, ∀ out ∈ m.outputs, out.physicItfId = 0

def Made (s : State) (y : ℕ × ℕ) : Prop := (s.modules y.1).hwOutput y.2 ≠ none

def Fed (w : Waveform) (s : State) (x : ℕ × ℕ) : Prop := ∃ y, feeder w x = some y ∧ Made s y

/-! ## Creating outputs -/

/-- Outputs of module `i`, whose physical ids are `itfs`, were opened at `ports`. -/
structure Opens (i : ℕ) (itfs : List ℤ) (ports : List ℕ) (s s' : State) : Prop where
  others : ∀ j, j ≠ i → s'.modules j = s.modules j
  own : ∃ hwOutput code, s'.modules i = { s.modules i with hwOutput := hwOutput, error := code }
  kept : ∀ q, q ∉ ports ∨ itfs[q]? = none → (s'.modules i).hwOutput q = (s.modules i).hwOutput q
  opened : ∀ q ∈ ports, itfs[q]? = some 0 → ∃ n, (s'.modules i).hwOutput q = some (.queue n)

section Writing

variable {runtime : Runtime} {w : Waveform} {i port size : ℕ} {m : Module} {s s' s1 s2 : State}
  {itfs : List ℤ} {ports : List ℕ} {created : Bool}

lemma Opens.nil : Opens i itfs [] s s :=
  ⟨fun _ _ => rfl, ⟨_, _, rfl⟩, fun _ _ => rfl, fun _ h => by cases h⟩

lemma Opens.cons (h : Opens i itfs [port] s s1) (h' : Opens i itfs ports s1 s2) :
    Opens i itfs (port :: ports) s s2 := by
  refine ⟨fun j hj => (h'.others j hj).trans (h.others j hj), ?_, fun q hq => ?_, fun q hq h0 => ?_⟩
  · obtain ⟨hw, code, hown⟩ := h.own
    obtain ⟨hw', code', hown'⟩ := h'.own
    exact ⟨hw', code', by rw [hown', hown]⟩
  · rw [mem_cons, not_or] at hq
    rw [h'.kept q (hq.imp_left And.right),
      h.kept q (hq.imp_left fun hne => mem_singleton.not.mpr hne.1)]
  · by_cases hmem : q ∈ ports
    · exact h'.opened q hmem h0
    · obtain rfl : q = port := (mem_cons.mp hq).resolve_right hmem
      rw [h'.kept q (.inl hmem)]
      exact h.opened q (mem_singleton_self q) h0

lemma Opens.single {queues : List Rtdal.Itfspscq.Itf} {hw : Option Handle} {code : ErrorCode}
    (hport : itfs[port]? ≠ none) (hhw : itfs[port]? = some 0 → ∃ n, hw = some (.queue n)) :
    Opens i itfs [port] s ({ s with queues := queues }.modify i fun ms =>
      { ms with hwOutput := update ms.hwOutput port hw, error := code }) := by
  refine ⟨fun j hj => modify_of_ne _ hj, ⟨_, _, modify_self _⟩, fun q hq => ?_, fun q hq h0 => ?_⟩
  · rw [modify_self]
    apply update_of_ne
    rintro rfl
    exact hq.elim (fun hq => hq (mem_singleton_self q)) hport
  · obtain rfl := mem_singleton.mp hq
    rw [modify_self]
    dsimp only
    rw [update_self]
    exact hhw h0

lemma create_write_cases (h : oesrItfCreate runtime w i m port .write size s = .ok created s') :
    (created = false ∧ m.outputs[port]? = none ∧ s' = s.setError i .notFound) ∨
      (created = false ∧ runtime.itfspscqNew s.queues.length = false ∧ s' = s.setError i .rtdal) ∨
      (created = true ∧ port < m.outputs.length ∧
        Opens i (m.outputs.map Interface.physicItfId) [port] s s') := by
  cases hout : m.outputs[port]? with
  | none =>
    have hrun : oesrItfCreate runtime w i m port .write size s =
        .ok false (s.setError i .notFound) := by simp [oesrItfCreate, ports, hout]
    rw [hrun] at h
    cases h
    exact .inl ⟨rfl, rfl, rfl⟩
  | some out =>
    have hlt : port < m.outputs.length := (List.getElem?_eq_some_iff.mp hout).1
    have hid : (m.outputs.map Interface.physicItfId)[port]? = some out.physicItfId := by
      rw [getElem?_map, hout, Option.map_some]
    by_cases hinternal : out.physicItfId = 0
    · cases hnew : runtime.itfspscqNew s.queues.length with
      | false =>
        have hrun : oesrItfCreate runtime w i m port .write size s =
            .ok false (s.setError i .rtdal) := by
          simp [oesrItfCreate, ports, hout, hinternal, hnew]
        rw [hrun] at h
        cases h
        exact .inr (.inl ⟨rfl, rfl, rfl⟩)
      | true =>
        have hrun : oesrItfCreate runtime w i m port .write size s =
            .ok true ({ s with queues := s.queues ++ [newQueue out size] }.modify i fun ms =>
              { ms with
                hwOutput := update ms.hwOutput port (some (.queue s.queues.length))
                error := (s.modules i).error }) := by
          simp [oesrItfCreate, ports, hout, hinternal, hnew, State.plug, State.modify]
        rw [hrun] at h
        cases h
        exact .inr (.inr ⟨rfl, hlt, .single (hid ▸ Option.some_ne_none _) fun _ => ⟨_, rfl⟩⟩)
    · obtain ⟨hw, code, -, hrun⟩ : ∃ hw code, queueNumber hw = none ∧
          oesrItfCreate runtime w i m port .write size s = .ok true (s.modify i fun ms =>
            { ms with hwOutput := update ms.hwOutput port hw, error := code }) :=
        create_write_physic hout hinternal size
      rw [hrun] at h
      cases h
      refine .inr (.inr ⟨rfl, hlt, .single (hid ▸ Option.some_ne_none _) fun h0 =>
        absurd ?_ hinternal⟩)
      rw [hid] at h0
      exact Option.some.inj h0

lemma opens_setError (code : ErrorCode) (hport : itfs[port]? = none) :
    Opens i itfs [port] s (s.setError i code) := by
  refine ⟨fun j hj => modify_of_ne _ hj, ⟨_, _, modify_self _⟩, fun q _ => ?_, fun q hq h0 => ?_⟩
  · rw [State.setError, modify_self]
  · obtain rfl := mem_singleton.mp hq
    rw [hport] at h0
    cases h0

lemma create_write_returns (s : State) :
    ∃ created s', oesrItfCreate runtime w i m port .write size s = .ok created s' := by
  rw [oesrItfCreate]
  split
  · exact ⟨_, _, rfl⟩
  · split
    · split
      all_goals exact ⟨_, _, rfl⟩
    · dsimp only
      split
      all_goals exact ⟨_, _, rfl⟩

end Writing

section Reading

variable {runtime : Runtime} {w : Waveform} {i port size : ℕ} {m : Module} {s s' : State}
  {created : Bool}

lemma create_read_ok (hw : Internal w) (hi : w[i]? = some m)
    (h : oesrItfCreate runtime w i m port .read size s = .ok created s') :
    (created = true ∧ ∃ y hw, feeder w (i, port) = some y ∧
        (s.modules y.1).hwOutput y.2 = some hw ∧ s' = s.plug i .read port (some hw)) ∨
      (created = false ∧ ¬ Fed w s (i, port) ∧ ∃ code, s' = s.setError i code ∧
        (code = .notReady ↔ feeder w (i, port) ≠ none)) := by
  have hnone : feeder w (i, port) = none → ¬ Fed w s (i, port) := by
    rintro hfeeder ⟨y, hy, -⟩
    rw [hfeeder] at hy
    cases hy
  rw [oesrItfCreate, ports] at h
  cases hinp : m.inputs[port]? with
  | none =>
    have hfeeder : feeder w (i, port) = none := by simp [feeder, hi, hinp]
    rw [hinp] at h
    cases h
    exact .inr ⟨rfl, hnone hfeeder, _, rfl, by simp [hfeeder]⟩
  | some inp =>
    have hinternal : inp.physicItfId = 0 :=
      hw.inputs m (mem_of_getElem? hi) inp (mem_of_getElem? hinp)
    rw [hinp] at h
    dsimp only at h
    rw [if_neg (not_not.mpr hinternal)] at h
    cases hfind : nodWaveformFindModuleId w inp.remoteModuleId with
    | none =>
      have hfeeder : feeder w (i, port) = none := by simp [feeder, hi, hinp, hfind]
      rw [hfind] at h
      cases h
      exact .inr ⟨rfl, hnone hfeeder, _, rfl, by simp [hfeeder]⟩
    | some r =>
      obtain ⟨remote, k⟩ := r
      rw [hfind] at h
      dsimp only at h
      split at h
      · rename_i hpast
        have hfeeder : feeder w (i, port) = none := by
          simp only [feeder, hi, hinp, hfind, Option.bind_eq_bind, Option.bind_some]
          exact if_neg fun hin => absurd hin.2 (not_lt.mpr hpast.le)
        cases h
        exact .inr ⟨rfl, hnone hfeeder, _, rfl, by simp [hfeeder]⟩
      · split at h
        · rename_i hin
          have hfeeder : feeder w (i, port) = some (k, inp.remotePortIdx.toNat) := by
            simp only [feeder, hi, hinp, hfind, Option.bind_eq_bind, Option.bind_some]
            exact if_pos hin
          split at h
          · rename_i hout
            cases h
            refine .inr ⟨rfl, ?_, _, rfl, by simp [hfeeder]⟩
            rintro ⟨y, hy, hmade⟩
            obtain rfl := Option.some.inj (hfeeder.symm.trans hy)
            exact hmade hout
          · rename_i handle hout
            cases h
            exact .inl ⟨rfl, _, handle, hfeeder, hout, rfl⟩
        · cases h

lemma create_read_error {e : Exit} (h : oesrItfCreate runtime w i m port .read size s =
    .error e s') :
    e = .fault := by
  rw [oesrItfCreate] at h
  split at h
  · cases h
  · split at h
    · split at h
      all_goals cases h
    · dsimp only at h
      split at h
      · cases h
      · grind

end Reading

/-! ## A module of the plain skeleton -/

def Module.ctrlPort (m : Module) : ℕ := m.inputs.length - 1

/-- What the static memory of module `i` says about its ports is so. -/
structure Sound (w : Waveform) (i : ℕ) (m : Module) (s : State) : Prop where
  flags : ∀ q < m.outputs.length, (s.modules i).outputs q = true ↔ Made s (i, q)
  cleared : (s.modules i).memOk = false →
    ∀ p, (s.modules i).inputs p = false ∧ (s.modules i).outputs p = false
  found : ∀ p, (s.modules i).inputs p = true → Fed w s (i, p)
  attached : (s.modules i).memOk = true → (s.modules i).ctrlIn = true →
    m.nofInputItf < m.inputs.length ∧ ∃ y, feeder w (i, m.ctrlPort) = some y ∧ Made s y ∧
      (s.modules i).hwInput m.ctrlPort = (s.modules y.1).hwOutput y.2

/-- What a part of `Init` of module `i` does to the outputs that others look at: it may make some
of the own ones. -/
structure Extends (i : ℕ) (s s' : State) : Prop where
  others : ∀ j, j ≠ i → s'.modules j = s.modules j
  kept : ∀ q, Made s (i, q) → (s'.modules i).hwOutput q = (s.modules i).hwOutput q
  queues : ∀ q hw, (s'.modules i).hwOutput q = some hw →
    (s.modules i).hwOutput q = some hw ∨ ∃ n, hw = .queue n

structure Leaves (i : ℕ) (s s' : State) : Prop where
  others : ∀ j, j ≠ i → s'.modules j = s.modules j
  hwOutput : (s'.modules i).hwOutput = (s.modules i).hwOutput

/-- A part of `Init` of module `i` that makes no outputs. -/
structure Reads (i : ℕ) (s s' : State) : Prop extends Leaves i s s' where
  status : (s'.modules i).status = (s.modules i).status

/-- Between two ports in `Init` of module `i`, which begins with its memory. -/
structure Running (w : Waveform) (i : ℕ) (m : Module) (s : State) : Prop extends Sound w i m s where
  memOk : (s.modules i).memOk = true

/-- What the first loop of `init_interfaces` leaves: those outputs that satisfy `P` are made. -/
structure Makes (w : Waveform) (i : ℕ) (m : Module) (P : ℕ → Prop) (s s' : State) : Prop where
  grows : Extends i s s'
  status : (s'.modules i).status = (s.modules i).status
  running : Running w i m s'
  made : ∀ q, Made s' (i, q) ↔ Made s (i, q) ∨ (P q ∧ q < m.outputs.length)

section Parts

variable {runtime : Runtime} {w : Waveform} {i j p port : ℕ} {m : Module} {s s' s1 s2 : State}
  {x y : ℕ × ℕ} {f : ModuleState → ModuleState} {n : ℤ}

lemma Extends.refl (s : State) : Extends i s s :=
  ⟨fun _ _ => rfl, fun _ _ => rfl, fun _ _ h => .inl h⟩

lemma Extends.hwOutput_eq (h : Extends i s s') (hy : Made s y) :
    (s'.modules y.1).hwOutput y.2 = (s.modules y.1).hwOutput y.2 := by
  by_cases hk : y.1 = i
  · rw [hk]
    exact h.kept y.2 (hk ▸ hy)
  · rw [h.others y.1 hk]

lemma Extends.made (h : Extends i s s') (hy : Made s y) : Made s' y := by
  rw [Made, h.hwOutput_eq hy]
  exact hy

lemma Extends.fed (h : Extends i s s') (hx : Fed w s x) : Fed w s' x :=
  hx.imp fun _ hy => ⟨hy.1, h.made hy.2⟩

lemma Extends.trans (h : Extends i s s1) (h' : Extends i s1 s2) : Extends i s s2 where
  others := fun j hj => (h'.others j hj).trans (h.others j hj)
  kept := fun q hq => (h'.kept q (h.made hq)).trans (h.kept q hq)
  queues := fun q hw hq => (h'.queues q hw hq).elim (h.queues q hw) .inr

lemma Sound.extends (h : Sound w j m s) (hne : j ≠ i) (hext : Extends i s s') : Sound w j m s' := by
  have hmade : ∀ q, Made s' (j, q) ↔ Made s (j, q) := by
    intro q
    rw [Made, Made, hext.others j hne]
  have hsame := hext.others j hne
  refine ⟨fun q hq => ?_, ?_, fun p hp => ?_, fun hmem hctrl => ?_⟩
  · rw [hsame, hmade]
    exact h.flags q hq
  · rw [hsame]
    exact h.cleared
  · rw [hsame] at hp
    exact hext.fed (h.found p hp)
  · rw [hsame] at hmem hctrl ⊢
    obtain ⟨hlt, y, hy, hmadeY, heq⟩ := h.attached hmem hctrl
    exact ⟨hlt, y, hy, hext.made hmadeY, heq.trans (hext.hwOutput_eq hmadeY).symm⟩

lemma Leaves.grows (h : Leaves i s s') : Extends i s s' :=
  ⟨h.others, fun q _ => congrFun h.hwOutput q, fun _ _ hq => .inl (h.hwOutput ▸ hq)⟩

lemma Leaves.hwOutput_eq (h : Leaves i s s') (y : ℕ × ℕ) :
    (s'.modules y.1).hwOutput y.2 = (s.modules y.1).hwOutput y.2 := by
  by_cases hk : y.1 = i
  · rw [hk, h.hwOutput]
  · rw [h.others y.1 hk]

lemma Leaves.made_iff (h : Leaves i s s') : Made s' y ↔ Made s y := by
  rw [Made, Made, h.hwOutput_eq]

lemma Leaves.fed_iff (h : Leaves i s s') : Fed w s' x ↔ Fed w s x := by
  simp only [Fed, h.made_iff]

lemma leaves_modify
    (hout : (f (s.modules i)).hwOutput = (s.modules i).hwOutput) : Leaves i s (s.modify i f) := by
  refine ⟨fun j hj => modify_of_ne f hj, ?_⟩
  rwa [modify_self]

lemma Reads.refl (s : State) : Reads i s s := ⟨⟨fun _ _ => rfl, rfl⟩, rfl⟩

lemma Reads.trans (h : Reads i s s1) (h' : Reads i s1 s2) : Reads i s s2 where
  others := fun j hj => (h'.others j hj).trans (h.others j hj)
  status := h'.status.trans h.status
  hwOutput := h'.hwOutput.trans h.hwOutput

lemma reads_modify (hstatus : (f (s.modules i)).status = (s.modules i).status)
    (hout : (f (s.modules i)).hwOutput = (s.modules i).hwOutput) : Reads i s (s.modify i f) :=
  ⟨leaves_modify hout, by rwa [modify_self]⟩

lemma Running.leaves (h : Running w i m s) (hleaves : Leaves i s s')
    (hflags : ∀ q < m.outputs.length, (s'.modules i).outputs q = (s.modules i).outputs q)
    (hmem : (s'.modules i).memOk = (s.modules i).memOk)
    (hfound : ∀ p, (s'.modules i).inputs p = true → (s.modules i).inputs p = true ∨ Fed w s (i, p))
    (hattached : (s'.modules i).ctrlIn = true → m.nofInputItf < m.inputs.length ∧
      ∃ y, feeder w (i, m.ctrlPort) = some y ∧ Made s y ∧
        (s'.modules i).hwInput m.ctrlPort = (s.modules y.1).hwOutput y.2) :
    Running w i m s' where
  flags := fun q hq => by
    rw [hflags q hq, hleaves.made_iff]
    exact h.flags q hq
  cleared := fun hclear => by
    rw [hmem, h.memOk] at hclear
    cases hclear
  found := fun p hp => by
    rw [hleaves.fed_iff]
    exact (hfound p hp).elim (h.found p) id
  attached := fun _ hctrl => by
    obtain ⟨hlt, y, hy, hmade, heq⟩ := hattached hctrl
    exact ⟨hlt, y, hy, hleaves.made_iff.mpr hmade, by rw [hleaves.hwOutput_eq, heq]⟩
  memOk := hmem.trans h.memOk

/-! ### Outputs -/

lemma Opens.grows {outputs : List Interface} {ports : List ℕ}
    (hinternal : ∀ out ∈ outputs, out.physicItfId = 0)
    (hopens : Opens i (outputs.map Interface.physicItfId) ports s s')
    (hnone : ∀ q, ¬ Made s (i, q)) :
    Extends i s s' ∧ ∀ q, Made s' (i, q) ↔ q < outputs.length ∧ q ∈ ports := by
  have hzero : ∀ q, q < outputs.length → (outputs.map Interface.physicItfId)[q]? = some 0 := by
    intro q hq
    rw [getElem?_map, getElem?_eq_getElem hq, Option.map_some, hinternal _ (getElem_mem hq)]
  have hkept : ∀ q, ¬(q < outputs.length ∧ q ∈ ports) →
      (s'.modules i).hwOutput q = (s.modules i).hwOutput q := by
    intro q hq
    refine hopens.kept q ((not_and_or.mp hq).symm.imp_right fun hge => ?_)
    rw [List.getElem?_eq_none_iff, length_map]
    exact not_lt.mp hge
  refine ⟨⟨hopens.others, fun q hq => absurd hq (hnone q), fun q hw hq => ?_⟩, fun q => ?_⟩
  · by_cases hin : q < outputs.length ∧ q ∈ ports
    · obtain ⟨n, hqueue⟩ := hopens.opened q hin.2 (hzero q hin.1)
      exact .inr ⟨n, Option.some.inj (hq.symm.trans hqueue)⟩
    · exact .inl (hkept q hin ▸ hq)
  · by_cases hin : q < outputs.length ∧ q ∈ ports
    · obtain ⟨n, hqueue⟩ := hopens.opened q hin.2 (hzero q hin.1)
      exact iff_of_true (fun hnone => by cases hqueue.symm.trans hnone) hin
    · refine iff_of_false ?_ hin
      rw [Made, hkept q hin]
      exact hnone q

lemma Internal.physicItfId_eq (hw : Internal w) (hi : w[i]? = some m)
    (hlt : port < m.outputs.length) : (m.outputs.map Interface.physicItfId)[port]? = some 0 := by
  rw [getElem?_map, getElem?_eq_getElem hlt, Option.map_some,
    hw.outputs m (mem_of_getElem? hi) _ (getElem_mem hlt)]

variable (hw : Internal w) (hi : w[i]? = some m) (h : Running w i m s)

include hw hi h in
lemma Running.opens (hlt : port < m.outputs.length) (hopen : ¬ Made s (i, port))
    (hopens : Opens i (m.outputs.map Interface.physicItfId) [port] s s1) :
    Makes w i m (· = port) s (s1.modify i fun ms =>
      { ms with outputs := update ms.outputs port true }) := by
  have hkept : ∀ q, q ≠ port → (s1.modules i).hwOutput q = (s.modules i).hwOutput q :=
    fun q hq => hopens.kept q (.inl (mem_singleton.not.mpr hq))
  obtain ⟨n, hqueue⟩ := hopens.opened port (mem_singleton_self port) (hw.physicItfId_eq hi hlt)
  have hown : Made s1 (i, port) := fun hnone => by cases hqueue.symm.trans hnone
  obtain ⟨hwOutput, code, hms⟩ := hopens.own
  have hext : Extends i s s1 := by
    refine ⟨hopens.others, fun q hq => hkept q ?_, fun q hw hq => ?_⟩
    · rintro rfl
      exact hopen hq
    · grind
  have hreads : Reads i s1 (s1.modify i fun ms =>
      { ms with outputs := update ms.outputs port true }) := reads_modify rfl rfl
  have hmade : ∀ q, Made s1 (i, q) ↔ Made s (i, q) ∨ (q = port ∧ q < m.outputs.length) := by
    intro q
    by_cases hq : q = port
    · subst hq
      exact iff_of_true hown (.inr ⟨rfl, hlt⟩)
    · rw [Made, Made, hkept q hq, or_iff_left fun h => hq h.1]
  refine ⟨hext.trans hreads.grows, by rw [hreads.status, hms],
    ⟨⟨fun q hq => ?_, ?_, fun p hp => ?_, fun _ hctrl => ?_⟩, ?_⟩,
    fun q => hreads.made_iff.trans (hmade q)⟩
  · rw [modify_self, hreads.made_iff, hmade]
    by_cases hqp : q = port
    · subst hqp
      simp [hlt]
    · dsimp only
      rw [update_of_ne hqp, hms, or_iff_left fun h => hqp h.1]
      exact h.flags q hq
  · rw [modify_self, hms]
    exact fun hclear => by cases h.memOk.symm.trans hclear
  · rw [modify_self, hms] at hp
    exact hreads.fed_iff.mpr (hext.fed (h.found p hp))
  · rw [modify_self, hms] at hctrl
    obtain ⟨hlt, y, hy, hmadeY, heq⟩ := h.attached h.memOk hctrl
    refine ⟨hlt, y, hy, hreads.made_iff.mpr (hext.made hmadeY), ?_⟩
    rw [hreads.hwOutput_eq, hext.hwOutput_eq hmadeY, ← heq, modify_self, hms]
  · rw [modify_self, hms]
    exact h.memOk

lemma initOutput_created {created : Bool} (h : (s.modules i).outputs port = false)
    (hcreate : oesrItfCreate runtime w i m port .write m.outputSize s = .ok created s1)
    (hrun : initOutput runtime w i m port s = .ok () s') :
    created = true ∨ (s1.modules i).error = .notFound := by
  rw [initOutput, bind_of_ok moduleState_run, h, if_neg Bool.false_ne_true, bind_of_ok hcreate,
    bind_of_ok (setModule_run _), bind_of_ok moduleState_run, modify_self] at hrun
  by_contra hnot
  rw [if_neg hnot] at hrun
  cases hrun

include hw hi h in
lemma initOutput_ok
    (hrun : initOutput runtime w i m port s = .ok () s') : Makes w i m (· = port) s s' := by
  cases hflag : (s.modules i).outputs port with
  | true =>
    rw [initOutput_of_made hflag] at hrun
    cases hrun
    refine ⟨.refl s, rfl, h, fun q => ⟨.inl, ?_⟩⟩
    rintro (hmade | ⟨rfl, hlt⟩)
    · exact hmade
    · exact (h.flags q hlt).mp hflag
  | false =>
    obtain ⟨created, s1, hcreate⟩ : ∃ created s1,
        oesrItfCreate runtime w i m port .write m.outputSize s = .ok created s1 :=
      create_write_returns s
    obtain ⟨rfl, hnone, rfl⟩ | ⟨rfl, -, rfl⟩ | ⟨rfl, hlt, hopens⟩ := create_write_cases hcreate
    · -- an output that is not there is passed over
      have hge : m.outputs.length ≤ port := List.getElem?_eq_none_iff.mp hnone
      have hdone := initOutput_of_run hflag hcreate (.inr (by rw [State.setError, modify_self]))
      obtain ⟨-, rfl⟩ := Result.ok.inj (hdone.symm.trans hrun)
      rw [State.setError, modify_modify]
      have hreads : Reads i s (s.modify i fun ms => { ms with
          error := .notFound, outputs := update ms.outputs port false }) :=
        reads_modify rfl rfl
      refine ⟨hreads.grows, hreads.status, h.leaves hreads.toLeaves (fun q hq => ?_) ?_ ?_ ?_,
        fun q => ?_⟩
      · rw [modify_self]
        exact update_of_ne (by omega) ..
      · rw [modify_self]
      · rw [modify_self]
        exact fun p hp => .inl hp
      · rw [modify_self]
        exact h.attached h.memOk
      · rw [hreads.made_iff, or_iff_left (by omega)]
    · have hcode := (initOutput_created hflag hcreate hrun).resolve_left Bool.false_ne_true
      rw [State.setError, modify_self] at hcode
      cases hcode
    · have hdone := initOutput_of_run hflag hcreate (.inl rfl)
      obtain ⟨-, rfl⟩ := Result.ok.inj (hdone.symm.trans hrun)
      have hopen : ¬ Made s (i, port) := fun hmade => by
        cases hflag.symm.trans ((h.flags port hlt).mpr hmade)
      exact h.opens hw hi hlt hopen hopens

include hw hi h in
lemma initOutputs_ok
    (hrun : (List.range m.nofOutputItf).forM (initOutput runtime w i m) s = .ok () s') :
    Makes w i m (· < m.nofOutputItf) s s' := by
  have hround : ∀ n < m.nofOutputItf, ∀ s1, Makes w i m (· < n) s s1 →
      (∃ s2, initOutput runtime w i m n s1 = .ok () s2 ∧ Makes w i m (· < n + 1) s s2) ∨
        ∃ e s2, initOutput runtime w i m n s1 = .error e s2 ∧ True := by
    intro n _ s1 hmakes
    cases hone : initOutput runtime w i m n s1 with
    | error e s2 => exact .inr ⟨e, s2, rfl, trivial⟩
    | ok _ s2 =>
      have hmakes' := initOutput_ok hw hi hmakes.running hone
      refine .inl ⟨s2, rfl, hmakes.grows.trans hmakes'.grows,
        hmakes'.status.trans hmakes.status, hmakes'.running, fun q => ?_⟩
      rw [hmakes'.made, hmakes.made, or_assoc, ← or_and_right, ← Nat.lt_succ_iff_lt_or_eq]
  obtain ⟨s1, hrun1, hend⟩ | ⟨e, s1, hrun1, -⟩ :=
    forM_range_cases _ (fun _ _ => True) hround ⟨.refl s, rfl, h, fun q => by simp⟩
  · obtain ⟨-, rfl⟩ := Result.ok.inj (hrun1.symm.trans hrun)
    exact hend
  · cases hrun1.symm.trans hrun

/-! ### Inputs -/

lemma Reads.plug {handle : Option Handle} : Reads i s (s.plug i .read port handle) :=
  reads_modify rfl rfl

include hw hi h in
lemma initCtrl_ok (hrun : initCtrl runtime w i m s = .ok () s') :
    Reads i s s' ∧ Running w i m s' ∧ ((s'.modules i).ctrlIn = true ↔
      m.nofInputItf < m.inputs.length ∧ Fed w s' (i, m.ctrlPort)) := by
  by_cases htry : m.nofInputItf < m.inputs.length ∧ (s.modules i).ctrlIn = false
  · rw [initCtrl, bind_of_ok moduleState_run, if_pos htry] at hrun
    obtain ⟨created, s1, hcreate, hrun⟩ := bind_ok.mp hrun
    cases hrun
    obtain ⟨rfl, y, handle, hy, hhandle, rfl⟩ | ⟨rfl, hfed, code, rfl, -⟩ :=
      create_read_ok hw hi hcreate
    · have hmade : Made s y := fun hnone => by cases hhandle.symm.trans hnone
      have hreads : Reads i s ((s.plug i .read m.ctrlPort (some handle)).modify i fun ms =>
          { ms with ctrlIn := true }) := Reads.plug.trans (reads_modify rfl rfl)
      refine ⟨hreads, h.leaves hreads.toLeaves ?_ ?_ ?_ ?_, ?_⟩
      all_goals rw [modify_self, State.plug, modify_self]
      · exact fun _ _ => rfl
      · exact fun p hp => .inl hp
      · exact fun _ => ⟨htry.1, y, hy, hmade, (update_self ..).trans hhandle.symm⟩
      · exact iff_of_true rfl ⟨htry.1, hreads.fed_iff.mpr ⟨y, hy, hmade⟩⟩
    · have hreads : Reads i s ((s.setError i code).modify i fun ms =>
        { ms with ctrlIn := false }) :=
        Reads.trans (reads_modify rfl rfl) (reads_modify rfl rfl)
      refine ⟨hreads, h.leaves hreads.toLeaves ?_ ?_ ?_ ?_, ?_⟩
      all_goals rw [modify_self, State.setError, modify_self]
      · exact fun _ _ => rfl
      · exact fun p hp => .inl hp
      · exact fun h => by cases h
      · exact iff_of_false Bool.false_ne_true fun h => hfed (hreads.fed_iff.mp h.2)
  · rw [initCtrl, bind_of_ok moduleState_run, if_neg htry] at hrun
    cases hrun
    refine ⟨.refl s, h, fun hctrl => ?_, fun hfed => ?_⟩
    · obtain ⟨hlt, y, hy, hmade, -⟩ := h.attached h.memOk hctrl
      exact ⟨hlt, y, hy, hmade⟩
    · exact Bool.eq_true_of_not_eq_false fun hfalse => htry ⟨hfed.1, hfalse⟩

/-- The last loop of `init_interfaces` so far: what was found, and the control input as it was. -/
structure Found (w : Waveform) (i : ℕ) (m : Module) (s s' : State) : Prop where
  reads : Reads i s s'
  running : Running w i m s'
  ctrlIn : (s'.modules i).ctrlIn = (s.modules i).ctrlIn

lemma Found.trans (h : Found w i m s s1) (h' : Found w i m s1 s2) : Found w i m s s2 :=
  ⟨h.reads.trans h'.reads, h'.running, h'.ctrlIn.trans h.ctrlIn⟩

lemma Module.ne_ctrlPort (hp : port < m.nofInputItf) (h : m.nofInputItf < m.inputs.length) :
    m.ctrlPort ≠ port := by
  rw [Module.ctrlPort]
  omega

lemma initInput_finds (h : Running w i m s) (hport : port < m.nofInputItf)
    (hy : feeder w (i, port) = some y) {handle : Handle}
    (hhandle : (s.modules y.1).hwOutput y.2 = some handle) :
    Found w i m s ((s.plug i .read port (some handle)).modify i fun ms =>
      { ms with inputs := update ms.inputs port true }) := by
  have hmade : Made s y := fun hnone => by cases hhandle.symm.trans hnone
  have hreads : Reads i s ((s.plug i .read port (some handle)).modify i fun ms =>
      { ms with inputs := update ms.inputs port true }) :=
    Reads.plug.trans (reads_modify rfl rfl)
  refine ⟨hreads, h.leaves hreads.toLeaves ?_ ?_ ?_ ?_, ?_⟩
  all_goals rw [modify_self, State.plug, modify_self]
  · exact fun _ _ => rfl
  · intro p hp
    dsimp only at hp
    by_cases hpp : p = port
    · subst hpp
      exact .inr ⟨y, hy, hmade⟩
    · rw [update_of_ne hpp] at hp
      exact .inl hp
  · intro hctrl
    obtain ⟨hlt, z, hz, hmadeZ, heq⟩ := h.attached h.memOk hctrl
    refine ⟨hlt, z, hz, hmadeZ, ?_⟩
    rw [← heq]
    exact update_of_ne (ne_ctrlPort hport hlt) ..

lemma initInput_misses (h : Running w i m s) (hflag : (s.modules i).inputs port = false)
    (code : ErrorCode) :
    Found w i m s ((s.setError i code).modify i fun ms =>
      { ms with inputs := update ms.inputs port false }) := by
  have hreads : Reads i s ((s.setError i code).modify i fun ms =>
      { ms with inputs := update ms.inputs port false }) :=
    Reads.trans (reads_modify rfl rfl) (reads_modify rfl rfl)
  refine ⟨hreads, h.leaves hreads.toLeaves ?_ ?_ ?_ ?_, ?_⟩
  all_goals rw [modify_self, State.setError, modify_self]
  · exact fun _ _ => rfl
  · dsimp only
    rw [Function.update_eq_self_iff.mpr hflag.symm]
    exact fun p hp => .inl hp
  · exact h.attached h.memOk

include hw hi h in
lemma initInput_cases (hport : port < m.nofInputItf) :
    (∃ s', initInput runtime w i m port s = .ok () s' ∧ Found w i m s s' ∧ Fed w s (i, port)) ∨
      ∃ e s', initInput runtime w i m port s = .error e s' ∧
        ((e = .ret (-1) ∨ e = .fault) ∨ e = .ret 0 ∧ Found w i m s s' ∧ ¬ Fed w s (i, port)) := by
  cases hflag : (s.modules i).inputs port with
  | true =>
    exact .inl ⟨s, initInput_of_found hflag, ⟨.refl s, h, rfl⟩, h.found port hflag⟩
  | false =>
    cases hcreate : oesrItfCreate runtime w i m port .read m.inputSize s with
    | error e s1 =>
      refine .inr ⟨.fault, s1, ?_, .inl (.inr rfl)⟩
      rw [initInput, bind_of_ok moduleState_run, hflag, if_neg Bool.false_ne_true,
        bind_of_error hcreate,
        create_read_error hcreate]
    | ok created s1 =>
      rw [initInput_of_run hflag hcreate]
      obtain ⟨rfl, y, handle, hy, hhandle, rfl⟩ | ⟨rfl, hfed, code, rfl, -⟩ :=
        create_read_ok hw hi hcreate
      · refine .inl ⟨_, rfl, initInput_finds h hport hy hhandle, y, hy, ?_⟩
        exact fun hnone => by cases hhandle.symm.trans hnone
      · refine .inr ?_
        rw [if_neg Bool.false_ne_true]
        split
        · exact ⟨_, _, rfl, .inr ⟨rfl, initInput_misses h hflag code, hfed⟩⟩
        · exact ⟨_, _, rfl, .inl (.inl rfl)⟩

lemma initInputs_cases (runtime : Runtime) (hw : Internal w) (hi : w[i]? = some m)
    (h : Running w i m s) :
    (∃ s', (List.range m.nofInputItf).forM (initInput runtime w i m) s = .ok () s' ∧
        Found w i m s s' ∧ ∀ p < m.nofInputItf, Fed w s (i, p)) ∨
      ∃ e s', (List.range m.nofInputItf).forM (initInput runtime w i m) s = .error e s' ∧
        ((e = .ret (-1) ∨ e = .fault) ∨
          e = .ret 0 ∧ Found w i m s s' ∧ ¬ ∀ p < m.nofInputItf, Fed w s (i, p)) := by
  refine forM_range_cases (fun n s1 => Found w i m s s1 ∧ ∀ p < n, Fed w s (i, p)) _ ?_
    ⟨⟨.refl s, h, rfl⟩, fun p hp => absurd hp (Nat.not_lt_zero p)⟩
  rintro n hn s1 ⟨hfound, hfed⟩
  obtain ⟨s2, hrun, hfound', hone⟩ | ⟨e, s2, hrun, hfails | ⟨rfl, hfound', hnone⟩⟩ :=
    initInput_cases hw hi hfound.running hn
  · refine .inl ⟨s2, hrun, hfound.trans hfound', fun p hp => ?_⟩
    obtain hlt | rfl := Nat.lt_succ_iff_lt_or_eq.mp hp
    · exact hfed p hlt
    · exact hfound.reads.fed_iff.mp hone
  · exact .inr ⟨e, s2, hrun, .inl hfails⟩
  · exact .inr ⟨_, s2, hrun, .inr ⟨rfl, hfound.trans hfound',
      fun hall => hnone (hfound.reads.fed_iff.mpr (hall n hn))⟩⟩

/-! ### A call -/

lemma initOutput_refuses : Refuses (initOutput runtime w i m port) := by
  refine Refuses.bind (fun _ _ _ h => by cases h) fun ms => ?_
  split
  · exact refuses_pure ()
  · refine Refuses.bind (fun s e s' h => ?_) fun created =>
      Refuses.bind (fun _ _ _ h => by cases h) fun _ =>
        Refuses.bind (fun _ _ _ h => by cases h) fun ms => ?_
    · obtain ⟨created, s1, hcreate⟩ : ∃ created s1,
          oesrItfCreate runtime w i m port .write m.outputSize s = .ok created s1 :=
        create_write_returns s
      cases hcreate.symm.trans h
    · split
      · exact refuses_pure ()
      · exact refuses_throw

lemma initCtrl_refuses : Refuses (initCtrl runtime w i m) := by
  refine Refuses.bind (fun _ _ _ h => by cases h) fun ms => ?_
  split
  · exact Refuses.bind (fun _ _ _ h => .inr (create_read_error h)) fun _ _ _ _ h => by cases h
  · exact refuses_pure ()

lemma callInitialize_refuses : Refuses (callInitialize i m) := by
  refine Refuses.bind (fun _ _ _ h => by cases h) fun ms =>
    Refuses.bind (fun _ _ _ h => by cases h) fun _ => ?_
  split
  · exact refuses_pure ()
  · exact refuses_throw

lemma checkConfiguration_refuses : Refuses (checkConfiguration i m) := by
  refine Refuses.bind (fun _ _ _ h => by cases h) fun ms => ?_
  split
  · exact refuses_pure ()
  · split
    · exact refuses_throw
    · exact fun _ _ _ h => by cases h

lemma Sound.initMemory (h : Sound w i m s) (hrun : initMemory i s = .ok () s') :
    Reads i s s' ∧ Running w i m s' := by
  obtain ⟨-, rfl⟩ := Result.ok.inj hrun
  have hreads : Reads i s (s.modify i fun ms => if ms.memOk then ms else { ms with
      inputs := fun _ => false, outputs := fun _ => false, ctrlIn := false, memOk := true }) :=
    reads_modify (by split <;> rfl) (by split <;> rfl)
  cases hmem : (s.modules i).memOk with
  | true =>
    have hrunning : Running w i m s := ⟨h, hmem⟩
    refine ⟨hreads, hrunning.leaves hreads.toLeaves ?_ ?_ ?_ ?_⟩
    all_goals rw [modify_self, if_pos hmem]
    · exact fun _ _ => rfl
    · exact fun p hp => .inl hp
    · exact h.attached hmem
  | false =>
    have hclear : ¬(s.modules i).memOk = true := fun htrue => by cases hmem.symm.trans htrue
    refine ⟨hreads, ⟨fun q hq => ?_, ?_, ?_, ?_⟩, ?_⟩
    · rw [hreads.made_iff, ← h.flags q hq, (h.cleared hmem q).2, modify_self, if_neg hclear]
    all_goals rw [modify_self, if_neg hclear]
    · exact fun hmem => by cases hmem
    · exact fun _ hin => by cases hin
    · exact fun _ hctrl => by cases hctrl

/-- What a call of `Init` leaves that does not fail. -/
structure Visited (w : Waveform) (i : ℕ) (m : Module) (n : ℤ) (s s' : State) : Prop where
  grows : Extends i s s'
  running : Running w i m s'
  made : ∀ q, Made s' (i, q) ↔ Made s (i, q) ∨ (q < m.nofOutputItf ∧ q < m.outputs.length)
  done : n ≠ 0 ↔ ∀ p < m.nofInputItf, Fed w s' (i, p)
  ctrlIn : (s'.modules i).ctrlIn = true ↔ m.nofInputItf < m.inputs.length ∧ Fed w s' (i, m.ctrlPort)

lemma Visited.after (hreads : Reads i s s1) (h : Visited w i m n s1 s') : Visited w i m n s s' where
  grows := hreads.grows.trans h.grows
  running := h.running
  made := fun q => by rw [h.made, hreads.made_iff]
  done := h.done
  ctrlIn := h.ctrlIn

/-- A change to module `i` that has nothing to do with its ports. -/
structure Unrelated (ms ms' : ModuleState) : Prop where
  hwOutput : ms'.hwOutput = ms.hwOutput
  hwInput : ms'.hwInput = ms.hwInput
  outputs : ms'.outputs = ms.outputs
  inputs : ms'.inputs = ms.inputs
  memOk : ms'.memOk = ms.memOk
  ctrlIn : ms'.ctrlIn = ms.ctrlIn

lemma Sound.unrelated (h : Sound w i m s)
    (hf : Unrelated (s.modules i) (f (s.modules i))) : Sound w i m (s.modify i f) := by
  have hleaves : Leaves i s (s.modify i f) := leaves_modify hf.hwOutput
  refine ⟨fun q hq => ?_, ?_, fun p hp => ?_, ?_⟩
  · rw [hleaves.made_iff, modify_self, hf.outputs]
    exact h.flags q hq
  · rw [modify_self, hf.memOk, hf.inputs, hf.outputs]
    exact h.cleared
  · rw [modify_self, hf.inputs] at hp
    exact hleaves.fed_iff.mpr (h.found p hp)
  · simp only [hleaves.made_iff, hleaves.hwOutput_eq]
    rw [modify_self, hf.memOk, hf.ctrlIn, hf.hwInput]
    exact h.attached

lemma Running.unrelated (h : Running w i m s)
    (hf : Unrelated (s.modules i) (f (s.modules i))) : Running w i m (s.modify i f) :=
  ⟨h.toSound.unrelated hf, by rw [modify_self, hf.memOk, h.memOk]⟩

lemma Visited.unrelated (h : Visited w i m n s s')
    (hf : Unrelated (s'.modules i) (f (s'.modules i))) : Visited w i m n s (s'.modify i f) := by
  have hleaves : Leaves i s' (s'.modify i f) := leaves_modify hf.hwOutput
  refine ⟨h.grows.trans hleaves.grows, h.running.unrelated hf, fun q => ?_, ?_, ?_⟩
  · rw [hleaves.made_iff, h.made]
  · simp only [hleaves.fed_iff]
    exact h.done
  · rw [hleaves.fed_iff, modify_self, hf.ctrlIn]
    exact h.ctrlIn

lemma callInitialize_ok (h : Running w i m s) (hrun : callInitialize i m s = .ok () s') :
    Reads i s s' ∧ Running w i m s' := by
  rw [callInitialize, bind_of_ok moduleState_run, bind_of_ok (setModule_run _)] at hrun
  split at hrun
  · cases hrun
    exact ⟨reads_modify rfl rfl, h.unrelated ⟨rfl, rfl, rfl, rfl, rfl, rfl⟩⟩
  · cases hrun

lemma checkConfiguration_ok (h : Running w i m s) (hrun : checkConfiguration i m s = .ok () s') :
    Reads i s s' ∧ Running w i m s' := by
  rw [checkConfiguration, bind_of_ok moduleState_run] at hrun
  split at hrun
  · cases hrun
    exact ⟨.refl s, h⟩
  · split at hrun
    · cases hrun
    · cases hrun
      exact ⟨reads_modify rfl rfl, h.unrelated ⟨rfl, rfl, rfl, rfl, rfl, rfl⟩⟩

section

variable (hw : Internal w) (hi : w[i]? = some m)
include hw hi

lemma initInterfaces_visits (h : Running w i m s)
    (hrun : returning (initInterfaces runtime w i m) s = .ok n s') (hn : n ≠ -1) :
    (n = 0 ∨ n = 1) ∧ (s'.modules i).status = (s.modules i).status ∧ Visited w i m n s s' := by
  obtain ⟨⟨⟩, s1, houtputs, hrun⟩ := (refuses_forM (fun _ => initOutput_refuses) _).past hrun hn
  obtain ⟨⟨⟩, s2, hctrl, hrun⟩ := initCtrl_refuses.past hrun hn
  have hmakes := initOutputs_ok hw hi h houtputs
  obtain ⟨hreads, hrunning, hctrlIn⟩ := initCtrl_ok hw hi hmakes.running hctrl
  -- from here on the outputs stay, so what is fed is the same at every port
  have hvisited : ∀ {n : ℤ}, Found w i m s2 s' → (n ≠ 0 ↔ ∀ p < m.nofInputItf, Fed w s2 (i, p)) →
      (s'.modules i).status = (s.modules i).status ∧ Visited w i m n s s' := by
    intro n hfound hdone
    refine ⟨hfound.reads.status.trans (hreads.status.trans hmakes.status),
      hmakes.grows.trans (hreads.grows.trans hfound.reads.grows), hfound.running, fun q =>
      ?_, ?_, ?_⟩
    · rw [hfound.reads.made_iff, hreads.made_iff, hmakes.made]
    · simp only [hdone, hfound.reads.fed_iff]
    · rw [hfound.ctrlIn, hctrlIn, hfound.reads.fed_iff]
  obtain ⟨s3, hinputs, hfound, hall⟩ | ⟨e, s3, hinputs, hends⟩ :=
    initInputs_cases runtime hw hi hrunning
  · rw [returning, bind_of_ok hinputs] at hrun
    obtain ⟨rfl, rfl⟩ := Result.ok.inj hrun
    exact ⟨.inr rfl, hvisited hfound (iff_of_true one_ne_zero hall)⟩
  · rw [returning, bind_of_error hinputs] at hrun
    obtain (rfl | rfl) | ⟨rfl, hfound, hwaits⟩ := hends
    · obtain ⟨rfl, -⟩ := Result.ok.inj hrun
      exact absurd rfl hn
    · cases hrun
    · obtain ⟨rfl, rfl⟩ := Result.ok.inj hrun
      exact ⟨.inl rfl, hvisited hfound (iff_of_false (not_not.mpr rfl) hwaits)⟩

/-- **A call of `Init`** that does not fail. -/
theorem init_visits (h : Sound w i m s) (hrun : init runtime w i m s = .ok n s') (hn : n ≠ -1) :
    (n = 0 ∨ n = 1) ∧ (s'.modules i).status = (s.modules i).status ∧ Visited w i m n s s' := by
  have hrefuses : Refuses (initMemory i) := fun _ _ _ h => by cases h
  obtain ⟨⟨⟩, s1, hmemory, hrun⟩ := hrefuses.past hrun hn
  obtain ⟨⟨⟩, s2, hcall, hrun⟩ := callInitialize_refuses.past hrun hn
  obtain ⟨⟨⟩, s3, hcheck, hrun⟩ := checkConfiguration_refuses.past hrun hn
  obtain ⟨hreads1, hrunning1⟩ := h.initMemory hmemory
  obtain ⟨hreads2, hrunning2⟩ := callInitialize_ok hrunning1 hcall
  obtain ⟨hreads3, hrunning3⟩ := checkConfiguration_ok hrunning2 hcheck
  have hreads := hreads1.trans (hreads2.trans hreads3)
  obtain ⟨hanswer, hstatus, hvisited⟩ := initInterfaces_visits hw hi hrunning3 hrun hn
  exact ⟨hanswer, hstatus.trans hreads.status, hvisited.after hreads⟩

/-- **A visit** of a module. -/
theorem nodModuleInit_visits (h : Sound w i m s)
    (hrun : nodModuleInit runtime w i m s = .ok n s') (hn : ¬ n < 0) :
    (s'.modules i).status = (if n = 0 then (s.modules i).status else .init) ∧
      Visited w i m n s s' := by
  rw [nodModuleInit] at hrun
  split at hrun
  · rw [callInit, bind_of_ok (setModule_run _)] at hrun
    obtain ⟨n', s1, hinit, hrun⟩ := bind_ok.mp hrun
    have hn' : n' ≠ -1 := by
      rintro rfl
      cases hrun
      exact absurd (by decide) hn
    have hreads : Reads i s (s.modify i fun ms => { ms with changingStatus := true }) :=
      reads_modify rfl rfl
    obtain ⟨hanswer, hstatus, hvisited⟩ :=
      init_visits hw hi (h.unrelated ⟨rfl, rfl, rfl, rfl, rfl, rfl⟩) hinit hn'
    have hvisited := hvisited.after hreads
    rw [hreads.status] at hstatus
    obtain rfl | rfl := hanswer
    · cases hrun
      exact ⟨hstatus, hvisited⟩
    · cases hrun
      exact ⟨by rw [modify_self]; rfl, hvisited.unrelated ⟨rfl, rfl, rfl, rfl, rfl, rfl⟩⟩
  · cases hrun
    exact absurd (by decide) hn

end

end Parts

end Aloe.Oesr.Skeleton
