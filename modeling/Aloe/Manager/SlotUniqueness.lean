import Aloe.Lib.Run
import Aloe.Manager.Control

/-!
# One slot for each waveform

The dispatcher of the node takes the first slot with the id it looks for. If a waveform is only
loaded while no other slot than the one to be filled has its id, no id is in two slots, and after a
successful `STOP` the id is nowhere. Loaded twice, a waveform is in two slots, and `STOP` removes
the first only.
-/

namespace Aloe.Manager.Control

open Lib Oesr.Exec List Control.System

def LoadsOnce (c : Call) (sys : System) : Prop := c.id ≠ 0 ∧
    match c with
    | .load id _ => ∀ s ∈ sys.slots.eraseP fun s => s.status = .stop, s.id ≠ id
    | .statusSet _ _ _ => True

instance (c : Call) (sys : System) : Decidable (LoadsOnce c sys) :=
  match c with
  | .load _ _ => inferInstanceAs (Decidable (_ ∧ ∀ _ ∈ _, _ ≠ _))
  | .statusSet _ _ _ => inferInstanceAs (Decidable (_ ∧ True))

def Absent (id : ℕ) (slots : List Slot) : Prop := ∀ s ∈ slots, s.id ≠ id

instance (id : ℕ) (slots : List Slot) : Decidable (Absent id slots) := by
  unfold Absent
  infer_instance

/-- No id is in two slots; a slot without an id has no modules, and one with an id belongs to a
waveform that has been sent. -/
structure Unique (sys : System) : Prop where
  once : sys.slots.Pairwise fun a b => a.id ≠ 0 → a.id ≠ b.id
  free : ∀ s ∈ sys.slots, s.id = 0 → s.modules = 0
  sent : ∀ s ∈ sys.slots, s.id ≠ 0 →
    (sys.waveforms s.id).onNode = true ∧ (sys.waveforms s.id).modules ≠ 0

lemma unique_start (waveforms : ℕ → ManWaveform) (n : ℕ) : Unique (start waveforms n) where
  once := pairwise_replicate.mpr (.inr fun h => absurd rfl h)
  free := fun _ hs _ => eq_of_mem_replicate hs ▸ rfl
  sent := fun _ hs hid => absurd (eq_of_mem_replicate hs ▸ rfl) hid

/-! ## The ids that the node writes -/

def Keeps (s s' : Slot) : Prop :=
  (s'.id = s.id ∧ s'.modules = s.modules) ∨ (s'.id = 0 ∧ s'.modules = 0)

lemma Keeps.trans {r s t : Slot} (hrs : Keeps r s) (hst : Keeps s t) : Keeps r t := by
  rcases hst with ⟨hid, hmod⟩ | hfree
  · unfold Keeps
    rw [hid, hmod]
    exact hrs
  · exact .inr hfree

lemma keeps_statusStop (o : StopOutcome) (s : Slot) : Keeps s (s.statusStop o).1 := by
  unfold Slot.statusStop
  by_cases hrun : s.canRun = true
  · rw [if_pos hrun]
    cases o.task <;> cases o.removed <;> simp [Keeps, Slot.remove]
  · rw [if_neg hrun]
    exact .inl ⟨rfl, rfl⟩

lemma keeps_statusInit (o : StatusOutcome) (s : Slot) : Keeps s (s.statusInit o).1 := by
  unfold Slot.statusInit
  rcases o.initiated with _ | _ | _ <;> cases o.initTask <;> cases o.removed <;>
    simp [Keeps, Slot.remove]

lemma keeps_statusNew (new : Status) (o : StatusOutcome) (s : Slot) :
    Keeps s (s.statusNew new o).1 := by
  cases new with
  | init =>
    unfold Slot.statusNew
    simp only
    split_ifs
    · exact keeps_statusInit o s
    · exact keeps_statusInit o s
  | stop =>
    unfold Slot.statusNew
    simp only
    split_ifs
    · exact keeps_statusStop o.stop s
    · exact .inl ⟨rfl, rfl⟩
  | _ => exact .inl ⟨rfl, rfl⟩

lemma keeps_setStatus (new : Status) (o : StatusOutcome) (s : Slot) :
    Keeps s (s.setStatus new o).1 := by
  unfold Slot.setStatus
  simp only
  split_ifs
  · exact keeps_statusNew new o s
  · exact (keeps_statusNew new o s).trans (keeps_statusStop o.stopAgain _)

lemma setStatus_stop_ok {o : StatusOutcome} {s : Slot} (h : (s.setStatus .stop o).2 = true) :
    (s.setStatus .stop o).1.id = 0 := by
  have hnew : (s.statusNew .stop o).2 = true := h
  unfold Slot.setStatus
  simp only [hnew, if_true]
  revert hnew
  unfold Slot.statusNew Slot.statusStop
  split_ifs <;> simp [Slot.remove]

lemma load_id {id : ℕ} (w : ManWaveform) (o : LoadOutcome) (s : Slot) :
    (s.load id w o).1 = s ∨ (s.load id w o).1.id = id ∨
      ((s.load id w o).1.id = 0 ∧ (s.load id w o).1.modules = 0) := by
  unfold Slot.load
  cases o.decode with
  | early => exact .inl rfl
  | late precach modules => exact .inr (.inl rfl)
  | whole =>
    simp only
    split_ifs
    · exact .inr (.inl rfl)
    · exact .inr (.inr ⟨rfl, rfl⟩)
    · exact .inr (.inl rfl)

/-! ## One call -/

section Calls

variable {sys : System} {id : ℕ}

section

variable (h : Unique sys)
include h

lemma Unique.replace {before after : List Slot} {s s' : Slot} {w : ManWaveform}
    (hslots : sys.slots = before ++ s :: after)
    (hw : (sys.waveforms id).onNode = true → w.onNode = true)
    (hmodules : w.modules = (sys.waveforms id).modules)
    (hs' : (s'.id = 0 ∧ s'.modules = 0) ∨ (s'.id = id ∧ id ≠ 0 ∧ w.onNode = true ∧ w.modules ≠ 0 ∧
      ∀ t, t ∈ before ∨ t ∈ after → t.id ≠ id)) :
    Unique ((sys.setWaveform id w).setSlots (before ++ s' :: after)) := by
  have hmem : ∀ t, t ∈ before ∨ t ∈ after → t ∈ sys.slots := fun t ht => hslots ▸ mem_of_mem_rest ht
  have hwave : ∀ i, (sys.waveforms i).onNode = true ∧ (sys.waveforms i).modules ≠ 0 →
      ((sys.setWaveform id w).waveforms i).onNode = true ∧
        ((sys.setWaveform id w).waveforms i).modules ≠ 0 := by
    rintro i ⟨hnode, hmod⟩
    rcases eq_or_ne i id with rfl | hne
    · rw [setWaveform_self]
      exact ⟨hw hnode, hmodules ▸ hmod⟩
    · rw [sys.setWaveform_of_ne w hne]
      exact ⟨hnode, hmod⟩
  constructor
  · have honce := h.once
    rw [hslots, pairwise_append, pairwise_cons] at honce
    rw [setSlots_slots, pairwise_append, pairwise_cons]
    refine ⟨honce.1, ⟨?_, honce.2.1.2⟩, ?_⟩
    · grind
    · intro a ha b hb hid
      rcases mem_cons.mp hb with rfl | hb
      · grind
      · exact honce.2.2 a ha b (mem_cons_of_mem s hb) hid
  · intro t ht hid
    rcases mem_replaced ht with rfl | ht
    · rcases hs' with ⟨-, hmod⟩ | ⟨hs'id, hne, -⟩
      · exact hmod
      · exact absurd (hs'id.symm.trans hid) hne
    · exact h.free t (hmem t ht) hid
  · intro t ht hid
    rcases mem_replaced ht with rfl | ht
    · simp_all
    · exact hwave t.id (h.sent t (hmem t ht) hid)

lemma Unique.setWaveform {w : ManWaveform}
    (hw : (sys.waveforms id).modules ≠ 0 → (sys.waveforms id).onNode = true → w.onNode = true)
    (hmodules : w.modules = (sys.waveforms id).modules) : Unique (sys.setWaveform id w) where
  once := h.once
  free := h.free
  sent := by
    intro t ht hid
    obtain ⟨hnode, hmod⟩ := h.sent t ht hid
    rcases eq_or_ne t.id id with heq | hne
    · rw [heq] at hnode hmod ⊢
      rw [setWaveform_self]
      exact ⟨hw hmod hnode, hmodules ▸ hmod⟩
    · rw [sys.setWaveform_of_ne w hne]
      exact ⟨hnode, hmod⟩

lemma Unique.load {o : LoadOutcome} (hc : LoadsOnce (.load id o) sys) :
    Unique (sys.load id o).1 := by
  obtain ⟨hid, hother⟩ := hc
  change id ≠ 0 at hid
  rcases sys.load_cases id o with ⟨w, hmod, hw, hload⟩ |
    ⟨before, s, after, w, hslots, hbefore, hs, hw, hmodules, hload⟩
  · rw [hload]
    exact h.setWaveform (fun hne => (hw (hmod ▸ hne)).2) hmod
  · have herase : sys.slots.eraseP (fun s => s.status = .stop) = before ++ after := by
      rw [hslots, eraseP_append_right _ (fun b hb => by simpa using hbefore b hb),
        eraseP_cons_of_pos (by simpa using hs)]
    rw [herase] at hother
    have hnode : w.onNode = true := by rw [hw]
    have hmod : w.modules = (sys.waveforms id).modules := by rw [hw]
    have hnode' : ∀ ok : Bool,
        (if ok then { w with status := .loaded } else w : ManWaveform).onNode = true ∧
          (if ok then { w with status := .loaded } else w : ManWaveform).modules = w.modules := by
      rintro (_ | _) <;> exact ⟨hnode, rfl⟩
    rw [hload]
    rcases load_id w o s with hsame | hs'
    · rw [hsame, ← hslots]
      exact h.setWaveform (fun _ _ => (hnode' _).1) ((hnode' _).2.trans hmod)
    · refine h.replace hslots (fun _ => (hnode' _).1) ((hnode' _).2.trans hmod) ?_
      rcases hs' with hs'id | hfree
      · refine .inr ⟨hs'id, hid, (hnode' _).1, by rw [(hnode' _).2]; exact hmodules, ?_⟩
        exact fun t ht => hother t (mem_append.mpr ht)
      · exact .inl hfree

lemma Unique.statusSet (hid : id ≠ 0) (new : Status) (o : StatusOutcome) :
    Unique (sys.statusSet id new o).1 := by
  by_cases hvalid : waveformStatusIsValid (sys.waveforms id).status new = true
  swap
  · rw [System.statusSet, if_neg hvalid]
    exact h
  rcases statusSet_cases o hid hvalid with ⟨st, -, -, -, hset⟩ |
    ⟨before, s, after, hslots, hbefore, hsid, hset⟩
  · rw [hset]
    exact h.setWaveform (fun _ hnode => hnode) rfl
  · rw [hset]
    refine h.replace hslots (fun hnode => hnode) rfl ?_
    have hsent := h.sent s (hslots ▸ by simp) (hsid ▸ hid)
    rw [hsid] at hsent
    rcases keeps_setStatus new o s with ⟨hid', -⟩ | hfree
    · refine .inr ⟨hid'.trans hsid, hid, hsent.1, hsent.2, ?_⟩
      have honce := h.once
      rw [hslots, pairwise_append, pairwise_cons] at honce
      rintro t (ht | ht)
      · exact hbefore t ht
      · exact hsid ▸ (honce.2.1.1 t ht (hsid ▸ hid)).symm
    · exact .inl hfree

lemma Unique.absent_of_stop (hid : id ≠ 0) {o : StatusOutcome}
    (hok : (sys.statusSet id .stop o).2 = true) :
    Absent id (sys.statusSet id .stop o).1.slots := by
  have hvalid : waveformStatusIsValid (sys.waveforms id).status .stop = true := rfl
  rcases statusSet_cases o hid hvalid with ⟨st, -, -, hnode, hset⟩ |
    ⟨before, s, after, hslots, hbefore, hsid, hset⟩
  · rw [hset]
    intro t ht htid
    have hsent := h.sent t ht (htid ▸ hid)
    rw [htid, hnode hok] at hsent
    exact Bool.false_ne_true hsent.1
  · rw [hset] at hok ⊢
    have honce := h.once
    rw [hslots, pairwise_append, pairwise_cons] at honce
    intro t ht
    rcases mem_replaced ht with rfl | ht | ht
    · rw [setStatus_stop_ok hok]
      exact hid.symm
    · exact hbefore t ht
    · exact hsid ▸ (honce.2.1.1 t ht (hsid ▸ hid)).symm

end

lemma absent_call {c : Call} (hc : ∀ o, c ≠ .load id o) (hcid : c.id ≠ 0) (hid : id ≠ 0)
    (habsent : Absent id sys.slots) : Absent id (sys.call c).1.slots := by
  cases c with
  | load id' o =>
    have hne : id' ≠ id := fun h => hc o (h ▸ rfl)
    rcases sys.load_cases id' o with ⟨w, -, -, hload⟩ |
      ⟨before, s, after, w, hslots, -, -, -, -, hload⟩
    · rw [call, hload]
      exact habsent
    · rw [call, hload]
      rw [hslots] at habsent
      intro t ht
      rcases mem_replaced ht with rfl | ht
      · rcases load_id w o s with hsame | hs'id | ⟨hzero, -⟩
        · rw [hsame]
          exact habsent s (by simp)
        · exact fun h => hne (hs'id.symm.trans h)
        · exact fun h => hid (h.symm.trans hzero)
      · exact habsent t (mem_of_mem_rest ht)
  | statusSet id' new o =>
    change id' ≠ 0 at hcid
    by_cases hvalid : waveformStatusIsValid (sys.waveforms id').status new = true
    swap
    · rw [call, statusSet, if_neg hvalid]
      exact habsent
    rcases statusSet_cases o hcid hvalid with ⟨st, -, -, -, hset⟩ |
      ⟨before, s, after, hslots, -, -, hset⟩
    · rw [call, hset]
      exact habsent
    · rw [call, hset]
      rw [hslots] at habsent
      intro t ht
      rcases mem_replaced ht with rfl | ht
      · rcases keeps_setStatus new o s with ⟨hkeep, -⟩ | ⟨hzero, -⟩
        · exact fun h => habsent s (by simp) (hkeep.symm.trans h)
        · exact fun h => hid (h.symm.trans hzero)
      · exact habsent t (mem_of_mem_rest ht)

end Calls

/-! ## Runs -/

lemma Unique.call {sys : System} (h : Unique sys) {c : Call} (hc : LoadsOnce c sys) :
    Unique (sys.call c).1 := by
  cases c with
  | load id o => exact h.load hc
  | statusSet id new o => exact h.statusSet hc.1 new o

/-- **One slot for each waveform.** In every state that calls reach which load a waveform once, no
id is in two slots. After a `STOP` that succeeds the node finds no slot for the waveform until it is
loaded again. -/
theorem slots_unique (waveforms : ℕ → ManWaveform) (n : ℕ) (calls : List Call) (sys : System)
    (hmeets : Meets System.step LoadsOnce calls (System.start waveforms n))
    (hrun : run System.step calls (System.start waveforms n) = some sys) :
    (sys.slots.Pairwise fun a b => a.id ≠ 0 → a.id ≠ b.id) ∧
      (∀ s ∈ sys.slots, s.id = 0 → s.modules = 0) ∧
      ∀ id ≠ 0, ∀ o, (sys.statusSet id .stop o).2 = true → ∀ calls' sys',
        (∀ c ∈ calls', c.id ≠ 0 ∧ ∀ o', c ≠ .load id o') →
        run System.step calls' (sys.statusSet id .stop o).1 = some sys' →
        Absent id sys'.slots ∧ (sys'.slots.find? fun s => s.id = id) = none ∧
          ∀ new o', dispatcherSet id new o' sys'.slots = (sys'.slots, false) := by
  have hunique : Unique sys := by
    refine run_invariant Unique ?_ (unique_start waveforms n) hmeets hrun
    intro c s s' hs hc hstep
    cases hstep
    exact hs.call hc
  refine ⟨hunique.once, hunique.free, ?_⟩
  intro id hid o hok calls' sys' hcalls hrun'
  have habsent : Absent id sys'.slots := by
    refine run_invariant (fun s => Absent id s.slots) ?_ (hunique.absent_of_stop hid hok)
      (meets_of_forall_mem (fun c hc _ => hcalls c hc) _) hrun'
    intro c s s' hs hc hstep
    cases hstep
    exact absent_call hc.2 hc.1 hid hs
  refine ⟨habsent, ?_, fun new o' => ?_⟩
  · exact find?_eq_none.mpr fun s hs => by simpa using habsent s hs
  · rw [dispatcherSet, if_neg hid]
    exact modifyFirst_of_forall fun s hs => by simpa using habsent s hs

def reloadCalls : List Call :=
  [.load 7 .fine, .load 8 .fine, .statusSet 7 .stop .fine, .load 7 .fine]

def reloaded : System :=
  reloadCalls.foldl (fun sys c => (sys.call c).1)
  (System.start (fun _ => ⟨.parsed, false, 3, false⟩) 2)

theorem slots_unique_reloaded : reloaded.slots.map Slot.id = [7, 8] ∧
      (reloaded.slots.Pairwise fun a b => a.id ≠ 0 → a.id ≠ b.id) ∧
      Absent 7 (reloaded.statusSet 7 .stop .fine).1.slots := by
  have hslots := slots_unique (fun _ => ⟨.parsed, false, 3, false⟩) 2 reloadCalls reloaded
    (by decide) rfl
  refine ⟨by decide, hslots.1, ?_⟩
  exact (hslots.2.2 7 (by decide) _ (by decide) [] _ (by simp) rfl).1

/-- Loaded twice, the waveform has two slots; after a `STOP` that succeeds the second one is still
there, with its modules, and the node accepts a packet to it. -/
theorem slots_twice :
    let sys := [Call.load 7 .fine, .load 7 .fine].foldl (fun sys c => (sys.call c).1)
      (System.start (fun _ => ⟨.parsed, false, 3, false⟩) 2)
    sys.slots.map Slot.id = [7, 7] ∧ (sys.statusSet 7 .stop .fine).2 = true ∧
      (sys.statusSet 7 .stop .fine).1.slots =
        [⟨0, .stop, false, 0, false⟩, ⟨7, .loaded, false, 3, true⟩] ∧
      (dispatcherSet 7 .run .fine (sys.statusSet 7 .stop .fine).1.slots).2 = true := by
  decide

end Aloe.Manager.Control
