import Aloe.Lib.Run
import Aloe.Manager.Control

/-!
# Manager and node have the same status

The manager changes its copy of a waveform's status before it knows what the node does. The two
copies agree in every run in which a waveform is only loaded while it is not loaded, commands
reach the node, and an initialisation succeeds and does not precache. Outside these conditions
each of the three parts fails.
-/

namespace Aloe.Manager.Control

open Lib Oesr.Exec List Control.System

/-- The manager's and the node's status of a waveform: `PARSED` stands for `STOP`. -/
def Agrees (man node : Status) : Prop := man = node ∨ (man = .parsed ∧ node = .stop)

instance (man node : Status) : Decidable (Agrees man node) := by
  unfold Agrees
  infer_instance

def CallAgrees (sys : System) (c : Call) : Prop :=
  let after := (sys.call c).1
  if (sys.call c).2 then Agrees (after.waveforms c.id).status (after.nodeStatus c.id)
  else (after.waveforms c.id).status = (sys.waveforms c.id).status ∨
    Agrees (after.waveforms c.id).status (after.nodeStatus c.id)

def Idle (st : Status) : Prop := st = .parsed ∨ st = .stop

instance (st : Status) : Decidable (Idle st) := by
  unfold Idle
  infer_instance

/-- A waveform is loaded while it is idle and has modules, and what a failed load leaves can be
removed. A command reaches the node, and an initialisation succeeds, without precaching. -/
def Conforms (c : Call) (sys : System) : Prop := c.id ≠ 0 ∧
    match c with
    | .load id o =>
      Idle (sys.waveforms id).status ∧ (sys.waveforms id).modules ≠ 0 ∧ o.removed = true
    | .statusSet id new o => ¬ Idle (sys.waveforms id).status → o.delivered = true ∧
        (new = .init → (sys.waveforms id).precachPipeline = false ∧ o.initTask = true ∧
          o.initiated ≠ some false)

instance (c : Call) (sys : System) : Decidable (Conforms c sys) :=
  match c with
  | .load _ _ => inferInstanceAs (Decidable (_ ∧ _ ∧ _ ∧ _))
  | .statusSet _ _ _ => inferInstanceAs (Decidable (_ ∧ (¬ _ → _ ∧ (_ → _ ∧ _ ∧ _))))

/-! ## The invariant -/

structure Coherent (sys : System) : Prop where
  named : ∀ s ∈ sys.slots, s.status ≠ .stop → s.id ≠ 0
  first : sys.slots.Pairwise fun a b => b.status ≠ .stop → a.id ≠ b.id
  idle : ∀ id ≠ 0, Idle (sys.waveforms id).status → ∀ s ∈ sys.slots, s.id = id → s.status = .stop
  active : ∀ id ≠ 0, ¬ Idle (sys.waveforms id).status → (sys.waveforms id).onNode = true ∧
    ∃ s ∈ sys.slots, s.id = id ∧ s.status = (sys.waveforms id).status ∧ s.launched = true ∧
      s.precachPipeline = (sys.waveforms id).precachPipeline

lemma coherent_start (waveforms : ℕ → ManWaveform) (n : ℕ) : Coherent (start waveforms n) where
  named := fun _ hs hstop => absurd (eq_of_mem_replicate hs ▸ rfl) hstop
  first := pairwise_replicate.mpr (.inr fun h => absurd rfl h)
  idle := fun _ _ _ _ hs _ => eq_of_mem_replicate hs ▸ rfl
  active := fun _ _ hactive => absurd (.inl rfl) hactive

section Split

variable {sys : System} {before after : List Slot} {s : Slot}

lemma Coherent.before_ne (h : Coherent sys) (hslots : sys.slots = before ++ s :: after)
    (hs : s.status ≠ .stop) : ∀ a ∈ before, a.id ≠ s.id := by
  have hfirst := h.first
  rw [hslots, pairwise_append] at hfirst
  exact fun a ha => hfirst.2.2 a ha s mem_cons_self hs

lemma Coherent.after_stop (h : Coherent sys) (hslots : sys.slots = before ++ s :: after) :
    ∀ b ∈ after, b.id = s.id → b.status = .stop := by
  have hfirst := h.first
  rw [hslots, pairwise_append, pairwise_cons] at hfirst
  intro b hb hid
  by_contra hstop
  exact hfirst.2.1.1 b hb hstop hid.symm

end Split

lemma Coherent.agrees {sys : System} (h : Coherent sys) {id : ℕ} (hid : id ≠ 0) :
    Agrees (sys.waveforms id).status (sys.nodeStatus id) := by
  by_cases hidle : Idle (sys.waveforms id).status
  · have hstop : sys.nodeStatus id = .stop := by
      unfold nodeStatus
      cases hfind : sys.slots.find? fun s => s.id = id with
      | none => rfl
      | some s =>
        exact h.idle id hid hidle s (mem_of_find?_eq_some hfind) (by simpa using find?_some hfind)
    rcases hidle with hst | hst
    · exact .inr ⟨hst, hstop⟩
    · exact .inl (hst.trans hstop.symm)
  · obtain ⟨-, t, ht, htid, htst, -⟩ := h.active id hid hidle
    have htstop : t.status ≠ .stop := fun hstop => hidle (.inr (htst.symm.trans hstop))
    obtain ⟨before, after, hslots⟩ := append_of_mem ht
    have hfind : (sys.slots.find? fun s => s.id = id) = some t := by
      refine find?_eq_some_iff_append.mpr
        ⟨decide_eq_true htid, before, after, hslots, fun a ha => ?_⟩
      simpa [htid] using h.before_ne hslots htstop a ha
    unfold nodeStatus
    rw [hfind]
    exact .inl htst.symm

/-! ## One change of the node -/

section Change

variable {sys : System} {id : ℕ} {w : ManWaveform}

lemma Coherent.setWaveform_idle (h : Coherent sys) (hidle : Idle (sys.waveforms id).status)
    (hw : Idle w.status) : Coherent (sys.setWaveform id w) where
  named := h.named
  first := h.first
  idle := by
    intro id' hid' hidle' s hs hsid
    rcases eq_or_ne id' id with rfl | hne
    · exact h.idle id' hid' hidle s hs hsid
    · refine h.idle id' hid' ?_ s hs hsid
      rwa [sys.setWaveform_of_ne w hne] at hidle'
  active := by
    intro id' hid' hactive
    rcases eq_or_ne id' id with rfl | hne
    · rw [setWaveform_self] at hactive
      exact absurd hw hactive
    · rw [sys.setWaveform_of_ne w hne] at hactive ⊢
      exact h.active id' hid' hactive

/-- The record `w` of the manager goes with the slot `s'` that the node has put in place of one
of the waveform or of a stopped one. -/
def Fits (id : ℕ) (w : ManWaveform) (s' : Slot) : Prop :=
  (Idle w.status ∧ s'.status = .stop ∧ (s'.id = id ∨ s'.id = 0)) ∨
    (¬ Idle w.status ∧ w.onNode = true ∧ s'.id = id ∧ s'.status = w.status ∧ s'.launched = true ∧
      s'.precachPipeline = w.precachPipeline)

lemma Fits.id_cases {s' : Slot} (h : Fits id w s') :
    s'.id = id ∨ (s'.id = 0 ∧ s'.status = .stop) := by
  rcases h with ⟨-, hstop, hid | hid⟩ | ⟨-, -, hid, -⟩
  · exact .inl hid
  · exact .inr ⟨hid, hstop⟩
  · exact .inl hid

/-- **One slot changes.** -/
theorem Coherent.replace {before after : List Slot} {s s' : Slot} (h : Coherent sys) (hid : id ≠ 0)
    (hslots : sys.slots = before ++ s :: after) (hs : s.id = id ∨ s.status = .stop)
    (hbefore : ∀ a ∈ before, a.id ≠ id) (hafter : ∀ b ∈ after, b.id = id → b.status = .stop)
    (hfits : Fits id w s') :
    Coherent ((sys.setWaveform id w).setSlots (before ++ s' :: after)) := by
  have hmem : ∀ t, t ∈ before ∨ t ∈ after → t ∈ sys.slots := fun t ht => hslots ▸ mem_of_mem_rest ht
  constructor
  · intro t ht hstop
    rcases mem_replaced ht with rfl | ht
    · rcases hfits.id_cases with htid | ⟨-, htstop⟩
      · exact htid ▸ hid
      · exact absurd htstop hstop
    · exact h.named t (hmem t ht) hstop
  · have hfirst := h.first
    rw [hslots, pairwise_append, pairwise_cons] at hfirst
    rw [setSlots_slots, pairwise_append, pairwise_cons]
    refine ⟨hfirst.1, ⟨?_, hfirst.2.1.2⟩, ?_⟩
    · intro b hb hstop heq
      rcases hfits.id_cases with hs'id | ⟨hs'id, -⟩
      · exact hstop (hafter b hb (heq.symm.trans hs'id))
      · exact h.named b (hmem b (.inr hb)) hstop (heq.symm.trans hs'id)
    · intro a ha b hb hstop
      rcases mem_cons.mp hb with rfl | hb
      · rcases hfits.id_cases with hbid | ⟨-, hbstop⟩
        · exact hbid ▸ hbefore a ha
        · exact absurd hbstop hstop
      · exact hfirst.2.2 a ha b (mem_cons_of_mem s hb) hstop
  · intro id' hid' hidle t ht htid
    rcases eq_or_ne id' id with rfl | hne
    · rw [setSlots_waveforms, setWaveform_self] at hidle
      rcases mem_replaced ht with rfl | ht | ht
      · rcases hfits with ⟨-, hstop, -⟩ | ⟨hactive, -⟩
        · exact hstop
        · exact absurd hidle hactive
      · exact absurd htid (hbefore t ht)
      · exact hafter t ht htid
    · rw [setSlots_waveforms, sys.setWaveform_of_ne w hne] at hidle
      rcases mem_replaced ht with rfl | ht
      · rcases hfits.id_cases with hsid | ⟨hsid, -⟩
        · exact absurd (htid.symm.trans hsid) hne
        · exact absurd (htid.symm.trans hsid) hid'
      · exact h.idle id' hid' hidle t (hmem t ht) htid
  · intro id' hid' hactive
    rcases eq_or_ne id' id with rfl | hne
    · rw [setSlots_waveforms, setWaveform_self] at hactive ⊢
      rcases hfits with ⟨hidle, -⟩ | ⟨-, hnode, hs'id, hst, hlaunched, hprecach⟩
      · exact absurd hidle hactive
      · exact ⟨hnode, s', by simp, hs'id, hst, hlaunched, hprecach⟩
    · rw [setSlots_waveforms, sys.setWaveform_of_ne w hne] at hactive ⊢
      obtain ⟨hnode, t, ht, htid, htst, hrest⟩ := h.active id' hid' hactive
      refine ⟨hnode, t, ?_, htid, htst, hrest⟩
      -- the slot of another active waveform is not the one that changed
      have hne_s : t ≠ s := by
        rintro rfl
        rcases hs with hsid | hstop
        · exact hne (htid.symm.trans hsid)
        · exact hactive (.inr (htst.symm.trans hstop))
      rcases mem_replaced (hslots ▸ ht) with ht | ht
      · exact absurd ht hne_s
      · exact mem_of_mem_rest ht

end Change

/-! ## The calls -/

section Calls

variable {sys : System} {id : ℕ} {s : Slot}

lemma statusStop_status (o : StopOutcome) (hs : s.canRun = true ∨ s.status = .stop) :
    (s.statusStop o).1.status = .stop ∧
      ((s.statusStop o).1.id = s.id ∨ (s.statusStop o).1.id = 0) := by
  unfold Slot.statusStop
  by_cases hrun : s.canRun = true
  · rw [if_pos hrun]
    cases o.task <;> cases o.removed <;> simp [Slot.remove]
  · rw [if_neg hrun]
    exact ⟨hs.resolve_left hrun, .inl rfl⟩

lemma setStatus_stop (o : StatusOutcome) (hs : s.canRun = true ∨ s.status = .stop) :
    (s.setStatus .stop o).1.status = .stop ∧
      ((s.setStatus .stop o).1.id = s.id ∨ (s.setStatus .stop o).1.id = 0) := by
  have hnew : (s.statusNew .stop o).1.status = .stop ∧
      ((s.statusNew .stop o).1.id = s.id ∨ (s.statusNew .stop o).1.id = 0) := by
    unfold Slot.statusNew
    split_ifs with hrun
    · exact statusStop_status o.stop hs
    · exact ⟨hs.resolve_left hrun, .inl rfl⟩
  unfold Slot.setStatus
  by_cases hok : (s.statusNew .stop o).2 = true
  · simp only [hok, if_true]
    exact hnew
  · simp only [hok]
    have hagain := statusStop_status o.stopAgain (.inr hnew.1)
    refine ⟨hagain.1, ?_⟩
    rcases hagain.2 with h | h
    · exact hnew.2.imp h.trans h.trans
    · exact .inr h

lemma load_fits {w : ManWaveform} {o : LoadOutcome} (hstop : s.status = .stop)
    (hw : w.status = .parsed) (hnode : w.onNode = true) (hremoved : o.removed = true) :
    ((s.load id w o).1 = s ∧ (s.load id w o).2 = false) ∨
      Fits id (if (s.load id w o).2 then { w with status := .loaded } else w)
        (s.load id w o).1 := by
  unfold Slot.load
  cases o.decode with
  | early => exact .inl ⟨rfl, rfl⟩
  | late precach modules => exact .inr (.inl ⟨.inl hw, hstop, .inl rfl⟩)
  | whole =>
    by_cases hok : o.launched = true ∧ o.acknowledged = true
    · simp only [if_pos hok, if_true]
      exact .inr (.inr ⟨by simp [Idle], hnode, rfl, rfl, hok.1, rfl⟩)
    · simp only [if_neg hok, if_pos hremoved]
      exact .inr (.inl ⟨.inl hw, rfl, .inr rfl⟩)

lemma Coherent.load (h : Coherent sys) {o : LoadOutcome} (hc : Conforms (.load id o) sys) :
    Coherent (sys.load id o).1 := by
  obtain ⟨hid, hidle, hmodules, hremoved⟩ := hc
  change id ≠ 0 at hid
  rcases sys.load_cases id o with ⟨w, hmod, hw, hload⟩ |
    ⟨before, s, after, w, hslots, hbefore, hs, hw, -, hload⟩
  · rw [hload]
    exact h.setWaveform_idle hidle (.inl (hw (hmod ▸ hmodules)).1)
  · rw [hload]
    have hparsed : w.status = .parsed := by rw [hw]
    have hnode : w.onNode = true := by rw [hw]
    rcases load_fits hs hparsed hnode hremoved with ⟨hsame, hfalse⟩ | hfits
    · rw [hsame, hfalse, ← hslots]
      exact h.setWaveform_idle hidle (.inl hparsed)
    · refine h.replace hid hslots (.inr hs) ?_ ?_ hfits
      · intro a ha haid
        exact hbefore a ha (h.idle id hid hidle a (by simp [hslots, ha]) haid)
      · exact fun b hb => h.idle id hid hidle b (by simp [hslots, hb])

lemma setStatus_fits {w : ManWaveform} {new : Status} {o : StatusOutcome}
    (hvalid : waveformStatusIsValid w.status new = true) (hnode : w.onNode = true)
    (hsid : s.id = id)
    (hlaunched : s.launched = true) (hprecach : s.precachPipeline = w.precachPipeline)
    (hinit : new = .init → w.precachPipeline = false ∧ o.initTask = true ∧
      o.initiated ≠ some false) :
    Fits id { w with status := if (s.setStatus new o).2 ∧ new = .stop then .parsed else new }
      (s.setStatus new o).1 := by
  have hplain : ∀ st, ¬ Idle st → s.setStatus st o = ({ s with status := st }, true) →
      Fits id { w with status := if (s.setStatus st o).2 ∧ st = .stop then .parsed else st }
        (s.setStatus st o).1 := by
    intro st hst hset
    have hstop : ¬((s.setStatus st o).2 ∧ st = .stop) := fun h => hst (.inr h.2)
    rw [if_neg hstop, hset]
    exact .inr ⟨hst, hnode, hsid, rfl, hlaunched, hprecach⟩
  cases new with
  | parsed => exact absurd hvalid (by simp [waveformStatusIsValid])
  | loaded => exact absurd hvalid (by simp [waveformStatusIsValid])
  | init =>
    obtain ⟨hcache, htask, hok⟩ := hinit rfl
    refine hplain _ (by decide) ?_
    have hstatusInit : s.statusInit o = ({ s with status := .init }, true) := by
      unfold Slot.statusInit
      simp only [if_pos htask]
    simp [Slot.setStatus, Slot.statusNew, hstatusInit, hprecach, hcache]
  | stop =>
    have hstop := setStatus_stop o (s := s) (.inl (by simp [Slot.canRun, hlaunched]))
    refine .inl ⟨?_, hstop.1, hstop.2.imp_left fun h => h.trans hsid⟩
    split_ifs
    · exact .inl rfl
    · exact .inr rfl
  | run => exact hplain _ (by decide) rfl
  | step => exact hplain _ (by decide) rfl
  | pause => exact hplain _ (by decide) rfl

lemma Coherent.statusSet (h : Coherent sys) {new : Status} {o : StatusOutcome}
    (hc : Conforms (.statusSet id new o) sys) : Coherent (sys.statusSet id new o).1 := by
  obtain ⟨hid, hcond⟩ := hc
  change id ≠ 0 at hid
  by_cases hvalid : waveformStatusIsValid (sys.waveforms id).status new = true
  swap
  · rw [System.statusSet, if_neg hvalid]
    exact h
  by_cases hidle : Idle (sys.waveforms id).status
  · have hnew : new = .stop := by
      rcases hidle with hst | hst <;> rw [hst] at hvalid <;> revert hvalid <;>
        cases new <;> decide
    subst hnew
    rcases statusSet_cases o hid hvalid with ⟨st, hst, -, -, hset⟩ |
      ⟨before, s, after, hslots, hbefore, hsid, hset⟩
    · rw [hset]
      refine h.setWaveform_idle hidle ?_
      rcases hst with rfl | ⟨rfl, -⟩
      · exact .inr rfl
      · exact .inl rfl
    · rw [hset]
      have hstop := setStatus_stop o (s := s) (.inr (h.idle id hid hidle s (by simp [hslots]) hsid))
      refine h.replace hid hslots (.inl hsid) hbefore ?_
        (.inl ⟨?_, hstop.1, hstop.2.imp_left fun h => h.trans hsid⟩)
      · exact fun b hb hbid => h.after_stop hslots b hb (hbid.trans hsid.symm)
      · split_ifs
        · exact .inl rfl
        · exact .inr rfl
  · obtain ⟨hdelivered, hinit⟩ := hcond hidle
    obtain ⟨hnode, t, ht, htid, htst, htlaunched, htprecach⟩ := h.active id hid hidle
    have htstop : t.status ≠ .stop := fun hstop => hidle (.inr (htst.symm.trans hstop))
    rcases statusSet_cases o hid hvalid with ⟨st, -, hnone, -⟩ |
      ⟨before, s, after, hslots, hbefore, hsid, hset⟩
    · exact absurd htid (hnone hnode hdelivered t ht)
    · -- the first slot with the id is the active one
      have hst : t = s := by
        rcases mem_replaced (hslots ▸ ht) with ht | ht | ht
        · exact ht
        · exact absurd htid (hbefore t ht)
        · exact absurd (h.after_stop hslots t ht (htid.trans hsid.symm)) htstop
      subst hst
      rw [hset]
      refine h.replace hid hslots (.inl hsid) hbefore ?_
        (setStatus_fits hvalid hnode htid htlaunched htprecach hinit)
      exact fun b hb hbid => h.after_stop hslots b hb (hbid.trans hsid.symm)

end Calls

/-! ## Runs -/

lemma Coherent.call {sys : System} (h : Coherent sys) {c : Call} (hc : Conforms c sys) :
    Coherent (sys.call c).1 := by
  cases c with
  | load id o => exact h.load hc
  | statusSet id new o => exact h.statusSet hc

/-- **Manager and node agree.** In every state that conforming calls reach, the manager's status of
every waveform is the node's, and a further conforming call leaves it so even if it fails. -/
theorem calls_agree (waveforms : ℕ → ManWaveform) (n : ℕ) (calls : List Call) (sys : System)
    (hmeets : Meets System.step Conforms calls (System.start waveforms n))
    (hrun : run System.step calls (System.start waveforms n) = some sys) :
    (∀ id ≠ 0, Agrees (sys.waveforms id).status (sys.nodeStatus id)) ∧
      ∀ c, Conforms c sys → CallAgrees sys c := by
  have hcoherent : Coherent sys := by
    refine run_invariant Coherent ?_ (coherent_start waveforms n) hmeets hrun
    intro c s s' hs hc hstep
    cases hstep
    exact hs.call hc
  refine ⟨fun id hid => hcoherent.agrees hid, fun c hc => ?_⟩
  have hagrees := (hcoherent.call hc).agrees hc.1
  unfold CallAgrees
  split_ifs
  · exact hagrees
  · exact .inr hagrees

def twoSlots : System := System.start (fun _ => ⟨.parsed, false, 3, false⟩) 2

def startCalls : List Call :=
  [.load 7 { LoadOutcome.fine with decode := .late false 1 }, .load 7 .fine,
    .statusSet 7 .init .fine, .statusSet 7 .run .fine]

theorem calls_agree_started : let sys := startCalls.foldl (fun sys c => (sys.call c).1) twoSlots
    (sys.waveforms 7).status = .run ∧ Agrees (sys.waveforms 7).status (sys.nodeStatus 7) ∧
      CallAgrees sys (.statusSet 7 .stop { StatusOutcome.fine with stop := ⟨false, false⟩ }) := by
  have hcalls := calls_agree (fun _ => ⟨.parsed, false, 3, false⟩) 2 startCalls
    (startCalls.foldl (fun sys c => (sys.call c).1) twoSlots) (by decide) rfl
  exact ⟨by decide, hcalls.1 7 (by decide), hcalls.2 _ (by decide)⟩

theorem calls_disagree : ¬ CallAgrees (twoSlots.call (.load 7 .fine)).1
        (.statusSet 7 .init { StatusOutcome.fine with initiated := some false }) ∧
      ¬ CallAgrees ((System.start (fun _ => ⟨.parsed, true, 3, false⟩) 2).call (.load 7 .fine)).1
        (.statusSet 7 .init .fine) ∧
      ¬ CallAgrees (startCalls.foldl (fun sys c => (sys.call c).1) twoSlots)
        (.load 7 { LoadOutcome.fine with mapped := false }) := by
  unfold CallAgrees
  decide

end Aloe.Manager.Control
