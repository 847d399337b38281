import Aloe.Oesr.CtrlDelivery
import Aloe.Oesr.CtrlSkeleton

/-!
# Sending by name

`ctrl_skeleton_send_name` of `skeleton/ctrl_skeleton.c` searches the table of remote parameters and
hands the entry it finds to `ctrl_skeleton_send_idx`. The search goes on while *both* names differ,
so it stops at the first entry that shares one of them. The sender's check of the index lets the
length of the table pass.
-/

namespace Aloe.Oesr.Ctrl

open Lib Rtdal Rtdal.Itfspscq Oesr.CtrlSkeleton Function List Option

/-! ## The search -/

/-- The remote parameters of a control module: `remote_params_db` up to `nof_remote_variables`, and
the static memory of the sender. -/
structure RemoteTable where
  db : List RemoteParam
  snd : Sender
  nof_eq : snd.nofRemoteVariables = db.length

/-- The loop of `ctrl_skeleton_send_name` over the entries from `i` on. -/
def searchName (moduleName variableName : CString) : (i : ℕ) → List RemoteParam → ℕ
  | i, [] => i
  | i, p :: db =>
    if p.moduleName ≠ moduleName ∧ p.variableName ≠ variableName then
      searchName moduleName variableName (i + 1) db
    else i

def ctrlSkeletonSendName (table : RemoteTable) (queues : ℕ → Itf) (now : ℤ)
    (moduleName variableName : CString) (value : Payload) :
    Option (ℤ × Sender × (ℕ → Itf)) :=
  let i := searchName moduleName variableName 0 table.db
  if (i : ℤ) = table.snd.nofRemoteVariables then some (-1, table.snd, queues)
  else ctrlSkeletonSendIdx table.snd queues now i value

/-! ## What the calls are for -/

def HasNames (moduleName variableName : CString) (p : RemoteParam) : Prop :=
  p.moduleName = moduleName ∧ p.variableName = variableName

instance (moduleName variableName : CString) (p : RemoteParam) :
    Decidable (HasNames moduleName variableName p) := inferInstanceAs (Decidable (_ ∧ _))

def SharesName (moduleName variableName : CString) (p : RemoteParam) : Prop :=
  p.moduleName = moduleName ∨ p.variableName = variableName

instance (moduleName variableName : CString) (p : RemoteParam) :
    Decidable (SharesName moduleName variableName p) := inferInstanceAs (Decidable (_ ∨ _))

def firstNamed (table : RemoteTable) (moduleName variableName : CString) : Option ℕ :=
  table.db.findIdx? fun p => HasNames moduleName variableName p

def firstSharing (table : RemoteTable) (moduleName variableName : CString) : Option ℕ :=
  table.db.findIdx? fun p => SharesName moduleName variableName p

/-- A call by name does what the call for the first entry of that name does, and without such an
entry it returns -1 and changes nothing. -/
def SendsByName (table : RemoteTable) (moduleName variableName : CString) : Prop :=
  ∀ (queues : ℕ → Itf) (now : ℤ) (value : Payload),
    ctrlSkeletonSendName table queues now moduleName variableName value =
      match firstNamed table moduleName variableName with
      | none => some (-1, table.snd, queues)
      | some i => ctrlSkeletonSendIdx table.snd queues now i value

def outcome (r : Option (ℤ × Sender × (ℕ → Itf))) : Option (ℤ × CtrlInPkt × (ℕ → Itf)) :=
  r.map fun r => (r.1, r.2.1.ctrlOutBuffer, r.2.2)

/-- A call for the index `destIdx` depends on no entry outside the table. -/
def StaysInside (table : RemoteTable) (destIdx : ℤ) : Prop :=
  ∀ other : Sender, other.nofRemoteVariables = table.snd.nofRemoteVariables →
    other.ctrlOutBuffer = table.snd.ctrlOutBuffer →
    (∀ i < table.db.length, other.remoteVariables i = table.snd.remoteVariables i) →
    ∀ (queues : ℕ → Itf) (now : ℤ) (value : Payload),
      outcome (ctrlSkeletonSendIdx other queues now destIdx value) =
        outcome (ctrlSkeletonSendIdx table.snd queues now destIdx value)

/-! ## A call with free queues -/

def oneByte : Payload := ⟨[1], by decide⟩

def packetFor (snd : Sender) (i : ℕ) (value : Payload) : CtrlInPkt :=
  (Sending.mk 0 i value).packet snd

lemma packetFor_pmIdx (snd : Sender) (i : ℕ) (value : Payload) :
    (packetFor snd i value).pmIdx = (snd.remoteVariables i).variableIdx := rfl

variable {i : ℕ}

lemma sendIdx_free (snd : Sender) (hi : (i : ℤ) ≤ snd.nofRemoteVariables) :
    ∃ queue', ctrlSkeletonSendIdx snd (fun _ => ctrlQueue) 0 i oneByte =
        some (0, { snd with ctrlOutBuffer := packetFor snd i oneByte },
          update (fun _ => ctrlQueue) (snd.remoteVariables i).queue queue') ∧
      queue' ≠ ctrlQueue := by
  have hempty : Stores ctrlQueue [] 1 :=
    ⟨holds_new (Nat.zero_lt_succ 135), rfl, fun _ k hk => absurd hk (Nat.not_lt_zero k)⟩
  have hlen : (fromBuffer (packetFor snd i oneByte)
      (oneByte.1.length + ctrlPktHeaderSz)).length = 81 := length_fromBuffer _ _
  obtain ⟨queue', hsend, -, -, hstores⟩ :=
    hempty.send_of_le (Nat.zero_lt_succ 135) (hlen.trans_le (by decide)) (hlen ▸ by decide)
      (fun _ => show (0 : ℤ) + ctrlQueue.delay ≤ 1 from le_refl 1)
  refine ⟨queue', ?_, ?_⟩
  · have hpacket : Itfspscq.send ctrlQueue 0 (fromBuffer
        ⟨(snd.remoteVariables i).variableIdx, BitVec.ofNat 32 oneByte.1.length,
          pasteValue snd.ctrlOutBuffer.value oneByte⟩ (oneByte.1.length + ctrlPktHeaderSz)) =
        some (1, queue') := hsend
    rw [ctrlSkeletonSendIdx, if_neg (by omega), Int.toNat_natCast]
    dsimp only
    rw [hpacket]
    rfl
  · rintro rfl
    exact (hstores.holds.read_valid_iff.mpr (cons_ne_nil _ _))
      (not_not.mp (mt hempty.holds.read_valid_iff.mp (not_not.mpr rfl)))

/-! ## By name -/

variable {moduleName variableName : CString}

lemma searchName_eq (i : ℕ) (db : List RemoteParam) : searchName moduleName variableName i db =
      i + db.findIdx fun p => SharesName moduleName variableName p := by
  induction db generalizing i with
  | nil => rfl
  | cons p db ih =>
    rw [searchName, findIdx_cons]
    by_cases hshares : SharesName moduleName variableName p
    · rw [if_neg (fun h => hshares.elim h.1 h.2), decide_eq_true hshares]
      rfl
    · rw [if_pos (not_or.mp hshares), ih, decide_eq_false hshares, cond_false]
      omega

lemma ctrlSkeletonSendName_eq (table : RemoteTable) (queues : ℕ → Itf) (now : ℤ) (value : Payload) :
    ctrlSkeletonSendName table queues now moduleName variableName value =
      match firstSharing table moduleName variableName with
      | none => some (-1, table.snd, queues)
      | some i => ctrlSkeletonSendIdx table.snd queues now i value := by
  rw [ctrlSkeletonSendName, searchName_eq, zero_add, table.nof_eq]
  cases hfirst : firstSharing table moduleName variableName with
  | none =>
    have hend := findIdx_eq_length.mpr (findIdx?_eq_none_iff.mp hfirst)
    rw [if_pos (congrArg _ hend)]
  | some i =>
    obtain ⟨hlt, hidx⟩ := findIdx?_eq_some_iff_findIdx_eq.mp hfirst
    rw [hidx, if_neg (by omega)]

lemma firstNamed_eq_none {table : RemoteTable}
    (h : firstSharing table moduleName variableName = none) :
    firstNamed table moduleName variableName = none := by
  refine findIdx?_eq_none_iff.mpr fun p hp => decide_eq_false fun hnames => ?_
  exact of_decide_eq_false (findIdx?_eq_none_iff.mp h p hp) (.inl hnames.1)

lemma lt_of_findIdx? {α : Type} {p : α → Bool} {xs : List α}
    (h : xs.findIdx? p = some i) : i < xs.length :=
  (findIdx?_eq_some_iff_findIdx_eq.mp h).1

variable {snd : Sender} {j : ℕ}
  (hi : (i : ℤ) ≤ snd.nofRemoteVariables) (hj : (j : ℤ) ≤ snd.nofRemoteVariables)

include hi hj in
lemma sendIdx_congr (h : snd.remoteVariables i = snd.remoteVariables j) (queues : ℕ → Itf) (now : ℤ)
    (value : Payload) :
    ctrlSkeletonSendIdx snd queues now i value = ctrlSkeletonSendIdx snd queues now j value := by
  rw [ctrlSkeletonSendIdx, ctrlSkeletonSendIdx, if_neg (by omega), if_neg (by omega),
    Int.toNat_natCast, Int.toNat_natCast, h]

include hi hj in
lemma remoteVariable_eq_of_send (h : ctrlSkeletonSendIdx snd (fun _ => ctrlQueue) 0 i oneByte =
      ctrlSkeletonSendIdx snd (fun _ => ctrlQueue) 0 j oneByte) :
    snd.remoteVariables i = snd.remoteVariables j := by
  obtain ⟨queue1, hsend1, hnew1⟩ := sendIdx_free snd hi
  obtain ⟨queue2, hsend2, -⟩ := sendIdx_free snd hj
  rw [hsend1, hsend2, some.injEq, Prod.mk.injEq, Prod.mk.injEq] at h
  obtain ⟨-, hbuffer, hqueues⟩ := h
  have hvariable : (snd.remoteVariables i).variableIdx = (snd.remoteVariables j).variableIdx :=
    congrArg (fun s : Sender => s.ctrlOutBuffer.pmIdx) hbuffer
  have hqueue : (snd.remoteVariables i).queue = (snd.remoteVariables j).queue := by
    by_contra hne
    have hat := congrFun hqueues (snd.remoteVariables i).queue
    rw [update_self, update_of_ne hne] at hat
    exact hnew1 hat
  exact congrArg₂ RemoteVariable.mk hvariable hqueue

lemma sendsByName_iff (table : RemoteTable) (moduleName variableName : CString) :
    SendsByName table moduleName variableName ↔
      ∀ i, firstSharing table moduleName variableName = some i →
        ∃ j, firstNamed table moduleName variableName = some j ∧
          table.snd.remoteVariables i = table.snd.remoteVariables j := by
  have hnof := table.nof_eq
  constructor
  · intro h i hi
    have hlt := lt_of_findIdx? hi
    have hcall := h (fun _ => ctrlQueue) 0 oneByte
    rw [ctrlSkeletonSendName_eq, hi] at hcall
    cases hnamed : firstNamed table moduleName variableName with
    | none =>
      -- the packet has been put into a queue
      obtain ⟨queue', hsend, hnew⟩ := sendIdx_free table.snd (i := i) (by omega)
      rw [hnamed] at hcall
      have hqueues := (hsend.symm.trans hcall)
      rw [some.injEq, Prod.mk.injEq, Prod.mk.injEq] at hqueues
      have hat := congrFun hqueues.2.2 (table.snd.remoteVariables i).queue
      rw [update_self] at hat
      exact absurd hat hnew
    | some j =>
      have hlt' := lt_of_findIdx? hnamed
      rw [hnamed] at hcall
      exact ⟨j, rfl, remoteVariable_eq_of_send (by omega) (by omega) hcall⟩
  · intro h queues now value
    rw [ctrlSkeletonSendName_eq]
    cases hfirst : firstSharing table moduleName variableName with
    | none => rw [firstNamed_eq_none hfirst]
    | some i =>
      obtain ⟨j, hnamed, hsame⟩ := h i hfirst
      have hlt := lt_of_findIdx? hfirst
      have hlt' := lt_of_findIdx? hnamed
      rw [hnamed]
      exact sendIdx_congr (by omega) (by omega) hsame queues now value

/-! ## By index -/

def Sender.redirect (snd : Sender) (i : ℕ) : Sender :=
  { snd with
    remoteVariables := update snd.remoteVariables i
      ⟨(snd.remoteVariables i).variableIdx + 1, (snd.remoteVariables i).queue⟩ }

lemma Sender.redirect_self (snd : Sender) (i : ℕ) : (snd.redirect i).remoteVariables i =
      ⟨(snd.remoteVariables i).variableIdx + 1, (snd.remoteVariables i).queue⟩ :=
  update_self ..

lemma staysInside_iff (table : RemoteTable) (destIdx : ℤ) :
    StaysInside table destIdx ↔ destIdx ≠ table.db.length := by
  have hnof := table.nof_eq
  constructor
  · rintro h rfl
    have hsame : ∀ i < table.db.length,
        (table.snd.redirect table.db.length).remoteVariables i = table.snd.remoteVariables i :=
      fun i hi => update_of_ne hi.ne _ _
    have hcall := h (table.snd.redirect table.db.length) rfl rfl hsame (fun _ =>
      ctrlQueue) 0 oneByte
    obtain ⟨queue1, hsend1, -⟩ :=
      sendIdx_free (table.snd.redirect table.db.length) (i := table.db.length) hnof.ge
    obtain ⟨queue2, hsend2, -⟩ := sendIdx_free table.snd (i := table.db.length) hnof.ge
    rw [hsend1, hsend2, outcome, outcome, map_some, map_some, some.injEq,
      Prod.mk.injEq, Prod.mk.injEq] at hcall
    have hvariable := congrArg CtrlInPkt.pmIdx hcall.2.1
    dsimp only at hvariable
    rw [packetFor_pmIdx, packetFor_pmIdx, Sender.redirect_self] at hvariable
    exact absurd hvariable (by bv_omega)
  · intro hne other hother hbuffer hsame queues now value
    rw [ctrlSkeletonSendIdx, ctrlSkeletonSendIdx, hother]
    by_cases hout : destIdx < 0 ∨ table.snd.nofRemoteVariables < destIdx
    · rw [if_pos hout, if_pos hout, outcome, outcome, map_some, map_some, hbuffer]
    · rw [if_neg hout, if_neg hout, hsame destIdx.toNat (by omega), hbuffer]
      dsimp only
      split <;> rfl

/-! ## Both calls -/

/-- A call by name reaches the first entry for the variable exactly if the first entry that shares
a name is addressed as that one. A call by index stays inside the table exactly if the index is not
the table's length. -/
theorem control_send_iff (table : RemoteTable) :
    (∀ moduleName variableName : CString, SendsByName table moduleName variableName ↔
      ∀ i, firstSharing table moduleName variableName = some i →
        ∃ j, firstNamed table moduleName variableName = some j ∧
          table.snd.remoteVariables i = table.snd.remoteVariables j) ∧
    ∀ destIdx : ℤ, StaysInside table destIdx ↔ destIdx ≠ table.db.length :=
  ⟨sendsByName_iff table, staysInside_iff table⟩

def twoParams : RemoteTable where
  db := [⟨"pbch_tx_pack".toList, "enable".toList, 4⟩, ⟨"pbch_tx_pack".toList, "nof_prb".toList, 4⟩]
  snd := { oneEntry with
    remoteVariables := fun i => ⟨BitVec.ofNat 32 i, 0⟩
    nofRemoteVariables := 2 }
  nof_eq := rfl

theorem control_send_first : SendsByName twoParams "pbch_tx_pack".toList "enable".toList ∧
      SendsByName twoParams "source".toList "block_length".toList ∧ StaysInside twoParams 1 :=
  ⟨((control_send_iff twoParams).1 _ _).mpr fun i hi => ⟨i, hi, rfl⟩,
    ((control_send_iff twoParams).1 _ _).mpr fun i hi =>
      absurd ((rfl : none = _).trans hi) (some_ne_none i).symm,
    ((control_send_iff twoParams).2 1).mpr (by decide)⟩

theorem control_send_astray : (∀ queues now value,
      ctrlSkeletonSendName twoParams queues now "pbch_tx_pack".toList "nof_prb".toList value =
        ctrlSkeletonSendIdx twoParams.snd queues now 0 value) ∧
    ¬ SendsByName twoParams "pbch_tx_pack".toList "nof_prb".toList ∧ ¬ StaysInside twoParams 2 := by
  refine ⟨fun queues now value => rfl, ?_, ?_⟩
  · rw [sendsByName_iff]
    intro h
    obtain ⟨j, hj, hsame⟩ := h 0 (by decide)
    obtain rfl : 1 = j := some.inj hj
    exact absurd (congrArg RemoteVariable.variableIdx hsame) (by decide)
  · rw [staysInside_iff]
    exact fun h => h rfl

end Aloe.Oesr.Ctrl
