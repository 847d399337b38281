import Aloe.Lib.Fallible
import Aloe.Oesr.NodDispatcher
import Mathlib.Data.Nat.Find

/-!
# When the dispatcher acts on the addressed variable

A SET packet carries the id, size and type of a variable and its value; a GET packet is answered
with the same. Both transfers copy as many bytes as an `int` field says, so a transfer stays inside
its buffers only where that size fits them.

The module loop is bounded by the module counts of the slots it should not look at, the variable
loop by the variable count of a module of another waveform, and the transfer is given the number of
modes of another waveform. `search_eq` says what the searches find for every table.
-/

namespace Aloe.Oesr

open Lib

variable {pool : Pool} {pkt : Packet} {v : Variable}

/-! ## SET -/

def announcedSize (pkt : Packet) : ℤ := (cint.dec ((pkt.unread.drop 4).take 4)).toInt

def SetFits (v : Variable) (pkt : Packet) : Prop :=
  ∀ block ∈ v.curValue, 12 + (announcedSize pkt).toNat ≤ pkt.unread.length →
    (announcedSize pkt).toNat ≤ block.length

def Variable.withHeader (v : Variable) (pkt : Packet) (nofModes : CInt) : Variable :=
  { v with
    id := cint.dec (pkt.unread.take 4)
    size := cint.dec ((pkt.unread.drop 4).take 4)
    type := cint.dec ((pkt.unread.drop 8).take 4)
    nofModes := nofModes }

lemma setVariable_long (h : pkt.rPtr + 12 ≤ pkt.data.length) (nofModes : CInt) :
    setVariable pool nofModes (pkt, v) =
      variableUnserializeValue (pkt.advance 12 h, v.withHeader pkt nofModes) := by
  have h1 : pkt.rPtr + 4 ≤ pkt.data.length := by omega
  have h2 : pkt.rPtr + 4 + 4 ≤ pkt.data.length := by omega
  have h3 : pkt.rPtr + 8 + 4 ≤ pkt.data.length := by omega
  refine (bind_of_ok (getI_of_le pkt h1 _ _)).trans ?_
  refine (bind_of_ok (getI_of_le (pkt.advance 4 h1) h2 _ _)).trans ?_
  refine (bind_of_ok (getI_of_le (pkt.advance 8 h2) h3 _ _)).trans ?_
  rw [pkt.unread_advance, pkt.unread_advance]
  rfl

lemma setVariable_short (pool : Pool) (v : Variable) (h : pkt.data.length < pkt.rPtr + 12) :
    ∃ pkt' v', (∀ nofModes, setVariable pool nofModes (pkt, v) = .error .ret (pkt', v')) ∧
      (pkt.data.length < pkt.rPtr + 4 → pkt' = pkt ∧ v' = v) ∧
      (pkt.rPtr + 4 ≤ pkt.data.length → pkt.rPtr < pkt'.rPtr) := by
  by_cases h1 : pkt.rPtr + 4 ≤ pkt.data.length
  · by_cases h2 : pkt.rPtr + 8 ≤ pkt.data.length
    · refine ⟨pkt.advance 8 h2, { v with
          id := cint.dec (pkt.unread.take 4)
          size := cint.dec ((pkt.advance 4 h1).unread.take 4) }, fun nofModes => ?_, by omega,
        fun _ => Nat.lt_add_of_pos_right (by decide)⟩
      refine (bind_of_ok (getI_of_le pkt h1 _ _)).trans ?_
      refine (bind_of_ok (getI_of_le (pkt.advance 4 h1) h2 _ _)).trans ?_
      exact bind_of_error (getI_of_lt (pkt.advance 8 h2) h _ _)
    · refine ⟨pkt.advance 4 h1, { v with id := cint.dec (pkt.unread.take 4) }, fun nofModes =>
        ?_, by omega,
        fun _ => Nat.lt_add_of_pos_right (by decide)⟩
      refine (bind_of_ok (getI_of_le pkt h1 _ _)).trans ?_
      exact bind_of_error (getI_of_lt (pkt.advance 4 h1) (Nat.lt_of_not_le h2) _ _)
  · exact ⟨pkt, v, fun nofModes => bind_of_error (getI_of_lt pkt (Nat.lt_of_not_le h1) _ _),
      fun _ => ⟨rfl, rfl⟩, fun hle => absurd hle h1⟩

lemma unserializeValue_of_none (h : v.curValue = none) :
    variableUnserializeValue (pkt, v) = .error .ret (pkt, v) := by
  refine (bind_of_ok (getThis_run pkt v)).trans (bind_of_error ?_)
  rw [h]
  rfl

lemma unserializeValue_of_some {block : List UInt8} (h : v.curValue = some block) :
    variableUnserializeValue (pkt, v) = if v.size.toInt ≤ 0 then .error .ret (pkt, v)
      else if hroom : pkt.rPtr + v.size.toInt.toNat ≤ pkt.data.length then
        if v.size.toInt.toNat ≤ block.length then
          .ok () (pkt.advance v.size.toInt.toNat hroom, { v with
            curValue := some (pkt.unread.take v.size.toInt.toNat ++
              block.drop v.size.toInt.toNat) })
        else .error .fault (pkt.advance v.size.toInt.toNat hroom, v)
      else .error .ret (pkt, v) := by
  refine (bind_of_ok (getThis_run pkt v)).trans ?_
  rw [h]
  by_cases hsize : v.size.toInt ≤ 0
  · rw [if_pos hsize]
    refine bind_of_error (bind_of_error ?_)
    simp [packetGetData, hsize]
  · rw [if_neg hsize]
    by_cases hroom : pkt.rPtr + v.size.toInt.toNat ≤ pkt.data.length
    · have hread : packetGetData v.size.toInt (pkt, v) = .ok (pkt.unread.take v.size.toInt.toNat)
            (pkt.advance v.size.toInt.toNat hroom, v) := by
        simp [packetGetData, hsize, hroom]
      have hlength : (pkt.unread.take v.size.toInt.toNat).length = v.size.toInt.toNat := by
        rw [List.length_take, pkt.length_unread]
        omega
      rw [dif_pos hroom]
      by_cases hfits : v.size.toInt.toNat ≤ block.length
      · have hinto : packetGetInto (some block) v.size.toInt (pkt, v) =
            .ok (pkt.unread.take v.size.toInt.toNat ++ block.drop v.size.toInt.toNat)
              (pkt.advance v.size.toInt.toNat hroom, v) := by
          refine (bind_of_ok hread).trans ?_
          rw [hlength, if_pos hfits]
          rfl
        rw [if_pos hfits]
        exact bind_of_ok hinto
      · rw [if_neg hfits]
        refine bind_of_error ((bind_of_ok hread).trans ?_)
        rw [hlength, if_neg hfits]
        rfl
    · rw [dif_neg hroom]
      refine bind_of_error (bind_of_error ?_)
      simp [packetGetData, hsize, hroom]

lemma unserializeValue_endState (pkt : Packet) (v : Variable) :
    pkt.rPtr ≤ (endState (variableUnserializeValue (pkt, v))).1.rPtr ∧
      (endState (variableUnserializeValue (pkt, v))).2.nofModes = v.nofModes := by
  cases h : v.curValue with
  | none =>
    rw [unserializeValue_of_none h]
    exact ⟨le_rfl, rfl⟩
  | some block =>
    rw [unserializeValue_of_some h]
    split
    · exact ⟨le_rfl, rfl⟩
    · split
      · split
        · exact ⟨Nat.le_add_right _ _, rfl⟩
        · exact ⟨Nat.le_add_right _ _, rfl⟩
      · exact ⟨le_rfl, rfl⟩

lemma unserializeValue_fault_iff : (∃ st, variableUnserializeValue (pkt, v) = .error .fault st) ↔
      ∃ block ∈ v.curValue, pkt.rPtr + v.size.toInt.toNat ≤ pkt.data.length ∧
        block.length < v.size.toInt.toNat := by
  cases h : v.curValue with
  | none => simp [unserializeValue_of_none h]
  | some block =>
    rw [unserializeValue_of_some h]
    simp only [Option.mem_def, Option.some.injEq, exists_eq_left']
    by_cases hsize : v.size.toInt ≤ 0
    · have : v.size.toInt.toNat = 0 := by omega
      simp [hsize, this]
    · by_cases hroom : pkt.rPtr + v.size.toInt.toNat ≤ pkt.data.length
      · by_cases hfits : v.size.toInt.toNat ≤ block.length
        · grind
        · simp only [if_neg hsize, dif_pos hroom, if_neg hfits]
          exact iff_of_true ⟨_, rfl⟩ ⟨hroom, Nat.lt_of_not_le hfits⟩
      · simp [hsize, hroom]

/-! What a SET transfer depends on. -/

variable {nofModes n : CInt}

lemma setVariable_eq_ret_iff :
    setVariable pool nofModes (pkt, v) = .error .ret (pkt, v) ↔ pkt.unread.length < 4 := by
  have hlen := pkt.length_unread
  by_cases h : pkt.rPtr + 12 ≤ pkt.data.length
  · rw [setVariable_long h]
    refine iff_of_false (fun heq => ?_) (by omega)
    have hcursor := (unserializeValue_endState (pkt.advance 12 h) (v.withHeader pkt nofModes)).1
    rw [heq] at hcursor
    have : pkt.rPtr + 12 ≤ pkt.rPtr := hcursor
    omega
  · obtain ⟨pkt', v', hret, hsame, hmoved⟩ := setVariable_short pool v (Nat.lt_of_not_le h)
    rw [hret]
    constructor
    · intro heq
      cases heq
      by_contra hge
      exact lt_irrefl _ (hmoved (by omega))
    · intro hlt
      obtain ⟨rfl, rfl⟩ := hsame (by omega)
      rfl

lemma setVariable_modes_iff {n' : CInt} :
    setVariable pool n (pkt, v) = setVariable pool n' (pkt, v) ↔
      pkt.unread.length < 12 ∨ n = n' := by
  have hlen := pkt.length_unread
  by_cases h : pkt.rPtr + 12 ≤ pkt.data.length
  · rw [setVariable_long h, setVariable_long h]
    constructor
    · intro heq
      have hmodes := (unserializeValue_endState (pkt.advance 12 h) (v.withHeader pkt n)).2
      rw [heq, (unserializeValue_endState _ _).2] at hmodes
      exact .inr hmodes.symm
    · rintro (hlt | rfl)
      · omega
      · rfl
  · obtain ⟨pkt', v', hret, -⟩ := setVariable_short pool v (Nat.lt_of_not_le h)
    simp [hret, show pkt.unread.length < 12 by omega]

lemma setVariable_fault_iff :
    (∃ st, setVariable pool nofModes (pkt, v) = .error .fault st) ↔ ¬ SetFits v pkt := by
  have hlen := pkt.length_unread
  by_cases h : pkt.rPtr + 12 ≤ pkt.data.length
  · rw [setVariable_long h, unserializeValue_fault_iff]
    have hcursor : (pkt.advance 12 h).rPtr = pkt.rPtr + 12 := rfl
    have hsize : (v.withHeader pkt nofModes).size.toInt = announcedSize pkt := rfl
    have hdata : (pkt.advance 12 h).data = pkt.data := rfl
    rw [hcursor, hsize, hdata]
    simp only [SetFits, not_forall, Nat.not_le, exists_prop]
    constructor
    · rintro ⟨block, hblock, hroom, hfew⟩
      exact ⟨block, hblock, by omega, hfew⟩
    · rintro ⟨block, hblock, hroom, hfew⟩
      exact ⟨block, hblock, by omega, hfew⟩
  · obtain ⟨pkt', v', hret, -⟩ := setVariable_short pool v (Nat.lt_of_not_le h)
    refine iff_of_false (by simp [hret]) (not_not.mpr fun block _ hroom => ?_)
    omega

/-! ## GET -/

/-- A copy of `len` bytes from a block to the packet, `n` bytes after its write cursor, stays inside
both where `packet_add_data` accepts it. The sum that is tested is a machine sum. -/
def CopyFits (pkt : Packet) (n : ℕ) (len : ℤ) (block : ℕ) : Prop :=
  pkt.data.length + n ≤ pkt.size → 0 ≤ len → addInt (pkt.data.length + n : ℕ) len ≤ pkt.size →
      len.toNat ≤ block ∧ pkt.data.length + n + len.toNat ≤ pkt.size

def GetFits (v : Variable) (pkt : Packet) : Prop :=
  CopyFits pkt 0 4 4 ∧ CopyFits pkt 4 4 4 ∧ CopyFits pkt 8 4 4 ∧
    ∀ block ∈ v.curValue, CopyFits pkt 12 v.size.toInt block.length

variable {σ : Type} {s : σ} {bs : List UInt8} {len : ℤ}

lemma packetAddData_fault_iff : (∃ st, packetAddData (some bs) len (pkt, s) = .error .fault st) ↔
      ¬ CopyFits pkt 0 len bs.length := by
  have hle := pkt.length_le
  simp only [packetAddData, CopyFits, Nat.add_zero]
  by_cases hneg : len < 0
  · rw [if_pos hneg]
    refine iff_of_false (by simp) (not_not.mpr fun _ hlen => ?_)
    omega
  · rw [if_neg hneg]
    by_cases hfull : (pkt.size : ℤ) < addInt pkt.data.length len
    · rw [if_pos hfull]
      refine iff_of_false (by simp) (not_not.mpr fun _ _ hroom => ?_)
      omega
    · rw [if_neg hfull]
      by_cases hfew : bs.length < len.toNat
      · rw [if_pos hfew]
        refine iff_of_true ⟨_, rfl⟩ fun hfits => ?_
        omega
      · have hlen : (bs.take len.toNat).length = len.toNat := by
          rw [List.length_take]
          omega
        rw [if_neg hfew]
        by_cases hroom : pkt.data.length + len.toNat ≤ pkt.size
        · rw [dif_pos (by rw [hlen]; exact hroom)]
          refine iff_of_false (by simp) (not_not.mpr fun _ _ _ => ⟨by omega, hroom⟩)
        · rw [dif_neg (by rw [hlen]; exact hroom)]
          exact iff_of_true ⟨_, rfl⟩ fun hfits => hroom (hfits hle (by omega) (by omega)).2

lemma addI_ok_iff {st : Packet × σ} :
    addI n (pkt, s) = .ok () st ↔ ∃ h : pkt.data.length + (cint.enc n).length ≤ pkt.size,
        st = (pkt.append (cint.enc n) h, s) := by
  by_cases hroom : pkt.data.length + (cint.enc n).length ≤ pkt.size
  · rw [addI, addObj_of_le cint n s hroom]
    constructor
    · intro h
      cases h
      exact ⟨hroom, rfl⟩
    · rintro ⟨-, rfl⟩
      rfl
  · have hlt : pkt.size < pkt.data.length + cint.size := by
      rw [← cint.length_enc n]
      omega
    rw [addI, addObj_of_lt cint n s (by decide) hlt]
    exact iff_of_false nofun fun h => hroom h.fst

lemma copyFits_append (h : pkt.data.length + bs.length ≤ pkt.size) {n : ℕ} {block : ℕ} :
    CopyFits (pkt.append bs h) n len block ↔ CopyFits pkt (bs.length + n) len block := by
  have hdata : (pkt.append bs h).data.length = pkt.data.length + bs.length := by
    simp [Packet.append]
  have hsize : (pkt.append bs h).size = pkt.size := rfl
  unfold CopyFits
  rw [hdata, hsize, add_assoc]

lemma CopyFits.of_full {n : ℕ} (h : ¬ pkt.data.length + n ≤ pkt.size) (len : ℤ)
    (block : ℕ) : CopyFits pkt n len block := fun hle => absurd hle h

/-- A word and then `rest`: it leaves the memory in the word or, where the word fits,
in `rest`. `F` is what `rest` needs of its packet, `G` the same before the word. -/
theorem addI_bind_fault_iff {rest : Prog σ Unit} {F : Packet → Prop} {G : Prop}
    (hrest : ∀ q, (∃ st, rest (q, s) = .error .fault st) ↔ ¬ F q)
    (hshift : ∀ h : pkt.data.length + (cint.enc n).length ≤ pkt.size,
      F (pkt.append (cint.enc n) h) ↔ G) (hfull : ¬ pkt.data.length + 4 ≤ pkt.size → G) :
    (∃ st, (addI n >>= fun _ => rest) (pkt, s) = .error .fault st) ↔
      ¬ (CopyFits pkt 0 4 4 ∧ G) := by
  have hlen : (cint.enc n).length = 4 := cint.length_enc n
  have hword : (∃ st, addI n (pkt, s) = .error .fault st) ↔ ¬ CopyFits pkt 0 4 4 := by
    have hcopy : (∃ st, packetAddData (some (cint.enc n)) 4 (pkt, s) = .error .fault st) ↔
        ¬ CopyFits pkt 0 4 (cint.enc n).length := packetAddData_fault_iff
    rwa [hlen] at hcopy
  rw [bind_error_iff, hword, not_and_or]
  refine or_congr_right ?_
  constructor
  · rintro ⟨_, st, hok, hst⟩
    obtain ⟨hroom, rfl⟩ := addI_ok_iff.mp hok
    exact fun hG => (hrest _).mp hst ((hshift hroom).mpr hG)
  · intro hG
    have hroom : pkt.data.length + (cint.enc n).length ≤ pkt.size := by
      by_contra hno
      exact hG (hfull (by rwa [hlen] at hno))
    exact ⟨(), _, addI_ok_iff.mpr ⟨hroom, rfl⟩, (hrest _).mpr fun hF => hG ((hshift hroom).mp hF)⟩

lemma getVariable_eq (nofModes : CInt) :
    getVariable nofModes (pkt, v) = (addI v.id >>= fun _ => addI v.size >>= fun _ =>
      addI v.type >>= fun _ => packetAddData v.curValue v.size.toInt) (pkt, v) := by
  rw [getVariable, bind_of_ok (getThis_run pkt v)]
  rfl

lemma getVariable_fault_iff :
    (∃ st, getVariable nofModes (pkt, v) = .error .fault st) ↔ ¬ GetFits v pkt := by
  have hvalue : ∀ q, (∃ st, packetAddData v.curValue v.size.toInt (q, v) = .error .fault st) ↔
      ¬ ∀ block ∈ v.curValue, CopyFits q 0 v.size.toInt block.length := by
    intro q
    cases h : v.curValue with
    | none => simp [packetAddData]
    | some block =>
      rw [packetAddData_fault_iff]
      simp
  have hlen : ∀ n, (cint.enc n).length = 4 := cint.length_enc
  have htype : ∀ q, (∃ st, (addI v.type >>= fun _ => packetAddData v.curValue v.size.toInt)
      (q, v) = .error .fault st) ↔ ¬ (CopyFits q 0 4 4 ∧
        ∀ block ∈ v.curValue, CopyFits q 4 v.size.toInt block.length) := fun q =>
    addI_bind_fault_iff hvalue (fun h => by simp only [copyFits_append, hlen])
      (fun hno block _ => CopyFits.of_full hno _ _)
  have hsize : ∀ q, (∃ st, (addI v.size >>= fun _ => addI v.type >>= fun _ =>
      packetAddData v.curValue v.size.toInt) (q, v) = .error .fault st) ↔
        ¬ (CopyFits q 0 4 4 ∧ CopyFits q 4 4 4 ∧
          ∀ block ∈ v.curValue, CopyFits q 8 v.size.toInt block.length) := fun q =>
    addI_bind_fault_iff htype (fun h => by simp only [copyFits_append, hlen])
      (fun hno => ⟨CopyFits.of_full hno _ _, fun block _ => CopyFits.of_full (by omega) _ _⟩)
  rw [getVariable_eq, GetFits]
  exact addI_bind_fault_iff hsize (fun h => by simp only [copyFits_append, hlen])
    (fun hno => ⟨CopyFits.of_full hno _ _, CopyFits.of_full (by omega) _ _,
      fun block _ => CopyFits.of_full (by omega) _ _⟩)

def Lengthens (p : Prog σ Unit) : Prop := ∀ st, st.1.data.length ≤ (endState (p st)).1.data.length

lemma Lengthens.data (bs : Ptr) (len : ℤ) : Lengthens (packetAddData bs len : Prog σ Unit) := by
  rintro ⟨pkt, s⟩
  cases bs with
  | none => exact le_rfl
  | some bs =>
    simp only [packetAddData]
    split
    · exact le_rfl
    · split
      · exact le_rfl
      · split
        · exact le_rfl
        · split
          · simp [endState, Packet.append]
          · exact le_rfl

lemma Lengthens.word (n : CInt) : Lengthens (addI n : Prog σ Unit) :=
  Lengthens.data (some (cint.enc n)) cint.size

lemma Lengthens.bind {p q : Prog σ Unit} (hp : Lengthens p) (hq : Lengthens q) :
    Lengthens (p >>= fun _ => q) := by
  intro st
  have hstep := hp st
  cases h : p st with
  | ok a st' =>
    rw [h] at hstep
    rw [bind_of_ok h]
    exact le_trans hstep (hq st')
  | error e st' =>
    rw [h] at hstep
    rwa [bind_of_error h]

lemma getVariable_eq_ret_iff : getVariable nofModes (pkt, v) = .error .ret (pkt, v) ↔
      (pkt.size : ℤ) < addInt pkt.data.length 4 := by
  rw [getVariable_eq]
  have hsize : (cint.size : ℤ) = 4 := rfl
  have hrest : Lengthens (addI v.size >>= fun _ => addI v.type >>= fun _ =>
      packetAddData v.curValue v.size.toInt : Prog Variable Unit) :=
    (Lengthens.word _).bind ((Lengthens.word _).bind (Lengthens.data _ _))
  constructor
  · intro h
    cases hid : addI v.id (pkt, v) with
    | ok a st =>
      -- the id was appended, so the packet is not the one before
      obtain ⟨hroom, rfl⟩ := addI_ok_iff.mp hid
      have hlonger := hrest (pkt.append (cint.enc v.id) hroom, v)
      rw [bind_of_ok hid] at h
      rw [h] at hlonger
      simp only [endState, Packet.append, List.length_append, cint.length_enc] at hlonger
      omega
    | error e st =>
      rw [bind_of_error hid] at h
      cases h
      by_contra hroom
      simp only [addI, addObj, packetAddData, hsize] at hid
      rw [if_neg (by decide), if_neg hroom] at hid
      split at hid
      · cases hid
      · split at hid <;> cases hid
  · intro hfull
    refine bind_of_error ?_
    simp only [addI, addObj, packetAddData, hsize]
    rw [if_neg (by decide), if_pos hfull]

open List Option

/-! ## What the loops read -/

def nofModules (anode : Anode) (k : ℕ) : ℕ := ((anode[k]?).map (·.modules.length)).getD 0

def slotModes (anode : Anode) (k : ℕ) : CInt := ((anode[k]?).map (·.nofModes)).getD 0

def varsOf (w : NodWaveform) (mi : ℕ) : List Variable :=
  ((w.modules[mi]?).map (·.parent.vars)).getD []

def nofVariables (anode : Anode) (k : ℕ) : ℕ :=
  ((anode[k]?).map fun slot => (varsOf slot k).length).getD 0

variable {anode : Anode} {w : NodWaveform} {dest : PacketDest} {id : CInt}
  {k : ℕ} {modules : List NodModule} {j n : ℕ}

lemma exists_slot (h : k < nofModules anode k) :
    ∃ slot, anode[k]? = some slot ∧ k < slot.modules.length := by
  unfold nofModules at h
  cases hslot : anode[k]? with
  | none =>
    rw [hslot] at h
    exact absurd h (Nat.not_lt_zero k)
  | some slot =>
    rw [hslot] at h
    exact ⟨slot, rfl, h⟩

/-! ## The module loop -/

lemma moduleLoop_skip (hother : ∀ k < j, ∃ m, modules[k]? = some m ∧ m.parent.id ≠ id)
    (hcovered : ∀ k < j, k < nofModules anode k) :
    moduleLoop modules id anode 0 = moduleLoop modules id (anode.drop j) j := by
  induction j with
  | zero => rfl
  | succ j ih =>
    obtain ⟨m, hm, hid⟩ := hother j (Nat.lt_succ_self j)
    obtain ⟨slot, hslot, hlt⟩ := exists_slot (hcovered j (Nat.lt_succ_self j))
    obtain ⟨hj, rfl⟩ := List.getElem?_eq_some_iff.mp hslot
    rw [ih (fun k hk => hother k (Nat.lt_succ_of_lt hk))
      (fun k hk => hcovered k (Nat.lt_succ_of_lt hk)), List.drop_eq_getElem_cons hj]
    simp only [moduleLoop, if_pos hlt, hm, if_neg hid]

lemma search_outOfBounds (hj : j < w.modules.length)
    (hother : ∀ k < j, ∃ m, w.modules[k]? = some m ∧ m.parent.id ≠ dest.moduleId)
    (hcovered : ∀ k < j, k < nofModules anode k) (hstop : ¬ j < nofModules anode j)
    (hvar : dest.variableId ≠ 0) : search anode w dest = .outOfBounds := by
  rw [search, moduleLoop_skip hother hcovered]
  cases hslot : anode[j]? with
  | none =>
    rw [List.drop_eq_nil_of_le (List.getElem?_eq_none_iff.mp hslot)]
    rfl
  | some slot =>
    obtain ⟨hlt, rfl⟩ := List.getElem?_eq_some_iff.mp hslot
    rw [nofModules, hslot] at hstop
    have hfew : ¬ j < (anode[j]).modules.length := hstop
    have hnone : (anode[j]).modules[j]? = none := getElem?_eq_none_iff.mpr (Nat.le_of_not_lt hfew)
    rw [drop_eq_getElem_cons hlt]
    simp only [moduleLoop, if_neg hfew, if_neg (ne_of_lt hj), if_neg hvar, searchVariable,
      hslot, hnone]

/-! ## The variable loop -/

lemma variableLoop_eq (vs : List Variable) (bound : ℕ) : variableLoop id vs bound =
      match vs.findIdx? fun v => v.id = id with
      | some vi => some (min vi bound)
      | none => if bound ≤ vs.length then some bound else none := by
  induction vs generalizing bound with
  | nil => cases bound <;> simp [variableLoop]
  | cons v vs ih =>
    cases bound with
    | zero => cases h : (v :: vs).findIdx? fun v => v.id = id <;> simp [variableLoop]
    | succ bound =>
      rw [variableLoop, findIdx?_cons]
      by_cases hid : v.id = id
      · simp [hid]
      · grind

/-! ## The searches as a whole -/

lemma exists_least {P : ℕ → Prop} (h : ¬ ∀ j < n, P j) : ∃ j < n, ¬ P j ∧ ∀ k < j, P k := by
  classical
  have hex : ∃ j, j < n ∧ ¬ P j := by
    by_contra hnone
    exact h fun j hj => by_contra fun hP => hnone ⟨j, hj, hP⟩
  obtain ⟨hlt, hP⟩ := Nat.find_spec hex
  refine ⟨Nat.find hex, hlt, hP, fun k hk => by_contra fun hk' => ?_⟩
  exact Nat.find_min hex hk ⟨lt_trans hk hlt, hk'⟩

lemma other_of_lt_findIdx
    (h : n = ((modules.findIdx? fun m => m.parent.id = id).getD modules.length)) (hk : k < n) :
    ∃ m, modules[k]? = some m ∧ m.parent.id ≠ id := by
  have hlen : k < modules.length := by
    cases hfind : modules.findIdx? fun m => m.parent.id = id with
    | none =>
      rw [hfind] at h
      simpa [h] using hk
    | some mi =>
      obtain ⟨hmi, -⟩ := findIdx?_eq_some_iff_getElem.mp hfind
      rw [hfind] at h
      exact lt_trans (by simpa [h] using hk) hmi
  refine ⟨modules[k], getElem?_eq_getElem hlen, ?_⟩
  cases hfind : modules.findIdx? fun m => m.parent.id = id with
  | none =>
    have := findIdx?_eq_none_iff.mp hfind modules[k] (getElem_mem hlen)
    simpa using this
  | some mi =>
    obtain ⟨_, _, hbefore⟩ := findIdx?_eq_some_iff_getElem.mp hfind
    rw [hfind] at h
    simpa using hbefore k (by simpa [h] using hk)

lemma search_of_none (hvar : dest.variableId ≠ 0)
    (hfind : (w.modules.findIdx? fun m => m.parent.id = dest.moduleId) = none) :
    search anode w dest =
      if (∀ j < w.modules.length, j < nofModules anode j) ∧ w.modules.length < anode.length ∧
          nofModules anode w.modules.length ≤ w.modules.length then .missing
      else .outOfBounds := by
  have hother : ∀ k < w.modules.length, ∃ m, w.modules[k]? = some m ∧ m.parent.id ≠ dest.moduleId :=
    fun k hk => other_of_lt_findIdx (by rw [hfind]; rfl) hk
  by_cases hcovered : ∀ j < w.modules.length, j < nofModules anode j
  · rw [search, moduleLoop_skip hother hcovered]
    cases hslot : anode[w.modules.length]? with
    | none =>
      have hend := getElem?_eq_none_iff.mp hslot
      rw [List.drop_eq_nil_of_le hend, if_neg (by omega)]
      rfl
    | some slot =>
      obtain ⟨hlt, rfl⟩ := List.getElem?_eq_some_iff.mp hslot
      have hcount : nofModules anode w.modules.length =
          (anode[w.modules.length]).modules.length := by rw [nofModules, hslot]; rfl
      have hnone : w.modules[w.modules.length]? = none := getElem?_eq_none_iff.mpr le_rfl
      rw [drop_eq_getElem_cons hlt, moduleLoop, hcount, hnone]
      by_cases hmore : w.modules.length < (anode[w.modules.length]).modules.length
      · rw [if_pos hmore, if_neg (by omega)]
      · rw [if_neg hmore, if_pos ⟨hcovered, hlt, by omega⟩]
        simp
  · obtain ⟨j, hj, hstop, hbefore⟩ := exists_least hcovered
    rw [if_neg (fun h => hcovered h.1)]
    exact search_outOfBounds hj (fun k hk => hother k (by omega)) hbefore hstop hvar

lemma search_of_some (hvar : dest.variableId ≠ 0) {mi : ℕ}
    (hfind : (w.modules.findIdx? fun m => m.parent.id = dest.moduleId) = some mi) :
    search anode w dest = if ∀ j < mi + 1, j < nofModules anode j then
        match (varsOf w mi).findIdx? fun v => v.id = dest.variableId with
        | none =>
          if nofVariables anode mi ≤ (varsOf w mi).length then .missing else .outOfBounds
        | some vi =>
          if vi < nofVariables anode mi then .found mi vi (slotModes anode mi) else .missing
      else .outOfBounds := by
  obtain ⟨hmi, hid, -⟩ := findIdx?_eq_some_iff_getElem.mp hfind
  have hother : ∀ k < mi, ∃ m, w.modules[k]? = some m ∧ m.parent.id ≠ dest.moduleId :=
    fun k hk => other_of_lt_findIdx (by rw [hfind]; rfl) hk
  by_cases hcovered : ∀ j < mi + 1, j < nofModules anode j
  · obtain ⟨slot, hslot, hlt⟩ := exists_slot (hcovered mi (Nat.lt_succ_self mi))
    obtain ⟨hmi', rfl⟩ := List.getElem?_eq_some_iff.mp hslot
    have hown : w.modules[mi]? = some w.modules[mi] := List.getElem?_eq_getElem hmi
    have hbounding := getElem?_eq_getElem hlt
    have hloop : moduleLoop w.modules dest.moduleId anode 0 = some mi := by
      rw [moduleLoop_skip hother fun k hk => hcovered k (by omega),
        drop_eq_getElem_cons hmi', moduleLoop, if_pos hlt, hown]
      simp [of_decide_eq_true hid]
    have hbound : nofVariables anode mi = ((anode[mi]).modules[mi]).parent.vars.length := by
      simp [nofVariables, varsOf, hslot, hbounding]
    have hmodes : slotModes anode mi = (anode[mi]).nofModes := by simp [slotModes, hslot]
    have hvars : varsOf w mi = (w.modules[mi]).parent.vars := by simp [varsOf, hown]
    rw [search, hloop, if_pos hcovered, hbound, hmodes, hvars]
    simp only [if_neg (ne_of_lt hmi), if_neg hvar, searchVariable, hslot, hbounding, hown,
      variableLoop_eq]
    cases hv : (w.modules[mi]).parent.vars.findIdx? fun v => v.id = dest.variableId with
    | none =>
      by_cases hle : ((anode[mi]).modules[mi]).parent.vars.length ≤
          (w.modules[mi]).parent.vars.length <;> simp [hle]
    | some vi => grind
  · obtain ⟨j, hj, hstop, hbefore⟩ := exists_least hcovered
    rw [if_neg hcovered]
    exact search_outOfBounds (by omega) (fun k hk => hother k (by omega)) hbefore hstop hvar

/-! ## Programs on one variable -/

section OnVariable

variable {wi mi vi : ℕ} {m : NodModule} {v : Variable} {pkt : Packet} {p q : Prog Variable Unit}

lemma getElem?_set_of_getElem? {β : Type} {l : List β} {i : ℕ} {a : β} (h : l[i]? = some a)
    (b : β) : (l.set i b)[i]? = some b := by
  obtain ⟨hi, -⟩ := List.getElem?_eq_some_iff.mp h
  simp [hi]

section

variable (hw : anode[wi]? = some w) (hm : w.modules[mi]? = some m)
  (hv : m.parent.vars[vi]? = some v)
include hw hm hv

lemma onVariable_eq_iff : onVariable wi mi vi p (pkt, anode) = onVariable wi mi vi q (pkt, anode) ↔
      p (pkt, v) = q (pkt, v) := by
  unfold onVariable onWaveform onModule onParent
  rw [zoom_eq_iff, zoom_eq_iff, zoom_eq_iff, zoom_eq_iff]
  · exact hv
  · exact getElem?_set_of_getElem? hv
  · rfl
  · exact fun _ => rfl
  · exact hm
  · exact getElem?_set_of_getElem? hm
  · exact hw
  · exact getElem?_set_of_getElem? hw

lemma onVariable_fault_iff : (∃ st, onVariable wi mi vi p (pkt, anode) = .error .fault st) ↔
      ∃ st, p (pkt, v) = .error .fault st := by
  unfold onVariable onWaveform onModule onParent
  rw [zoom_error_iff, zoom_error_iff, zoom_error_iff, zoom_error_iff]
  · exact hv
  · rfl
  · exact hm
  · exact hw

lemma onVariable_retErr :
    onVariable wi mi vi (retErr : Prog Variable Unit) (pkt, anode) = .error .ret (pkt, anode) := by
  have hvars : m.parent.vars.set vi v = m.parent.vars := set_of_getElem? hv
  have hmodules : w.modules.set mi m = w.modules := set_of_getElem? hm
  unfold onVariable onWaveform onModule onParent
  apply zoom_error_same
  · exact hw
  · exact set_of_getElem? hw
  apply zoom_error_same
  · exact hm
  · rw [hmodules]
  apply zoom_error_same
  · rfl
  · rfl
  apply zoom_error_same
  · exact hv
  · rw [hvars]
  · rfl

end

end OnVariable

/-! ## The dispatcher as a whole -/

/-- What the tables must be like for the searches to end where they should; what is
asked once module `mi` and variable `vi` are the addressed ones is `atVariable`. -/
def AddressGuard (anode : Anode) (w : NodWaveform) (dest : PacketDest)
    (atVariable : ℕ → ℕ → Prop) : Prop :=
  match w.modules.findIdx? fun m => m.parent.id = dest.moduleId with
  | none =>
    -- the loop must pass all modules and stop at the slot after the last one
    (∀ j < w.modules.length, j < nofModules anode j) ∧ w.modules.length < anode.length ∧
      nofModules anode w.modules.length ≤ w.modules.length
  | some mi => (∀ j < mi + 1, j < nofModules anode j) ∧
      match (varsOf w mi).findIdx? fun v => v.id = dest.variableId with
      | none => nofVariables anode mi ≤ (varsOf w mi).length
      | some vi => atVariable mi vi

lemma lookup_of_some {mi : ℕ}
    (hfind : (w.modules.findIdx? fun m => m.parent.id = dest.moduleId) = some mi) :
    lookup w dest =
      ((varsOf w mi).findIdx? fun v => v.id = dest.variableId).map fun vi => (mi, vi) := by
  obtain ⟨hmi, -⟩ := findIdx?_eq_some_iff_getElem.mp hfind
  have hown : w.modules[mi]? = some w.modules[mi] := getElem?_eq_getElem hmi
  have hvars : varsOf w mi = (w.modules[mi]).parent.vars := by simp [varsOf, hown]
  rw [lookup, hfind, hvars, bind_eq_bind, bind_some, hown, bind_eq_bind, bind_some]
  cases (w.modules[mi]).parent.vars.findIdx? fun v => v.id = dest.variableId <;> rfl

section Access

variable {waveformAction : Prog NodWaveform Unit} {variableAction : CInt → Prog Variable Unit}
  {pkt : Packet} {wi : ℕ}

lemma access_eq (hwid : pkt.dest.waveformId ≠ 0) (hmid : pkt.dest.moduleId ≠ 0)
    (hfind : (anode.findIdx? fun w => w.id = pkt.dest.waveformId) = some wi)
    (hw : anode[wi]? = some w) :
    nodDispatcherAccess waveformAction variableAction (pkt, anode) =
      match search anode w pkt.dest with
      | .missing => .error .ret (pkt, anode)
      | .outOfBounds => .error .fault (pkt, anode)
      | .found mi vi nofModes => onVariable wi mi vi (variableAction nofModes) (pkt, anode) := by
  refine (dispatch_run _).trans ?_
  simp only [if_neg hwid, hfind, hmid, false_and, if_false, hw]
  cases search anode w pkt.dest <;> rfl

lemma addressedAccess_eq (hfind : (anode.findIdx? fun w => w.id = pkt.dest.waveformId) = some wi)
    (hw : anode[wi]? = some w) :
    addressedAccess variableAction (pkt, anode) = match lookup w pkt.dest with
      | none => .error .ret (pkt, anode)
      | some (mi, vi) => onVariable wi mi vi (variableAction w.nofModes) (pkt, anode) := by
  refine (dispatch_run _).trans ?_
  simp only [hfind, hw]
  cases lookup w pkt.dest <;> rfl

lemma acts_of_waveform_missing (hwid : pkt.dest.waveformId ≠ 0)
    (hfind : (anode.findIdx? fun w => w.id = pkt.dest.waveformId) = none) :
    ActsOnAddressed (nodDispatcherAccess waveformAction variableAction) variableAction pkt
      anode := by
  have haccess : nodDispatcherAccess waveformAction variableAction (pkt, anode) =
      .error .ret (pkt, anode) := by
    refine (dispatch_run _).trans ?_
    simp only [if_neg hwid, hfind]
    rfl
  have hspec : addressedAccess variableAction (pkt, anode) = .error .ret (pkt, anode) := by
    refine (dispatch_run _).trans ?_
    simp only [hfind]
    rfl
  exact ⟨haccess.trans hspec.symm, fun st h => by rw [haccess] at h; cases h⟩

/-- What the transfer must be like: with the variable in reach of the loop it does not
depend on which waveform's number of modes it is given and stays in memory; out of
reach, it would have refused the packet at once. -/
def TransferGuard (variableAction : CInt → Prog Variable Unit) (pkt : Packet) (anode : Anode)
    (w : NodWaveform) (mi vi : ℕ) : Prop :=
  ∀ v, (varsOf w mi)[vi]? = some v →
    if vi < nofVariables anode mi then
      variableAction (slotModes anode mi) (pkt, v) = variableAction w.nofModes (pkt, v) ∧
        ¬ ∃ st, variableAction (slotModes anode mi) (pkt, v) = .error .fault st
    else variableAction w.nofModes (pkt, v) = .error .ret (pkt, v)

lemma acts_iff (hwid : pkt.dest.waveformId ≠ 0) (hmid : pkt.dest.moduleId ≠ 0)
    (hvid : pkt.dest.variableId ≠ 0)
    (hfind : (anode.findIdx? fun w => w.id = pkt.dest.waveformId) = some wi)
    (hw : anode[wi]? = some w) :
    ActsOnAddressed (nodDispatcherAccess waveformAction variableAction) variableAction pkt
      anode ↔ AddressGuard anode w pkt.dest (TransferGuard variableAction pkt anode w) := by
  unfold ActsOnAddressed AddressGuard
  rw [access_eq hwid hmid hfind hw, addressedAccess_eq hfind hw]
  cases hm : w.modules.findIdx? fun m => m.parent.id = pkt.dest.moduleId with
  | none =>
    have hlookup : lookup w pkt.dest = none := by simp [lookup, hm]
    rw [search_of_none hvid hm, hlookup]
    by_cases hguard : (∀ j < w.modules.length, j < nofModules anode j) ∧
        w.modules.length < anode.length ∧ nofModules anode w.modules.length ≤ w.modules.length
    · rw [if_pos hguard]
      exact iff_of_true ⟨rfl, fun st h => by cases h⟩ hguard
    · rw [if_neg hguard]
      exact iff_of_false (fun h => h.2 _ rfl) hguard
  | some mi =>
    obtain ⟨hmi, -⟩ := findIdx?_eq_some_iff_getElem.mp hm
    have hown : w.modules[mi]? = some w.modules[mi] := getElem?_eq_getElem hmi
    have hvars : varsOf w mi = (w.modules[mi]).parent.vars := by simp [varsOf, hown]
    have hlookup := lookup_of_some hm
    have hsearch : search anode w pkt.dest = _ := search_of_some hvid hm
    by_cases hcovered : ∀ j < mi + 1, j < nofModules anode j
    · rw [if_pos hcovered] at hsearch
      refine Iff.trans ?_ (and_iff_right hcovered).symm
      cases hv : (varsOf w mi).findIdx? fun v => v.id = pkt.dest.variableId with
      | none => grind
      | some vi =>
        obtain ⟨hvi, -⟩ := findIdx?_eq_some_iff_getElem.mp hv
        have hvar : (varsOf w mi)[vi]? = some (varsOf w mi)[vi] := getElem?_eq_getElem hvi
        have hvar' : (w.modules[mi]).parent.vars[vi]? = some (varsOf w mi)[vi] := by
          rw [← hvars]
          exact hvar
        simp only [hv, map_some] at hsearch hlookup
        rw [hlookup]
        simp only [TransferGuard, hvar, Option.some.injEq, forall_eq']
        by_cases hlt : vi < nofVariables anode mi
        · rw [hsearch, if_pos hlt, if_pos hlt]
          refine and_congr (onVariable_eq_iff hw hown hvar') ?_
          rw [← onVariable_fault_iff hw hown hvar', not_exists]
        · -- the loop ends before the variable: the dispatcher answers -1
          rw [hsearch, if_neg hlt, if_neg hlt, ← onVariable_retErr hw hown hvar',
            eq_comm, onVariable_eq_iff hw hown hvar']
          refine and_iff_left fun st h => ?_
          rw [onVariable_retErr hw hown hvar'] at h
          cases h
    · rw [if_neg hcovered] at hsearch
      rw [hsearch]
      exact iff_of_false (fun h => h.2 _ rfl) fun h => hcovered h.1

end Access

/-- When a SET packet acts on the addressed variable: the searches end at it, both waveforms have as
many modes (or the packet ends before), and the announced value fits. -/
def SetGuard (pkt : Packet) (anode : Anode) : Prop :=
  ∀ wi w, (anode.findIdx? fun w => w.id = pkt.dest.waveformId) = some wi →
    anode[wi]? = some w → AddressGuard anode w pkt.dest fun mi vi =>
      ∀ v, (varsOf w mi)[vi]? = some v →
        if vi < nofVariables anode mi then
          (pkt.unread.length < 12 ∨ slotModes anode mi = w.nofModes) ∧ SetFits v pkt
        else pkt.unread.length < 4

def GetGuard (pkt : Packet) (anode : Anode) : Prop :=
  ∀ wi w, (anode.findIdx? fun w => w.id = pkt.dest.waveformId) = some wi →
    anode[wi]? = some w → AddressGuard anode w pkt.dest fun mi vi =>
      ∀ v, (varsOf w mi)[vi]? = some v → if vi < nofVariables anode mi then GetFits v pkt
        else (pkt.size : ℤ) < addInt pkt.data.length 4

lemma AddressGuard.congr {P Q : ℕ → ℕ → Prop} (h : ∀ mi vi, P mi vi ↔ Q mi vi) :
    AddressGuard anode w dest P ↔ AddressGuard anode w dest Q := by
  have hPQ : P = Q := funext fun mi => funext fun vi => propext (h mi vi)
  rw [hPQ]

lemma acts_iff_forall {waveformAction : Prog NodWaveform Unit}
    {variableAction : CInt → Prog Variable Unit} {pkt : Packet}
    (hwid : pkt.dest.waveformId ≠ 0) (hmid : pkt.dest.moduleId ≠ 0)
    (hvid : pkt.dest.variableId ≠ 0) :
    ActsOnAddressed (nodDispatcherAccess waveformAction variableAction) variableAction pkt anode ↔
      ∀ wi w, (anode.findIdx? fun w => w.id = pkt.dest.waveformId) = some wi → anode[wi]? = some w →
          AddressGuard anode w pkt.dest (TransferGuard variableAction pkt anode w) := by
  cases hfind : anode.findIdx? fun w => w.id = pkt.dest.waveformId with
  | none => exact iff_of_true (acts_of_waveform_missing hwid hfind) fun wi w h => by cases h
  | some wi =>
    obtain ⟨hwi, -⟩ := findIdx?_eq_some_iff_getElem.mp hfind
    have hw : anode[wi]? = some anode[wi] := getElem?_eq_getElem hwi
    rw [acts_iff hwid hmid hvid hfind hw]
    constructor
    · rintro h _ w' ⟨⟩ hw'
      cases hw.symm.trans hw'
      exact h
    · exact fun h => h wi _ rfl hw

/-- **Addressing.** For every table of waveforms and every full address, `nod_dispatcher_set` and
`nod_dispatcher_get` act on the addressed variable, return -1 without a change when it is missing,
and stay inside every array exactly under their guards. -/
theorem nodDispatcher_acts_iff (machine : Machine) (ops : StatusOps) (pkt : Packet)
    (anode : Anode) (hwid : pkt.dest.waveformId ≠ 0) (hmid : pkt.dest.moduleId ≠ 0)
    (hvid : pkt.dest.variableId ≠ 0) :
    (ActsOnAddressed (nodDispatcherSet machine ops) (setVariable machine.pool) pkt anode ↔
        SetGuard pkt anode) ∧
      (ActsOnAddressed nodDispatcherGet getVariable pkt anode ↔ GetGuard pkt anode) := by
  constructor
  · refine (acts_iff_forall hwid hmid hvid).trans ?_
    refine forall₄_congr fun wi w _ _ => AddressGuard.congr fun mi vi => forall₂_congr fun v _ => ?_
    split
    · rw [setVariable_modes_iff, setVariable_fault_iff, not_not]
    · exact setVariable_eq_ret_iff
  · refine (acts_iff_forall hwid hmid hvid).trans ?_
    refine forall₄_congr fun wi w _ _ => AddressGuard.congr fun mi vi => forall₂_congr fun v _ => ?_
    split
    · rw [getVariable_fault_iff, not_not]
      exact and_iff_right (by rw [getVariable_eq, getVariable_eq])
    · exact getVariable_eq_ret_iff

/-! Examples: waveforms with a variable of four bytes. -/

def levelModule (vars : List Variable) : NodModule :=
  ⟨{ Module.zero with
    id := 1
    vars := vars ++ [{ Variable.zero with id := 2, size := 4, curValue := some [0, 0, 0, 0] }] },
      true⟩

def levelSlot : NodWaveform :=
  { emptySlot with
    id := 7
    nofModes := 1
    modules := [levelModule []] }

def levelPacket : Packet where
  cmd := .set
  dest := ⟨7, 1, 2⟩
  ack := 0
  size := 64
  data := [2, 0, 0, 0, 4, 0, 0, 0, 0, 0, 0, 0, 9, 0, 0, 0]
  rPtr := 0
  size_lt := by decide
  length_le := by decide
  rPtr_le := by decide

/-- Two waveforms with two modules each; the addressed module is the second one, with two
variables. -/
def pairNode : Anode :=
  let modules := [⟨Module.zero, true⟩, levelModule [Variable.zero]]
  [{ levelSlot with modules := modules }, { levelSlot with id := 8, modules := modules }]

theorem nodDispatcher_acts_pair :
    ActsOnAddressed (nodDispatcherSet plainMachine plainOps) (setVariable plainMachine.pool)
        levelPacket pairNode ∧
      ActsOnAddressed nodDispatcherGet getVariable levelPacket pairNode := by
  have hacts := nodDispatcher_acts_iff plainMachine plainOps levelPacket pairNode (by decide)
    (by decide) (by decide)
  have hfind : (pairNode.findIdx? fun w => w.id = levelPacket.dest.waveformId) = some 0 := by
    decide
  refine ⟨hacts.1.mpr fun wi w hwi hw => ?_, hacts.2.mpr fun wi w hwi hw => ?_⟩
  · cases hfind.symm.trans hwi
    cases hw
    refine ⟨by decide, fun v hv => ?_⟩
    cases hv
    exact ⟨.inr rfl, fun block hblock _ => by cases hblock; decide⟩
  · cases hfind.symm.trans hwi
    cases hw
    refine ⟨by decide, fun v hv => ?_⟩
    cases hv
    refine ⟨?_, ?_, ?_, fun block hblock => ?_⟩
    · exact fun _ _ _ => by decide
    · exact fun _ _ _ => by decide
    · exact fun _ _ _ => by decide
    · cases hblock
      exact fun _ _ _ => by decide

/-- With `levelSlot` behind a free slot, the module loop stops at once at the
free slot and the variable loop reads a module that is not there. -/
theorem nodDispatcher_leaves_tables :
    ¬ ActsOnAddressed (nodDispatcherSet plainMachine plainOps) (setVariable plainMachine.pool)
        levelPacket [emptySlot, levelSlot] ∧
      ¬ ActsOnAddressed nodDispatcherGet getVariable levelPacket [emptySlot, levelSlot] :=
  ⟨fun h => h.2 (levelPacket, [emptySlot, levelSlot]) rfl,
    fun h => h.2 (levelPacket, [emptySlot, levelSlot]) rfl⟩

end Aloe.Oesr
