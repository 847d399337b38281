import Aloe.Modrep.GenCrc
import Aloe.Modrep.CrcScrambling

/-!
# Addressing on the PDCCH

A message is addressed by its CRC: the parity bits are masked with a sequence made of the RNTI of
the terminal, and a terminal takes what passes the CRC after its own mask is removed. What the wrong
mask leaves is a burst in the parity bits, so the check fails exactly if the masks differ.
-/

namespace Aloe.Modrep.PdcchAddressing

open Lib CrcScrambling GenCrc

structure Setting where
  antennaSelection : CInt
  dciFormat : CInt
  uePort : CInt

def Setting.params (s : Setting) (rnti : CInt) : Params :=
  ⟨some rnti, some s.antennaSelection, some s.dciFormat, some s.uePort, none⟩

def Setting.mask (s : Setting) (rnti : CInt) (c : ℕ → Char8) : ℕ → Char8 :=
  pdcchSequenceGen ⟨rnti, s.antennaSelection, s.uePort, s.dciFormat⟩ c

def pdcch : Module := ⟨16, 0⟩

/-- The word that terminal `r'` finds for a message to `r`: the CRC is attached, masked for `r`,
unmasked for `r'` and checked. `c`, `out` and `out'` are what the arrays held. -/
def checkedWord (fuel : ℕ) (poly : BitVec 32) (s : Setting) (r r' : CInt) (message : Buffer)
    (len : ℕ) (c out out' : ℕ → Char8) : Option (BitVec 32) := do
  let (_, sent) ← icrc fuel 0 message len 16 poly true
  let (_, masked) ← workTransmitter pdcch (s.params r) (len + 16) c sent out
  let (_, unmasked) ← workTransmitter pdcch (s.params r') (len + 16) c masked out'
  let (word, _) ← icrc fuel 0 unmasked (len + 16) 16 poly false
  return word

/-! ## The masks -/

lemma bitChar_mem (value : CInt) (k : ℕ) : bitChar value k = 0 ∨ bitChar value k = 1 := by
  rw [bitChar_eq]
  split
  · exact .inr rfl
  · exact .inl rfl

lemma bitChar_eq_iff {r r' : CInt} {k : ℕ} :
    bitChar r k = bitChar r' k ↔ r.getLsbD k = r'.getLsbD k := by
  rw [bitChar_eq, bitChar_eq]
  cases r.getLsbD k <;> cases r'.getLsbD k <;> decide

lemma sramble_mem (bit c : Char8) : sramble bit c = 0 ∨ sramble bit c = 1 := by
  rw [sramble]
  split
  · exact .inl rfl
  · exact .inr rfl

variable {bit : Char8}

lemma sramble_eq_iff {bit' c : Char8} (hbit : bit = 0 ∨ bit = 1)
    (hbit' : bit' = 0 ∨ bit' = 1) (hc : c = 0 ∨ c = 1) :
    sramble bit c = sramble bit' c ↔ bit = bit' := by
  rcases hbit with rfl | rfl <;> rcases hbit' with rfl | rfl <;> rcases hc with rfl | rfl <;>
    decide

lemma sramble_sramble_eq_iff {c c' : Char8} (hbit : bit = 0 ∨ bit = 1)
    (hc : c = 0 ∨ c = 1) (hc' : c' = 0 ∨ c' = 1) : sramble (sramble bit c) c' = bit ↔ c = c' := by
  rcases hbit with rfl | rfl <;> rcases hc with rfl | rfl <;> rcases hc' with rfl | rfl <;> decide

section Masks

variable {s : Setting} {r r' : CInt} {c : ℕ → Char8} {i : ℕ}

lemma mask_of_not (h : ¬(s.antennaSelection = 0 ∨ s.dciFormat = 0)) (hi : i < 16) :
    s.mask r c i = 0 := by
  rw [Setting.mask, pdcchSequenceGen]
  rw [if_neg h, if_neg fun hboth => h (.inr hboth.2), if_pos hi]

variable (h : s.antennaSelection = 0 ∨ s.dciFormat = 0)

include h in
lemma mask_of_rnti (hi : i < 16) :
    s.mask r c i = if i = 15 ∧ 0 < s.antennaSelection.toInt ∧ s.dciFormat = 0 then
      sramble (bitChar r 0) (bitChar s.uePort 0) else bitChar r (16 - i - 1) := by
  rw [Setting.mask, pdcchSequenceGen]
  rw [if_pos h]
  by_cases hport : 0 < s.antennaSelection.toInt ∧ s.dciFormat = 0
  · rw [if_pos hport]
    by_cases hlast : i = 15
    · subst hlast
      rw [Function.update_self, if_pos (show 15 = 15 ∧ 0 < s.antennaSelection.toInt ∧
        s.dciFormat = 0 from ⟨rfl, hport⟩)]
      rfl
    · rw [Function.update_of_ne hlast, if_pos hi, if_neg fun hnot => hlast hnot.1]
  · rw [if_neg hport, if_pos hi, if_neg fun hnot => hport hnot.2]

lemma mask_mem (hi : i < 16) : s.mask r c i = 0 ∨ s.mask r c i = 1 := by
  by_cases h : s.antennaSelection = 0 ∨ s.dciFormat = 0
  · rw [mask_of_rnti h hi]
    split
    · exact sramble_mem _ _
    · exact bitChar_mem _ _
  · exact .inl (mask_of_not h hi)

include h in
lemma mask_eq_iff (hi : i < 16) :
    s.mask r c i = s.mask r' c i ↔ r.getLsbD (16 - i - 1) = r'.getLsbD (16 - i - 1) := by
  rw [mask_of_rnti h hi, mask_of_rnti h hi, ← bitChar_eq_iff]
  split_ifs with hlast
  · rw [sramble_eq_iff (bitChar_mem _ _) (bitChar_mem _ _) (bitChar_mem _ _), hlast.1]
  · rfl

include h in
lemma masks_eq_iff (hr : r.toNat ≤ 0xFFFF)
    (hr' : r'.toNat ≤ 0xFFFF) : (∀ i < 16, s.mask r c i = s.mask r' c i) ↔ r = r' := by
  constructor
  · intro hmask
    refine BitVec.eq_of_getLsbD_eq fun k _ => ?_
    by_cases hk : k < 16
    · have hbit := (mask_eq_iff h (i := 16 - k - 1) (by omega)).mp (hmask _ (by omega))
      rwa [show 16 - (16 - k - 1) - 1 = k by omega] at hbit
    · have hhigh : ∀ v : CInt, v.toNat ≤ 0xFFFF → v.getLsbD k = false := fun v hv =>
        Nat.testBit_lt_two_pow (lt_of_lt_of_le (by omega : v.toNat < 2 ^ 16)
          (Nat.pow_le_pow_right (by decide) (not_lt.mp hk)))
      rw [hhigh r hr, hhigh r' hr']
  · rintro rfl _ _
    rfl

end Masks

/-! ## The message that arrives -/

section Arrival

variable {s : Setting} {r r' : CInt} {c input output : ℕ → Char8} {len : ℕ} {i : ℕ}
    {out out' : ℕ → Char8}

lemma workTransmitter_run (hr : r.toNat ≤ 0xFFFF)
    (hport : 0 ≤ s.uePort.toInt ∧ s.uePort.toInt ≤ 1) :
    workTransmitter pdcch (s.params r) (len + 16) c input output =
      some (((len + 16 : ℕ) : ℤ), transmit (len + 16) 16 (s.mask r c) input output) := by
  have hsequence : maskSequence pdcch (s.params r) c = some (s.mask r c) := by
    rw [maskSequence, if_pos (show pdcch.channel = 0 from rfl)]
    exact if_pos ⟨rfl, hr, hport⟩
  rw [workTransmitter, if_neg (Nat.succ_ne_zero _), hsequence]
  exact if_neg (not_lt.mpr (Nat.le_add_left 16 len))

variable {j : ℕ} {word : BitVec 32} {message : Buffer}

lemma transmit_payload (hj : j < len) : transmit (len + 16) 16 c input output j = input j :=
  if_pos hj

lemma transmit_parity (hi : i < 16) :
    transmit (len + 16) 16 c input output (len + i) = sramble (input (len + i)) (c i) := by
  rw [transmit, if_neg (by omega), if_pos (by omega), Nat.add_sub_cancel, Nat.add_sub_cancel_left]

lemma topBit_mem (v : BitVec 32) : ((v &&& (1#32 <<< 31)) >>> 31).setWidth 8 = (0 : Char8) ∨
    ((v &&& (1#32 <<< 31)) >>> 31).setWidth 8 = (1 : Char8) := by
  have hlt : ((v &&& (1#32 <<< 31)) >>> 31).toNat < 2 := by
    rw [BitVec.toNat_ushiftRight, Nat.shiftRight_eq_div_pow]
    exact Nat.div_lt_of_lt_mul (v &&& (1#32 <<< 31)).isLt
  obtain hzero | hone : ((v &&& (1#32 <<< 31)) >>> 31).toNat = 0 ∨
      ((v &&& (1#32 <<< 31)) >>> 31).toNat = 1 := by omega
  · rw [BitVec.eq_of_toNat_eq (y := 0#32) hzero]
    exact .inl rfl
  · rw [BitVec.eq_of_toNat_eq (y := 1#32) hone]
    exact .inr rfl

lemma paste_mem (len : ℕ) (word : BitVec 32) (message : Buffer) (hi : i < 16) :
    paste 16 len word message (len + i) = 0 ∨ paste 16 len word message (len + i) = 1 := by
  have hin : len ≤ len + i ∧ len + i < len + 16 := ⟨by omega, by omega⟩
  rw [paste, if_pos hin]
  exact topBit_mem _

def Setting.arrives (s : Setting) (r r' : CInt) (len : ℕ) (sent c out out' : ℕ → Char8) :
    ℕ → Char8 :=
  transmit (len + 16) 16 (s.mask r' c) (transmit (len + 16) 16 (s.mask r c) sent out) out'

lemma arrives_payload {sent : ℕ → Char8} (hj : j < len) :
    s.arrives r r' len sent c out out' j = sent j := by
  rw [Setting.arrives, transmit_payload hj, transmit_payload hj]

lemma arrives_parity (word : BitVec 32) (message : Buffer) (hi : i < 16) :
    (s.arrives r r' len (paste 16 len word message) c out out' (len + i) =
        paste 16 len word message (len + i) ↔ s.mask r c i = s.mask r' c i) ∧
      (s.arrives r r' len (paste 16 len word message) c out out' (len + i) = 0 ∨
        s.arrives r r' len (paste 16 len word message) c out out' (len + i) = 1) := by
  rw [Setting.arrives, transmit_parity hi, transmit_parity hi]
  exact ⟨sramble_sramble_eq_iff (paste_mem len word message hi) (mask_mem hi) (mask_mem hi),
    sramble_mem _ _⟩

lemma isSet_eq_iff {a b : Char8} (ha : a = 0 ∨ a = 1) (hb : b = 0 ∨ b = 1) :
    decide (a ≠ 0) = decide (b ≠ 0) ↔ a = b := by
  rcases ha with rfl | rfl <;> rcases hb with rfl | rfl <;> decide

lemma burst_of_masks_ne (h : ¬ ∀ i < 16, s.mask r c i = s.mask r' c i) :
    Burst (paste 16 len word message) (s.arrives r r' len (paste 16 len word message) c out out')
      (len + 16) := by
  constructor
  · refine ⟨len, fun j hj hdiff => ⟨?_, hj⟩⟩
    by_contra hlt
    refine hdiff ?_
    rw [isSet, isSet, arrives_payload (not_le.mp hlt)]
  · obtain ⟨i, hi, hne⟩ : ∃ i, i < 16 ∧ s.mask r c i ≠ s.mask r' c i := by
      by_contra hall
      exact h fun i hi => by_contra fun hne => hall ⟨i, hi, hne⟩
    obtain ⟨hsame, hbit⟩ := arrives_parity word message hi
    refine ⟨len + i, by omega, fun heq => hne (hsame.mp ?_)⟩
    exact ((isSet_eq_iff (paste_mem len word message hi) hbit).mp heq).symm

lemma bits_of_masks_eq (h : ∀ i < 16, s.mask r c i = s.mask r' c i) :
    bits (s.arrives r r' len (paste 16 len word message) c out out') 0 (len + 16) =
      bits (paste 16 len word message) 0 (len + 16) := by
  refine List.map_congr_left fun j hj => ?_
  have hj : j < len + 16 := by simpa [List.mem_range'_1] using hj
  rw [isSet, isSet]
  by_cases hlt : j < len
  · rw [arrives_payload hlt]
  · obtain ⟨i, rfl⟩ := Nat.exists_eq_add_of_le (not_lt.mp hlt)
    rw [(arrives_parity word message (by omega)).1.mpr (h i (by omega))]

end Arrival

/-! ## Acceptance -/

section Acceptance

variable {poly : BitVec 32} {s : Setting} {r r' : CInt} {len fuel : ℕ}

lemma checkedWord_run (hpoly : Generator 16 poly) (hr : r.toNat ≤ 0xFFFF)
    (hr' : r'.toNat ≤ 0xFFFF) (hport : 0 ≤ s.uePort.toInt ∧ s.uePort.toInt ≤ 1) (hlen : 0 < len)
    (hfuel : len + 16 ≤ fuel) (message : Buffer) (c out out' : ℕ → Char8) :
    ∃ word, checkedWord fuel poly s r r' message len c out out' = some word ∧
      (word = 0 ↔ ∀ i < 16, s.mask r c i = s.mask r' c i) := by
  obtain ⟨parity, hdivide, -⟩ := divide_sixteen hpoly message hlen (by omega : len ≤ fuel)
  have hattach : icrc fuel 0 message len 16 poly true =
      some (parity, paste 16 len parity message) := by
    rw [icrc, hdivide]
    rfl
  obtain ⟨-, hdvd⟩ := attached_dvd hpoly hfuel hattach
  have hword : checkedWord fuel poly s r r' message len c out out' =
      (icrc fuel 0 (s.arrives r r' len (paste 16 len parity message) c out out') (len + 16) 16 poly
        false).map Prod.fst := by
    rw [checkedWord, hattach]
    simp only [Option.bind_eq_bind, Option.bind_some, workTransmitter_run hr hport,
      workTransmitter_run hr' hport, Option.map_eq_bind]
    rfl
  by_cases hmasks : ∀ i < 16, s.mask r c i = s.mask r' c i
  · refine ⟨0, ?_, iff_of_true rfl hmasks⟩
    rw [← bits_of_masks_eq hmasks] at hdvd
    have hhalf : Generator (2 * 8) poly := hpoly
    rw [hword, icrc, show 16 = 2 * 8 from rfl,
      divide_eq_zero_of_dvd hhalf (by decide) le_rfl (Nat.succ_pos _) hfuel hdvd]
    rfl
  · obtain ⟨word, hcheck, hne⟩ :=
      icrc_burst hpoly (Nat.succ_pos _) hfuel hdvd (burst_of_masks_ne hmasks)
    exact ⟨word, by rw [hword, hcheck, Option.map_some], iff_of_false hne hmasks⟩

/-- **PDCCH addressing.** The check tells terminal `r'` whether the message is for it exactly if
there is a message and, for two terminals, the sequence is made of the RNTI: no antenna selection,
or format 0. -/
theorem pdcch_addressing (hpoly : Generator 16 poly)
    (hport : 0 ≤ s.uePort.toInt ∧ s.uePort.toInt ≤ 1) (hr : r.toNat ≤ 0xFFFF)
    (hr' : r'.toNat ≤ 0xFFFF) (hfuel : len + 16 ≤ fuel) (message : Buffer)
    (c out out' : ℕ → Char8) :
    (∃ word, checkedWord fuel poly s r r' message len c out out' = some word ∧
        (word = 0 ↔ r = r')) ↔
      0 < len ∧ (s.antennaSelection = 0 ∨ s.dciFormat = 0 ∨ r = r') := by
  by_cases hlen : 0 < len
  · rw [and_iff_right hlen]
    obtain ⟨word, hword, hzero⟩ := checkedWord_run hpoly hr hr' hport hlen hfuel message c out out'
    have hone : (∃ word, checkedWord fuel poly s r r' message len c out out' = some word ∧
        (word = 0 ↔ r = r')) ↔ (word = 0 ↔ r = r') := by
      refine ⟨?_, fun h => ⟨word, hword, h⟩⟩
      rintro ⟨word', hword', h⟩
      rwa [Option.some.inj (hword.symm.trans hword')]
    rw [hone, hzero]
    by_cases hsame : r = r'
    · subst hsame
      exact iff_of_true (iff_of_true (fun _ _ => rfl) rfl) (.inr (.inr rfl))
    · by_cases hrnti : s.antennaSelection = 0 ∨ s.dciFormat = 0
      · exact iff_of_true (masks_eq_iff hrnti hr hr') (or_assoc.mp (.inl hrnti))
      · -- the sequence is zero for both terminals
        have hmasks : ∀ i < 16, s.mask r c i = s.mask r' c i := fun i hi => by
          rw [mask_of_not hrnti hi, mask_of_not hrnti hi]
        refine iff_of_false (fun h => hsame (h.mp hmasks)) ?_
        rintro (hant | hformat | heq)
        · exact hrnti (.inl hant)
        · exact hrnti (.inr hformat)
        · exact hsame heq
  · refine iff_of_false ?_ fun h => hlen h.1
    rintro ⟨word, hword, -⟩
    rw [Nat.eq_zero_of_not_pos hlen, checkedWord, icrc, divide_empty] at hword
    cases hword

end Acceptance

theorem pdcch_addressing_six : ∃ word, checkedWord 17 0x11021 ⟨0, 0, 0⟩ 5 6 (fun _ => 1) 1
    (fun _ => 0) (fun _ => 0) (fun _ => 0) = some word ∧ (word = 0 ↔ (5 : CInt) = 6) :=
  (pdcch_addressing ⟨by decide, by decide, by decide⟩ (by decide) (by decide) (by decide) le_rfl _ _
    _ _).mpr ⟨by decide, .inl rfl⟩

theorem pdcch_not_addressed : checkedWord 17 0x11021 ⟨1, 1, 0⟩ 5 6 (fun _ => 1) 1
    (fun _ => 0) (fun _ => 0) (fun _ => 0) = some 0 := by
  decide +kernel

end Aloe.Modrep.PdcchAddressing
