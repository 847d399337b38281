import Aloe.Modrep.Pack

/-!
# Scrambling the parity bits

Model of `lte_crc_scrambling`: the sequences for PDCCH and PBCH, the scrambling of bits at the
transmitter, the scrambling of soft bits at the receiver, and `work`, which applies one of the two
to the parity bits at the end of a packet and copies the payload before them.

A `float` is its 32 bits. `x > 0`, `x <= 0` and `-x` are exact on them, and a `memcpy` that ends
in the middle of a `float` has its meaning.
-/

namespace Aloe.Modrep.CrcScrambling

open Lib BitVec

/-! ## The sequences -/

structure PdcchParams where
  rnti : CInt
  antennaSelection : CInt
  uePort : CInt
  dciFormat : CInt
deriving DecidableEq, Repr

/-- `pdcch_sequence_gen`, on the array `c`. -/
def pdcchSequenceGen (params : PdcchParams) (c : ℕ → Char8) : ℕ → Char8 :=
  let c := fun i => if i < 16 then 0 else c i
  let c := if params.antennaSelection = 0 ∨ params.dciFormat = 0 then
      fun i => if i < 16 then bitChar params.rnti (16 - i - 1) else c i
    else c
  if 0 < params.antennaSelection.toInt ∧ params.dciFormat = 0 then
    Function.update c 15 (if c 15 = bitChar params.uePort 0 then 0 else 1)
  else c

/-- `pbch_sequence_gen`, on the array `c`. -/
def pbchSequenceGen (nofPorts : CInt) (c : ℕ → Char8) : ℕ → Char8 := fun i =>
  if i < 16 then
    if nofPorts = 2 then 1
    else if nofPorts = 4 then if i % 2 = 1 then 1 else 0
    else 0
  else c i

/-! ## Bits and soft bits -/

/-- `srambling` of one bit. -/
def sramble (bit c : Char8) : Char8 := if bit = c then 0 else 1

/-- A `float`, by its bits. -/
abbrev Single : Type := BitVec 32

namespace Single

def sign (x : Single) : Bool := x.getLsbD 31

def magnitude (x : Single) : ℕ := (x.setWidth 31).toNat

def isNaN (x : Single) : Prop := 0x7f800000 < x.magnitude

def Pos (x : Single) : Prop := ¬ x.isNaN ∧ x.sign = false ∧ x.magnitude ≠ 0

def Neg (x : Single) : Prop := ¬ x.isNaN ∧ x.sign = true ∧ x.magnitude ≠ 0

def NonPos (x : Single) : Prop := ¬ x.isNaN ∧ (x.sign = true ∨ x.magnitude = 0)

def neg (x : Single) : Single := x ^^^ (1#32 <<< 31)

instance (x : Single) : Decidable x.isNaN := inferInstanceAs (Decidable (_ < _))

instance (x : Single) : Decidable x.Pos := inferInstanceAs (Decidable (_ ∧ _))

instance (x : Single) : Decidable x.Neg := inferInstanceAs (Decidable (_ ∧ _))

instance (x : Single) : Decidable x.NonPos := inferInstanceAs (Decidable (_ ∧ _))

def byte (x : Single) (k : ℕ) : BitVec 8 := x.extractLsb' (8 * k) 8

def ofBytes (f : ℕ → BitVec 8) : Single := f 3 ++ f 2 ++ f 1 ++ f 0

end Single

/-- `desrambling` of one soft bit. -/
def desramble (x : Single) (c : Char8) : Single :=
  if x.Pos ∧ c = 0 ∨ x.NonPos ∧ c = 1 then x.neg else x

/-! ## The module -/

structure Module where
  lcrc : CInt
  channel : CInt

/-- What `work` finds when it reads its parameters. -/
structure Params where
  rnti : Option CInt
  antennaSelection : Option CInt
  dciFormat : Option CInt
  uePort : Option CInt
  nofPorts : Option CInt

/-- `verify_runtime_parameters`; `rnti` is unsigned there. -/
def verifyRuntimeParameters (lcrc rnti uePort : CInt) : Prop :=
  lcrc = 16 ∧ rnti.toNat ≤ 0xFFFF ∧ 0 ≤ uePort.toInt ∧ uePort.toInt ≤ 1

instance (lcrc rnti uePort : CInt) : Decidable (verifyRuntimeParameters lcrc rnti uePort) :=
  inferInstanceAs (Decidable (_ ∧ _))

/-- The first half of `work`: the sequence, or `none` where it returns -1. Without `nof_ports` the
array keeps what it held. -/
def maskSequence (m : Module) (p : Params) (c : ℕ → Char8) : Option (ℕ → Char8) :=
  if m.channel = 0 then
    let params : PdcchParams :=
      ⟨p.rnti.getD 0, p.antennaSelection.getD 0, p.uePort.getD 0, p.dciFormat.getD 0⟩
    if verifyRuntimeParameters m.lcrc params.rnti params.uePort then
      some (pdcchSequenceGen params c)
    else none
  else
    match p.nofPorts with
    | none => some c
    | some n => if n = 1 ∨ n = 2 ∨ n = 4 then some (pbchSequenceGen n c) else none

/-- The transmitter's half of `work`: the output of `n` bits of which the last `lcrc` are parity
bits. -/
def transmit (n lcrc : ℕ) (c input output : ℕ → Char8) : ℕ → Char8 := fun i =>
  if i < n - lcrc then input i
  else if i < n then sramble (input i) (c (i - (n - lcrc)))
  else output i

def memcpySingle (len : ℕ) (input output : ℕ → Single) : ℕ → Single := fun i =>
  .ofBytes fun k => if 4 * i + k < len then (input i).byte k else (output i).byte k

/-- The receiver's half of `work`: `memcpy` copies so many bytes, `desrambling` starts at the
`float` with that index. -/
def receive (rcvSamples lcrc : ℕ) (c : ℕ → Char8) (input output : ℕ → Single) : ℕ → Single :=
  let copied := memcpySingle (rcvSamples - lcrc) input output
  fun i =>
    if rcvSamples - lcrc ≤ i ∧ i < rcvSamples then desramble (input i) (c (i - (rcvSamples - lcrc)))
    else copied i

/-- `input_sample_sz`: `input_t` is `char` in both directions. -/
def inputSampleSz : ℕ := 1

/-- The bytes of a buffer: `output_max_samples` samples of `output_t`. -/
def bufferSize : ℕ := 1024

/-- `work` at the transmitter: what it returns and its output; `none` for a copy of a negative
number of bytes. -/
def workTransmitter (m : Module) (p : Params) (rcvSamples : ℕ) (c input output : ℕ → Char8) :
    Option (ℤ × (ℕ → Char8)) :=
  if rcvSamples = 0 then some (0, output)
  else
    match maskSequence m p c with
    | none => some (-1, output)
    | some c =>
      if rcvSamples < m.lcrc.toNat then none
      else some (rcvSamples, transmit rcvSamples m.lcrc.toNat c input output)

/-- `work` at the receiver, for a packet of `len` bytes; `none` also for a `float` past the end of
the buffers. -/
def workReceiver (m : Module) (p : Params) (len : ℕ) (c : ℕ → Char8) (input output : ℕ → Single) :
    Option (ℤ × (ℕ → Single)) :=
  let rcvSamples := len / inputSampleSz
  if rcvSamples = 0 then some (0, output)
  else
    match maskSequence m p c with
    | none => some (-1, output)
    | some c =>
      if rcvSamples < m.lcrc.toNat ∨ bufferSize < 4 * rcvSamples then none
      else some (rcvSamples, receive rcvSamples m.lcrc.toNat c input output)

/-! ## Soft bits -/

namespace Single

variable {x : Single}

lemma getLsbD_ofBytes (f : ℕ → BitVec 8) {k i : ℕ} (hk : k < 4) (hi : i < 8) :
    (ofBytes f).getLsbD (8 * k + i) = (f k).getLsbD i := by
  rw [ofBytes, getLsbD_append, getLsbD_append, getLsbD_append]
  obtain rfl | rfl | rfl | rfl : k = 0 ∨ k = 1 ∨ k = 2 ∨ k = 3 := by omega
  · rw [if_pos (by omega)]
    congr 1
    omega
  · rw [if_neg (by omega), if_pos (by omega)]
    congr 1
    omega
  · rw [if_neg (by omega), if_neg (by omega), if_pos (by omega)]
    congr 1
    omega
  · rw [if_neg (by omega), if_neg (by omega), if_neg (by omega)]
    congr 1
    omega

lemma byte_ofBytes (f : ℕ → BitVec 8) {k : ℕ} (hk : k < 4) : (ofBytes f).byte k = f k := by
  apply eq_of_getLsbD_eq
  intro i hi
  rw [byte, getLsbD_extractLsb', getLsbD_ofBytes f hk hi, decide_eq_true hi, Bool.true_and]

lemma ofBytes_byte (x : Single) : ofBytes x.byte = x := by
  apply eq_of_getLsbD_eq
  intro i hi
  have hbit : (ofBytes x.byte).getLsbD (8 * (i / 8) + i % 8) = (x.byte (i / 8)).getLsbD (i % 8) :=
    getLsbD_ofBytes x.byte (by omega) (by omega)
  rw [byte, getLsbD_extractLsb', decide_eq_true (Nat.mod_lt i (by decide)), Bool.true_and,
    Nat.div_add_mod] at hbit
  exact hbit

lemma ofBytes_eq_iff (f : ℕ → BitVec 8) : ofBytes f = x ↔ ∀ k < 4, f k = x.byte k := by
  constructor
  · rintro rfl k hk
    exact (byte_ofBytes f hk).symm
  · intro h
    rw [← ofBytes_byte x, ofBytes, ofBytes, h 0 (by decide), h 1 (by decide), h 2 (by decide),
      h 3 (by decide)]

lemma Neg.not_pos (h : x.Neg) : ¬ x.Pos := fun hpos =>
  Bool.false_ne_true (hpos.2.1.symm.trans h.2.1)

end Single

/-! ## Removing the mask -/

/-- `n` soft bits for the bits that were sent: positive for 1, negative for 0. -/
def SoftImage (n : ℕ) (sent : ℕ → Char8) (soft : ℕ → Single) : Prop :=
  ∀ j < n, (sent j = 1 → (soft j).Pos) ∧ (sent j = 0 → (soft j).Neg)

def hard (x : Single) : Char8 := if x.Pos then 1 else 0

lemma hard_eq_iff {x : Single} {bit : Char8} (hbit : bit = 0 ∨ bit = 1) :
    hard x = bit ↔ (x.Pos ↔ bit = 1) := by
  rw [hard]
  rcases hbit with rfl | rfl <;> split_ifs with hpos <;> simp [hpos]

lemma memcpySingle_floats (m : ℕ) (input output : ℕ → Single) (i : ℕ) :
    memcpySingle (4 * m) input output i = if i < m then input i else output i := by
  rw [memcpySingle, Single.ofBytes_eq_iff]
  intro k hk
  by_cases hi : i < m
  · rw [if_pos hi, if_pos (by omega)]
  · rw [if_neg hi, if_neg (by omega)]

section Removal

variable {n : ℕ} {x c c₀ sent old : ℕ → Char8} {soft output : ℕ → Single} {m : Module} {p : Params}

/-- `n` `float`s are taken for `4 * n` samples: all but the last four are copied, and what is
descrambled lies behind them. -/
lemma receive_floats (hn : 16 ≤ n) {j : ℕ} (hj : j < n) :
    receive (4 * n) 16 c soft output j = if j < n - 4 then soft j else output j := by
  have hcopied : 4 * n - 16 = 4 * (n - 4) := by omega
  simp only [receive, hcopied, memcpySingle_floats]
  exact if_neg (by omega)

lemma hard_of_sent {bit : Char8} {y : Single} (hbit : bit = 0 ∨ bit = 1)
    (himage : (bit = 1 → y.Pos) ∧ (bit = 0 → y.Neg)) : hard y = bit := by
  rw [hard_eq_iff hbit]
  rcases hbit with rfl | rfl
  · exact iff_of_false (himage.2 rfl).not_pos (by decide)
  · exact iff_of_true (himage.1 rfl) rfl

lemma sramble_eq_self {bit mask : Char8} (hbit : bit = 0 ∨ bit = 1) (hmask : mask = 0 ∨ mask = 1) :
    (sramble bit mask = 0 ∨ sramble bit mask = 1) ∧ (sramble bit mask = bit ↔ mask = 0) := by
  rcases hbit with rfl | rfl <;> rcases hmask with rfl | rfl <;> decide

variable (output) in
/-- **CRC mask removal.** The receiver gives back the packet exactly if what it takes for the parity
bits lies in its buffer, the mask is zero on the first twelve parity bits, and the output holds the
last four already. -/
theorem crc_mask_removal (hn : 16 ≤ n) (hlcrc : m.lcrc = 16) (hmask : maskSequence m p c₀ = some c)
    (hx : ∀ j < n, x j = 0 ∨ x j = 1) (hc : ∀ i < 16, c i = 0 ∨ c i = 1)
    (hsent : workTransmitter m p n c₀ x old = some ((n : ℤ), sent))
    (hsoft : SoftImage n sent soft) :
    (∃ received, workReceiver m p (4 * n) c₀ soft output = some (((4 * n : ℕ) : ℤ), received) ∧
        (∀ j < n, hard (received j) = x j) ∧ ∀ j < n - 16, received j = soft j) ↔
      n ≤ 64 ∧ (∀ i < 12, c i = 0) ∧ ∀ i < 4, hard (output (n - 4 + i)) = x (n - 4 + i) := by
  have hlength : m.lcrc.toNat = 16 := by rw [hlcrc]; rfl
  obtain rfl : sent = transmit n 16 c x old := by
    rw [workTransmitter, if_neg (by omega), hmask, hlength] at hsent
    simp only [if_neg (not_lt.mpr hn), Option.some.injEq, Prod.mk.injEq, true_and] at hsent
    exact hsent.symm
  have hwork : workReceiver m p (4 * n) c₀ soft output =
      if n ≤ 64 then some (((4 * n : ℕ) : ℤ), receive (4 * n) 16 c soft output) else none := by
    simp only [workReceiver, inputSampleSz, Nat.div_one, hmask, hlength, bufferSize]
    rw [if_neg (by omega)]
    by_cases hfits : n ≤ 64
    · rw [if_pos hfits, if_neg (by omega)]
    · rw [if_neg hfits, if_pos (by omega)]
  have hpayload : ∀ j < n - 16, hard (soft j) = x j := by
    intro j hj
    have himage := hsoft j (by omega)
    rw [transmit, if_pos hj] at himage
    exact hard_of_sent (hx j (by omega)) himage
  have hparity : ∀ i < 16, (hard (soft (n - 16 + i)) = x (n - 16 + i) ↔ c i = 0) := by
    intro i hi
    obtain ⟨hbit, hself⟩ := sramble_eq_self (hx (n - 16 + i) (by omega)) (hc i hi)
    have himage := hsoft (n - 16 + i) (by omega)
    rw [transmit, if_neg (by omega), if_pos (by omega), Nat.add_sub_cancel_left] at himage
    rw [hard_of_sent hbit himage, hself]
  rw [hwork]
  constructor
  · rintro ⟨received, hok, hhard, -⟩
    split_ifs at hok with hfits
    cases hok
    refine ⟨hfits, fun i hi => ?_, fun i hi => ?_⟩
    · have hbit := hhard (n - 16 + i) (by omega)
      rw [receive_floats hn (by omega), if_pos (by omega)] at hbit
      exact (hparity i (by omega)).mp hbit
    · have hbit := hhard (n - 4 + i) (by omega)
      rwa [receive_floats hn (by omega), if_neg (by omega)] at hbit
  · rintro ⟨hfits, hzero, hlast⟩
    refine ⟨_, if_pos hfits, fun j hj => ?_, fun j hj => ?_⟩
    · rw [receive_floats hn hj]
      by_cases hcopied : j < n - 4
      · rw [if_pos hcopied]
        by_cases hpay : j < n - 16
        · exact hpayload j hpay
        · obtain ⟨i, rfl⟩ := Nat.exists_eq_add_of_le (not_lt.mp hpay)
          exact (hparity i (by omega)).mpr (hzero i (by omega))
      · rw [if_neg hcopied]
        obtain ⟨i, rfl⟩ := Nat.exists_eq_add_of_le (not_lt.mp hcopied)
        exact hlast i (by omega)
    · rw [receive_floats hn (by omega), if_pos (by omega)]

end Removal

def unit (bit : Char8) : Single := if bit = 1 then 0x3f800000 else 0xbf800000

lemma softImage_unit (n : ℕ) (sent : ℕ → Char8) : SoftImage n sent fun j => unit (sent j) := by
  refine fun j _ => ⟨fun hone => ?_, fun hzero => ?_⟩
  · dsimp only
    rw [hone]
    decide
  · dsimp only
    rw [hzero]
    decide

def pbch : Module := ⟨16, 1⟩

def ports (n : CInt) : Params := ⟨none, none, none, none, some n⟩

def tenOnes (j : ℕ) : Char8 := if j < 10 then 1 else 0

/-- The mask of one antenna port is zero, and the last four bits are in the output. -/
theorem crc_mask_removal_one_port : ∃ sent received,
    workTransmitter pbch (ports 1) 20 (fun _ => 0) tenOnes (fun _ => 0) = some (20, sent) ∧
      workReceiver pbch (ports 1) 80 (fun _ => 0) (fun j => unit (sent j)) (fun _ => unit 0) =
        some (80, received) ∧ ∀ j < 20, hard (received j) = tenOnes j := by
  have hmask : maskSequence pbch (ports 1) (fun _ => 0) = some (pbchSequenceGen 1 fun _ => 0) := rfl
  have hsent : workTransmitter pbch (ports 1) 20 (fun _ => 0) tenOnes (fun _ => 0) = some
    (((20 : ℕ) : ℤ), transmit 20 16 (pbchSequenceGen 1 fun _ => 0) tenOnes fun _ => 0) := rfl
  have hbits : ∀ j < 20, tenOnes j = 0 ∨ tenOnes j = 1 := by decide
  have hlast : ∀ i < 4, hard (unit 0) = tenOnes (20 - 4 + i) := by decide
  obtain ⟨received, hok, hhard, -⟩ := (crc_mask_removal (fun _ => unit 0) (by decide) rfl
    hmask hbits (by decide) hsent (softImage_unit 20 _)).mpr ⟨by decide, by decide, hlast⟩
  exact ⟨_, received, rfl, hok, hhard⟩

/-- Twenty ones with the mask of two antenna ports. -/
theorem crc_mask_not_removed : ∃ sent received,
    workTransmitter pbch (ports 2) 20 (fun _ => 0) (fun _ => 1) (fun _ => 0) = some (20, sent) ∧
      SoftImage 20 sent (fun j => unit (sent j)) ∧
      workReceiver pbch (ports 2) 80 (fun _ => 0) (fun j => unit (sent j)) (fun _ => unit 0) =
        some (80, received) ∧ hard (received 4) = 0 ∧ hard (received 16) = 0 :=
  ⟨_, _, rfl, softImage_unit 20 _, rfl, by decide, by decide⟩

end Aloe.Modrep.CrcScrambling
