import Aloe.Lib.BitPoly
import Mathlib.RingTheory.AdjoinRoot

/-!
# The CRC module

`gen_crc` appends a cyclic redundancy check to a packet of bits (one bit per byte, zero or not zero)
or checks the one it has. `icrc` reads the packet in chunks of half the CRC length, the last one
possibly shorter, and divides chunk by chunk in a 32-bit register. Memory is a function of the
index.

The register is followed modulo the generator: in `AdjoinRoot g` a shift is a multiplication by the
root, whether or not the generator is subtracted. What ties the register to the remainder is its
size: the cut `<< long_crc >> long_crc` keeps the lower `32 - long_crc` bits, and leaves a remainder
alone as long as `long_crc ≤ 16`. `crc_sound_iff` says that this is exactly when the module works.

The receiver divides the packet that was sent plus the error, and gets the remainder of the error
alone. An error within 16 consecutive bits is not a multiple of a generator of degree 16 that has
`x ^ 0`. `icrc` does not return for a packet of length zero, and `work` does not call it.
-/

namespace Aloe.Modrep.GenCrc

open Lib Polynomial List AdjoinRoot

/-- A buffer of `char`. -/
abbrev Buffer := ℕ → BitVec 8

/-! ## The code -/

def shiftOut (longCrc : ℕ) (poly tmp : BitVec 32) : BitVec 32 :=
  if tmp &&& (1#32 <<< (longCrc - 1)) ≠ 0 then (tmp <<< 1) ^^^ poly else tmp <<< 1

def icrc1 (crc : BitVec 32) (onech : BitVec 16) (longCrc leftShift : ℕ) (poly : BitVec 32) :
    BitVec 32 :=
  (shiftOut longCrc poly)^[leftShift] (crc ^^^ (onech.setWidth 32 <<< (longCrc >>> 1)))

/-- What the inner loop of `icrc` leaves: `i`, `k`, `data` and `stop`. -/
structure Chunk where
  i : ℕ
  k : ℕ
  data : BitVec 32
  stop : Bool

/-- The inner loop of `icrc`, with `m` rounds left. -/
def readChunk (half : ℕ) (bufptr : Buffer) (len : ℕ) : ℕ → ℕ → ℕ → BitVec 32 → Chunk
  | 0, i, k, data => ⟨i, k, data, false⟩
  | m + 1, i, k, data =>
    let data := if bufptr k ≠ 0 ∧ k < len then data ||| (1#32 <<< (half - 1 - i)) else data
    if k + 1 = len then ⟨i + 1, k + 1, data, true⟩
    else readChunk half bufptr len m (i + 1) (k + 1) data

/-- The `while` loop of `icrc`, which ends with `cword`; `none` when the fuel runs out. -/
def divide (bufptr : Buffer) (len longCrc : ℕ) (poly : BitVec 32) :
    ℕ → ℕ → BitVec 32 → Option (BitVec 32)
  | 0, _, _ => none
  | fuel + 1, k, cword =>
    let chunk := readChunk (longCrc / 2) bufptr len (longCrc / 2) 0 k 0
    let cword := (icrc1 ((cword <<< longCrc) >>> longCrc) (chunk.data.setWidth 16) longCrc
      chunk.i poly <<< longCrc) >>> longCrc
    if chunk.stop then some cword else divide bufptr len longCrc poly fuel chunk.k cword

/-- The loop that pastes the word, highest bit first, behind the `len` bits of the packet. -/
def paste (longCrc len : ℕ) (cword : BitVec 32) (bufptr : Buffer) : Buffer := fun j =>
  if len ≤ j ∧ j < len + longCrc then
    ((((cword <<< (32 - longCrc)) <<< (j - len)) &&& (1#32 <<< 31)) >>> 31).setWidth 8
  else bufptr j

def icrc (fuel : ℕ) (crc : BitVec 32) (bufptr : Buffer) (len longCrc : ℕ) (poly : BitVec 32)
    (pasteWord : Bool) : Option (BitVec 32 × Buffer) :=
  (divide bufptr len longCrc poly fuel 0 crc).map fun cword =>
    (cword, if pasteWord then paste longCrc len cword bufptr else bufptr)

structure Config where
  longCrc : ℕ
  poly : BitVec 32
  mode : ℤ
  forwardOnError : Bool

def modeAdd : ℤ := 0

def modeCheck : ℤ := 1

/-- The counters of the module, and what a call of `work` leaves in `snd_len` of its output. -/
structure State where
  totalErrors : BitVec 32
  totalPkts : BitVec 32
  sndLen : ℤ

/-- `n` bytes of `inp`, with whatever `memory` holds behind them. -/
def copied (inp memory : Buffer) (n : ℕ) : Buffer := fun j => if j < n then inp j else memory j

/-- `work` on `rcvSamples` bits at `inp`, copied to the output first if there is one; else `memory`
is what lies behind the input itself. `sndLen` is zero when `work` is called. -/
def work (fuel : ℕ) (cfg : Config) (inp memory : Buffer) (rcvSamples : ℕ) (st : State) :
    Option (State × Buffer) :=
  if rcvSamples = 0 then some (st, memory)
  else
    (icrc fuel 0 (copied inp memory rcvSamples) rcvSamples cfg.longCrc cfg.poly
        (cfg.mode = modeAdd)).map fun (n, out) =>
      if cfg.mode = modeCheck then
        ({ totalErrors := if n ≠ 0 then st.totalErrors + 1 else st.totalErrors
           totalPkts := st.totalPkts + 1
           sndLen := if ¬ (cfg.forwardOnError = false ∧ n ≠ 0) then rcvSamples - cfg.longCrc
             else st.sndLen }, out)
      else ({ st with sndLen := rcvSamples + cfg.longCrc }, out)

/-! ## The division -/

def isSet (bufptr : Buffer) (j : ℕ) : Bool := decide (bufptr j ≠ 0)

/-- `n` bits of a buffer from index `k`. -/
def bits (bufptr : Buffer) (k n : ℕ) : List Bool := (List.range' k n).map (isSet bufptr)

/-- Bits `x ^ longCrc` and `x ^ 0` set and no higher bit. -/
structure Generator (longCrc : ℕ) (poly : BitVec 32) : Prop where
  top : poly.getLsbD longCrc = true
  low : poly.getLsbD 0 = true
  above : poly.toNat < 2 ^ (longCrc + 1)

namespace Generator

variable {longCrc : ℕ} {poly : BitVec 32}

section

variable (h : Generator longCrc poly)
include h

lemma below : Below (longCrc + 1) poly := below_of_toNat_lt h.above

lemma natDegree_le : (toPoly poly).natDegree ≤ longCrc :=
  natDegree_le_iff_coeff_eq_zero.mpr fun i hi => by
    rw [coeff_toPoly, h.below i hi, bitCoeff_false]

lemma coeff_top : (toPoly poly).coeff longCrc = 1 := by
  rw [coeff_toPoly, h.top, bitCoeff_true]

lemma monic : (toPoly poly).Monic :=
  monic_of_natDegree_le_of_coeff_eq_one longCrc h.natDegree_le h.coeff_top

lemma natDegree_eq : (toPoly poly).natDegree = longCrc :=
  natDegree_eq_of_le_of_coeff_ne_zero h.natDegree_le (by rw [h.coeff_top]; exact one_ne_zero)

lemma degree_eq : (toPoly poly).degree = longCrc := by
  rw [degree_eq_natDegree h.monic.ne_zero, h.natDegree_eq]

end

end Generator

/-! ## The register -/

section Register

variable {longCrc : ℕ} {poly : BitVec 32}

lemma shiftOut_eq (hlong : longCrc < 32) (tmp : BitVec 32) : shiftOut longCrc poly tmp =
      if tmp.getLsbD (longCrc - 1) then (tmp <<< 1) ^^^ poly else tmp <<< 1 := by
  rw [shiftOut]
  simp only [and_bit_ne_zero (by omega : longCrc - 1 < 32)]

variable {tmp : BitVec 32}
  (hpoly : Generator longCrc poly) (hpos : 0 < longCrc) (hlong : longCrc < 32)
  (htmp : Below longCrc tmp)

include hpoly hpos hlong htmp in
/-- **Step lemma.** A shift multiplies by the root and keeps the register below the generator. -/
theorem shiftOut_spec : Below longCrc (shiftOut longCrc poly tmp) ∧
      mk (toPoly poly) (toPoly (shiftOut longCrc poly tmp)) =
        mk (toPoly poly) (toPoly tmp * X) := by
  have hshift : Below (longCrc + 1) (tmp <<< 1) := htmp.shiftLeft 1
  have htop : (tmp <<< 1).getLsbD longCrc = tmp.getLsbD (longCrc - 1) := by
    rw [BitVec.getLsbD_shiftLeft]
    simp [hlong, hpos.ne']
  have hmul : toPoly (tmp <<< 1) = toPoly tmp * X := by
    rw [toPoly_shiftLeft htmp (by omega), pow_one]
  rw [shiftOut_eq hlong]
  -- only bit `longCrc` is in question
  have hbelow : ∀ v : BitVec 32, Below (longCrc + 1) v → v.getLsbD longCrc = false →
      Below longCrc v := by
    intro v hv hbit i hi
    rcases hi.eq_or_lt with rfl | hi
    · exact hbit
    · exact hv i hi
  split
  · next hset =>
    refine ⟨hbelow _ (hshift.xor hpoly.below) ?_, ?_⟩
    · rw [BitVec.getLsbD_xor, htop, hset, hpoly.top]
      rfl
    · rw [toPoly_xor, hmul, map_add, mk_self, add_zero]
  · next hclear =>
    refine ⟨hbelow _ hshift ?_, by rw [hmul]⟩
    rw [htop]
    exact Bool.eq_false_iff.mpr hclear

include hpoly hpos hlong htmp in
lemma shiftOut_iterate (n : ℕ) : Below longCrc ((shiftOut longCrc poly)^[n] tmp) ∧
      mk (toPoly poly) (toPoly ((shiftOut longCrc poly)^[n] tmp)) =
        mk (toPoly poly) (toPoly tmp * X ^ n) := by
  induction n with
  | zero => exact ⟨htmp, by simp⟩
  | succ n ih =>
    obtain ⟨hbelow, hmk⟩ := shiftOut_spec hpoly hpos hlong ih.1
    rw [Function.iterate_succ_apply']
    refine ⟨hbelow, ?_⟩
    rw [hmk, map_mul, ih.2, ← map_mul, pow_succ, mul_assoc]

lemma icrc1_spec {half n : ℕ} (hpoly : Generator (2 * half) poly) (hpos : 0 < half)
    (hhalf : half ≤ 15) {crc data : BitVec 32} (hcrc : Below (2 * half) crc)
    (hdata : Below half data) :
    Below (2 * half) (icrc1 crc (data.setWidth 16) (2 * half) n poly) ∧
      mk (toPoly poly) (toPoly (icrc1 crc (data.setWidth 16) (2 * half) n poly)) =
        mk (toPoly poly) ((toPoly crc + toPoly data * X ^ half) * X ^ n) := by
  have hword : (data.setWidth 16).setWidth 32 = data := by
    refine toPoly_injective ?_
    rw [toPoly_setWidth fun i hi => BitVec.getLsbD_of_ge _ i (le_trans (by decide) hi),
      toPoly_setWidth (hdata.mono (by omega))]
  have hshr : (2 * half) >>> 1 = half := by
    rw [Nat.shiftRight_one, Nat.mul_div_cancel_left half two_pos]
  have htmp : Below (2 * half) (crc ^^^ data <<< half) :=
    hcrc.xor ((hdata.shiftLeft half).mono (by omega))
  have hsum : toPoly (crc ^^^ data <<< half) = toPoly crc + toPoly data * X ^ half := by
    rw [toPoly_xor, toPoly_shiftLeft hdata (by omega)]
  have h := shiftOut_iterate hpoly (by omega) (by omega) htmp n
  rw [hsum] at h
  rwa [icrc1, hword, hshr]

end Register

/-! ## The chunks -/

section Chunks

variable {bufptr : Buffer} {half len : ℕ} {k : ℕ}

@[simp] lemma bits_zero (bufptr : Buffer) (k : ℕ) : bits bufptr k 0 = [] := rfl

@[simp] lemma length_bits (bufptr : Buffer) (k n : ℕ) : (bits bufptr k n).length = n := by
  simp [bits]

lemma bits_append (bufptr : Buffer) (k m n : ℕ) :
    bits bufptr k m ++ bits bufptr (k + m) n = bits bufptr k (m + n) := by
  rw [bits, bits, bits, ← map_append, range'_append_1]

lemma bits_succ (bufptr : Buffer) (k n : ℕ) :
    bits bufptr k (n + 1) = bits bufptr k n ++ [isSet bufptr (k + n)] := by
  rw [← bits_append]
  rfl

/-- A chunk read from index `k`: its bits, aligned to the top of the half. -/
structure IsChunk (bufptr : Buffer) (half len k : ℕ) (chunk : Chunk) : Prop where
  pos : 0 < chunk.i
  le : chunk.i ≤ half
  next : chunk.k = k + chunk.i
  within : chunk.k ≤ len
  stop : chunk.stop = decide (chunk.k = len)
  data : toPoly chunk.data = ofBits (bits bufptr k chunk.i) * X ^ (half - chunk.i)

variable {i : ℕ} {data : BitVec 32}

lemma toPoly_setBit (hi : i < half) (hhalf : half ≤ 32)
    (hlen : k + i < len) (hdata : toPoly data = ofBits (bits bufptr k i) * X ^ (half - i)) :
    toPoly (if bufptr (k + i) ≠ 0 ∧ k + i < len then data ||| (1#32 <<< (half - 1 - i)) else data) =
      ofBits (bits bufptr k (i + 1)) * X ^ (half - (i + 1)) := by
  have hexp : half - i = half - (i + 1) + 1 := by omega
  rw [bits_succ, ofBits_concat, add_mul, mul_assoc, ← pow_succ', ← hexp, ← hdata]
  by_cases hbit : bufptr (k + i) ≠ 0
  · have hclear : data.getLsbD (half - 1 - i) = false := by
      refine bitCoeff_injective ?_
      rw [← coeff_toPoly, hdata, coeff_mul_X_pow', if_neg (by omega), bitCoeff_false]
    rw [if_pos ⟨hbit, hlen⟩, toPoly_or_bit (by omega) hclear, isSet, decide_eq_true hbit,
      bitCoeff_true, C_1, one_mul, show half - 1 - i = half - (i + 1) by omega]
  · rw [if_neg fun h => hbit h.1, isSet, decide_eq_false hbit, bitCoeff_false, C_0, zero_mul,
      add_zero]

lemma readChunk_spec (hhalf : half ≤ 32) {m : ℕ} (hm : i + m = half)
    (hpos : 0 < half) (hlen : k + i < len)
    (hdata : toPoly data = ofBits (bits bufptr k i) * X ^ (half - i)) :
    IsChunk bufptr half len k (readChunk half bufptr len m i (k + i) data) := by
  induction m generalizing i data with
  | zero =>
    obtain rfl : i = half := hm
    exact ⟨hpos, le_rfl, rfl, hlen.le, (decide_eq_false hlen.ne).symm, hdata⟩
  | succ m ih =>
    have hdata' := toPoly_setBit (by omega) hhalf hlen hdata
    rw [readChunk]
    by_cases hlast : k + i + 1 = len
    · rw [if_pos hlast]
      exact ⟨i.succ_pos, by show i + 1 ≤ half; omega, rfl, hlast.le,
        (decide_eq_true hlast).symm, hdata'⟩
    · rw [if_neg hlast]
      exact ih (by omega) (by omega) hdata'

lemma readChunk_isChunk (bufptr : Buffer) (hpos : 0 < half) (hhalf : half ≤ 32) (hlen : k < len) :
    IsChunk bufptr half len k (readChunk half bufptr len half 0 k 0) :=
  readChunk_spec hhalf (zero_add half) hpos hlen (by simp)

lemma IsChunk.below {chunk : Chunk} (h : IsChunk bufptr half len k chunk) :
    Below half chunk.data := by
  have hle := h.le
  have hbits := degree_ofBits_lt (bits bufptr k chunk.i)
  rw [length_bits] at hbits
  intro j hj
  refine bitCoeff_injective ?_
  rw [← coeff_toPoly, h.data, coeff_mul_X_pow', if_pos (by omega),
    (degree_lt_iff_coeff_zero _ _).mp hbits _ (by omega), bitCoeff_false]

end Chunks

/-! ## The whole division -/

section Division

variable {half len : ℕ} {poly : BitVec 32} {bufptr : Buffer}

/-- `cword` is congruent to the first `k` bits times `X ^ (2 * half)`, and below the generator. -/
structure Divided (poly : BitVec 32) (bufptr : Buffer) (half k : ℕ) (cword : BitVec 32) : Prop where
  below : Below (2 * half) cword
  congr : AdjoinRoot.mk (toPoly poly) (toPoly cword) =
    AdjoinRoot.mk (toPoly poly) (ofBits (bits bufptr 0 k) * X ^ (2 * half))

lemma cut_of_below {longCrc : ℕ} (hlong : longCrc ≤ 16) {v : BitVec 32} (hv : Below longCrc v) :
    (v <<< longCrc) >>> longCrc = v :=
  shiftLeft_shiftRight (hv.mono (by omega))

section

variable (hpoly : Generator (2 * half) poly) (hpos : 0 < half) (hhalf : half ≤ 8)
include hpoly hpos hhalf

variable {cword : BitVec 32}

/-- **Chunk lemma.** -/
theorem Divided.chunk {k : ℕ} {chunk : Chunk} (h : Divided poly bufptr half k cword)
    (hchunk : IsChunk bufptr half len k chunk) :
    Divided poly bufptr half chunk.k
      ((icrc1 ((cword <<< (2 * half)) >>> (2 * half)) (chunk.data.setWidth 16) (2 * half) chunk.i
        poly <<< (2 * half)) >>> (2 * half)) := by
  have hle := hchunk.le
  rw [cut_of_below (by omega) h.below]
  obtain ⟨hbelow, hmk⟩ := icrc1_spec (n := chunk.i) hpoly hpos (by omega) h.below hchunk.below
  rw [cut_of_below (by omega) hbelow]
  refine ⟨hbelow, ?_⟩
  have hexp : X ^ (half - chunk.i) * X ^ half * X ^ chunk.i = (X : (ZMod 2)[X]) ^ (2 * half) := by
    rw [← pow_add, ← pow_add]
    congr 1
    omega
  have hbits := ofBits_append (bits bufptr 0 k) (bits bufptr (0 + k) chunk.i)
  rw [bits_append, length_bits, zero_add] at hbits
  calc AdjoinRoot.mk (toPoly poly) (toPoly _)
      = AdjoinRoot.mk (toPoly poly) (toPoly cword) * AdjoinRoot.mk (toPoly poly) (X ^ chunk.i) +
          AdjoinRoot.mk (toPoly poly)
            (ofBits (bits bufptr k chunk.i) * (X ^ (half - chunk.i) * X ^ half * X ^ chunk.i)) := by
        rw [hmk, hchunk.data, ← map_mul, ← map_add]
        ring_nf
    _ = AdjoinRoot.mk (toPoly poly)
          ((ofBits (bits bufptr 0 k) * X ^ chunk.i + ofBits (bits bufptr k chunk.i)) *
            X ^ (2 * half)) := by
        rw [h.congr, hexp, ← map_mul, ← map_add]
        ring_nf
    _ = AdjoinRoot.mk (toPoly poly) (ofBits (bits bufptr 0 chunk.k) * X ^ (2 * half)) := by
        rw [hchunk.next, hbits]

/-- **Loop lemma.** A round per bit left is fuel enough. -/
theorem divide_spec {fuel k : ℕ} (hk : k < len) (hfuel : len ≤ k + fuel)
    (h : Divided poly bufptr half k cword) :
    ∃ r, divide bufptr len (2 * half) poly fuel k cword = some r ∧
      Divided poly bufptr half len r := by
  induction fuel generalizing k cword with
  | zero => omega
  | succ fuel ih =>
    have hchunk := readChunk_isChunk bufptr hpos (by omega : half ≤ 32) hk
    have hnext := h.chunk hpoly hpos hhalf hchunk
    rw [divide, Nat.mul_div_cancel_left half two_pos]
    by_cases hlast : (readChunk half bufptr len half 0 k 0).k = len
    · rw [hchunk.stop, decide_eq_true hlast]
      rw [hlast] at hnext
      exact ⟨_, rfl, hnext⟩
    · rw [hchunk.stop, decide_eq_false hlast]
      have hlt := lt_of_le_of_ne hchunk.within hlast
      have hpos' := hchunk.pos
      have hk' := hchunk.next
      exact ih hlt (by omega) hnext

end

lemma divide_eq_checksum (bufptr : Buffer) (hpoly : Generator (2 * half) poly)
    (hpos : 0 < half) (hhalf : half ≤ 8) {fuel : ℕ} (hlen : 0 < len) (hfuel : len ≤ fuel) :
    ∃ r, divide bufptr len (2 * half) poly fuel 0 0 = some r ∧ Below (2 * half) r ∧
      toPoly r = checksum (toPoly poly) (2 * half) (ofBits (bits bufptr 0 len)) := by
  have hstart : Divided poly bufptr half 0 0 := ⟨fun i _ => BitVec.getLsbD_zero, by simp⟩
  obtain ⟨r, hr, hdivided⟩ := divide_spec hpoly hpos hhalf hlen
    (by rwa [zero_add] : len ≤ 0 + fuel) hstart
  refine ⟨r, hr, hdivided.below, eq_checksum hpoly.monic ?_ ?_⟩
  · rw [hpoly.degree_eq]
    exact degree_toPoly_lt hdivided.below
  · exact mk_eq_mk.mp hdivided.congr

end Division

/-! ## The pasted word -/

lemma topBit_ne_zero (v : BitVec 32) :
    ((v &&& (1#32 <<< 31)) >>> 31).setWidth 8 ≠ 0 ↔ v.getLsbD 31 = true := by
  have hbits : ∀ i, (((v &&& (1#32 <<< 31)) >>> 31).setWidth 8).getLsbD i =
      (decide (i = 0) && v.getLsbD 31) := by grind
  constructor
  · grind
  · intro hset hzero
    have hbit := hbits 0
    rw [hzero, hset] at hbit
    simp at hbit

variable {longCrc : ℕ} {poly : BitVec 32}

section

variable (hlong : longCrc ≤ 32) (len : ℕ) (r : BitVec 32) (bufptr : Buffer)
include hlong

lemma paste_ne_zero {j : ℕ} (hj : j < longCrc) :
    paste longCrc len r bufptr (len + j) ≠ 0 ↔ r.getLsbD (longCrc - 1 - j) = true := by
  have hin : len ≤ len + j ∧ len + j < len + longCrc := ⟨by omega, by omega⟩
  rw [paste, if_pos hin, Nat.add_sub_cancel_left, topBit_ne_zero, BitVec.getLsbD_shiftLeft,
    BitVec.getLsbD_shiftLeft, show 31 - j - (32 - longCrc) = longCrc - 1 - j by omega]
  simp [show ¬ 31 < j by omega, show ¬ 31 - j < 32 - longCrc by omega, show 31 - j < 32 by omega]

lemma bits_paste : bits (paste longCrc len r bufptr) 0 (len + longCrc) =
      bits bufptr 0 len ++ lowBits longCrc r := by
  rw [← bits_append, zero_add]
  refine congrArg₂ (· ++ ·) (map_congr_left fun j hj => ?_) ?_
  · have hj : j < len := by simpa [mem_range'_1] using hj
    rw [isSet, paste, if_neg (by omega), isSet]
  · rw [bits, lowBits, range'_eq_map_range, map_map]
    refine map_congr_left fun j hj => ?_
    rw [Function.comp_apply, Bool.eq_iff_iff, isSet, decide_eq_true_iff]
    exact paste_ne_zero hlong len r bufptr (mem_range.mp hj)

end

lemma dvd_bits_paste {len : ℕ} {r : BitVec 32} {bufptr : Buffer}
    (hlong : longCrc ≤ 32) (hbelow : Below longCrc r)
    (hr : toPoly r = checksum (toPoly poly) longCrc (ofBits (bits bufptr 0 len))) :
    toPoly poly ∣ ofBits (bits (paste longCrc len r bufptr) 0 (len + longCrc)) := by
  have hword : (lowBits longCrc r).length = longCrc := by simp [lowBits]
  rw [bits_paste hlong, ofBits_append, hword, ofBits_lowBits hbelow, hr, ← CharTwo.sub_eq_add]
  exact dvd_codeword (toPoly poly) longCrc (ofBits (bits bufptr 0 len))

/-! ## Attach and check -/

/-- `icrc` returns the remainder and pastes it; the packet with its CRC has remainder zero, and
the module in check mode takes it and passes the message on. -/
def Sound (longCrc : ℕ) : Prop :=
  ∀ poly, Generator longCrc poly → ∀ (bufptr : Buffer) (len fuel : ℕ), 1 ≤ len →
    len + longCrc ≤ fuel →
    ∃ r out, icrc fuel 0 bufptr len longCrc poly true = some (r, out) ∧
      toPoly r = checksum (toPoly poly) longCrc (ofBits (bits bufptr 0 len)) ∧
      icrc fuel 0 out (len + longCrc) longCrc poly false = some (0, out) ∧
      ∀ forwardOnError memory st, ∃ memory',
        work fuel ⟨longCrc, poly, modeCheck, forwardOnError⟩ out memory (len + longCrc) st =
          some (⟨st.totalErrors, st.totalPkts + 1, len⟩, memory')

section Check

variable {half len fuel : ℕ} {poly : BitVec 32} {bufptr : Buffer}

lemma divide_eq_zero_of_dvd (hpoly : Generator (2 * half) poly) (hpos : 0 < half)
    (hhalf : half ≤ 8) (hlen : 0 < len) (hfuel : len ≤ fuel)
    (hdvd : toPoly poly ∣ ofBits (bits bufptr 0 len)) :
    divide bufptr len (2 * half) poly fuel 0 0 = some 0 := by
  obtain ⟨r, hr, -, hsum⟩ := divide_eq_checksum bufptr hpoly hpos hhalf hlen hfuel
  rw [checksum_eq_zero_of_dvd hpoly.monic hdvd, ← toPoly_zero] at hsum
  rw [hr, toPoly_injective hsum]
  rfl

lemma bits_copied (inp memory : Buffer) (n : ℕ) :
    bits (copied inp memory n) 0 n = bits inp 0 n := by
  refine map_congr_left fun j hj => ?_
  have hj : j < n := by simpa [mem_range'_1] using hj
  rw [isSet, copied, if_pos hj, isSet]

lemma work_check {longCrc : ℕ} {n : BitVec 32} {inp memory : Buffer} (hlen : 0 < len)
    (hn : divide (copied inp memory len) len longCrc poly fuel 0 0 = some n)
    (forwardOnError : Bool) (st : State) :
    work fuel ⟨longCrc, poly, modeCheck, forwardOnError⟩ inp memory len st =
      some (⟨if n ≠ 0 then st.totalErrors + 1 else st.totalErrors, st.totalPkts + 1,
        if ¬ (forwardOnError = false ∧ n ≠ 0) then len - longCrc else st.sndLen⟩,
        copied inp memory len) := by
  rw [work, if_neg hlen.ne', icrc, hn]
  rfl

lemma sound_of_le (hpos : 0 < half) (hhalf : half ≤ 8) : Sound (2 * half) := by
  intro poly hpoly bufptr len fuel hlen hfuel
  obtain ⟨r, hr, hbelow, hsum⟩ :=
    divide_eq_checksum bufptr hpoly hpos hhalf hlen (by omega : len ≤ fuel)
  have hdvd := dvd_bits_paste (by omega : 2 * half ≤ 32) hbelow hsum
  refine ⟨r, paste (2 * half) len r bufptr, ?_, hsum, ?_, ?_⟩
  · rw [icrc, hr]
    rfl
  · rw [icrc, divide_eq_zero_of_dvd hpoly hpos hhalf (by omega) hfuel hdvd]
    rfl
  · intro forwardOnError memory st
    have hdvd' := hdvd
    rw [← bits_copied _ memory] at hdvd'
    have hzero := divide_eq_zero_of_dvd hpoly hpos hhalf (by omega) hfuel hdvd'
    refine ⟨copied (paste (2 * half) len r bufptr) memory (len + 2 * half), ?_⟩
    rw [work_check (by omega) hzero forwardOnError st]
    simp

end Check

/-! ## Beyond 16 bits -/

lemma divide_below {bufptr : Buffer} {len fuel k : ℕ} {cword r : BitVec 32}
    (h : divide bufptr len longCrc poly fuel k cword = some r) : Below (32 - longCrc) r := by
  induction fuel generalizing k cword with
  | zero => cases h
  | succ fuel ih =>
    rw [divide] at h
    split at h
    · cases h
      intro i hi
      simp [show ¬ longCrc + i < 32 by omega]
    · exact ih h

lemma checksum_one (hpoly : Generator longCrc poly) :
    checksum (toPoly poly) longCrc 1 = toPoly poly - X ^ longCrc := by
  refine (eq_checksum hpoly.monic ?_ ?_).symm
  · refine degree_sub_lt_left ?_ hpoly.monic.ne_zero ?_
    · rw [hpoly.degree_eq, degree_X_pow]
    · rw [hpoly.monic.leadingCoeff, (monic_X_pow longCrc).leadingCoeff]
  · rw [one_mul, sub_sub, CharTwo.add_self_eq_zero, sub_zero]

lemma not_sound_of_lt (hlong : 16 < longCrc)
    (hpoly : Generator longCrc poly) (hbit : poly.getLsbD (longCrc - 1) = true) :
    ¬ Sound longCrc := by
  intro hsound
  obtain ⟨r, out, hicrc, hsum, -⟩ := hsound poly hpoly (fun _ => 1) 1 (1 + longCrc) le_rfl le_rfl
  obtain ⟨cword, hdivide, heq⟩ := Option.map_eq_some_iff.mp hicrc
  obtain rfl : cword = r := congrArg Prod.fst heq
  have hone : ofBits (bits (fun _ => 1) 0 1) = 1 := by
    rw [show bits (fun _ => 1) 0 1 = [] ++ [true] from rfl, ofBits_concat]
    simp
  -- the highest bit of the remainder is above the cut
  have hcoeff := congrArg (fun p => p.coeff (longCrc - 1)) hsum
  rw [hone, checksum_one hpoly] at hcoeff
  simp only [coeff_sub, coeff_toPoly, coeff_X_pow, hbit, bitCoeff_true,
    divide_below hdivide (longCrc - 1) (by omega), bitCoeff_false,
    if_neg (show ¬ longCrc - 1 = longCrc by omega), sub_zero] at hcoeff
  exact zero_ne_one hcoeff

/-- **CRC attach and check.** For an even length from 2 to 30 bits the module computes and checks
the CRC of every packet under every generator if and only if the length is at most 16. -/
theorem crc_sound_iff (longCrc : ℕ) (heven : Even longCrc) (hmin : 2 ≤ longCrc)
    (hmax : longCrc ≤ 30) : Sound longCrc ↔ longCrc ≤ 16 := by
  obtain ⟨half, rfl⟩ := heven.two_dvd
  constructor
  · intro hsound
    by_contra hlong
    have hpoly : Generator (2 * half) (BitVec.ofNat 32 (2 ^ (2 * half) + 2 ^ (2 * half - 1) + 1)) ∧
        (BitVec.ofNat 32 (2 ^ (2 * half) + 2 ^ (2 * half - 1) + 1)).getLsbD (2 * half - 1) =
          true := by
      have hlow : 9 ≤ half := by omega
      have hhigh : half ≤ 15 := by omega
      clear hsound hlong hmin hmax heven
      interval_cases half <;> exact ⟨⟨by decide, by decide, by decide⟩, by decide⟩
    exact not_sound_of_lt (by omega) hpoly.1 hpoly.2 hsound
  · intro hle
    exact sound_of_le (by omega) (by omega)

theorem crc_sound_sixteen : Sound 16 :=
  (crc_sound_iff 16 (by decide) (by decide) (by decide)).mpr le_rfl

theorem crc_lost_twentyFour : Generator 24 0x1864CFB ∧
      (icrc 25 0 (fun _ => 1) 1 24 0x1864CFB true).map Prod.fst = some 0xFB ∧ ¬ Sound 24 := by
  have hpoly : Generator 24 0x1864CFB := ⟨by decide, by decide, by decide⟩
  exact ⟨hpoly, by decide, not_sound_of_lt (by decide) hpoly (by decide)⟩

/-! ## The empty packet -/

lemma readChunk_empty (half : ℕ) (bufptr : Buffer) (m i k : ℕ) (data : BitVec 32) :
    (readChunk half bufptr 0 m i k data).stop = false := by
  induction m generalizing i k data with
  | zero => rfl
  | succ m ih => exact ih (i + 1) (k + 1) _

lemma divide_empty (bufptr : Buffer) (longCrc : ℕ) (poly : BitVec 32) (fuel k : ℕ)
    (cword : BitVec 32) : divide bufptr 0 longCrc poly fuel k cword = none := by
  induction fuel generalizing k cword with
  | zero => rfl
  | succ fuel ih =>
    rw [divide, readChunk_empty]
    exact ih _ _

/-! ## Damaged packets -/

/-- The bits that differ lie within 16 consecutive ones of the first `n`, and there is one. -/
structure Burst (sent received : Buffer) (n : ℕ) : Prop where
  window : ∃ a, ∀ j < n, isSet sent j ≠ isSet received j → a ≤ j ∧ j < a + 16
  some : ∃ j < n, isSet sent j ≠ isSet received j

variable {sent : Buffer} {poly : BitVec 32} {len fuel : ℕ}

lemma Burst.ofBits_eq {received : Buffer} {n : ℕ} (h : Burst sent received n) :
    ∃ e k, ofBits (bits received 0 n) = ofBits (bits sent 0 n) + e * X ^ k ∧ e ≠ 0 ∧
      e.natDegree < 16 := by
  obtain ⟨a, hwindow⟩ := h.window
  let error : ℕ → Bool := fun j => decide (j < n) && (isSet sent j ^^ isSet received j)
  have herror : ∀ j, error j = true ↔ j < n ∧ isSet sent j ≠ isSet received j := by
    intro j
    simp [error]
  obtain ⟨j, hj, hdiff⟩ := h.some
  obtain ⟨e, k, hburst, hne, hdegree⟩ :=
    ofBits_burst (fun j hj => hwindow j ((herror j).mp hj).1 ((herror j).mp hj).2)
      ⟨j, hj, (herror j).mpr ⟨hj, hdiff⟩⟩
  refine ⟨e, k, ?_, hne, hdegree⟩
  rw [← hburst, bits, bits, ← List.range_eq_range', ← ofBits_xor]
  refine congrArg ofBits (List.map_congr_left fun j hj => ?_)
  simp [error, List.mem_range.mp hj]

section

variable (hpoly : Generator 16 poly)
include hpoly

lemma divide_sixteen (bufptr : Buffer) (hlen : 0 < len) (hfuel : len ≤ fuel) :
    ∃ r, divide bufptr len 16 poly fuel 0 0 = some r ∧ Below 16 r ∧
      toPoly r = checksum (toPoly poly) 16 (ofBits (bits bufptr 0 len)) := by
  have hhalf : Generator (2 * 8) poly := hpoly
  simpa only [Nat.reduceMul] using divide_eq_checksum bufptr hhalf (by decide) le_rfl hlen hfuel

lemma divide_burst_ne_zero {bufptr : Buffer}
    {k : ℕ} {c e : (ZMod 2)[X]} {n : BitVec 32} (hlen : 0 < len) (hfuel : len ≤ fuel)
    (hbits : ofBits (bits bufptr 0 len) = c + e * X ^ k) (hdvd : toPoly poly ∣ c) (hne : e ≠ 0)
    (hdegree : e.natDegree < 16) (hn : divide bufptr len 16 poly fuel 0 0 = some n) : n ≠ 0 := by
  rintro rfl
  obtain ⟨n', hn', -, hsum⟩ := divide_sixteen hpoly bufptr hlen hfuel
  have hlow : IsUnit ((toPoly poly).coeff 0) := by
    rw [coeff_toPoly, hpoly.low, bitCoeff_true]
    exact isUnit_one
  have hburst := checksum_burst_ne_zero hpoly.monic hpoly.natDegree_eq hlow hne hdegree k
  rw [hbits, checksum_add, checksum_eq_zero_of_dvd hpoly.monic hdvd, zero_add] at hsum
  rw [← hsum, Option.some.inj (hn'.symm.trans hn)] at hburst
  exact hburst toPoly_zero

lemma attached_dvd {bufptr : Buffer} (hfuel : len + 16 ≤ fuel) {r : BitVec 32}
    (hattach : icrc fuel 0 bufptr len 16 poly true = some (r, sent)) :
    sent = paste 16 len r bufptr ∧ toPoly poly ∣ ofBits (bits sent 0 (len + 16)) := by
  have hlen : 0 < len := by
    refine pos_of_ne_zero fun hzero => ?_
    rw [icrc, hzero, divide_empty] at hattach
    cases hattach
  obtain ⟨cword, hdivide, hbelow, hsum⟩ := divide_sixteen hpoly bufptr hlen (by omega : len ≤ fuel)
  rw [icrc, hdivide] at hattach
  obtain ⟨rfl, rfl⟩ : cword = r ∧ paste 16 len cword bufptr = sent := by simpa using hattach
  exact ⟨rfl, dvd_bits_paste (by decide) hbelow hsum⟩

lemma icrc_burst {received : Buffer} {n : ℕ} (hn : 0 < n) (hfuel : n ≤ fuel)
    (hsent : toPoly poly ∣ ofBits (bits sent 0 n)) (hburst : Burst sent received n) :
    ∃ word, icrc fuel 0 received n 16 poly false = some (word, received) ∧ word ≠ 0 := by
  obtain ⟨e, k, hreceived, hne, hdegree⟩ := hburst.ofBits_eq
  obtain ⟨word, hword, -⟩ := divide_sixteen hpoly received hn hfuel
  exact ⟨word, by rw [icrc, hword]; rfl,
    divide_burst_ne_zero hpoly hn hfuel hreceived hsent hne hdegree hword⟩

end

/-- **Bursts are detected.** A packet with its 16-bit CRC that is damaged within 16 consecutive bits
leaves a word that is not zero: the module counts an error, and without `forward_on_error` it sets
no output length. -/
theorem burst_detected (poly : BitVec 32) (hpoly : Generator 16 poly) (bufptr : Buffer)
    (len fuel : ℕ) (hfuel : len + 16 ≤ fuel) (r : BitVec 32) (sent : Buffer)
    (hattach : icrc fuel 0 bufptr len 16 poly true = some (r, sent)) (received : Buffer)
    (hburst : Burst sent received (len + 16)) :
    (∃ n, icrc fuel 0 received (len + 16) 16 poly false = some (n, received) ∧ n ≠ 0) ∧
      ∀ forwardOnError memory st, ∃ memory',
        work fuel ⟨16, poly, modeCheck, forwardOnError⟩ received memory (len + 16) st =
          some (⟨st.totalErrors + 1, st.totalPkts + 1,
            if forwardOnError then len else st.sndLen⟩, memory') := by
  obtain ⟨-, hsent⟩ := attached_dvd hpoly hfuel hattach
  obtain ⟨e, k, hreceived, hne, hdegree⟩ := hburst.ofBits_eq
  have hpos : 0 < len + 16 := by omega
  constructor
  · exact icrc_burst hpoly hpos hfuel hsent hburst
  · intro forwardOnError memory st
    obtain ⟨n, hn, -⟩ := divide_sixteen hpoly (copied received memory (len + 16)) hpos hfuel
    rw [← bits_copied received memory] at hreceived
    have hn0 := divide_burst_ne_zero hpoly hpos hfuel hreceived hsent hne hdegree hn
    refine ⟨copied received memory (len + 16), ?_⟩
    rw [work_check hpos hn, if_pos hn0]
    cases forwardOnError with
    | true => simp
    | false => simp [show n ≠ 0#32 from hn0]

/-- The single bit 1 with its CRC `0x8005`, as it arrives with the message bit lost. -/
def lostMessage : Buffer := fun j =>
  if j = 0 then 0 else paste 16 1 0x8005 (fun _ => 1) j

theorem burst_detected_lostMessage :
    ∃ n, icrc 17 0 lostMessage 17 16 0x18005 false = some (n, lostMessage) ∧ n ≠ 0 := by
  have hdivide : divide (fun _ => 1) 1 16 0x18005 17 0 0 = some 0x8005 := by decide
  have hattach : icrc 17 0 (fun _ => 1) 1 16 0x18005 true =
      some (0x8005, paste 16 1 0x8005 (fun _ => 1)) := by
    rw [icrc, hdivide]
    rfl
  exact (burst_detected 0x18005 ⟨by decide, by decide, by decide⟩ (fun _ => 1) 1 17 le_rfl 0x8005 _
    hattach lostMessage ⟨⟨0, by decide⟩, by decide⟩).1

end Aloe.Modrep.GenCrc
