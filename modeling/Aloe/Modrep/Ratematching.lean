import Aloe.Lib.Cyclic
import Aloe.Lib.Interleaver
import Aloe.Modrep.Streams
import Mathlib

/-!
# Turbo rate matching

The turbo coder's three streams are filled up with dummies at their ends, interleaved, and laid
into a circular buffer: the first stream whole, the other two alternating. The transmitter reads
the buffer from a start that depends on the redundancy version, dummies skipped, as long as the
channel has room. The receiver interleaves three streams of zeros to learn where the dummies are,
writes what it gets to the places the transmitter read it from, and undoes the interleaving. A store
outside a local array is `none`; the arrays of the caller are long enough.

`source d c` is the coded bit at place `c` of the circular buffer when each stream has `d` bits, and
`walk d rv` what is met from the start of a redundancy version on. Both ends go this way and number
a bit by the full places met before it.
-/

namespace Aloe.Modrep.Ratematching

open Lib

def cols : ℕ := 32

def permTable : List ℕ := [0, 16, 8, 24, 4, 20, 12, 28, 2, 18, 10, 26, 6, 22, 14, 30,
   1, 17, 9, 25, 5, 21, 13, 29, 3, 19, 11, 27, 7, 23, 15, 31]

def perm (j : ℕ) : ℕ := permTable.getD j 0

def maxCodedSize : ℕ := 6144 * 3 + 32

/-- `while (x >= n) x -= n`, for at most `fuel` turns. -/
def subtract : ℕ → ℕ → ℕ → ℕ
  | 0, x, _ => x
  | fuel + 1, x, n => if x ≥ n then subtract fuel (x - n) n else x

/-- The loop that subtracts `n` from `x` while it can; it has no more than `x` turns. -/
def wrap (x n : ℕ) : ℕ := subtract x x n

/-! ## Interleaving -/

/-- One turn of the loop of `char_interleave`; the counter `km` starts again with each column. -/
def interleaveStep (rows blockSize : ℕ) (inp : ℕ → Char8) (s : (ℕ → Char8) × ℕ) (k : ℕ) :
    (ℕ → Char8) × ℕ :=
  let index := perm (k / rows) + cols * s.2
  let km := if s.2 + 1 = rows then 0 else s.2 + 1
  (Function.update s.1 k (inp (wrap index blockSize)), km)

/-- `char_interleave` between arrays of `cap` cells: the input with its dummies, the output and
the size of the block. -/
def charInterleave (cap : ℕ) (inp out : ℕ → Char8) (inlen : ℕ) :
    Option ((ℕ → Char8) × (ℕ → Char8) × ℕ) :=
  let rows := intceil inlen cols
  let blockSize := cols * rows
  (storeRange cap inlen (blockSize - inlen) (fun _ => dummyBit) inp).bind fun inp =>
    if blockSize ≤ cap then
      some (inp, ((List.range blockSize).foldl (interleaveStep rows blockSize inp) (out, 0)).1,
        blockSize)
    else none

def floatDeinterleave {F : Type} (cap : ℕ) (inp out : ℕ → F) (blockSize : ℕ) : Option (ℕ → F) :=
  let rows := blockSize / cols
  storeAll cap (List.range blockSize)
    (fun k => wrap (perm (k / rows) + cols * wrap k rows) blockSize) inp out

/-! ## The circular buffer -/

/-- Where bit `i` of a sub-block lies in the circular buffer. -/
def bufferIndex (interleaversize i : ℕ) : Fin 3 → ℕ
  | 0 => i
  | 1 => interleaversize + 2 * i + 0
  | 2 => interleaversize + 2 * i + 1

def collect {α : Type} (interleaversize : ℕ) (subblocks : Streams α) (buffer : ℕ → α) :
    Option (ℕ → α) :=
  storeAll maxCodedSize (List.range interleaversize ×ˢ List.finRange 3)
    (fun p => bufferIndex interleaversize p.1 p.2) (fun p => subblocks p.2 p.1) buffer

/-- `k0`: where the redundancy version starts. -/
def start (interleaversize rvidx : ℕ) : ℕ :=
  let r := interleaversize / 32
  r * (2 * intceil (3 * interleaversize) (8 * r) * rvidx + 2)

/-- The `while` loop of `char_ratematching`, for at most `fuel` turns. -/
def readLoop (fuel : ℕ) (circularBuffer : ℕ → Char8) (k0 buffersize outlen k i : ℕ)
    (output : ℕ → Char8) : Option (ℕ → Char8) :=
  match fuel with
  | 0 => none
  | fuel + 1 =>
    if k < outlen then
      let bit := circularBuffer (wrap (k0 + i) buffersize)
      if bit ≠ dummyBit then
        readLoop fuel circularBuffer k0 buffersize outlen (k + 1) (i + 1)
          (Function.update output k bit)
      else readLoop fuel circularBuffer k0 buffersize outlen k (i + 1) output
    else some output

def charRatematching (fuel : ℕ) (circularBuffer : ℕ → Char8) (subblocks : Streams Char8)
    (output : ℕ → Char8) (interleaversize outlen rvidx : ℕ) : Option (ℕ → Char8) :=
  (collect interleaversize subblocks circularBuffer).bind fun circularBuffer =>
    readLoop fuel circularBuffer (start interleaversize rvidx) (3 * interleaversize) outlen 0 0
      output

structure TxMem where
  block : Streams Char8
  intblock : Streams Char8
  circularBuffer : ℕ → Char8

def charRMBlock (fuel : ℕ) (mem : TxMem) (input output : ℕ → Char8) (inLen outLen rvidx : ℕ) :
    Option (ℕ → Char8) :=
  (charUnwrap maxCodedSize input mem.block inLen).bind fun (block, subblocklen) =>
    (eachStream fun s =>
      charInterleave maxCodedSize (block s) (mem.intblock s) subblocklen).bind fun ints =>
      charRatematching fuel mem.circularBuffer (fun s => (ints s).2.1) output (ints 2).2.2 outLen
        rvidx

/-! ## Receiver -/

section Receiver

variable {F : Type} [Zero F]

/-- The `while` loop of `float_unratematching`, for at most `fuel` turns. -/
def writeLoop (fuel : ℕ) (input : ℕ → F) (dummyMatrix : ℕ → Char8) (k0 buffersize inlen k i : ℕ)
    (circularBuffer : ℕ → F) : Option (ℕ → F) :=
  match fuel with
  | 0 => none
  | fuel + 1 =>
    if k < inlen then
      let km := (k0 + i) % buffersize
      if dummyMatrix km ≠ dummyBit then
        writeLoop fuel input dummyMatrix k0 buffersize inlen (k + 1) (i + 1)
          (Function.update circularBuffer km (input k))
      else
        writeLoop fuel input dummyMatrix k0 buffersize inlen k (i + 1)
          (Function.update circularBuffer km 0)
    else some circularBuffer

def floatUnratematching (fuel : ℕ) (input : ℕ → F) (subblocks : Streams F)
    (interleaversize inlen rvidx : ℕ) (dummyMatrix : ℕ → Char8) : Option (Streams F) :=
  (if 3 * interleaversize ≤ maxCodedSize then
    writeLoop fuel input dummyMatrix (start interleaversize rvidx) (interleaversize * 3) inlen 0 0
      fun _ => 0
  else none).bind fun circularBuffer =>
    eachStream fun s => storeRange (maxCodedSize / 3) 0 interleaversize
      (fun i => circularBuffer (bufferIndex interleaversize i s)) (subblocks s)

structure RxMem (F : Type) where
  block : Streams F
  intblock : Streams F
  dummymatrix : ℕ → Char8
  interleaved : Streams Char8

def getDummyMatrix (dummymatrix : ℕ → Char8) (interleaved : Streams Char8) (codewordsize : ℕ) :
    Option ((ℕ → Char8) × ℕ) :=
  (charInterleave (maxCodedSize / 3) (fun _ => 0) (interleaved 0) codewordsize).bind
    fun (zeros, interleaved0, _) =>
      (charInterleave (maxCodedSize / 3) zeros (interleaved 1) codewordsize).bind
        fun (zeros, interleaved1, _) =>
          (charInterleave (maxCodedSize / 3) zeros (interleaved 2) codewordsize).bind
            fun (_, interleaved2, matrixsize) =>
              (collect matrixsize ![interleaved0, interleaved1, interleaved2] dummymatrix).map
                fun dummymatrix => (dummymatrix, 3 * matrixsize)

def floatUNRMBlock (fuel : ℕ) (mem : RxMem F) (input output : ℕ → F) (inlen outsize rvidx : ℕ) :
    Option (ℕ → F) :=
  (getDummyMatrix mem.dummymatrix mem.interleaved (intceil outsize 3)).bind
    fun (dummymatrix, size) =>
      let interleaversize := size / 3
      (floatUnratematching fuel input mem.intblock interleaversize inlen rvidx dummymatrix).bind
        fun intblock =>
          (eachStream fun s =>
            floatDeinterleave (maxCodedSize / 3) (intblock s) (mem.block s) interleaversize).bind
            fun block => floatWrap (3 * interleaversize) block output interleaversize

end Receiver

open Lib.Cyclic Function List Option Nat

/-! ## The loops that subtract -/

variable {n i p : ℕ}

lemma subtract_eq_mod (hn : 0 < n) {fuel x : ℕ} (hx : x ≤ fuel) : subtract fuel x n = x % n := by
  induction fuel generalizing x with
  | zero =>
    obtain rfl := le_zero.mp hx
    exact (zero_mod n).symm
  | succ fuel ih =>
    rw [subtract]
    split
    · rw [ih (by omega), ← mod_eq_sub_mod ‹_›]
    · exact (mod_eq_of_lt (by omega)).symm

lemma wrap_eq_mod (hn : 0 < n) (x : ℕ) : wrap x n = x % n := subtract_eq_mod hn le_rfl

/-! ## The interleaver as a permutation -/

lemma perm_lt : ∀ j < cols, perm j < cols := by decide
lemma perm_perm : ∀ j < cols, perm (perm j) = j := by decide

def columns : Columns cols := ⟨perm, perm, perm_lt, perm_lt, perm_perm, perm_perm⟩

def rows (d : ℕ) : ℕ := intceil d cols

def size (d : ℕ) : ℕ := cols * rows d

lemma rows_pos (d : ℕ) : 0 < rows d := succ_pos _

lemma size_pos (d : ℕ) : 0 < size d := mul_pos (by decide) (rows_pos d)

lemma size_eq (d : ℕ) : size d = 32 * ((d - 1) / 32 + 1) := rfl

lemma le_size (d : ℕ) : d ≤ size d := by
  rw [size_eq]
  omega

def padding (d : ℕ) : Padding (cols * rows d) d := .back (le_size d)

/-- What an interleaved block holds at place `k`: the number of a bit of the stream, or a
dummy. -/
def block (d k : ℕ) : Option ℕ := columns.interleaved (padding d) k

variable {d : ℕ}

lemma block_eq (d k : ℕ) :
    block d k = if columns.index (rows d) k < d then some (columns.index (rows d) k) else none :=
  rfl

variable {k cap c : ℕ} {α : Type} {t : ℕ}

lemma wrap_index (hk : k < size d) :
    wrap (perm (k / rows d) + cols * (k % rows d)) (size d) = columns.index (rows d) k := by
  rw [wrap_eq_mod (size_pos d)]
  exact mod_eq_of_lt (columns.index_lt hk)

lemma interleave_loop (inp out : ℕ → Char8) (hn : n ≤ size d) :
    ∃ b, (List.range n).foldl (interleaveStep (rows d) (size d) inp) (out, 0) = (b, n % rows d) ∧
      ∀ k < n, b k = inp (columns.index (rows d) k) := by
  induction n with
  | zero => exact ⟨out, by rw [zero_mod]; rfl, fun k hk => absurd hk k.not_lt_zero⟩
  | succ n ih =>
    obtain ⟨b, hb, hread⟩ := ih (by omega)
    have hrow := mod_lt n (rows_pos d)
    have hnext : (if n % rows d + 1 = rows d then 0 else n % rows d + 1) = (n + 1) % rows d := by
      rw [← mod_add_mod]
      split
      · rw [‹n % rows d + 1 = rows d›, mod_self]
      · exact (Nat.mod_eq_of_lt (by omega)).symm
    rw [range_succ, foldl_append, hb, foldl_cons, foldl_nil, interleaveStep]
    dsimp only
    rw [hnext, wrap_index hn]
    refine ⟨_, rfl, fun k hk => ?_⟩
    rcases Nat.lt_succ_iff_lt_or_eq.mp hk with hk | rfl
    · rw [update_of_ne hk.ne, hread k hk]
    · rw [update_self]

/-- **Interleaver.** The block holds, at each place, the bit of the stream that `block` says; the
bits of the input stay. -/
theorem charInterleave_spec (hfit : size d ≤ cap) (inp out : ℕ → Char8) :
    ∃ inp' out', charInterleave cap inp out d = some (inp', out', size d) ∧
      (∀ i < d, inp' i = inp i) ∧
      ∀ k < size d, out' k = ((block d k).map inp).getD dummyBit := by
  have hlen : d + (size d - d) = size d := Nat.add_sub_cancel' (le_size d)
  obtain ⟨inp', hinp, hdummy, hkeep⟩ := storeRange_spec (hlen.trans_le hfit) (fun _ => dummyBit) inp
  obtain ⟨b, hb, hread⟩ := interleave_loop inp' out (le_refl (size d))
  refine ⟨inp', b, ?_, fun i hi => hkeep i (.inl hi), fun k hk => ?_⟩
  · rw [charInterleave]
    change (storeRange cap d (size d - d) (fun _ => dummyBit) inp).bind _ = _
    rw [hinp, bind_some]
    change (if size d ≤ cap then some (inp', ((List.range (size d)).foldl
      (interleaveStep (rows d) (size d) inp') (out, 0)).1, size d) else none) = _
    rw [if_pos hfit, hb]
  · have hindex := columns.index_lt hk
    rw [hread k hk, block_eq]
    split
    · exact hkeep _ (.inl ‹_›)
    · have := hdummy (columns.index (rows d) k - d) (by rw [size] at *; omega)
      rwa [Nat.add_sub_cancel' (by omega)] at this

/-- **Deinterleaver.** Cell `q` of the block comes from the place it was interleaved to. -/
theorem floatDeinterleave_spec {F : Type} (hfit : size d ≤ cap) (inp out : ℕ → F) :
    ∃ b, floatDeinterleave cap inp out (size d) = some b ∧
      ∀ q < size d, b q = inp (columns.place (rows d) q) := by
  have hrows : size d / cols = rows d := Nat.mul_div_cancel_left _ (by decide)
  have hindex : ∀ k ∈ List.range (size d),
      wrap (perm (k / (size d / cols)) + cols * wrap k (size d / cols)) (size d) =
        columns.index (rows d) k := fun k hk => by
    rw [hrows, wrap_eq_mod (rows_pos d), wrap_index (mem_range.mp hk)]
  obtain ⟨b, hb, hval, -⟩ := storeAll_spec (List.range (size d))
    (fun k => wrap (perm (k / (size d / cols)) + cols * wrap k (size d / cols)) (size d)) inp out
    (fun k hk => by
      rw [hindex k hk]
      exact (columns.index_lt (mem_range.mp hk)).trans_le hfit)
    (fun k hk k' hk' h => by
      rw [hindex k hk, hindex k' hk'] at h
      exact columns.index_injective (mem_range.mp hk) (mem_range.mp hk') h)
  refine ⟨b, hb, fun q hq => ?_⟩
  have hmem := mem_range.mpr (columns.place_lt hq)
  have hcell := hval _ hmem
  rwa [hindex _ hmem, columns.index_place hq] at hcell

/-! ## The circular buffer -/

lemma bufferIndex_lt (hi : i < n) (s : Fin 3) : bufferIndex n i s < 3 * n := by
  match s with
  | 0 => rw [bufferIndex]; omega
  | 1 => rw [bufferIndex]; omega
  | 2 => rw [bufferIndex]; omega

lemma bufferIndex_inj {j : ℕ} (hi : i < n) (hj : j < n) {s t : Fin 3}
    (h : bufferIndex n i s = bufferIndex n j t) : i = j ∧ s = t := by
  match s, t with
  | 0, 0 | 1, 1 | 2, 2 => simp only [bufferIndex] at h; exact ⟨by omega, rfl⟩
  | 0, 1 | 0, 2 | 1, 0 | 1, 2 | 2, 0 | 2, 1 => simp only [bufferIndex] at h; omega

lemma exists_bufferIndex (hc : c < 3 * n) : ∃ i < n, ∃ s, c = bufferIndex n i s := by
  by_cases hfirst : c < n
  · exact ⟨c, hfirst, 0, rfl⟩
  · rcases mod_two_eq_zero_or_one (c - n) with heven | hodd
    · exact ⟨(c - n) / 2, by omega, 1, by rw [bufferIndex]; omega⟩
    · exact ⟨(c - n) / 2, by omega, 2, by rw [bufferIndex]; omega⟩

lemma collect_spec (hfit : 3 * n ≤ maxCodedSize) (subblocks : Streams α) (buffer : ℕ → α) :
    ∃ b, collect n subblocks buffer = some b ∧
      ∀ i < n, ∀ s, b (bufferIndex n i s) = subblocks s i := by
  have hlt : ∀ p ∈ List.range n ×ˢ List.finRange 3, p.1 < n := fun p hp =>
    mem_range.mp (mem_product.mp hp).1
  obtain ⟨b, hb, hval, -⟩ := storeAll_spec (List.range n ×ˢ List.finRange 3)
    (fun p => bufferIndex n p.1 p.2) (fun p => subblocks p.2 p.1) buffer
    (fun p hp => (bufferIndex_lt (hlt p hp) p.2).trans_le hfit)
    (fun p hp q hq h =>
      have heq := bufferIndex_inj (hlt p hp) (hlt q hq) h
      Prod.ext heq.1 heq.2)
  exact ⟨b, hb, fun i hi s => hval (i, s) (by simp [hi])⟩

/-- The coded bit at place `c` of the circular buffer, `none` for a dummy. -/
def source (d c : ℕ) : Option ℕ :=
  if c < size d then (block d c).map fun i => 3 * i
  else (block d ((c - size d) / 2)).map fun i => 3 * i + 1 + (c - size d) % 2

lemma source_bufferIndex (hk : k < size d) (s : Fin 3) :
    source d (bufferIndex (size d) k s) = (block d k).map fun i => 3 * i + s.val := by
  match s with
  | 0 =>
    rw [bufferIndex, source, if_pos hk]
    rfl
  | 1 =>
    have hsub : size d + 2 * k + 0 - size d = 2 * k := by omega
    rw [bufferIndex, source, if_neg (by omega), hsub, Nat.mul_div_cancel_left k (by decide),
      Nat.mul_mod_right]
    rfl
  | 2 =>
    have hsub : size d + 2 * k + 1 - size d = 2 * k + 1 := by omega
    rw [bufferIndex, source, if_neg (by omega), hsub, mul_add_div (by decide), mul_add_mod]
    rfl

def placeOf (d i : ℕ) (s : Fin 3) : ℕ := bufferIndex (size d) (columns.place (rows d) i) s

lemma place_lt (hi : i < d) : columns.place (rows d) i < size d :=
  columns.place_lt (hi.trans_le (le_size d))

lemma block_place (hi : i < d) : block d (columns.place (rows d) i) = some i := by
  have hplace : columns.interleaved (padding d) (columns.place (rows d) ((padding d).cell i)) =
      some i := Columns.interleaved_place hi
  exact hplace

lemma source_placeOf (hi : i < d) (s : Fin 3) : source d (placeOf d i s) = some (3 * i + s) := by
  rw [placeOf, source_bufferIndex (place_lt hi), block_place hi]
  rfl

lemma eq_placeOf (hc : c < 3 * size d) (h : source d c = some p) :
    ∃ i < d, ∃ s : Fin 3, p = 3 * i + s ∧ c = placeOf d i s := by
  obtain ⟨k, hk, s, rfl⟩ := exists_bufferIndex hc
  rw [source_bufferIndex hk] at h
  obtain ⟨i, hblock, rfl⟩ := map_eq_some_iff.mp h
  obtain ⟨hi, hplace⟩ := Columns.eq_place_of_interleaved hk hblock
  exact ⟨i, hi, s, rfl, by rw [placeOf, hplace]; rfl⟩

lemma collected_filled {g : ℕ → Char8} (hbits : ∀ p < 3 * d, g p ≠ dummyBit)
    {v subblocks : Streams Char8} {w : ℕ → Char8} (hstream : ∀ s, ∀ i < d, v s i = g (3 * i + s))
    (hblock : ∀ s, ∀ k < size d, subblocks s k = ((block d k).map (v s)).getD dummyBit)
    (hw : ∀ k < size d, ∀ s, w (bufferIndex (size d) k s) = subblocks s k) :
    Filled (source d) (3 * size d) g w := by
  refine ⟨fun hc hgap => ?_, fun hc hbit => ?_⟩
  · obtain ⟨k, hk, s, rfl⟩ := exists_bufferIndex hc
    rw [source_bufferIndex hk] at hgap
    rw [hw k hk, hblock s k hk, map_eq_none_iff.mp hgap]
    rfl
  · obtain ⟨i, hi, s, rfl, rfl⟩ := eq_placeOf hc hbit
    have hval : w (placeOf d i s) = g (3 * i + s) := by
      rw [placeOf, hw _ (place_lt hi), hblock s _ (place_lt hi), block_place hi]
      exact hstream s i hi
    exact ⟨hval, hval ▸ hbits _ (by omega)⟩

/-! ## The walk over the buffer -/

section Walk

variable {src : ℕ → Option ℕ} {n k0 e : ℕ} {i fuel : ℕ} {g w : ℕ → Char8}

/-- What is met at step `i` of the walk from `k0`. -/
def walkFrom (src : ℕ → Option ℕ) (n k0 i : ℕ) : Option ℕ := src (slot n k0 i)

lemma walkFrom_mod (i : ℕ) : walkFrom src n k0 (i % n) = walkFrom src n k0 i := by
  rw [walkFrom, walkFrom, slot, slot, add_mod_mod]

/-- The number of full places met before step `i`. -/
abbrev met (src : ℕ → Option ℕ) (n k0 i : ℕ) : ℕ := Nat.count (Full (walkFrom src n k0) n) i

lemma met_full {p : ℕ} (h : src (slot n k0 i) = some p) :
    met src n k0 (i + 1) = met src n k0 i + 1 := count_succ_full ((walkFrom_mod i).trans h)

lemma met_gap (h : src (slot n k0 i) = none) :
    met src n k0 (i + 1) = met src n k0 i := count_succ_gap ((walkFrom_mod i).trans h)

lemma lt_of_met_lt (hpos : 0 < met src n k0 n) (hlt : met src n k0 i < e) : i < e * n := by
  by_contra hle
  have hlaps := le_count_laps hpos e
  have hmono := Nat.count_monotone (Full (walkFrom src n k0) n) (Nat.le_of_not_lt hle)
  exact absurd (hlaps.trans hmono) (Nat.not_le.mpr hlt)

lemma wrap_eq_slot (hn : 0 < n) (i : ℕ) : wrap (k0 + i) n = slot n k0 i := wrap_eq_mod hn _

variable (hn : 0 < n) (hw : Filled src n g w) (hpos : 0 < met src n k0 n)

include hn hw hpos in
/-- **Reading** ends, and has copied the bits of the walk in turn. -/
theorem readLoop_steps (hfuel : e * n < fuel + i) (hi : i ≤ e * n)
    (hle : met src n k0 i ≤ e) {out : ℕ → Char8}
    (hsel : Selected (walkFrom src n k0) n g (met src n k0 i) out) :
    ∃ out', readLoop fuel w k0 n e (met src n k0 i) i out = some out' ∧
      Selected (walkFrom src n k0) n g e out' := by
  induction fuel generalizing i out with
  | zero => omega
  | succ fuel ih =>
    rw [readLoop, wrap_eq_slot hn]
    split
    · rename_i hlt
      have hi' := lt_of_met_lt hpos hlt
      have hc : slot n k0 i < n := slot_lt hn
      cases hsrc : src (slot n k0 i) with
      | none =>
        have hnext := met_gap hsrc
        rw [if_neg (not_not.mpr (hw.gap hc hsrc)), ← hnext]
        rw [← hnext] at hle hsel
        exact ih (by omega) hi' hle hsel
      | some p =>
        have hstore := hsel.store ((walkFrom_mod i).trans hsrc)
        rw [if_pos (hw.bit hc hsrc).2, (hw.bit hc hsrc).1, ← met_full hsrc]
        rw [← met_full hsrc] at hstore
        exact ih (by omega) hi' (met_full hsrc ▸ hlt) hstore
    · have heq : met src n k0 i = e := by omega
      exact ⟨out, rfl, heq ▸ hsel⟩

include hn hw hpos in
lemma readLoop_spec (hfuel : e * n < fuel) (out : ℕ → Char8) :
    ∃ out', readLoop fuel w k0 n e 0 0 out = some out' ∧ Selected (walkFrom src n k0) n g e out' :=
  readLoop_steps hn hw hpos hfuel (zero_le _) (zero_le _) Selected.zero

/-- After `i` steps of the walk the places met hold their bits' values, the others zero. -/
structure Written {F : Type} [Zero F] (src : ℕ → Option ℕ) (n k0 : ℕ) (val : ℕ → F) (i : ℕ)
    (buffer : ℕ → F) : Prop where
  reached : ∀ c < n, ∀ p, src c = some p → Occupied n k0 i c → buffer c = val p
  fresh : ∀ c < n, ∀ p, src c = some p → ¬ Occupied n k0 i c → buffer c = 0

variable {F : Type} [Zero F] {val : ℕ → F} {buffer : ℕ → F}

lemma Written.zero : Written src n k0 val 0 fun _ => 0 :=
  ⟨fun _ _ _ _ ⟨_, hk, _⟩ => absurd hk (not_lt_zero _), fun _ _ _ _ _ => rfl⟩

lemma Written.step (h : Written src n k0 val i buffer) {x : F}
    (hx : ∀ p, src (slot n k0 i) = some p → x = val p) :
    Written src n k0 val (i + 1) (update buffer (slot n k0 i) x) := by
  refine ⟨fun c hc p hp hocc => ?_, fun c hc p hp hocc => ?_⟩
  · by_cases heq : c = slot n k0 i
    · subst heq
      rw [update_self, hx p hp]
    · rw [update_of_ne heq]
      exact h.reached c hc p hp ((occupied_succ.mp hocc).resolve_right heq)
  · rw [occupied_succ, not_or] at hocc
    rw [update_of_ne hocc.2]
    exact h.fresh c hc p hp hocc.1

variable {input : ℕ → F}

include hn hw hpos in
/-- **Writing** ends after the step with the last value, with what all its steps preserve. -/
theorem writeLoop_steps {P : ℕ → (ℕ → F) → Prop}
    (hstep : ∀ i x b, (∀ p, src (slot n k0 i) = some p →
      met src n k0 i < e ∧ x = input (met src n k0 i)) → P i b →
      P (i + 1) (update b (slot n k0 i) x))
    (hfuel : e * n < fuel + i) (hi : i ≤ e * n) (hle : met src n k0 i ≤ e) (h : P i buffer) :
    ∃ i' b, writeLoop fuel input w k0 n e (met src n k0 i) i buffer = some b ∧
      met src n k0 i' = e ∧ P i' b := by
  induction fuel generalizing i buffer with
  | zero => omega
  | succ fuel ih =>
    rw [writeLoop]
    split
    · rename_i hlt
      have hi' := lt_of_met_lt hpos hlt
      have hc : slot n k0 i < n := slot_lt hn
      change ∃ i' b, (if w (slot n k0 i) ≠ dummyBit then
        writeLoop fuel input w k0 n e (met src n k0 i + 1) (i + 1)
          (update buffer (slot n k0 i) (input (met src n k0 i)))
        else writeLoop fuel input w k0 n e (met src n k0 i) (i + 1)
          (update buffer (slot n k0 i) 0)) = some b ∧ _
      cases hsrc : src (slot n k0 i) with
      | none =>
        rw [if_neg (not_not.mpr (hw.gap hc hsrc)), ← met_gap hsrc]
        exact ih (by omega) hi' (met_gap hsrc ▸ hle)
          (hstep i 0 buffer (fun p hp => by simp [hsrc] at hp) h)
      | some p =>
        rw [if_pos (hw.bit hc hsrc).2, ← met_full hsrc]
        exact ih (by omega) hi' (met_full hsrc ▸ hlt) (hstep i _ buffer (fun _ _ => ⟨hlt, rfl⟩) h)
    · exact ⟨i, buffer, rfl, by omega, h⟩

include hn hw hpos in
lemma writeLoop_spec
    (hin : ∀ i p, src (slot n k0 i) = some p → met src n k0 i < e → input (met src n k0 i) = val p)
    (hfuel : e * n < fuel) :
    ∃ b, writeLoop fuel input w k0 n e 0 0 (fun _ => 0) = some b ∧
      ∀ t < n, ∀ p, src (slot n k0 t) = some p →
        b (slot n k0 t) = if met src n k0 t < e then val p else 0 := by
  obtain ⟨i, b, hb, hmet, hwritten⟩ := writeLoop_steps hn hw hpos
    (fun i x b hx h => h.step fun p hp => (hx p hp).2.trans (hin i p hp (hx p hp).1)) hfuel
    (zero_le _) (zero_le _) Written.zero
  refine ⟨b, hb, fun t ht p hp => ?_⟩
  have hfull : Full (walkFrom src n k0) n t := full_iff.mpr ⟨p, (walkFrom_mod t).trans hp⟩
  split
  · -- the first time the walk comes to this place is before it ends
    refine hwritten.reached _ (slot_lt hn) p hp ⟨t, ?_, rfl⟩
    by_contra hle
    have hmono : met src n k0 i ≤ met src n k0 t := Nat.count_monotone _ (Nat.le_of_not_lt hle)
    omega
  · refine hwritten.fresh _ (slot_lt hn) p hp ?_
    rintro ⟨j, hj, hslot⟩
    have hfirst : t = j % n := slot_inj ht (mod_lt j hn) (by
      rw [hslot, slot, slot, add_mod_mod])
    have hlt : t < i := (hfirst.trans_le (mod_le j n)).trans_lt hj
    have hmono : met src n k0 t < met src n k0 i := count_strict_mono hfull hlt
    omega

end Walk

/-! ## The redundancy versions -/

lemma start_eq (d rv : ℕ) : start (size d) rv = rows d * (24 * rv + 2) := by
  have hrows : size d / 32 = rows d := Nat.mul_div_cancel_left _ (by decide)
  have hceil : intceil (3 * size d) (8 * rows d) = 12 := by
    have hpos := rows_pos d
    have hdiv : (3 * (32 * rows d) - 1) / (8 * rows d) = 11 :=
      Nat.div_eq_of_lt_le (by omega) (by omega)
    rw [intceil, size, cols, hdiv]
  rw [start, hrows, hceil]

lemma start_lt {rv : ℕ} (hrv : rv ≤ 3) : start (size d) rv < 3 * size d := by
  rw [start_eq, size, ← mul_assoc, mul_comm]
  exact mul_lt_mul_of_pos_right (by rw [cols]; omega) (rows_pos d)

def selected (d rv : ℕ) : List ℕ :=
  picked (walkFrom (source d) (3 * size d) (start (size d) rv)) (3 * size d)

lemma buffer_pos (d : ℕ) : 0 < 3 * size d := mul_pos (by decide) (size_pos d)

lemma placeOf_lt (hi : i < d) (s : Fin 3) : placeOf d i s < 3 * size d :=
  bufferIndex_lt (place_lt hi) s

lemma exists_step {rv : ℕ} (hrv : rv ≤ 3) (hi : i < d) (s : Fin 3) :
    ∃ t < 3 * size d, placeOf d i s = slot (3 * size d) (start (size d) rv) t :=
  occupied_lap (start_lt hrv) (placeOf_lt hi s)

lemma step_unique {rv t' : ℕ} (ht : t < 3 * size d) (ht' : t' < 3 * size d)
    (h : source d (slot (3 * size d) (start (size d) rv) t) = some p)
    (h' : source d (slot (3 * size d) (start (size d) rv) t') = some p) : t = t' := by
  obtain ⟨i, -, s, rfl, hplace⟩ := eq_placeOf (slot_lt (buffer_pos d)) h
  obtain ⟨i', -, s', heq, hplace'⟩ := eq_placeOf (slot_lt (buffer_pos d)) h'
  have hs : s = s' := Fin.ext (by omega)
  have hi : i = i' := by omega
  rw [← hs, ← hi, ← hplace] at hplace'
  exact (slot_inj ht' ht hplace').symm

lemma selected_perm {rv : ℕ} (hrv : rv ≤ 3) : (selected d rv).Perm (List.range (3 * d)) := by
  refine picked_perm_range (fun t ht t' ht' p h h' => step_unique ht ht' h h')
    fun p => ⟨?_, fun hp => ?_⟩
  · rintro ⟨t, -, h⟩
    obtain ⟨i, hi, s, rfl, -⟩ := eq_placeOf (slot_lt (buffer_pos d)) h
    omega
  · have hi : p / 3 < d := by omega
    obtain ⟨t, ht, hplace⟩ := exists_step hrv hi ⟨p % 3, mod_lt p (by decide)⟩
    refine ⟨t, ht, ?_⟩
    rw [walkFrom, ← hplace, source_placeOf hi]
    exact congrArg some (div_add_mod p 3)

lemma met_lap {rv : ℕ} (hrv : rv ≤ 3) :
    met (source d) (3 * size d) (start (size d) rv) (3 * size d) = 3 * d := by
  rw [met, ← length_picked le_rfl]
  exact (selected_perm hrv).length_eq.trans length_range

lemma mem_take_selected {rv e : ℕ} (ht : t < 3 * size d)
    (h : source d (slot (3 * size d) (start (size d) rv) t) = some p) :
    p ∈ (selected d rv).take e ↔ met (source d) (3 * size d) (start (size d) rv) t < e := by
  rw [selected, mem_take_picked]
  constructor
  · rintro ⟨t', ht', h', hlt⟩
    rwa [step_unique ht ht' h h']
  · exact fun hlt => ⟨t, ht, h, hlt⟩

/-! ## Both ends -/

variable {e rv fuel : ℕ}

lemma three_mul_size_le (hfit : size d ≤ maxCodedSize / 3) : 3 * size d ≤ maxCodedSize := by
  omega

/-- The interleaved streams of the transmitter. -/
theorem charRMBlock_blocks (hfit : size d ≤ maxCodedSize) (mem : TxMem) (input : ℕ → Char8) :
    ∃ v blocks : Streams Char8, (∀ s, ∀ i < d, v s i = input (3 * i + s)) ∧
      (∀ s, ∀ k < size d, blocks s k = ((block d k).map (v s)).getD dummyBit) ∧
      ∀ fuel output e rv, charRMBlock fuel mem input output (3 * d) e rv =
        charRatematching fuel mem.circularBuffer blocks output (size d) e rv := by
  obtain ⟨v, hv, hstream⟩ := charUnwrap_spec ((le_size d).trans hfit) input mem.block
  have hcalls : ∀ s, ∃ r, charInterleave maxCodedSize (v s) (mem.intblock s) d = some r ∧
      r.2.2 = size d ∧ ∀ k < size d, r.2.1 k = ((block d k).map (v s)).getD dummyBit := fun s => by
    obtain ⟨inp, out, hcall, -, hspec⟩ := charInterleave_spec hfit (v s) (mem.intblock s)
    exact ⟨_, hcall, rfl, hspec⟩
  obtain ⟨ints, hints, hblock⟩ := eachStream_spec hcalls
  refine ⟨v, fun s => (ints s).2.1, hstream, fun s => (hblock s).2, fun fuel output e rv => ?_⟩
  rw [charRMBlock, hv, bind_some]
  dsimp only
  rw [hints, bind_some, (hblock 2).1]

variable (hd : 1 ≤ d) (hfit : size d ≤ maxCodedSize / 3)

include hd hfit in
/-- **Transmitter.** It returns, and has sent the bits of the walk in turn. -/
theorem charRMBlock_spec (hrv : rv ≤ 3)
    (hfuel : e * (3 * size d) < fuel) (mem : TxMem) {input : ℕ → Char8}
    (hbits : ∀ p < 3 * d, input p ≠ dummyBit) (output : ℕ → Char8) :
    ∃ sent, charRMBlock fuel mem input output (3 * d) e rv = some sent ∧
      Selected (walkFrom (source d) (3 * size d) (start (size d) rv)) (3 * size d) input e
      sent := by
  have hbuf := three_mul_size_le hfit
  obtain ⟨v, blocks, hstream, hblock, heq⟩ :=
    charRMBlock_blocks (show size d ≤ maxCodedSize by omega) mem input
  obtain ⟨w, hw, hcollect⟩ := collect_spec hbuf blocks mem.circularBuffer
  obtain ⟨sent, hsent, hsel⟩ := readLoop_spec (buffer_pos d)
    (collected_filled hbits hstream hblock hcollect)
    (show 0 < met _ _ (start (size d) rv) _ by rw [met_lap hrv]; omega) hfuel output
  exact ⟨sent, by rw [heq, charRatematching, hw, bind_some, hsent], hsel⟩

/-- **Dummy matrix.** It holds zeros where the transmitter's buffer holds bits, and dummies where
that holds dummies. -/
theorem getDummyMatrix_spec (hfit : size d ≤ maxCodedSize / 3) (dummymatrix : ℕ → Char8)
    (interleaved : Streams Char8) :
    ∃ w, getDummyMatrix dummymatrix interleaved d = some (w, 3 * size d) ∧
      Filled (source d) (3 * size d) (fun _ => 0) w := by
  obtain ⟨z1, b0, h0, hz1, hb0⟩ := charInterleave_spec hfit (fun _ => 0) (interleaved 0)
  obtain ⟨z2, b1, h1, hz2, hb1⟩ := charInterleave_spec hfit z1 (interleaved 1)
  obtain ⟨z3, b2, h2, -, hb2⟩ := charInterleave_spec hfit z2 (interleaved 2)
  obtain ⟨w, hw, hcollect⟩ := collect_spec (three_mul_size_le hfit) ![b0, b1, b2] dummymatrix
  refine ⟨w, ?_, collected_filled (v := ![fun _ => 0, z1, z2]) (fun _ _ => by decide) ?_ ?_
    hcollect⟩
  · rw [getDummyMatrix, h0, bind_some]
    dsimp only
    rw [h1, bind_some]
    rw [h2, bind_some]
    rw [hw]
    rfl
  · intro s i hi
    match s with
    | 0 => rfl
    | 1 => exact hz1 i hi
    | 2 => exact (hz2 i hi).trans (hz1 i hi)
  · intro s
    match s with
    | 0 => exact hb0
    | 1 => exact hb1
    | 2 => exact hb2

variable {F : Type} [Zero F]

lemma intceil_three (hd : 1 ≤ d) : intceil (3 * d) 3 = d := by
  rw [intceil]
  omega

include hd hfit in
/-- What the receiver does with the buffer that it has written. -/
theorem floatUNRMBlock_blocks (mem : RxMem F) :
    ∃ w, Filled (source d) (3 * size d) (fun _ => 0) w ∧ ∀ {fuel e rv input buffer},
      writeLoop fuel input w (start (size d) rv) (3 * size d) e 0 0 (fun _ => 0) = some buffer →
      ∃ blocks : Streams F, (∀ s, ∀ i < d, blocks s i = buffer (placeOf d i s)) ∧
        ∀ output, floatUNRMBlock fuel mem input output e (3 * d) rv =
          floatWrap (3 * size d) blocks output (size d) := by
  have hsize : 3 * size d / 3 = size d := Nat.mul_div_cancel_left _ (by decide)
  obtain ⟨w, hw, hfilled⟩ := getDummyMatrix_spec hfit mem.dummymatrix mem.interleaved
  refine ⟨w, hfilled, fun {fuel e rv input buffer} hbuffer => ?_⟩
  obtain ⟨ints, hints, hsplit⟩ := eachStream_spec fun s =>
    storeRange_zero hfit (fun i => buffer (bufferIndex (size d) i s)) (mem.intblock s)
  obtain ⟨blocks, hblocks, hdeint⟩ := eachStream_spec fun s =>
    floatDeinterleave_spec hfit (ints s) (mem.block s)
  refine ⟨blocks, fun s i hi => ?_, fun output => ?_⟩
  · rw [hdeint s i (hi.trans_le (le_size d)), (hsplit s).1 _ (place_lt hi)]
    rfl
  · rw [floatUNRMBlock, intceil_three hd, hw, bind_some]
    dsimp only
    rw [hsize, floatUnratematching, if_pos (three_mul_size_le hfit), mul_comm (size d) 3, hbuffer,
      bind_some, hints, bind_some, hblocks, bind_some]

include hd hfit in
/-- **Receiver.** Given the values of the bits of the walk in turn, it puts each that is among the
first `e` to the place of its bit. -/
theorem floatUNRMBlock_spec (hrv : rv ≤ 3)
    (hfuel : e * (3 * size d) < fuel) (mem : RxMem F) {val input : ℕ → F}
    (hin : ∀ i p, source d (slot (3 * size d) (start (size d) rv) i) = some p →
      met (source d) (3 * size d) (start (size d) rv) i < e →
        input (met (source d) (3 * size d) (start (size d) rv) i) = val p) (output : ℕ → F) :
    ∃ got, floatUNRMBlock fuel mem input output e (3 * d) rv = some got ∧
      ∀ p < 3 * d, got p = if p ∈ (selected d rv).take e then val p else 0 := by
  obtain ⟨w, hfilled, hblocks⟩ := floatUNRMBlock_blocks hd hfit mem
  obtain ⟨buffer, hbuffer, hval⟩ := writeLoop_spec (buffer_pos d) hfilled
    (by rw [met_lap hrv]; omega) hin hfuel
  obtain ⟨blocks, hblock, heq⟩ := hblocks hbuffer
  obtain ⟨got, hgot, hwrap, -⟩ := floatWrap_spec (le_refl (3 * size d)) blocks output
  refine ⟨got, (heq output).trans hgot, fun p hp => ?_⟩
  obtain ⟨i, s, hi, rfl⟩ : ∃ i, ∃ s : Fin 3, i < d ∧ p = 3 * i + s :=
    ⟨p / 3, ⟨p % 3, mod_lt p (by decide)⟩, by omega, (div_add_mod p 3).symm⟩
  obtain ⟨t, ht, hplace⟩ := exists_step hrv hi s
  have hsource := hplace ▸ source_placeOf hi s
  rw [hwrap s i (hi.trans_le (le_size d)), hblock s i hi, hplace, hval t ht _ hsource]
  exact if_congr (mem_take_selected ht hsource).symm rfl rfl

/-- **Turbo rate matching round trip.** With three streams of `d` bits, redundancy version `rv` and
`e` bits on the channel, one lap meets every coded bit once, the bits met are sent in turn, and the
receiver puts the first `e` of them back in their places and zero in the others; all of them from `3
* d` on. -/
theorem turbo_round_trip (d e rv fuel : ℕ) (hd : 1 ≤ d)
    (hfit : 32 * intceil d 32 ≤ maxCodedSize / 3) (hrv : rv ≤ 3)
    (hfuel : e * (3 * (32 * intceil d 32)) < fuel) (tx : TxMem) (rx : RxMem F)
    (input txOut : ℕ → Char8) (hbits : ∀ p < 3 * d, input p ≠ dummyBit) (soft : Char8 → F)
    (rxOut : ℕ → F) :
    (selected d rv).Perm (List.range (3 * d)) ∧
      ∃ sent, charRMBlock fuel tx input txOut (3 * d) e rv = some sent ∧
        (∀ k < e, ((selected d rv)[k % (3 * d)]?).map input = some (sent k)) ∧
        ∀ received : ℕ → F, (∀ k < e, received k = soft (sent k)) →
          ∃ got, floatUNRMBlock fuel rx received rxOut e (3 * d) rv = some got ∧
            (∀ p < 3 * d, got p = if p ∈ (selected d rv).take e then soft (input p) else 0) ∧
            (3 * d ≤ e → ∀ p < 3 * d, got p = soft (input p)) := by
  obtain ⟨sent, hsent, hsel⟩ := charRMBlock_spec hd hfit hrv hfuel tx hbits txOut
  have hperm := selected_perm (d := d) hrv
  refine ⟨hperm, sent, hsent, fun k hk => ?_, fun received hreceived => ?_⟩
  · have hget := hsel.getElem (by rw [← met, met_lap hrv]; omega) hk
    rwa [← met, met_lap hrv] at hget
  have hvalues : ∀ i p, source d (slot (3 * size d) (start (size d) rv) i) = some p →
      met (source d) (3 * size d) (start (size d) rv) i < e →
        received (met (source d) (3 * size d) (start (size d) rv) i) = soft (input p) :=
    fun i p hp hlt => by
      rw [hreceived _ hlt, hsel i p ((walkFrom_mod i).trans hp) hlt]
  obtain ⟨got, hgot, hback⟩ := floatUNRMBlock_spec hd hfit hrv hfuel rx hvalues rxOut
  refine ⟨got, hgot, hback, fun hall p hp => ?_⟩
  rw [hback p hp, take_of_length_le (by rwa [hperm.length_eq, length_range]),
    if_pos (hperm.mem_iff.mpr (mem_range.mpr hp))]

theorem turbo_round_trip_four : (selected 2 2).Perm (List.range 6) ∧
      ∃ sent, charRMBlock 400 ⟨fun _ _ => 0, fun _ _ => 0, fun _ => 0⟩
          (fun p => BitVec.ofNat 8 (p % 2)) (fun _ => 0) 6 4 2 = some sent ∧
        (∀ k < 4, ((selected 2 2)[k % 6]?).map (fun p => BitVec.ofNat 8 (p % 2)) = some (sent k)) ∧
        ∀ received : ℕ → ℤ, (∀ k < 4, received k = 1 - 2 * (sent k).toNat) →
          ∃ got, floatUNRMBlock 400 ⟨fun _ _ => 5, fun _ _ => 5, fun _ => 0, fun _ _ => 0⟩ received
              (fun _ => 5) 4 6 2 = some got ∧
            (∀ p < 6, got p = if p ∈ (selected 2 2).take 4 then
              1 - 2 * ((BitVec.ofNat 8 (p % 2)).toNat : ℤ) else 0) ∧
            (6 ≤ 4 → ∀ p < 6, got p = 1 - 2 * ((BitVec.ofNat 8 (p % 2)).toNat : ℤ)) :=
  turbo_round_trip 2 4 2 400 (by decide) (by decide) (by decide) (by decide) _ _ _ _ (by decide)
    (fun b => 1 - 2 * (b.toNat : ℤ)) _

/-! ## Bounds -/

lemma size_le_of_charInterleave {inp out : ℕ → Char8}
    {r : (ℕ → Char8) × (ℕ → Char8) × ℕ} (h : charInterleave cap inp out d = some r) :
    size d ≤ cap := by
  obtain ⟨inp', -, h⟩ := bind_eq_some_iff.mp h
  exact (ite_none_right_eq_some.mp h).1

lemma le_of_collect {subblocks : Streams α} {buffer b : ℕ → α} (hn : 0 < n)
    (h : collect n subblocks buffer = some b) : 3 * n ≤ maxCodedSize := by
  have hlast : bufferIndex n (n - 1) 2 < maxCodedSize :=
    lt_of_storeAll h (n - 1, 2) (by simpa using hn)
  rw [bufferIndex] at hlast
  omega

/-- A call of the receiver that returns has stayed within its arrays and has written the whole
padded blocks. -/
theorem floatUNRMBlock_returned (hd : 1 ≤ d) {mem : RxMem F} {input output got : ℕ → F}
    (h : floatUNRMBlock fuel mem input output e (3 * d) rv = some got) :
    size d ≤ maxCodedSize / 3 ∧
      ∃ blocks, floatWrap (3 * size d) blocks output (size d) = some got := by
  rw [floatUNRMBlock, intceil_three hd] at h
  obtain ⟨⟨w, n⟩, hmatrix, h⟩ := bind_eq_some_iff.mp h
  obtain ⟨r, hcall, -⟩ := bind_eq_some_iff.mp hmatrix
  have hfit := size_le_of_charInterleave hcall
  obtain ⟨w', hw', -⟩ := getDummyMatrix_spec hfit mem.dummymatrix mem.interleaved
  obtain ⟨rfl, rfl⟩ := Prod.mk.inj (some.inj (hw'.symm.trans hmatrix))
  obtain ⟨ints, -, h⟩ := bind_eq_some_iff.mp h
  obtain ⟨blocks, -, h⟩ := bind_eq_some_iff.mp h
  exact ⟨hfit, blocks, by rwa [Nat.mul_div_cancel_left _ (by decide)] at h⟩

include hd hfit in
/-- Within its arrays the receiver returns, whatever it is given. -/
theorem floatUNRMBlock_ends (hrv : rv ≤ 3) (e : ℕ) (mem : RxMem F) (input : ℕ → F) :
    ∃ fuel, ∃ blocks : Streams F, ∀ output, ∃ got,
      floatUNRMBlock fuel mem input output e (3 * d) rv = some got ∧
        ∀ s : Fin 3, ∀ i < size d, got (3 * i + s) = blocks s i := by
  have hpos : 0 < met (source d) (3 * size d) (start (size d) rv) (3 * size d) := by
    rw [met_lap hrv]
    omega
  obtain ⟨w, hfilled, hblocks⟩ := floatUNRMBlock_blocks hd hfit mem
  obtain ⟨-, buffer, hbuffer, -⟩ := writeLoop_steps (F := F) (P := fun _ _ => True)
    (buffer_pos d) hfilled hpos (fun _ _ _ _ _ => trivial)
    (show e * (3 * size d) < e * (3 * size d) + 1 + 0 from lt_succ_self _) (zero_le _)
    (zero_le _) trivial
  obtain ⟨blocks, -, heq⟩ := hblocks hbuffer
  refine ⟨e * (3 * size d) + 1, blocks, fun output => ?_⟩
  obtain ⟨got, hgot, hwrap, -⟩ := floatWrap_spec (le_refl (3 * size d)) blocks output
  exact ⟨got, (heq output).trans hgot, hwrap⟩

lemma size_le_iff {K : ℕ} : size (K + 4) ≤ maxCodedSize / 3 ↔ K ≤ 6140 := by
  rw [size_eq, maxCodedSize]
  omega

/-- **The arrays are chosen for the block without its padding.** With a coded length of `3 * K +
12`, both ends stay within their arrays exactly up to `K = 6140`, and the receiver writes nothing
behind the coded block exactly if there is no padding. -/
theorem rate_matcher_bounds_iff [Nontrivial F] (K e rv : ℕ) (hK : K ≤ 6144) (hrv : rv ≤ 3)
    (tx : TxMem) (rx : RxMem F) (input txOut : ℕ → Char8)
    (hbits : ∀ p < 3 * (K + 4), input p ≠ dummyBit) (received rxOut : ℕ → F) :
    ((∃ fuel sent, charRMBlock fuel tx input txOut (3 * (K + 4)) e rv = some sent) ↔ K ≤ 6140) ∧
    ((∃ fuel got, floatUNRMBlock fuel rx received rxOut e (3 * (K + 4)) rv = some got) ↔ K ≤ 6140) ∧
    (K ≤ 6140 → ((∀ output fuel got, floatUNRMBlock fuel rx received output e (3 * (K + 4)) rv =
      some got → ∀ p, 3 * (K + 4) ≤ p → got p = output p) ↔ 32 ∣ K + 4)) := by
  have hd : 1 ≤ K + 4 := by omega
  refine ⟨?_, ?_, fun hle => ?_⟩
  · obtain ⟨v, blocks, hstream, hblock, heq⟩ := charRMBlock_blocks (d := K + 4)
      (by rw [size_eq, maxCodedSize]; omega) tx input
    rw [← size_le_iff]
    constructor
    · rintro ⟨fuel, sent, h⟩
      rw [heq] at h
      obtain ⟨b, hcollect, -⟩ := bind_eq_some_iff.mp h
      exact (le_div_iff_mul_le (by decide)).mpr (mul_comm 3 _ ▸ le_of_collect (size_pos _) hcollect)
    · intro hfit
      obtain ⟨sent, hsent, -⟩ := charRMBlock_spec hd hfit hrv (lt_succ_self _) tx hbits txOut
      exact ⟨_, sent, hsent⟩
  · rw [← size_le_iff]
    constructor
    · rintro ⟨fuel, got, h⟩
      exact (floatUNRMBlock_returned hd h).1
    · intro hfit
      obtain ⟨fuel, blocks, hends⟩ := floatUNRMBlock_ends hd hfit hrv e rx received
      obtain ⟨got, hgot, -⟩ := hends rxOut
      exact ⟨fuel, got, hgot⟩
  · constructor
    · intro h
      obtain ⟨fuel, blocks, hends⟩ := floatUNRMBlock_ends hd (size_le_iff.mpr hle) hrv e rx received
      obtain ⟨x, hx⟩ := exists_ne (blocks 0 (K + 4))
      obtain ⟨got, hgot, hwrap⟩ := hends fun _ => x
      by_contra hpad
      have hlt : K + 4 < size (K + 4) := by
        rw [size_eq]
        omega
      -- the first cell behind the coded block is written, whatever it held
      exact hx ((h _ fuel got hgot _ le_rfl).symm.trans (hwrap 0 (K + 4) hlt))
    · intro hpad output fuel got h p hp
      obtain ⟨-, blocks, hblocks⟩ := floatUNRMBlock_returned hd h
      obtain ⟨b, hb, -, hrest⟩ := floatWrap_spec (le_refl (3 * size (K + 4))) blocks output
      obtain rfl := some.inj (hb.symm.trans hblocks)
      refine hrest p (le_trans (le_of_eq ?_) hp)
      rw [size_eq]
      omega

theorem rate_matcher_bounds_sixty : ∃ fuel got,
    floatUNRMBlock fuel (⟨fun _ _ => 0, fun _ _ => 0, fun _ => 0, fun _ _ => 0⟩ : RxMem ℤ)
      (fun _ => 1) (fun _ => 5) 7 (3 * (60 + 4)) 0 = some got :=
  (rate_matcher_bounds_iff 60 7 0 (by decide) (by decide) ⟨fun _ _ => 0, fun _ _ => 0, fun _ => 0⟩ _
    (fun _ => 0) (fun _ => 0) (fun _ _ => by decide) _ _).2.1.mpr (by decide)

theorem receiver_overrun : ¬ ∃ fuel got,
    floatUNRMBlock fuel (⟨fun _ _ => 0, fun _ _ => 0, fun _ => 0, fun _ _ => 0⟩ : RxMem ℤ)
      (fun _ => 1) (fun _ => 5) 7 (3 * (6144 + 4)) 0 = some got := by
  rintro ⟨fuel, got, h⟩
  exact absurd (floatUNRMBlock_returned (by decide) h).1 (by decide)

end Aloe.Modrep.Ratematching
