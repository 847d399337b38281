import Aloe.Lib.Interleaver
import Aloe.Modrep.Streams
import Mathlib

/-!
# Control channel rate matching

The convolutional coder's three streams are interleaved, one after the other, in a matrix of 32
columns whose first cells are filled up with dummies, laid behind each other and sent without the
dummies, cyclically, as many bits as the channel has. The receiver puts zeros where it got nothing,
marks the dummies by a table, `Pd`, and undoes the interleaving. All arrays are static: they hold
what the last call left there. A store outside its array is `none`.

`source d c` is the coded bit at place `c` of the collected blocks when each stream has `d` bits.
Both ends number it by the full places before it: the dummies marked by `Pd` are those the
interleaver put there (`pd_mul_rows_iff`).
-/

namespace Aloe.Modrep.CtrlRatematching

open Lib

def cols : ℕ := 32

def inputMaxSamples : ℕ := 8 * 576
def outputMaxSamples : ℕ := 8 * 576

def permTable : List ℕ := [1, 17, 9, 25, 5, 21, 13, 29, 3, 19, 11, 27, 7, 23, 15, 31,
   0, 16, 8, 24, 4, 20, 12, 28, 2, 18, 10, 26, 6, 22, 14, 30]

def pdTable : List ℕ := [16, 0, 24, 8, 20, 4, 28, 12, 18, 2, 26, 10, 22, 6, 30, 14,
   17, 1, 25, 9, 21, 5, 29, 13, 19, 3, 27, 11, 23, 7, 31, 15]

def perm (j : ℕ) : ℕ := permTable.getD j 0

def pd (i : ℕ) : ℕ := pdTable.getD i 0

/-! ## Transmitter -/

/-- A row of `v`. -/
def vCells : ℕ := inputMaxSamples / 3 + 1
def wCells : ℕ := inputMaxSamples + 31
/-- The cells of `m`, row by row. -/
def mCells : ℕ := (inputMaxSamples / 32 + 1) * cols

/-- The static arrays of the transmitter; `m` as each of the three calls finds it. -/
structure TxMem where
  v : Streams Char8
  w : ℕ → Char8
  m : Streams Char8

/-- Fill interleaver matrix `m`, row-wise. -/
def fillMatrix (m inOut : ℕ → Char8) (inL : ℕ) : Option (ℕ → Char8) :=
  let rows := intceil inL cols
  let kp := rows * cols
  if inL < kp then
    let dummies := kp - inL
    (storeRange mCells 0 dummies (fun _ => dummyBit) m).bind fun m =>
      (storeRange mCells dummies (cols - dummies) inOut m).bind fun m =>
        storeRows mCells 1 (rows - 1) cols (fun i j => inOut (i * cols - dummies + j)) m
  else storeRows mCells 0 rows cols (fun i j => inOut (i * cols + j)) m

/-- The interleaved block and its length. The columns of `m` are permuted as they are read. -/
def subblockInterleaver (m inOut : ℕ → Char8) (inL : ℕ) : Option ((ℕ → Char8) × ℕ) :=
  let rows := intceil inL cols
  (fillMatrix m inOut inL).bind fun m =>
    (storeRows vCells 0 cols rows (fun j i => m (i * cols + perm j)) inOut).map fun inOut =>
      (inOut, rows * cols)

/-- The `for` loop of `bit_selection` over the places that are left; the flag is its `return`. -/
def selectionLap (input : ℕ → Char8) (outL : ℕ) :
    List ℕ → ℕ → (ℕ → Char8) → ℕ × (ℕ → Char8) × Bool
  | [], k, output => (k, output, false)
  | i :: is, k, output =>
    if input i ≠ dummyBit then
      let output := Function.update output k (input i)
      if k + 1 = outL then (k + 1, output, true)
      else selectionLap input outL is (k + 1) output
    else selectionLap input outL is k output

/-- The `while` loop of `bit_selection`, for at most `fuel` turns. -/
def bitSelection (fuel : ℕ) (input : ℕ → Char8) (inL outL k : ℕ) (output : ℕ → Char8) :
    Option (ℕ → Char8) :=
  match fuel with
  | 0 => none
  | fuel + 1 =>
    if k < outL then
      match selectionLap input outL (List.range inL) k output with
      | (_, output, true) => some output
      | (k, output, false) => bitSelection fuel input inL outL k output
    else some output

def rateMatching (fuel : ℕ) (mem : TxMem) (input output : ℕ → Char8) (inL e : ℕ) :
    Option (ℕ → Char8) :=
  (charUnwrap vCells input mem.v inL).bind fun (v, interleaverInL) =>
    (eachStream fun s => subblockInterleaver (mem.m s) (v s) interleaverInL).bind fun blocks =>
      -- the length the last of the three calls returned
      let interleaverOutL := (blocks 2).2
      -- bit collection
      (storeRows wCells 0 3 interleaverOutL (fun i j => (blocks (Fin.ofNat 3 i)).1 j) mem.w).bind
        fun w => bitSelection fuel w (3 * interleaverOutL) e 0 output

/-! ## Receiver -/

section Receiver

variable {F : Type} [Zero F] [OfNat F 2] [DecidableEq F]

/-- A row of `v_f`, and `vv`. -/
def vfCells : ℕ := outputMaxSamples / 3 + 31
def wfCells : ℕ := outputMaxSamples
def mfCells : ℕ := (outputMaxSamples / cols + 1) * cols

/-- The static arrays of the receiver; `vv` and `m_f` as each of the three calls finds them. -/
structure RxMem (F : Type) where
  v : Streams F
  vv : Streams F
  w : ℕ → F
  m : Streams F

/-- One turn of the loop that fills the places left between the dummies; `idx` counts those. -/
def reinsert (inOut : ℕ → F) (s : (ℕ → F) × ℕ) (j : ℕ) : (ℕ → F) × ℕ :=
  if s.1 j = 0 then (Function.update s.1 j (inOut (j - s.2)), s.2) else (s.1, s.2 + 1)

def addDummies (vv inOut : ℕ → F) (inL : ℕ) : Option (ℕ → F) :=
  let rows := intceil inL cols
  let kp := rows * cols
  let dummies := kp - inL
  if dummies > 0 then
    (storeRange vfCells 0 kp (fun _ => 0) vv).bind fun vv =>
      (storeAll vfCells (List.range dummies) (fun i => pd i * rows) (fun _ => 2) vv).map fun vv =>
        ((List.range kp).foldl (reinsert inOut) (vv, 0)).1
  else storeRange vfCells 0 inL inOut vv

def subblockDeinterleaver (vv m inOut : ℕ → F) (inL : ℕ) : Option (ℕ → F) :=
  let rows := intceil inL cols
  let dummies := rows * cols - inL
  (addDummies vv inOut inL).bind fun vv =>
    -- fill the matrix column-wise, inverting the column permutation
    (storeAll mfCells (List.range cols ×ˢ List.range rows) (fun p => p.2 * cols + perm p.1)
      (fun p => vv (p.1 * rows + p.2)) m).bind fun m =>
      -- read out row-wise
      (storeRows vfCells 0 rows cols (fun i j => m (i * cols + j)) vv).bind fun vv =>
        storeRange vfCells 0 inL (fun i => vv (dummies + i)) inOut

def rateUnmatching (mem : RxMem F) (input output : ℕ → F) (inL s : ℕ) : Option ((ℕ → F) × ℕ) :=
  let kw := s / 3
  (storeRange wfCells 0 inL input mem.w).bind fun w =>
    (if s > inL then storeRange wfCells inL (s - inL) (fun _ => 0) w else some w).bind fun w =>
      (eachStream fun i => storeRange vfCells 0 kw (fun j => w (i * kw + j)) (mem.v i)).bind
        fun v =>
          (eachStream fun i => subblockDeinterleaver (mem.vv i) (mem.m i) (v i) kw).bind fun v =>
            (floatWrap outputMaxSamples v output kw).map fun output => (output, kw * 3)

end Receiver

open List Option Nat Function Columns

/-! ## The interleaver as a permutation -/

lemma perm_lt : ∀ j < cols, perm j < cols := by decide
lemma pd_lt : ∀ j < cols, pd j < cols := by decide
lemma pd_perm : ∀ j < cols, pd (perm j) = j := by decide
lemma perm_pd : ∀ j < cols, perm (pd j) = j := by decide

/-- `Pd` is the inverse of the column permutation. -/
def columns : Columns cols := ⟨perm, pd, perm_lt, pd_lt, pd_perm, perm_pd⟩

def rows (d : ℕ) : ℕ := intceil d cols

def dummies (d : ℕ) : ℕ := cols * rows d - d

lemma le_cells (d : ℕ) : d ≤ cols * rows d := by
  rw [rows, intceil, cols]
  omega

variable {d : ℕ}

lemma dummies_lt (hd : 1 ≤ d) : dummies d < cols := by
  rw [dummies, rows, intceil, cols]
  omega

lemma rows_pos (d : ℕ) : 0 < rows d := succ_pos _

lemma rows_le (hin : 3 * d ≤ inputMaxSamples) : rows d ≤ 48 := by
  rw [inputMaxSamples] at hin
  rw [rows, intceil, cols]
  omega

lemma intceil_cols (d : ℕ) : intceil d cols = rows d := rfl

lemma rows_mul_cols_sub (d : ℕ) : rows d * cols - d = dummies d := by
  rw [mul_comm, dummies]

lemma mul_cols_le {cap : ℕ} (hin : 3 * d ≤ inputMaxSamples) (hcap : 48 * cols ≤ cap) :
    rows d * cols ≤ cap := (mul_le_mul_right cols (rows_le hin)).trans hcap

def padding (d : ℕ) : Padding (cols * rows d) d := .front (le_cells d)

/-- What an interleaved block holds at place `k`: the number of a bit of the stream, or a
dummy. -/
abbrev block (d k : ℕ) : Option ℕ := columns.interleaved (padding d) k

lemma block_eq (d k : ℕ) : block d k = if columns.index (rows d) k < dummies d then none
      else some (columns.index (rows d) k - dummies d) := rfl

/-! ## The sub-block interleaver -/

section

variable (hd : 1 ≤ d) (hin : 3 * d ≤ inputMaxSamples) (m inOut : ℕ → Char8)
include hd hin

lemma fillMatrix_spec : ∃ m', fillMatrix m inOut d = some m' ∧
      ∀ q < rows d * cols, m' q = if q < dummies d then dummyBit else inOut (q - dummies d) := by
  have hfit : rows d * cols ≤ mCells := mul_cols_le hin (by decide)
  have hlt := dummies_lt hd
  rw [fillMatrix]
  simp only [intceil_cols, rows_mul_cols_sub]
  split
  · -- the first row is filled in two parts, the others are copied
    have hfirst : dummies d + (cols - dummies d) = cols := by omega
    obtain ⟨m1, h1, hdummy, -⟩ := storeRange_zero
      (show dummies d ≤ mCells from hlt.le.trans (by decide)) (fun _ => dummyBit) m
    obtain ⟨m2, h2, hrow, hkeep⟩ := storeRange_spec
      (show dummies d + (cols - dummies d) ≤ mCells from hfirst.trans_le (by decide)) inOut m1
    have hrest : 1 + (rows d - 1) = rows d := Nat.add_sub_cancel' (rows_pos d)
    obtain ⟨m3, h3, hcopy, hkeep'⟩ := storeRows_spec
      (show (1 + (rows d - 1)) * cols ≤ mCells by rwa [hrest])
      (fun i j => inOut (i * cols - dummies d + j)) m2
    refine ⟨m3, by rw [h1, bind_some, h2, bind_some, h3], fun q hq => ?_⟩
    rw [hrest, one_mul] at hcopy
    by_cases hqrow : q < cols
    · rw [hkeep' q hqrow]
      split
      · rw [hkeep q (.inl ‹_›), hdummy q ‹_›]
      · have := hrow (q - dummies d) (by omega)
        rwa [Nat.add_sub_cancel' (by omega)] at this
    · rw [hcopy q hq (by omega), if_neg (by omega)]
      congr 1
      rw [cols] at *
      omega
  · -- no dummies: the rows are copied
    obtain ⟨m', h', hcopy, -⟩ := storeRows_spec
      (show (0 + rows d) * cols ≤ mCells by rwa [zero_add])
      (fun i j => inOut (i * cols + j)) m
    have hzero : dummies d = 0 := by
      rw [← rows_mul_cols_sub]
      omega
    refine ⟨m', h', fun q hq => ?_⟩
    rw [hcopy q (by rwa [zero_add]) (by omega), hzero, if_neg (Nat.not_lt_zero q), Nat.sub_zero,
      div_add_mod']

/-- **Interleaver.** The block holds, at each place, the bit of the stream that `block` says. -/
theorem subblockInterleaver_spec : ∃ b, subblockInterleaver m inOut d = some (b, cols * rows d) ∧
      ∀ k < cols * rows d, b k = ((block d k).map inOut).getD dummyBit := by
  obtain ⟨m', hm, hfill⟩ := fillMatrix_spec hd hin m inOut
  obtain ⟨b, hb, hread, -⟩ := storeRows_spec (show (0 + cols) * rows d ≤ vCells from by
      rw [zero_add, mul_comm]
      exact mul_cols_le hin (by decide))
    (fun j i => m' (i * cols + perm j)) inOut
  refine ⟨b, ?_, fun k hk => ?_⟩
  · rw [subblockInterleaver, hm, bind_some, intceil_cols, hb, mul_comm]
    rfl
  · have hindex : k % rows d * cols + perm (k / rows d) = columns.index (rows d) k := by
      rw [index, mul_comm cols, add_comm]
      rfl
    have hlt := columns.index_lt hk
    rw [hread k (by rwa [Nat.zero_add]) (by omega), hindex, hfill _ (Nat.mul_comm _ _ ▸ hlt),
      block_eq]
    split <;> rfl

end

/-! ## The sub-block deinterleaver -/

variable {k s p c : ℕ} {input : ℕ → Char8}

lemma pd_mul_rows_iff (hd : 1 ≤ d) (hk : k < cols * rows d) :
    (∃ i < dummies d, pd i * rows d = k) ↔ columns.index (rows d) k < dummies d := by
  have hlt := dummies_lt hd
  have hplace : ∀ i < cols, columns.place (rows d) i = pd i * rows d := fun i hi => by
    rw [place, mod_eq_of_lt hi, div_eq_of_lt hi]
    rfl
  constructor
  · rintro ⟨i, hi, rfl⟩
    have hcell : i < cols * rows d := (hi.trans hlt).trans_le
      (Nat.le_mul_of_pos_right _ (rows_pos d))
    rwa [← hplace i (hi.trans hlt), columns.index_place hcell]
  · intro hindex
    refine ⟨_, hindex, ?_⟩
    rw [← hplace _ (hindex.trans hlt), columns.place_index hk]

variable {i : ℕ}

lemma pd_mul_rows_inj (hd : 1 ≤ d) {j : ℕ} (hi : i < dummies d) (hj : j < dummies d)
    (h : pd i * rows d = pd j * rows d) : i = j := by
  have hlt := dummies_lt hd
  have hpd := eq_of_mul_eq_mul_right (rows_pos d) h
  rw [← perm_pd i (hi.trans hlt), hpd, perm_pd j (hj.trans hlt)]

lemma full_block_iff (d : ℕ) (hk : k < cols * rows d) :
    Full (block d) (cols * rows d) k ↔ ¬ columns.index (rows d) k < dummies d := by
  rw [full_of_lt hk, block_eq]
  split <;> simp [*]

section Receiver

variable {F : Type} [Zero F] [DecidableEq F]

/-- **Reinsertion.** The unmarked places are filled with the values in turn. -/
theorem reinsert_spec (inOut vv : ℕ → F) (n : ℕ) :
    ∃ b idx, (List.range n).foldl (reinsert inOut) (vv, 0) = (b, idx) ∧
      idx + count (fun j => vv j = 0) n = n ∧
      (∀ k < n, vv k = 0 → b k = inOut (count (fun j => vv j = 0) k)) ∧
      ∀ k, n ≤ k → b k = vv k := by
  induction n with
  | zero => exact ⟨vv, 0, rfl, by simp, fun k hk => absurd hk k.not_lt_zero, fun k _ => rfl⟩
  | succ n ih =>
    obtain ⟨b, idx, hb, hidx, hfilled, hahead⟩ := ih
    rw [range_succ, foldl_append, hb, foldl_cons, foldl_nil, count_succ]
    have hcell := hahead n le_rfl
    by_cases hzero : vv n = 0
    · rw [reinsert, if_pos (hcell.trans hzero), if_pos hzero]
      refine ⟨update b n (inOut (n - idx)), idx, rfl, by omega, fun k hk hk0 => ?_, fun k hk => ?_⟩
      · grind
      · rw [update_of_ne (by omega), hahead k (by omega)]
    · rw [reinsert, if_neg (fun h => hzero (hcell.symm.trans h)), if_neg hzero]
      refine ⟨b, idx + 1, rfl, by omega, fun k hk hk0 => ?_, fun k hk => hahead k (by omega)⟩
      rcases Nat.lt_succ_iff_lt_or_eq.mp hk with hk | rfl
      · exact hfilled k hk hk0
      · exact absurd hk0 hzero

variable [OfNat F 2] [NeZero (2 : F)]

lemma addDummies_spec (hd : 1 ≤ d) (hin : 3 * d ≤ inputMaxSamples) (vv inOut : ℕ → F) :
    ∃ b, addDummies vv inOut d = some b ∧ ∀ k < cols * rows d, Full (block d) (cols * rows d) k →
        b k = inOut (Nat.count (Full (block d) (cols * rows d)) k) := by
  have hfit : rows d * cols ≤ vfCells := mul_cols_le hin (by decide)
  rw [addDummies]
  simp only [intceil_cols, rows_mul_cols_sub]
  split
  · obtain ⟨v1, h1, hzero, -⟩ := storeRange_zero hfit (fun _ => (0 : F)) vv
    have hmarks : ∀ i ∈ List.range (dummies d), pd i * rows d < vfCells := fun i hi => by
      have hcol := pd_lt i ((mem_range.mp hi).trans (dummies_lt hd))
      exact (Nat.mul_lt_mul_of_pos_right hcol (rows_pos d)).trans_le (Nat.mul_comm _ _ ▸ hfit)
    obtain ⟨v2, h2, hmark, hkeep⟩ := storeAll_spec (List.range (dummies d)) (fun i => pd i * rows d)
      (fun _ => (2 : F)) v1 hmarks fun i hi j hj =>
        pd_mul_rows_inj hd (mem_range.mp hi) (mem_range.mp hj)
    obtain ⟨b, idx, hb, -, hfilled, -⟩ := reinsert_spec inOut v2 (rows d * cols)
    refine ⟨b, by rw [h1, bind_some, h2, map_some, hb], fun k hk hfull => ?_⟩
    -- the unmarked places are the full ones
    have hfree : ∀ k < cols * rows d, v2 k = 0 ↔ Full (block d) (cols * rows d) k := by
      intro k hk
      rw [full_block_iff d hk, ← pd_mul_rows_iff hd hk]
      constructor
      · rintro hk0 ⟨i, hi, rfl⟩
        rw [hmark i (mem_range.mpr hi)] at hk0
        exact NeZero.ne _ hk0
      · grind
    rw [hfilled k (Nat.mul_comm _ _ ▸ hk) ((hfree k hk).mpr hfull),
      count_congr fun i hi => hfree i (hi.trans hk)]
  · obtain ⟨b, hb, hcopy, -⟩ := storeRange_zero ((le_cells d).trans (Nat.mul_comm _ _ ▸ hfit))
      inOut vv
    refine ⟨b, hb, fun k hk hfull => ?_⟩
    have hall : ∀ i < cols * rows d, Full (block d) (cols * rows d) i := fun i hi =>
      (full_block_iff d hi).mpr (by omega)
    rw [count_of_forall fun i hi => hall i (hi.trans hk), hcopy k]
    rw [dummies] at *
    omega

/-- **Deinterleaver.** Bit `i` of the stream comes from the value with the number of its place
among the full ones. -/
theorem subblockDeinterleaver_spec (hd : 1 ≤ d) (hin : 3 * d ≤ inputMaxSamples)
    (vv m inOut : ℕ → F) :
    ∃ b, subblockDeinterleaver vv m inOut d = some b ∧ ∀ i < d,
      b i = inOut (count (Full (block d) (cols * rows d))
        (columns.place (rows d) ((padding d).cell i))) := by
  have hfit : ∀ {cap}, 48 * cols ≤ cap → rows d * cols ≤ cap := mul_cols_le hin
  obtain ⟨v1, h1, hval⟩ := addDummies_spec hd hin vv inOut
  -- the matrix, cell by cell
  have hcell : ∀ p ∈ List.range cols ×ˢ List.range (rows d), p.2 * cols + perm p.1 < mfCells := by
    intro p hp
    rw [mem_product, mem_range, mem_range] at hp
    have hcol := perm_lt p.1 hp.1
    calc p.2 * cols + perm p.1 < (p.2 + 1) * cols := by rw [succ_mul]; omega
      _ ≤ rows d * cols := mul_le_mul_right cols hp.2
      _ ≤ mfCells := hfit (by decide)
  have hinj : ∀ p ∈ List.range cols ×ˢ List.range (rows d),
      ∀ q ∈ List.range cols ×ˢ List.range (rows d),
        p.2 * cols + perm p.1 = q.2 * cols + perm q.1 → p = q := by
    intro p hp q hq h
    rw [mem_product, mem_range, mem_range] at hp hq
    have hpcol := perm_lt p.1 hp.1
    have hqcol := perm_lt q.1 hq.1
    have hperm : perm p.1 = perm q.1 := by
      rw [cols] at *
      omega
    refine Prod.ext ?_ (by rw [cols] at *; omega)
    rw [← pd_perm p.1 hp.1, hperm, pd_perm q.1 hq.1]
  obtain ⟨m1, h2, hfill, -⟩ := storeAll_spec _ _ (fun p => v1 (p.1 * rows d + p.2)) m hcell hinj
  obtain ⟨v2, h3, hread, -⟩ := storeRows_spec
    (show (0 + rows d) * cols ≤ vfCells by rw [zero_add]; exact hfit (by decide))
    (fun i j => m1 (i * cols + j)) v1
  obtain ⟨b, hb, hdrop, -⟩ := storeRange_zero
    (show d ≤ vfCells from (le_cells d).trans (Nat.mul_comm _ _ ▸ hfit (by decide)))
    (fun i => v2 (dummies d + i)) inOut
  refine ⟨b, ?_, fun i hi => ?_⟩
  · rw [subblockDeinterleaver]
    simp [intceil_cols, rows_mul_cols_sub, h1, h2, h3, hb]
  · have hq := (padding d).cell_lt i hi
    have hfull : Full (block d) (cols * rows d) (columns.place (rows d) ((padding d).cell i)) :=
      (full_of_lt (columns.place_lt hq)).mpr ⟨i, interleaved_place hi⟩
    have hq' : (padding d).cell i = dummies d + i := rfl
    rw [← hval _ (columns.place_lt hq) hfull, hdrop i hi, ← hq']
    generalize (padding d).cell i = q at *
    have hcol : q % cols < cols := mod_lt q (by decide)
    have hmem : (pd (q % cols), q / cols) ∈ List.range cols ×ˢ List.range (rows d) := by
      rw [mem_product, mem_range, mem_range]
      exact ⟨pd_lt _ hcol, row_lt hq⟩
    rw [hread q (by rw [zero_add, mul_comm]; exact hq) (by omega)]
    have := hfill _ hmem
    rwa [perm_pd _ hcol] at this

end Receiver

/-! ## Bit selection -/

section Selection

variable {f : ℕ → Option ℕ} {n e : ℕ} {g w : ℕ → Char8}

/-- What a lap ends with: a full output, or all the bits of `r + 1` laps. -/
def LapEnd (f : ℕ → Option ℕ) (n : ℕ) (g : ℕ → Char8) (e r : ℕ)
    (res : ℕ × (ℕ → Char8) × Bool) : Prop :=
  if res.2.2 then Selected f n g e res.2.1
  else res.1 = Nat.count (Full f n) ((r + 1) * n) ∧ Selected f n g res.1 res.2.1 ∧ res.1 < e

variable {out : ℕ → Char8} {fuel : ℕ}

lemma selectionLap_spec (hw : Filled f n g w) (r : ℕ) {i m : ℕ} (hm : i + m = n)
    (hsel : Selected f n g (count (Full f n) (r * n + i)) out)
    (hlt : count (Full f n) (r * n + i) < e) :
    LapEnd f n g e r (selectionLap w e (List.range' i m) (count (Full f n) (r * n + i)) out) := by
  induction m generalizing i out with
  | zero =>
    obtain rfl : i = n := hm
    rw [← succ_mul] at *
    exact ⟨rfl, hsel, hlt⟩
  | succ m ih =>
    have hi : i < n := by omega
    have hplace : (r * n + i) % n = i := by
      rw [add_comm, add_mul_mod_self_right, mod_eq_of_lt hi]
    rw [range'_succ, selectionLap]
    cases hf : f i with
    | none =>
      have hnext := count_succ_gap (hplace.symm ▸ hf : f ((r * n + i) % n) = none)
      rw [if_neg (not_not.mpr (hw.gap hi hf)), ← hnext]
      rw [← hnext] at hsel hlt
      exact ih (by omega) hsel hlt
    | some p =>
      have hfp : f ((r * n + i) % n) = some p := by rw [hplace, hf]
      have hstore := hsel.store hfp
      rw [if_pos (hw.bit hi hf).2, (hw.bit hi hf).1]
      split
      · rename_i hfull
        rw [hfull] at hstore
        exact hstore
      · rw [← count_succ_full hfp] at hstore ⊢
        exact ih (by omega) hstore (lt_of_le_of_ne (count_succ_full hfp ▸ hlt)
          (count_succ_full hfp ▸ ‹_›))

lemma bitSelection_laps (hw : Filled f n g w) (hpos : 0 < count (Full f n) n) {r : ℕ}
    (hfuel : e < fuel + count (Full f n) (r * n)) (hle : count (Full f n) (r * n) ≤ e)
    (hsel : Selected f n g (count (Full f n) (r * n)) out) :
    ∃ out', bitSelection fuel w n e (count (Full f n) (r * n)) out = some out' ∧
      Selected f n g e out' := by
  induction fuel generalizing r out with
  | zero => omega
  | succ fuel ih =>
    rw [bitSelection]
    split
    · have hend := selectionLap_spec (i := 0) hw r (zero_add n) hsel ‹_›
      rw [add_zero, ← range_eq_range'] at hend
      split
      · rename_i hlap
        rw [hlap] at hend
        exact ⟨_, rfl, hend⟩
      · rename_i hlap
        rw [hlap] at hend
        obtain ⟨rfl, hmore, hlt⟩ := hend
        have hlap := count_next_lap (f := f) (n := n) r
        exact ih (by omega) hlt.le hmore
    · have heq : count (Full f n) (r * n) = e := by omega
      exact ⟨out, rfl, heq ▸ hsel⟩

/-- **Bit selection** returns, and has copied the bits of the full places in turn. -/
theorem bitSelection_spec (hw : Filled f n g w) (hpos : 0 < count (Full f n) n)
    (hfuel : e < fuel) (out : ℕ → Char8) :
    ∃ out', bitSelection fuel w n e 0 out = some out' ∧ Selected f n g e out' := by
  have hzero : count (Full f n) (0 * n) = 0 := by rw [zero_mul, count_zero]
  have hlaps : ∃ out', bitSelection fuel w n e (count (Full f n) (0 * n)) out = some out' ∧
      Selected f n g e out' :=
    bitSelection_laps hw hpos (by rwa [hzero]) (by omega) (by rw [hzero]; exact Selected.zero)
  rwa [hzero] at hlaps

end Selection

/-! ## The collected blocks -/

/-- The coded bit at place `c` of the three blocks, `none` for a dummy. -/
def source (d c : ℕ) : Option ℕ :=
  (block d (c % (cols * rows d))).map fun i => 3 * i + c / (cols * rows d)

def selected (d : ℕ) : List ℕ := picked (source d) (3 * (cols * rows d))

lemma cells_pos (d : ℕ) : 0 < cols * rows d := mul_pos (by decide) (rows_pos d)

def placeOf (d s i : ℕ) : ℕ := s * (cols * rows d) + columns.place (rows d) ((padding d).cell i)

lemma placeOf_lt (hs : s < 3) (hi : i < d) : placeOf d s i < 3 * (cols * rows d) := by
  have hplace := columns.place_lt ((padding d).cell_lt i hi)
  calc placeOf d s i < (s + 1) * (cols * rows d) := by rw [placeOf, succ_mul]; omega
    _ ≤ 3 * (cols * rows d) := mul_le_mul_right _ hs

lemma block_place (hi : i < d) :
    block d (columns.place (rows d) ((padding d).cell i)) = some i := interleaved_place hi

lemma source_placeOf (s : ℕ) (hi : i < d) : source d (placeOf d s i) = some (3 * i + s) := by
  have hplace := columns.place_lt ((padding d).cell_lt i hi)
  rw [source, placeOf, mul_add_mod', mod_eq_of_lt hplace, block_place hi,
    mul_comm s, mul_add_div (cells_pos d), div_eq_of_lt hplace]
  rfl

lemma eq_placeOf (h : source d c = some p) :
    ∃ i < d, p = 3 * i + c / (cols * rows d) ∧ c = placeOf d (c / (cols * rows d)) i := by
  obtain ⟨i, hblock, rfl⟩ := map_eq_some_iff.mp h
  obtain ⟨hi, hplace⟩ := eq_place_of_interleaved (mod_lt c (cells_pos d)) hblock
  refine ⟨i, hi, rfl, ?_⟩
  rw [placeOf, ← hplace, div_add_mod']

lemma source_unique (hc : c < 3 * (cols * rows d)) (h : source d c = some p) :
    p < 3 * d ∧ c = placeOf d (p % 3) (p / 3) := by
  obtain ⟨i, hi, rfl, hplace⟩ := eq_placeOf h
  have hs : c / (cols * rows d) < 3 := Nat.div_lt_of_lt_mul (mul_comm _ 3 ▸ hc)
  generalize c / (cols * rows d) = s at *
  refine ⟨by omega, ?_⟩
  rw [hplace, mul_add_mod, mod_eq_of_lt hs, mul_add_div (by decide), div_eq_of_lt hs, add_zero]

lemma selected_perm (d : ℕ) : (selected d).Perm (List.range (3 * d)) := by
  refine picked_perm_range (fun c hc c' hc' p h h' => ?_) fun p => ⟨?_, fun hp => ?_⟩
  · rw [(source_unique hc h).2, (source_unique hc' h').2]
  · rintro ⟨c, hc, h⟩
    exact (source_unique hc h).1
  · refine ⟨placeOf d (p % 3) (p / 3), placeOf_lt (mod_lt p (by decide)) (by omega), ?_⟩
    rw [source_placeOf (p % 3) (by omega), div_add_mod]

lemma full_source (d : ℕ) :
    Full (source d) (3 * (cols * rows d)) = Full (block d) (cols * rows d) := by
  funext c
  rw [Full, Full, source, mod_mod_of_dvd c ⟨3, mul_comm _ _⟩, isSome_map]

lemma count_placeOf (s i : ℕ) : count (Full (source d) (3 * (cols * rows d))) (placeOf d s i) =
      s * d + count (Full (block d) (cols * rows d))
        (columns.place (rows d) ((padding d).cell i)) := by
  simp only [full_source]
  rw [placeOf, count_laps, count_interleaved]

lemma count_place_lt (hi : i < d) :
    count (Full (block d) (cols * rows d)) (columns.place (rows d) ((padding d).cell i)) < d := by
  have hplace := columns.place_lt ((padding d).cell_lt i hi)
  have hfull : Full (block d) (cols * rows d) (columns.place (rows d) ((padding d).cell i)) :=
    (full_of_lt hplace).mpr ⟨i, block_place hi⟩
  exact (count_strict_mono hfull hplace).trans_eq count_interleaved

lemma mem_take_selected {e : ℕ} (hs : s < 3) (hi : i < d) : 3 * i + s ∈ (selected d).take e ↔
      count (Full (source d) (3 * (cols * rows d))) (placeOf d s i) < e := by
  rw [selected, mem_take_picked]
  constructor
  · rintro ⟨c, hc, hsource, hlt⟩
    have hplace := (source_unique hc hsource).2
    rw [mul_add_mod, mod_eq_of_lt hs, mul_add_div (by decide), div_eq_of_lt hs, add_zero] at hplace
    rwa [← hplace]
  · exact fun hlt => ⟨_, placeOf_lt hs hi, source_placeOf s hi, hlt⟩

lemma count_source (d : ℕ) :
    count (Full (source d) (3 * (cols * rows d))) (3 * (cols * rows d)) = 3 * d := by
  rw [← length_picked le_rfl]
  exact (selected_perm d).length_eq.trans length_range

/-! ## Both ends -/

lemma collected_filled (hbits : ∀ p < 3 * d, input p ≠ dummyBit)
    {v blocks : Streams Char8} {w : ℕ → Char8} (hstream : ∀ s, ∀ i < d, v s i = input (3 * i + s))
    (hblock : ∀ s, ∀ k < cols * rows d, blocks s k = ((block d k).map (v s)).getD dummyBit)
    (hw : ∀ c < 3 * (cols * rows d),
      w c = blocks (Fin.ofNat 3 (c / (cols * rows d))) (c % (cols * rows d))) :
    Filled (source d) (3 * (cols * rows d)) input w := by
  have hcell : ∀ c < 3 * (cols * rows d), w c =
      ((block d (c % (cols * rows d))).map (v (Fin.ofNat 3 (c / (cols * rows d))))).getD
        dummyBit := fun c hc => by
    rw [hw c hc, hblock _ _ (mod_lt c (cells_pos d))]
  refine ⟨fun hc hgap => ?_, fun {c p} hc hbit => ?_⟩
  · rw [hcell _ hc, map_eq_none_iff.mp hgap]
    rfl
  · obtain ⟨i, hi, hp⟩ := map_eq_some_iff.mp hbit
    have hlt := (source_unique hc hbit).1
    have hs : c / (cols * rows d) < 3 := Nat.div_lt_of_lt_mul (mul_comm _ 3 ▸ hc)
    have hval : w c = input p := by
      rw [hcell c hc, hi, ← hp]
      have hlen := (eq_place_of_interleaved (mod_lt c (cells_pos d)) hi).1
      refine (hstream _ i hlen).trans ?_
      rw [Fin.val_ofNat, mod_eq_of_lt hs]
    exact ⟨hval, hval ▸ hbits p hlt⟩

/-- **Transmitter.** It returns, and has sent the bits of the full places in turn. -/
theorem rateMatching_spec (hd : 1 ≤ d) (hin : 3 * d ≤ inputMaxSamples) {e fuel : ℕ}
    (hfuel : e < fuel) (mem : TxMem)
    (hbits : ∀ p < 3 * d, input p ≠ dummyBit) (output : ℕ → Char8) :
    ∃ sent, rateMatching fuel mem input output (3 * d) e = some sent ∧
      Selected (source d) (3 * (cols * rows d)) input e sent := by
  have hfit : cols * rows d ≤ cols * 48 := mul_le_mul_left cols (rows_le hin)
  obtain ⟨v, hv, hstream⟩ := charUnwrap_spec
    (show d ≤ vCells from (le_cells d).trans (hfit.trans (by decide))) input mem.v
  have hcalls : ∀ s, ∃ r, subblockInterleaver (mem.m s) (v s) d = some r ∧ r.2 = cols * rows d ∧
      ∀ k < cols * rows d, r.1 k = ((block d k).map (v s)).getD dummyBit := fun s => by
    obtain ⟨b, hb, hspec⟩ := subblockInterleaver_spec hd hin (mem.m s) (v s)
    exact ⟨_, hb, rfl, hspec⟩
  obtain ⟨blocks, hblocks, hblock⟩ := eachStream_spec hcalls
  obtain ⟨w, hw, hcollect, -⟩ := storeRows_spec
    (show (0 + 3) * (cols * rows d) ≤ wCells from (mul_le_mul_left 3 hfit).trans (by decide))
    (fun i j => (blocks (Fin.ofNat 3 i)).1 j) mem.w
  have hfilled := collected_filled hbits hstream (fun s => (hblock s).2)
    fun c hc => hcollect c hc (by omega)
  obtain ⟨sent, hsent, hsel⟩ := bitSelection_spec hfilled (by rw [count_source]; omega) hfuel output
  refine ⟨sent, ?_, hsel⟩
  rw [rateMatching, hv, bind_some]
  dsimp only
  rw [hblocks, bind_some, (hblock 2).1, hw, bind_some, hsent]

section RoundTrip

variable {F : Type} [Zero F] [OfNat F 2] [NeZero (2 : F)] [DecidableEq F]

/-- **Receiver.** Bit `3 * i + s` comes from the received value with the number of its place, and
is zero if there is none. -/
theorem rateUnmatching_spec (hd : 1 ≤ d) (hin : 3 * d ≤ inputMaxSamples) {e : ℕ}
    (he : e ≤ outputMaxSamples) (mem : RxMem F) (input output : ℕ → F) :
    ∃ got, rateUnmatching mem input output e (3 * d) = some (got, 3 * d) ∧
      ∀ s < 3, ∀ i < d, got (3 * i + s) =
        if count (Full (source d) (3 * (cols * rows d))) (placeOf d s i) < e then
          input (Nat.count (Full (source d) (3 * (cols * rows d))) (placeOf d s i))
        else 0 := by
  have hkw : 3 * d / 3 = d := Nat.mul_div_cancel_left d (by decide)
  obtain ⟨w1, h1, hrecv, -⟩ := storeRange_zero (show e ≤ wfCells from he) input mem.w
  -- what was not received is zero
  obtain ⟨w, hw, hval⟩ : ∃ w, (if 3 * d > e then
      storeRange wfCells e (3 * d - e) (fun _ => (0 : F)) w1 else some w1) = some w ∧
      ∀ n < 3 * d, w n = if n < e then input n else 0 := by
    split
    · obtain ⟨w, hw, hzero, hkeep⟩ := storeRange_spec
        (show e + (3 * d - e) ≤ wfCells from (Nat.add_sub_cancel' (by omega)).trans_le hin)
        (fun _ => (0 : F)) w1
      refine ⟨w, hw, fun n hn => ?_⟩
      split
      · rw [hkeep n (.inl ‹_›), hrecv n ‹_›]
      · have := hzero (n - e) (by omega)
        rwa [Nat.add_sub_cancel' (by omega)] at this
    · exact ⟨w1, rfl, fun n hn => by rw [if_pos (by omega), hrecv n (by omega)]⟩
  have hfit : d ≤ vfCells :=
    (le_cells d).trans ((mul_le_mul_left cols (rows_le hin)).trans (by decide))
  obtain ⟨v1, hv1, hsplit⟩ := eachStream_spec fun s =>
    storeRange_zero hfit (fun j => w (s * d + j)) (mem.v s)
  obtain ⟨v2, hv2, hdeint⟩ := eachStream_spec fun s =>
    subblockDeinterleaver_spec hd hin (mem.vv s) (mem.m s) (v1 s)
  obtain ⟨got, hgot, hwrap, -⟩ := floatWrap_spec (show 3 * d ≤ outputMaxSamples from hin) v2 output
  refine ⟨got, ?_, fun s hs i hi => ?_⟩
  · rw [rateUnmatching, hkw, h1, bind_some, hw, bind_some, hv1, bind_some, hv2,
      bind_some, hgot, mul_comm]
    rfl
  · have hlt := count_place_lt hi
    have hnumber := mul_le_mul_right d (le_of_lt_succ hs)
    rw [hwrap ⟨s, hs⟩ i hi, hdeint _ i hi, (hsplit _).1 _ hlt, hval _ (by dsimp only; omega),
      count_placeOf]

/-- **Control channel rate matching round trip.** With three streams of `d` bits and `e` bits on the
channel, one lap selects every coded bit once, the selected bits are sent in turn, and the receiver
puts the first `e` of them back in their places and zero in the others; all of them from `3 * d` on.
-/
theorem rate_matching_round_trip (d e fuel : ℕ) (hd : 1 ≤ d) (hin : 3 * d ≤ inputMaxSamples)
    (hout : 3 * d ≤ outputMaxSamples ∧ e ≤ outputMaxSamples) (hfuel : e < fuel) (tx : TxMem)
    (rx : RxMem F) (input txOut : ℕ → Char8) (hbits : ∀ p < 3 * d, input p ≠ dummyBit)
    (soft : Char8 → F) (rxOut : ℕ → F) :
    (selected d).Perm (List.range (3 * d)) ∧
      ∃ sent, rateMatching fuel tx input txOut (3 * d) e = some sent ∧
        (∀ k < e, ((selected d)[k % (3 * d)]?).map input = some (sent k)) ∧
        ∀ received : ℕ → F, (∀ k < e, received k = soft (sent k)) →
          ∃ got, rateUnmatching rx received rxOut e (3 * d) = some (got, 3 * d) ∧
            (∀ p < 3 * d, got p = if p ∈ (selected d).take e then soft (input p) else 0) ∧
            (3 * d ≤ e → ∀ p < 3 * d, got p = soft (input p)) := by
  obtain ⟨sent, hsent, hsel⟩ := rateMatching_spec hd hin hfuel tx hbits txOut
  refine ⟨selected_perm d, sent, hsent, fun k hk => ?_, fun received hreceived => ?_⟩
  · have hpos : 0 < count (Full (source d) (3 * (cols * rows d))) (3 * (cols * rows d)) := by
      rw [count_source]
      omega
    have hget := hsel.getElem hpos hk
    rwa [count_source] at hget
  obtain ⟨got, hgot, hval⟩ := rateUnmatching_spec hd hin hout.2 rx received rxOut
  have hback : ∀ p < 3 * d, got p = if p ∈ (selected d).take e then soft (input p) else 0 := by
    intro p hp
    obtain ⟨i, s, hi, hs, rfl⟩ : ∃ i s, i < d ∧ s < 3 ∧ p = 3 * i + s :=
      ⟨p / 3, p % 3, by omega, mod_lt p (by decide), (div_add_mod p 3).symm⟩
    rw [hval s hs i hi]
    by_cases hlt : count (Full (source d) (3 * (cols * rows d))) (placeOf d s i) < e
    · have hplace : source d (placeOf d s i % (3 * (cols * rows d))) = some (3 * i + s) := by
        rw [mod_eq_of_lt (placeOf_lt hs hi), source_placeOf s hi]
      rw [if_pos hlt, if_pos ((mem_take_selected hs hi).mpr hlt), hreceived _ hlt,
        hsel _ _ hplace hlt]
    · rw [if_neg hlt, if_neg (mt (mem_take_selected hs hi).mp hlt)]
  refine ⟨got, hgot, hback, fun hall p hp => ?_⟩
  rw [hback p hp, take_of_length_le (by rwa [(selected_perm d).length_eq, length_range]),
    if_pos ((selected_perm d).mem_iff.mpr (mem_range.mpr hp))]

theorem rate_matching_round_trip_seven : (selected 2).Perm (List.range 6) ∧
      ∃ sent, rateMatching 8 ⟨fun _ _ => 0, fun _ => 0, fun _ _ => 0⟩ (fun p =>
      BitVec.ofNat 8 (p % 2)) (fun _ => 0) 6 7 = some sent ∧
        (∀ k < 7, ((selected 2)[k % 6]?).map (fun p => BitVec.ofNat 8 (p % 2)) = some (sent k)) ∧
        ∀ received : ℕ → ℤ, (∀ k < 7, received k = 1 - 2 * (sent k).toNat) →
          ∃ got, rateUnmatching ⟨fun _ _ => 5, fun _ _ => 5, fun _ => 5, fun _ _ => 5⟩ received
              (fun _ => 5) 7 6 = some (got, 6) ∧
            (∀ p < 6, got p = if p ∈ (selected 2).take 7 then
              1 - 2 * ((BitVec.ofNat 8 (p % 2)).toNat : ℤ) else 0) ∧
            (6 ≤ 7 → ∀ p < 6, got p = 1 - 2 * ((BitVec.ofNat 8 (p % 2)).toNat : ℤ)) :=
  rate_matching_round_trip 2 7 8 (by decide) (by decide) (by decide) (by decide) _ _ _ _ (by decide)
    (fun b => 1 - 2 * (b.toNat : ℤ)) _

end RoundTrip

end Aloe.Modrep.CtrlRatematching
