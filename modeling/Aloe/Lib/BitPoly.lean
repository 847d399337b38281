import Mathlib.Algebra.Field.ZMod
import Mathlib.Algebra.Polynomial.Div
import Mathlib.RingTheory.Coprime.Lemmas

/-!
# Words, bit strings and remainder codes over GF(2)

Bit `i` of a word is the coefficient of `X ^ i`; a bit string is read with its first bit as the
highest coefficient. Exclusive or is addition, and a shift to the left that loses no bit is
multiplication by a power of `X`.

A monic polynomial `g` of degree `n` protects a message `m` by the remainder of `m * X ^ n`: the
codeword is a multiple of `g`, which the receiver tests for. If the constant term of `g` is a unit,
a burst `e * X ^ k` with `e` of degree below `n` is never a multiple of `g`.
-/

namespace Aloe.Lib

open Polynomial List

variable {R : Type} [CommRing R]

/-- The check digits of the message `m`. -/
noncomputable def checksum (g : R[X]) (n : ℕ) (m : R[X]) : R[X] := (m * X ^ n) %ₘ g

variable {g : R[X]} {n : ℕ}

lemma checksum_add (m e : R[X]) : checksum g n (m + e) = checksum g n m + checksum g n e := by
  rw [checksum, add_mul, add_modByMonic, checksum, checksum]

lemma checksum_eq_zero_of_dvd (hg : g.Monic) {m : R[X]} (h : g ∣ m) : checksum g n m = 0 :=
  (modByMonic_eq_zero_iff_dvd hg).mpr (h.mul_right _)

lemma dvd_codeword (g : R[X]) (n : ℕ) (m : R[X]) : g ∣ m * X ^ n - checksum g n m :=
  ⟨m * X ^ n /ₘ g, by rw [checksum, modByMonic_eq_sub_mul_div]; ring⟩

lemma eq_checksum [Nontrivial R] (hg : g.Monic) {m r : R[X]} (hdegree : r.degree < g.degree)
    (hdvd : g ∣ r - m * X ^ n) : r = checksum g n m := by
  rw [checksum, ← modByMonic_eq_of_dvd_sub hg hdvd]
  exact ((modByMonic_eq_self_iff hg).mpr hdegree).symm

lemma isCoprime_X_of_isUnit_coeff_zero (hunit : IsUnit (g.coeff 0)) : IsCoprime g X := by
  obtain ⟨v, hv⟩ := hunit.exists_left_inv
  obtain ⟨q, hq⟩ : X ∣ g - C (g.coeff 0) := X_dvd_sub_C
  refine ⟨C v, -(C v * q), ?_⟩
  calc C v * g + -(C v * q) * X = C v * (g - X * q) := by ring
    _ = C v * C (g.coeff 0) := by rw [← hq, sub_sub_cancel]
    _ = 1 := by rw [← C_mul, hv, C_1]

/-- **Bursts are detected.** -/
theorem checksum_burst_ne_zero (hg : g.Monic) (hn : g.natDegree = n) (hunit : IsUnit (g.coeff 0))
    {e : R[X]} (he : e ≠ 0) (hdegree : e.natDegree < n) (k : ℕ) :
    checksum g n (e * X ^ k) ≠ 0 := by
  intro h
  have hdvd : g ∣ e * X ^ (k + n) := by
    rw [pow_add, ← mul_assoc]
    exact (modByMonic_eq_zero_iff_dvd hg).mp h
  have hcoprime : IsCoprime g (X ^ (k + n)) := (isCoprime_X_of_isUnit_coeff_zero hunit).pow_right
  exact hg.not_dvd_of_natDegree_lt he (hn ▸ hdegree) (hcoprime.dvd_of_dvd_mul_right hdvd)

/-! ## Words and bit strings -/

def bitCoeff (b : Bool) : ZMod 2 := if b then 1 else 0

@[simp] lemma bitCoeff_false : bitCoeff false = 0 := rfl

@[simp] lemma bitCoeff_true : bitCoeff true = 1 := rfl

lemma bitCoeff_xor (a b : Bool) : bitCoeff (a ^^ b) = bitCoeff a + bitCoeff b := by
  cases a <;> cases b <;> decide

lemma bitCoeff_injective : Function.Injective bitCoeff := by
  intro a b
  cases a <;> cases b <;> simp

/-! ## Words -/

variable {w : ℕ}

noncomputable def toPoly (v : BitVec w) : (ZMod 2)[X] :=
  ∑ i ∈ Finset.range w, monomial i (bitCoeff (v.getLsbD i))

/-- No bit at or above `n` is set. -/
def Below (n : ℕ) (v : BitVec w) : Prop := ∀ i, n ≤ i → v.getLsbD i = false

@[simp] lemma coeff_toPoly (v : BitVec w) (i : ℕ) :
    (toPoly v).coeff i = bitCoeff (v.getLsbD i) := by
  simp only [toPoly, finsetSum_coeff, coeff_monomial, Finset.sum_ite_eq', Finset.mem_range]
  split
  · rfl
  · next hi => rw [BitVec.getLsbD_of_ge v i (not_lt.mp hi), bitCoeff_false]

lemma toPoly_injective : Function.Injective (toPoly : BitVec w → (ZMod 2)[X]) := by
  intro u v h
  refine BitVec.eq_of_getLsbD_eq fun i _ => bitCoeff_injective ?_
  rw [← coeff_toPoly, ← coeff_toPoly, h]

@[simp] lemma toPoly_zero : toPoly (0#w) = 0 := by
  ext i
  simp

lemma toPoly_xor (u v : BitVec w) : toPoly (u ^^^ v) = toPoly u + toPoly v := by
  ext i
  rw [coeff_add, coeff_toPoly, coeff_toPoly, coeff_toPoly, BitVec.getLsbD_xor, bitCoeff_xor]

variable {n m : ℕ}

lemma getLsbD_bit (hn : n < w) (i : ℕ) : (1#w <<< n).getLsbD i = decide (i = n) := by
  rw [BitVec.getLsbD_shiftLeft, BitVec.getLsbD_one]
  by_cases hi : i = n
  · subst hi
    simp [hn]
    omega
  · by_cases hlt : i < n
    · simp [hi, hlt]
    · have hne : ¬ i - n = 0 := by omega
      simp [hi, hne]

lemma and_bit_ne_zero (hn : n < w) (v : BitVec w) : v &&& (1#w <<< n) ≠ 0 ↔ v.getLsbD n = true := by
  constructor
  · grind
  · intro hset hzero
    have hbit := congrArg (fun u => u.getLsbD n) hzero
    simp [BitVec.getLsbD_and, getLsbD_bit hn, hset] at hbit

variable {v : BitVec w}

lemma toPoly_or_bit (hn : n < w) (hv : v.getLsbD n = false) :
    toPoly (v ||| (1#w <<< n)) = toPoly v + X ^ n := by
  ext i
  rw [coeff_add, coeff_toPoly, coeff_toPoly, coeff_X_pow, BitVec.getLsbD_or, getLsbD_bit hn]
  by_cases hi : i = n
  · simp [hi, hv]
  · simp [hi]

lemma toPoly_shiftLeft (hv : Below m v) (hmn : m + n ≤ w) :
    toPoly (v <<< n) = toPoly v * X ^ n := by
  ext i
  rw [coeff_toPoly, coeff_mul_X_pow', BitVec.getLsbD_shiftLeft]
  by_cases hni : n ≤ i
  · rw [if_pos hni, coeff_toPoly]
    by_cases hiw : i < w
    · simp [hiw, not_lt.mpr hni]
    · have hout : v.getLsbD (i - n) = false := hv (i - n) (by omega)
      simp [hiw, hout]
  · simp [hni, not_le.mp hni]

lemma toPoly_setWidth (hv : Below m v) : toPoly (v.setWidth m) = toPoly v := by
  ext i
  by_cases hi : i < m
  · simp [hi]
  · simp [hi, hv i (not_lt.mp hi)]

lemma degree_toPoly_lt (hv : Below m v) : (toPoly v).degree < m := by
  refine (degree_lt_iff_coeff_zero _ _).mpr fun i hi => ?_
  rw [coeff_toPoly, hv i hi, bitCoeff_false]

lemma below_of_toNat_lt (h : v.toNat < 2 ^ m) : Below m v := by
  intro i hi
  exact Nat.testBit_lt_two_pow (h.trans_le (Nat.pow_le_pow_right two_pos hi))

namespace Below

variable {m : ℕ} {v : BitVec w}

lemma mono {n : ℕ} (hv : Below m v) (hmn : m ≤ n) : Below n v := fun i hi => hv i (hmn.trans hi)

lemma xor {u : BitVec w} (hu : Below m u) (hv : Below m v) : Below m (u ^^^ v) :=
  fun i hi => by rw [BitVec.getLsbD_xor, hu i hi, hv i hi, Bool.xor_self]

lemma shiftLeft (hv : Below m v) (n : ℕ) : Below (m + n) (v <<< n) := by
  intro i hi
  rw [BitVec.getLsbD_shiftLeft, hv (i - n) (by omega), Bool.and_false]

end Below

lemma shiftLeft_shiftRight (hv : Below (w - n) v) : (v <<< n) >>> n = v := by
  refine BitVec.eq_of_getLsbD_eq fun i hi => ?_
  rw [BitVec.getLsbD_ushiftRight, BitVec.getLsbD_shiftLeft]
  by_cases hin : n + i < w
  · simp [hin]
  · simp [hin, hv i (by omega)]

/-! ## Bit strings -/

noncomputable def ofBits (bs : List Bool) : (ZMod 2)[X] :=
  bs.foldl (fun p b => p * X + C (bitCoeff b)) 0

@[simp] lemma ofBits_nil : ofBits [] = 0 := rfl

lemma ofBits_concat (bs : List Bool) (b : Bool) :
    ofBits (bs ++ [b]) = ofBits bs * X + C (bitCoeff b) := by
  rw [ofBits, foldl_append]
  rfl

lemma ofBits_append (as bs : List Bool) :
    ofBits (as ++ bs) = ofBits as * X ^ bs.length + ofBits bs := by
  induction bs using List.reverseRecOn with
  | nil => simp
  | append_singleton bs b ih =>
    rw [← append_assoc, ofBits_concat, ih, ofBits_concat, length_append, length_singleton]
    ring

lemma coeff_ofBits (bs : List Bool) (i : ℕ) :
    (ofBits bs).coeff i = bitCoeff (bs.reverse[i]?.getD false) := by
  induction bs using List.reverseRecOn generalizing i with
  | nil => simp
  | append_singleton bs b ih =>
    rw [ofBits_concat, coeff_add, reverse_append, reverse_singleton, singleton_append]
    cases i with
    | zero => simp
    | succ i => simp [coeff_mul_X, ih]

lemma degree_ofBits_lt (bs : List Bool) : (ofBits bs).degree < bs.length := by
  refine (degree_lt_iff_coeff_zero _ _).mpr fun i hi => ?_
  rw [coeff_ofBits, getElem?_eq_none (by simpa using hi)]
  rfl

lemma coeff_ofBits_range (f : ℕ → Bool) (n i : ℕ) :
    (ofBits ((List.range n).map f)).coeff i = if i < n then bitCoeff (f (n - 1 - i)) else 0 := by
  rw [coeff_ofBits, ← map_reverse, getElem?_map]
  split
  · next hi =>
    rw [getElem?_reverse (by simpa using hi), length_range, getElem?_range (by omega)]
    rfl
  · next hi =>
    rw [getElem?_eq_none (by simpa using hi)]
    rfl

/-- The lower `m` bits of a word, the highest first. -/
def lowBits (m : ℕ) (v : BitVec w) : List Bool := (List.range m).map fun j => v.getLsbD (m - 1 - j)

lemma ofBits_lowBits (hv : Below m v) : ofBits (lowBits m v) = toPoly v := by
  ext i
  rw [lowBits, coeff_ofBits_range, coeff_toPoly]
  split
  · next hi => rw [show m - 1 - (m - 1 - i) = i by omega]
  · next hi => rw [hv i (not_lt.mp hi), bitCoeff_false]

lemma ofBits_xor (f g : ℕ → Bool) (n : ℕ) : ofBits ((List.range n).map fun j => f j ^^ g j) =
      ofBits ((List.range n).map f) + ofBits ((List.range n).map g) := by
  ext i
  rw [coeff_add, coeff_ofBits_range, coeff_ofBits_range, coeff_ofBits_range]
  split
  · exact bitCoeff_xor _ _
  · rw [add_zero]

/-- A nonzero string with its ones within `m` consecutive places is a nonzero polynomial of degree
below `m` times a power of `X`. -/
theorem ofBits_burst {f : ℕ → Bool} {a : ℕ} (hwindow : ∀ j, f j = true → a ≤ j ∧ j < a + m)
    (hsome : ∃ j < n, f j = true) :
    ∃ e k, ofBits ((List.range n).map f) = e * X ^ k ∧ e ≠ 0 ∧ e.natDegree < m := by
  obtain ⟨j, hj, hset⟩ := hsome
  set p := ofBits ((List.range n).map f) with hp
  have hclear : ∀ i, (i < n → f (n - 1 - i) = false) → p.coeff i = 0 := by
    intro i hi
    rw [hp, coeff_ofBits_range]
    split
    · next hin => rw [hi hin, bitCoeff_false]
    · rfl
  have hne : p ≠ 0 := by
    intro hzero
    have hcoeff : p.coeff (n - 1 - j) = 1 := by
      rw [hp, coeff_ofBits_range, if_pos (by omega), show n - 1 - (n - 1 - j) = j by omega, hset,
        bitCoeff_true]
    rw [hzero, coeff_zero] at hcoeff
    exact zero_ne_one hcoeff
  -- below the window the coefficients vanish
  obtain ⟨e, he⟩ : X ^ (n - (a + m)) ∣ p := X_pow_dvd_iff.mpr fun i hi => hclear i fun _ =>
    Bool.eq_false_iff.mpr fun hone => by
      have := hwindow _ hone
      omega
  have hdegree : p.natDegree ≤ n - 1 - a := natDegree_le_iff_coeff_eq_zero.mpr fun i hi =>
    hclear i fun _ => Bool.eq_false_iff.mpr fun hone => by
      have := hwindow _ hone
      omega
  have hene : e ≠ 0 := fun hzero => hne (by rw [he, hzero, mul_zero])
  rw [mul_comm] at he
  refine ⟨e, n - (a + m), he, hene, ?_⟩
  rw [he, natDegree_mul_X_pow _ hene] at hdegree
  have := hwindow j hset
  omega

end Aloe.Lib
