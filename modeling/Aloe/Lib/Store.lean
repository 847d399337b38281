import Mathlib.Data.List.Induction
import Mathlib.Data.List.ProdSigma

/-!
# Loops of stores

An array of `cap` cells is a function of the index; what lies behind its end, or has never been
written, is whatever the function says there. A loop that stores `val i` at `idx i`, for the `i`
of a list, is `storeAll`; it fails if one of the stores is outside the array. Where the indices
are distinct the order of the stores does not matter (`storeAll_spec`).
-/

namespace Aloe.Lib

open Function List Nat

variable {ι α : Type}

/-- The stores of a loop, one after the other; `none` if one is out of bounds. -/
def storeAll (cap : ℕ) (l : List ι) (idx : ι → ℕ) (val : ι → α) (a : ℕ → α) : Option (ℕ → α) :=
  if ∀ i ∈ l, idx i < cap then
    some (l.foldl (fun a i => update a (idx i) (val i)) a)
  else none

section Folds

variable {κ : Type} [DecidableEq κ] {l : List ι} {idx : ι → κ} {val : ι → α} {a : κ → α}

lemma foldl_store_of_ne {k : κ} (h : ∀ i ∈ l, idx i ≠ k) :
    l.foldl (fun a i => update a (idx i) (val i)) a k = a k := by
  induction l using List.reverseRecOn with
  | nil => rfl
  | append_singleton l i ih =>
    rw [foldl_append, foldl_cons, foldl_nil, update_of_ne (h i (by simp)).symm]
    exact ih fun j hj => h j (mem_append_left _ hj)

lemma foldl_store_of_mem (hinj : ∀ i ∈ l, ∀ j ∈ l, idx i = idx j → i = j) {i : ι} (hi : i ∈ l) :
    l.foldl (fun a i => update a (idx i) (val i)) a (idx i) = val i := by
  induction l using List.reverseRecOn with
  | nil => cases hi
  | append_singleton l j ih =>
    rw [foldl_append, foldl_cons, foldl_nil]
    by_cases heq : idx i = idx j
    · obtain rfl := hinj i hi j (by simp) heq
      rw [update_self]
    · grind

end Folds

variable {cap n : ℕ}

/-- **Store loop.** Within bounds and at distinct indices, the loop leaves its values where it
put them and nothing else changed. -/
theorem storeAll_spec (l : List ι) (idx : ι → ℕ) (val : ι → α) (a : ℕ → α)
    (hcap : ∀ i ∈ l, idx i < cap) (hinj : ∀ i ∈ l, ∀ j ∈ l, idx i = idx j → i = j) :
    ∃ b, storeAll cap l idx val a = some b ∧ (∀ i ∈ l, b (idx i) = val i) ∧
      ∀ k, (∀ i ∈ l, idx i ≠ k) → b k = a k :=
  ⟨_, if_pos hcap, fun _ hi => foldl_store_of_mem hinj hi, fun _ hk => foldl_store_of_ne hk⟩

lemma lt_of_storeAll {l : List ι} {idx : ι → ℕ} {val : ι → α} {a b : ℕ → α}
    (h : storeAll cap l idx val a = some b) : ∀ i ∈ l, idx i < cap :=
  (Option.ite_none_right_eq_some.mp h).1

/-- A loop, or a `memcpy`, over the `n` cells from `k` on. -/
def storeRange (cap k n : ℕ) (val : ℕ → α) (a : ℕ → α) : Option (ℕ → α) :=
  storeAll cap (List.range n) (fun i => k + i) val a

lemma storeRange_spec {k : ℕ} (hcap : k + n ≤ cap) (val : ℕ → α) (a : ℕ → α) :
    ∃ b, storeRange cap k n val a = some b ∧
      (∀ i < n, b (k + i) = val i) ∧ ∀ j, j < k ∨ k + n ≤ j → b j = a j := by
  have hin : ∀ i ∈ List.range n, k + i < cap := fun i hi => by
    rw [mem_range] at hi
    omega
  obtain ⟨b, hb, hval, hrest⟩ := storeAll_spec (List.range n) (fun i => k + i) val a hin
    fun i _ j _ h => Nat.add_left_cancel h
  refine ⟨b, hb, fun i hi => hval i (mem_range.mpr hi), fun j hj => hrest j fun i hi => ?_⟩
  rw [mem_range] at hi
  omega

lemma storeRange_zero (hcap : n ≤ cap) (val : ℕ → α) (a : ℕ → α) :
    ∃ b, storeRange cap 0 n val a = some b ∧ (∀ i < n, b i = val i) ∧ ∀ j, n ≤ j → b j = a j := by
  obtain ⟨b, hb, hval, hrest⟩ := storeRange_spec (k := 0) (Nat.zero_add n ▸ hcap) val a
  refine ⟨b, hb, fun i hi => ?_, fun j hj => hrest j (.inr (by omega))⟩
  simpa only [Nat.zero_add] using hval i hi

/-- A loop over the rows `r` to `r + n - 1` of a matrix with `cols` columns, row by row. -/
def storeRows (cap r n cols : ℕ) (val : ℕ → ℕ → α) (a : ℕ → α) : Option (ℕ → α) :=
  storeAll cap (List.range' r n ×ˢ List.range cols) (fun p => p.1 * cols + p.2)
    (fun p => val p.1 p.2) a

lemma storeRows_spec {r cols : ℕ} (hcap : (r + n) * cols ≤ cap) (val : ℕ → ℕ → α) (a : ℕ → α) :
    ∃ b, storeRows cap r n cols val a = some b ∧
      (∀ k < (r + n) * cols, r * cols ≤ k → b k = val (k / cols) (k % cols)) ∧
      ∀ k < r * cols, b k = a k := by
  have hmem : ∀ p ∈ List.range' r n ×ˢ List.range cols, (r ≤ p.1 ∧ p.1 < r + n) ∧ p.2 < cols := by
    intro p hp
    rwa [mem_product, mem_range'_1, mem_range] at hp
  have hin : ∀ p ∈ List.range' r n ×ˢ List.range cols, p.1 * cols + p.2 < cap := by
    intro p hp
    obtain ⟨⟨-, hrow⟩, hcol⟩ := hmem p hp
    calc p.1 * cols + p.2 < (p.1 + 1) * cols := by rw [Nat.succ_mul]; omega
      _ ≤ (r + n) * cols := mul_le_mul_right cols hrow
      _ ≤ cap := hcap
  have hinj : ∀ p ∈ List.range' r n ×ˢ List.range cols, ∀ q ∈ List.range' r n ×ˢ List.range cols,
      p.1 * cols + p.2 = q.1 * cols + q.2 → p = q := by
    intro p hp q hq h
    have hcol := (hmem p hp).2
    have hcol' := (hmem q hq).2
    have hmod : p.2 = q.2 := by
      have := congrArg (· % cols) h
      simpa only [mul_add_mod', mod_eq_of_lt hcol, mod_eq_of_lt hcol'] using this
    have hrow : p.1 * cols = q.1 * cols := by omega
    exact Prod.ext (eq_of_mul_eq_mul_right (by omega) hrow) hmod
  obtain ⟨b, hb, hval, hrest⟩ := storeAll_spec _ _ (fun p => val p.1 p.2) a hin hinj
  refine ⟨b, hb, fun k hk hrk => ?_, fun k hk => hrest k fun p hp => ?_⟩
  · have hcols : 0 < cols := Nat.pos_of_ne_zero fun h => by simp [h] at hk
    have hcell := hval (k / cols, k % cols) (by
      rw [mem_product, mem_range'_1, mem_range]
      exact ⟨⟨(le_div_iff_mul_le hcols).mpr hrk, (div_lt_iff_lt_mul hcols).mpr hk⟩, mod_lt k hcols⟩)
    rwa [div_add_mod'] at hcell
  · obtain ⟨⟨hrow, -⟩, -⟩ := hmem p hp
    have := mul_le_mul_right cols hrow
    omega

end Aloe.Lib
