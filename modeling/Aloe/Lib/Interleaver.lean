import Mathlib.Data.Nat.Count

/-!
# Block interleavers, and selecting from a walk with gaps

A buffer is walked from its first place, over and over; `f c` is what place `c` holds, `none` for a
gap. A sender copies what it meets, gaps skipped. The number under which a place is copied is the
number of full places before it, so a receiver that counts the same gaps knows where each copy comes
from. `picked f n` is what one lap meets, and the copies are its elements, again and again.

A block is written into a matrix of `cols` columns row by row; the columns are permuted and the
matrix is read column by column. `index rows k` is the place in the block that the `k`-th element
read comes from, and `place rows q`, its inverse, is where element `q` of the block is read. Cells
beyond the block are padding: `Padding` says which cell holds which value, and `interleaved` what is
read at each place, a gap for padding.
-/

namespace Aloe.Lib

open List Nat

variable {α β : Type}

/-- What one lap over `n` places meets, in order. -/
def picked (f : ℕ → Option α) (n : ℕ) : List α := (List.range n).filterMap f

/-- Place `i` of the endless walk is full. -/
def Full (f : ℕ → Option α) (n i : ℕ) : Prop := (f (i % n)).isSome

instance (f : ℕ → Option α) (n : ℕ) : DecidablePred (Full f n) :=
  fun i => inferInstanceAs (Decidable ((f (i % n)).isSome = true))

variable {m i : ℕ}

lemma count_congr {p q : ℕ → Prop} [DecidablePred p] [DecidablePred q]
    (h : ∀ i < m, p i ↔ q i) : count p m = count q m := by
  induction m with
  | zero => rfl
  | succ m ih =>
    rw [count_succ, count_succ, ih fun i hi => h i (hi.trans m.lt_succ_self)]
    simp only [h m m.lt_succ_self]

variable {f : ℕ → Option α} {n : ℕ}

lemma full_iff : Full f n i ↔ ∃ p, f (i % n) = some p := Option.isSome_iff_exists

variable {c : ℕ} {p : α}

lemma full_of_lt (hc : c < n) : Full f n c ↔ ∃ p, f c = some p := by
  rw [full_iff, mod_eq_of_lt hc]

lemma count_succ_full (h : f (i % n) = some p) :
    count (Full f n) (i + 1) = count (Full f n) i + 1 := by
  rw [count_succ, if_pos (full_iff.mpr ⟨p, h⟩)]

lemma count_succ_gap (h : f (i % n) = none) : count (Full f n) (i + 1) = count (Full f n) i := by
  have hgap : ¬ Full f n i := fun hfull => by
    obtain ⟨p, hp⟩ := full_iff.mp hfull
    rw [h] at hp
    cases hp
  rw [count_succ, if_neg hgap]
  rfl

/-! ## One lap -/

lemma picked_succ (f : ℕ → Option α) (n : ℕ) : picked f (n + 1) = picked f n ++ (f n).toList := by
  rw [picked, range_succ, filterMap_append, picked]
  cases hf : f n <;> simp [hf]

lemma length_picked (hm : m ≤ n) : (picked f m).length = count (Full f n) m := by
  induction m with
  | zero => rfl
  | succ m ih =>
    have hplace : m % n = m := mod_eq_of_lt hm
    rw [picked_succ, length_append, ih (by omega)]
    cases hf : f m with
    | none => rw [count_succ_gap (by rw [hplace, hf])]; rfl
    | some p => rw [count_succ_full (by rw [hplace, hf])]; rfl

lemma picked_getElem (hm : m ≤ n) (hc : c < m) (hp : f c = some p) :
    (picked f m)[count (Full f n) c]? = some p := by
  induction m with
  | zero => cases hc
  | succ m ih =>
    rw [picked_succ]
    rcases Nat.lt_succ_iff_lt_or_eq.mp hc with hlt | rfl
    · exact getElem?_append_left (List.getElem?_eq_some_iff.mp (ih (by omega) hlt)).1
        ▸ ih (by omega) hlt
    · rw [← length_picked (by omega), getElem?_append_right le_rfl, Nat.sub_self, hp]
      rfl

lemma exists_count_eq {P : ℕ → Prop} [DecidablePred P] {t : ℕ} (ht : t < count P m) :
    ∃ c < m, P c ∧ count P c = t := by
  induction m with
  | zero => simp at ht
  | succ m ih => grind

lemma mem_take_picked {e : ℕ} :
    p ∈ (picked f n).take e ↔ ∃ c < n, f c = some p ∧ count (Full f n) c < e := by
  constructor
  · intro hmem
    obtain ⟨t, ht, hget⟩ := mem_iff_getElem.mp hmem
    rw [getElem_take] at hget
    rw [length_take, lt_min_iff, length_picked le_rfl] at ht
    obtain ⟨c, hc, hfull, rfl⟩ := exists_count_eq ht.2
    obtain ⟨q, hq⟩ := (full_of_lt hc).mp hfull
    have hpick := picked_getElem le_rfl hc hq
    rw [getElem?_eq_getElem (by rw [length_picked le_rfl]; exact ht.2), hget] at hpick
    cases hpick
    exact ⟨c, hc, hq, ht.1⟩
  · rintro ⟨c, hc, hp, hlt⟩
    have hpick := picked_getElem le_rfl hc hp
    refine mem_of_getElem? (i := count (Full f n) c) ?_
    rw [getElem?_take_of_lt hlt, hpick]

lemma picked_perm_range {f : ℕ → Option ℕ} {k : ℕ}
    (hinj : ∀ c < n, ∀ c' < n, ∀ p, f c = some p → f c' = some p → c = c')
    (hrange : ∀ p, (∃ c < n, f c = some p) ↔ p < k) : (picked f n).Perm (List.range k) := by
  have hnodup : (picked f n).Nodup := by
    refine pairwise_filterMap.mpr (nodup_range.imp_of_mem ?_)
    rintro c c' hc hc' hne p hp p' hp' rfl
    exact hne (hinj c (mem_range.mp hc) c' (mem_range.mp hc') p hp hp')
  refine (perm_ext_iff_of_nodup hnodup nodup_range).mpr fun p => ?_
  rw [mem_range, ← hrange, picked, mem_filterMap]
  simp

/-! ## Many laps -/

lemma full_add_lap : (fun i => Full f n (n + i)) = Full f n := by
  funext i
  rw [Full, Full, add_mod_left]

lemma count_laps (r i : ℕ) :
    count (Full f n) (r * n + i) = r * count (Full f n) n + count (Full f n) i := by
  induction r with
  | zero => simp
  | succ r ih =>
    have hlap : (r + 1) * n + i = n + (r * n + i) := by
      rw [succ_mul]
      omega
    have hrest : count (fun j => Full f n (n + j)) (r * n + i) =
        count (Full f n) (r * n + i) := by
      simp only [full_add_lap]
    rw [hlap, count_add, hrest, ih, succ_mul]
    omega

lemma count_next_lap (r : ℕ) : count (Full f n) ((r + 1) * n) =
      count (Full f n) (r * n) + count (Full f n) n := by
  have hlap := count_laps (f := f) (n := n) r 0
  rw [add_zero, count_zero, add_zero] at hlap
  rw [succ_mul, count_laps, hlap]

lemma le_count_laps (hpos : 0 < count (Full f n) n) (e : ℕ) : e ≤ count (Full f n) (e * n) := by
  have hlaps := count_laps (f := f) (n := n) e 0
  rw [add_zero, count_zero, add_zero] at hlaps
  rw [hlaps]
  exact Nat.le_mul_of_pos_right e hpos

/-- `out` holds the first `e` copies, taken through `g`. -/
def Selected (f : ℕ → Option α) (n : ℕ) (g : α → β) (e : ℕ) (out : ℕ → β) : Prop :=
  ∀ i p, f (i % n) = some p → Nat.count (Full f n) i < e → out (Nat.count (Full f n) i) = g p

namespace Selected

variable {g : α → β} {e : ℕ} {out : ℕ → β}

lemma zero : Selected f n g 0 out := fun _ _ _ hlt => absurd hlt (not_lt_zero _)

lemma store {i : ℕ} {p : α} (h : Selected f n g (count (Full f n) i) out)
    (hp : f (i % n) = some p) :
    Selected f n g (count (Full f n) i + 1)
      (Function.update out (Nat.count (Full f n) i) (g p)) := by
  intro j q hq hlt
  rcases Nat.lt_succ_iff_lt_or_eq.mp hlt with hlt | heq
  · rw [Function.update_of_ne hlt.ne]
    exact h j q hq hlt
  · obtain rfl : j = i := count_injective (full_iff.mpr ⟨q, hq⟩) (full_iff.mpr ⟨p, hp⟩) heq
    rw [Function.update_self, Option.some.inj (hq.symm.trans hp)]

/-- **The copies are those of one lap, again and again.** -/
theorem getElem (h : Selected f n g e out) (hpos : 0 < count (Full f n) n) {k : ℕ} (hk : k < e) :
    ((picked f n)[k % count (Full f n) n]?).map g = some (out k) := by
  obtain ⟨c, hc, hfull, hcount⟩ := exists_count_eq (mod_lt k hpos)
  obtain ⟨p, hp⟩ := (full_of_lt hc).mp hfull
  have hnumber : count (Full f n) (k / count (Full f n) n * n + c) = k := by
    rw [count_laps, hcount, mul_comm, div_add_mod]
  have hplace : f ((k / count (Full f n) n * n + c) % n) = some p := by
    rw [add_comm, add_mul_mod_self_right, mod_eq_of_lt hc, hp]
  have hout := h _ p hplace (hnumber.symm ▸ hk)
  rw [hnumber] at hout
  rw [← hcount, picked_getElem le_rfl hc hp, hout]
  rfl

end Selected

/-! ## Interleavers -/

structure Columns (cols : ℕ) where
  perm : ℕ → ℕ
  inv : ℕ → ℕ
  perm_lt : ∀ j < cols, perm j < cols
  inv_lt : ∀ j < cols, inv j < cols
  inv_perm : ∀ j < cols, inv (perm j) = j
  perm_inv : ∀ j < cols, perm (inv j) = j

namespace Columns

variable {cols : ℕ} (c : Columns cols) {rows k q : ℕ}

def index (rows k : ℕ) : ℕ := c.perm (k / rows) + cols * (k % rows)

def place (rows q : ℕ) : ℕ := c.inv (q % cols) * rows + q / cols

section

variable (hk : k < cols * rows)
include hk

lemma div_lt_of_lt : k / rows < cols := Nat.div_lt_of_lt_mul (Nat.mul_comm cols rows ▸ hk)

lemma pos_of_lt : 0 < cols ∧ 0 < rows := by
  constructor
  · refine Nat.pos_of_ne_zero ?_
    rintro rfl
    simp at hk
  · refine Nat.pos_of_ne_zero ?_
    rintro rfl
    simp at hk

lemma index_mod : c.index rows k % cols = c.perm (k / rows) := by
  rw [index, Nat.add_mul_mod_self_left, Nat.mod_eq_of_lt (c.perm_lt _ (div_lt_of_lt hk))]

lemma index_div : c.index rows k / cols = k % rows := by
  rw [index, Nat.add_mul_div_left _ _ (pos_of_lt hk).1,
    Nat.div_eq_of_lt (c.perm_lt _ (div_lt_of_lt hk)), Nat.zero_add]

lemma index_lt : c.index rows k < cols * rows := by
  have hrow : k % rows + 1 ≤ rows := Nat.mod_lt k (pos_of_lt hk).2
  have hcol := c.perm_lt _ (div_lt_of_lt hk)
  calc c.index rows k < cols + cols * (k % rows) := by
        rw [index]
        omega
    _ = cols * (k % rows + 1) := by rw [Nat.mul_succ, add_comm]
    _ ≤ cols * rows := Nat.mul_le_mul_left cols hrow

lemma place_index : c.place rows (c.index rows k) = k := by
  rw [place, c.index_mod hk, c.index_div hk, c.inv_perm _ (div_lt_of_lt hk), mul_comm,
    Nat.div_add_mod]

end

lemma row_lt (hq : q < cols * rows) : q / cols < rows := Nat.div_lt_of_lt_mul hq

lemma place_lt (hq : q < cols * rows) : c.place rows q < cols * rows := by
  have hcol : c.inv (q % cols) + 1 ≤ cols := c.inv_lt _ (Nat.mod_lt q (pos_of_lt hq).1)
  have hrow := row_lt hq
  calc c.place rows q < c.inv (q % cols) * rows + rows := by
        rw [place]
        omega
    _ = (c.inv (q % cols) + 1) * rows := (Nat.succ_mul _ _).symm
    _ ≤ cols * rows := Nat.mul_le_mul_right rows hcol

lemma index_place (hq : q < cols * rows) : c.index rows (c.place rows q) = q := by
  have hcol := Nat.mod_lt q (pos_of_lt hq).1
  have hrows := (pos_of_lt hq).2
  have hdiv : c.place rows q / rows = c.inv (q % cols) := by
    rw [place, mul_comm, Nat.mul_add_div hrows, Nat.div_eq_of_lt (row_lt hq), add_zero]
  have hmod : c.place rows q % rows = q / cols := by
    rw [place, mul_comm, Nat.mul_add_mod, Nat.mod_eq_of_lt (row_lt hq)]
  rw [index, hdiv, hmod, c.perm_inv _ hcol, Nat.mod_add_div]

lemma index_injective {k' : ℕ} (hk : k < cols * rows) (hk' : k' < cols * rows)
    (h : c.index rows k = c.index rows k') : k = k' := by
  rw [← c.place_index hk, h, c.place_index hk']

end Columns

/-- `d` values in `n` cells: `strip q` is the number of the value in cell `q`, and `cell i` the
cell of value `i`. -/
structure Padding (n d : ℕ) where
  strip : ℕ → Option ℕ
  cell : ℕ → ℕ
  cell_lt : ∀ i < d, cell i < n
  strip_cell : ∀ i < d, strip (cell i) = some i
  cell_strip : ∀ q < n, ∀ i, strip q = some i → i < d ∧ cell i = q

namespace Padding

variable {n d : ℕ}

def front (h : d ≤ n) : Padding n d where
  strip q := if q < n - d then none else some (q - (n - d))
  cell i := n - d + i
  cell_lt _ hi := by omega
  strip_cell _ _ := by rw [if_neg (by omega), Nat.add_sub_cancel_left]
  cell_strip q _ i hstrip := by
    split at hstrip
    · cases hstrip
    · cases hstrip
      omega

def back (h : d ≤ n) : Padding n d where
  strip q := if q < d then some q else none
  cell i := i
  cell_lt _ hi := hi.trans_le h
  strip_cell _ hi := if_pos hi
  cell_strip q _ i hstrip := by
    split at hstrip
    · cases hstrip
      exact ⟨by assumption, rfl⟩
    · cases hstrip

end Padding

namespace Columns

variable {cols : ℕ} (c : Columns cols) {rows d : ℕ} (pad : Padding (cols * rows) d)

/-- What is read at place `k`: the number of a value, or padding. -/
def interleaved (k : ℕ) : Option ℕ := pad.strip (c.index rows k)

variable {c pad}

lemma interleaved_place {i : ℕ} (hi : i < d) :
    c.interleaved pad (c.place rows (pad.cell i)) = some i := by
  rw [interleaved, c.index_place (pad.cell_lt i hi), pad.strip_cell i hi]

lemma eq_place_of_interleaved {k i : ℕ} (hk : k < cols * rows)
    (h : c.interleaved pad k = some i) : i < d ∧ k = c.place rows (pad.cell i) := by
  obtain ⟨hi, hcell⟩ := pad.cell_strip _ (c.index_lt hk) i h
  exact ⟨hi, by rw [hcell, c.place_index hk]⟩

lemma picked_interleaved_perm : (picked (c.interleaved pad) (cols * rows)).Perm (List.range d) := by
  refine picked_perm_range (fun k hk k' hk' i h h' => ?_) fun i => ⟨?_, fun hi => ?_⟩
  · rw [(eq_place_of_interleaved hk h).2, (eq_place_of_interleaved hk' h').2]
  · rintro ⟨k, hk, h⟩
    exact (eq_place_of_interleaved hk h).1
  · exact ⟨_, c.place_lt (pad.cell_lt i hi), interleaved_place hi⟩

lemma count_interleaved : Nat.count (Full (c.interleaved pad) (cols * rows)) (cols * rows) = d := by
  rw [← length_picked le_rfl, picked_interleaved_perm.length_eq, List.length_range]

end Columns

end Aloe.Lib
