import Aloe.Modrep.Pack

/-!
# Decoding the control format indicator

Model of `coding_table` and of `cfi_decoding`, which returns the first row at the least distance
from the received word. Any two rows differ in at least 21 places, so ten errors are corrected.
-/

namespace Aloe.Modrep.CfiDecoding

def nofBits : ℕ := 32

/-- `coding_table`, on the contents of `table`. -/
def codingTable (table : ℕ → ℕ → Char8) : ℕ → ℕ → Char8 :=
  let table := fun i j => if i < 3 ∧ j < nofBits then 1 else table i j
  let table := fun i j => if i = 0 ∧ j ∈ (List.range 11).map (3 * ·) then 0 else table i j
  let table := fun i j => if i = 1 ∧ j ∈ (List.range 11).map (3 * · + 1) then 0 else table i j
  let table := fun i j => if i = 2 ∧ j ∈ (List.range 10).map (3 * · + 2) then 0 else table i j
  fun i j => if i = 3 ∧ j < nofBits then 0 else table i j

/-- The inner loop of `cfi_decoding`: `count_i` for one row of the table. -/
def count (inp row : ℕ → Char8) : ℕ :=
  (List.range nofBits).foldl (fun c j => if inp j ≠ row j then c + 1 else c) 0

def cfiDecoding (inp : ℕ → Char8) (table : ℕ → ℕ → Char8) : ℤ × ℕ :=
  (List.range 4).foldl (fun r i =>
    if count inp (table i) < r.2 then (↑i, count inp (table i)) else r) (-1, 32)

def damage (err : ℕ → Bool) (word : ℕ → Char8) : ℕ → Char8 := fun j =>
  if err j then word j ^^^ 1 else word j

def weight (err : ℕ → Bool) : ℕ := (List.range nofBits).countP err

variable {a b c : ℕ → Char8} {table : ℕ → ℕ → Char8}

lemma count_eq : count a b = (List.range nofBits).countP (fun j => a j ≠ b j) := by
  have h (l : List ℕ) : ∀ n, l.foldl (fun c j => if a j ≠ b j then c + 1 else c) n =
      n + l.countP (fun j => a j ≠ b j) := by
    induction l with
    | nil => simp
    | cons j l ih => grind
  rw [count, h, Nat.zero_add]

lemma count_triangle : count a c ≤ count b a + count b c := by
  simp only [count_eq]
  induction List.range nofBits with
  | nil => simp
  | cons j l ih => grind

lemma count_damage (err : ℕ → Bool) : count (damage err a) a = weight err := by
  have h : ∀ x : Char8, x ^^^ 1#8 ≠ x := by decide
  rw [count_eq, weight]
  congr 1
  funext j
  by_cases hj : err j <;> simp [damage, hj, h]

/-- The distance does not depend on what the table held before. -/
theorem count_codingTable (table : ℕ → ℕ → Char8) : ∀ i < 4, ∀ k < 4, i ≠ k →
    21 ≤ count (codingTable table i) (codingTable table k) := by
  have h : ∀ i < 4, ∀ j < nofBits, codingTable table i j = codingTable (fun _ _ => 0) i j := by
    intro i hi j hj
    have : i < 3 ∨ i = 3 := by omega
    simp only [codingTable]
    grind
  intro i hi k hk hik
  have hr : ∀ i < 4, ∀ k < 4, i ≠ k →
      21 ≤ count (codingTable (fun _ _ => 0) i) (codingTable (fun _ _ => 0) k) := by decide +kernel
  have := hr i hi k hk hik
  rw [count_eq] at this ⊢
  rwa [List.countP_congr fun j hj => ?_]
  rw [h i hi j (List.mem_range.mp hj), h k hk j (List.mem_range.mp hj)]

/-- Up to ten errors: the row that was sent is found, with the number of errors. -/
theorem cfiDecoding_damage {i : ℕ} (hi : i < 4) {err : ℕ → Bool} (he : weight err ≤ 10) :
    cfiDecoding (damage err (codingTable table i)) (codingTable table) = (↑i, weight err) := by
  -- the other rows stay more than ten bits away
  have hfar : ∀ k < 4, k ≠ i →
      11 ≤ count (damage err (codingTable table i)) (codingTable table k) := by
    intro k hk hki
    have h := count_triangle (a := codingTable table i) (b := damage err (codingTable table i))
      (c := codingTable table k)
    have := count_codingTable table i hi k hk hki.symm
    rw [count_damage] at h
    omega
  have hown := count_damage (a := codingTable table i) err
  rw [cfiDecoding, show List.range 4 = [0, 1, 2, 3] from rfl]
  simp only [List.foldl]
  grind

theorem cfiDecoding_ten : weight (· < 10) ≤ 10 ∧
    cfiDecoding (damage (· < 10) (codingTable (fun _ _ => 0) 1)) (codingTable fun _ _ => 0) =
      (1, weight (· < 10)) :=
  ⟨by decide, cfiDecoding_damage (by decide) (by decide)⟩

end Aloe.Modrep.CfiDecoding
