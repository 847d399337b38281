import Mathlib.Data.Nat.ModEq

/-!
# Cyclic indices

`slot cap r k` is the `k`-th slot after `r` in a ring of `cap` slots. Within one
lap the slots are distinct, and advancing by one is the wrapped successor.
-/

namespace Aloe.Lib.Cyclic

/-- The `k`-th slot after `r` in a ring of `cap` slots. -/
def slot (cap r k : ℕ) : ℕ := (r + k) % cap

def next (cap i : ℕ) : ℕ := if cap ≤ i + 1 then i + 1 - cap else i + 1

variable {cap r i k l n : ℕ}

lemma slot_lt (hcap : 0 < cap) : slot cap r k < cap := Nat.mod_lt _ hcap

@[simp] lemma slot_zero (hr : r < cap) : slot cap r 0 = r := by
  simpa [slot] using Nat.mod_eq_of_lt hr

@[simp] lemma slot_lap (hr : r < cap) : slot cap r cap = r := by
  simpa [slot] using Nat.mod_eq_of_lt hr

lemma next_lt (hi : i < cap) : next cap i < cap := by
  unfold next
  split <;> omega

lemma next_slot (hcap : 0 < cap) : next cap (slot cap r k) = slot cap r (k + 1) := by
  have hlt := slot_lt (r := r) (k := k) hcap
  have hmod : slot cap r (k + 1) = (slot cap r k + 1) % cap := by
    simp [slot, ← add_assoc]
  rw [hmod]
  unfold next
  split
  · have heq : slot cap r k + 1 = cap := by omega
    simp [heq]
  · exact (Nat.mod_eq_of_lt (by omega)).symm

lemma slot_next (hr : r < cap) : slot cap (next cap r) k = slot cap r (k + 1) := by
  unfold slot next
  split
  · have heq : r + 1 = cap := by omega
    have : r + (k + 1) = k + cap := by omega
    rw [this, Nat.add_mod_right, heq]
    simp
  · congr 1
    omega

lemma slot_inj (hk : k < cap) (hl : l < cap) (h : slot cap r k = slot cap r l) : k = l := by
  have hmod : k ≡ l [MOD cap] := Nat.ModEq.add_left_cancel' r h
  exact Nat.ModEq.eq_of_lt_of_lt hmod hk hl

/-- The slots of the cyclic interval of `n` slots from `r`. -/
def Occupied (cap r n i : ℕ) : Prop := ∃ k < n, i = slot cap r k

lemma occupied_lap (hr : r < cap) (hi : i < cap) : Occupied cap r cap i := by
  by_cases h : r ≤ i
  · refine ⟨i - r, by omega, ?_⟩
    rw [slot, show r + (i - r) = i by omega, Nat.mod_eq_of_lt hi]
  · refine ⟨i + cap - r, by omega, ?_⟩
    rw [slot, show r + (i + cap - r) = i + cap by omega, Nat.add_mod_right, Nat.mod_eq_of_lt hi]

lemma occupied_succ : Occupied cap r (n + 1) i ↔ Occupied cap r n i ∨ i = slot cap r n := by
  constructor
  · rintro ⟨k, hk, rfl⟩
    rcases Nat.lt_succ_iff_lt_or_eq.mp hk with h | rfl
    · exact .inl ⟨k, h, rfl⟩
    · exact .inr rfl
  · rintro (⟨k, hk, rfl⟩ | rfl)
    · exact ⟨k, by omega, rfl⟩
    · exact ⟨n, by omega, rfl⟩

lemma not_occupied_end (hn : n < cap) : ¬ Occupied cap r n (slot cap r n) := by
  rintro ⟨k, hk, heq⟩
  have := slot_inj (by omega) hn heq.symm
  omega

lemma occupied_next (hr : r < cap) (hn : n < cap) :
    Occupied cap (next cap r) n i ↔ Occupied cap r (n + 1) i ∧ i ≠ r := by
  constructor
  · rintro ⟨k, hk, rfl⟩
    rw [slot_next hr]
    refine ⟨⟨k + 1, by omega, rfl⟩, ?_⟩
    intro heq
    have h0 : slot cap r (k + 1) = slot cap r 0 := by rw [heq, slot_zero hr]
    have := slot_inj (by omega) (by omega) h0
    omega
  · rintro ⟨⟨k, hk, rfl⟩, hne⟩
    cases k with
    | zero => exact absurd (slot_zero hr) hne
    | succ k => exact ⟨k, by omega, (slot_next hr).symm⟩

end Aloe.Lib.Cyclic
