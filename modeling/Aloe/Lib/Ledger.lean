import Mathlib.Algebra.Order.Group.Defs
import Mathlib.Data.List.Induction
import Mathlib.Tactic.Abel

/-!
# Ledgers

A ledger gives every account what is left on it. Draws are taken one after the other; a draw is
admitted if it exceeds what is left by no more than a slack. What is left is then the first balance
less all that was drawn, and no account is overdrawn by more than the slack.
-/

namespace Aloe.Lib

open List

variable {ι α : Type} [DecidableEq ι] [AddCommGroup α]

/-- The ledger after the draws `ds`, which are pairs of an account and an amount. -/
def draw (row : ι → α) (ds : List (ι × α)) : ι → α :=
  ds.foldl (fun row d => Function.update row d.1 (row d.1 - d.2)) row

/-- The amount that the draws `ds` take from account `r`. -/
def drawn (ds : List (ι × α)) (r : ι) : α := (ds.map fun d => if d.1 = r then d.2 else 0).sum

variable {row : ι → α} {ds es : List (ι × α)}

lemma draw_append : draw row (ds ++ es) = draw (draw row ds) es := foldl_append

lemma drawn_append (r : ι) : drawn (ds ++ es) r = drawn ds r + drawn es r := by
  rw [drawn, map_append, sum_append]
  rfl

lemma drawn_cons (d : ι × α) (r : ι) :
    drawn (d :: ds) r = (if d.1 = r then d.2 else 0) + drawn ds r := by
  rw [drawn, map_cons, sum_cons]
  rfl

lemma draw_singleton (d : ι × α) (r : ι) : draw row [d] r = row r - if d.1 = r then d.2 else 0 := by
  simp only [draw, foldl_cons, foldl_nil]
  rcases eq_or_ne r d.1 with rfl | hne
  · rw [Function.update_self, if_pos rfl]
  · rw [Function.update_of_ne hne, if_neg hne.symm, sub_zero]

lemma draw_apply (row : ι → α) (ds : List (ι × α)) (r : ι) :
    draw row ds r = row r - drawn ds r := by
  induction ds generalizing row with
  | nil => simp [draw, drawn]
  | cons d ds ih =>
    have hsplit : draw row (d :: ds) = draw (draw row [d]) ds := rfl
    rw [hsplit, ih, draw_singleton, drawn_cons, sub_sub]

section Slack

variable [LinearOrder α] {slack : α}

def Admitted (slack : α) (row : ι → α) : List (ι × α) → Prop
  | [] => True
  | d :: ds => d.2 - row d.1 ≤ slack ∧ Admitted slack (draw row [d]) ds

lemma admitted_append :
    Admitted slack row (ds ++ es) ↔ Admitted slack row ds ∧ Admitted slack (draw row ds) es := by
  induction ds generalizing row with
  | nil => exact (true_and _).to_iff.symm
  | cons d ds ih =>
    rw [cons_append, Admitted, Admitted, ih, and_assoc]
    rfl

/-- **No account is overdrawn.** An account whose draws were all admitted has given no more than it
had and the slack. -/
theorem Admitted.drawn_le [IsOrderedAddMonoid α] (h : Admitted slack row ds) (hslack : 0 ≤ slack)
    {r : ι} (hrow : 0 ≤ row r) : drawn ds r ≤ row r + slack := by
  -- from the last draw on: it found enough, or it was on another account
  induction ds using List.reverseRecOn with
  | nil => exact add_nonneg hrow hslack
  | append_singleton ds d ih =>
    obtain ⟨hds, hd, -⟩ := admitted_append.mp h
    rw [drawn_append, drawn_cons]
    split
    · next heq =>
      rw [heq, draw_apply, sub_le_iff_le_add] at hd
      calc drawn ds r + (d.2 + drawn [] r) = drawn ds r + d.2 := by simp [drawn]
        _ ≤ drawn ds r + (slack + (row r - drawn ds r)) := by gcongr
        _ = row r + slack := by abel
    · simpa [drawn] using ih hds

end Slack

end Aloe.Lib
