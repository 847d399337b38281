import Mathlib.Tactic.Common

/-!
# Acting on the first match

A table is searched from its start; the first entry with a property is changed, by a step that
may fail. `modifyFirst_cases` is the only rule that is needed about it: it splits the table at
the entry.
-/

namespace Aloe.Lib

open List

variable {α : Type}

/-- The first entry with `p` is replaced by what `f` makes of it, with whether `f` succeeds;
without such an entry the table stays and the search fails. -/
def modifyFirst (p : α → Bool) (f : α → α × Bool) : List α → List α × Bool
  | [] => ([], false)
  | a :: as =>
    if p a then ((f a).1 :: as, (f a).2)
    else (a :: (modifyFirst p f as).1, (modifyFirst p f as).2)

variable {f : α → α × Bool} {p : α → Bool} {a : α} {before after : List α} {b : α}

lemma modifyFirst_of_forall {l : List α}
    (h : ∀ a ∈ l, p a = false) : modifyFirst p f l = (l, false) := by
  induction l with
  | nil => rfl
  | cons a as ih =>
    rw [modifyFirst, if_neg (by simp [h a mem_cons_self]),
      ih fun b hb => h b (mem_cons_of_mem a hb)]

lemma modifyFirst_append (hbefore : ∀ b ∈ before, p b = false) (ha : p a = true) :
    modifyFirst p f (before ++ a :: after) = (before ++ (f a).1 :: after, (f a).2) := by
  induction before with
  | nil => rw [nil_append, modifyFirst, if_pos ha, nil_append]
  | cons b bs ih =>
    rw [cons_append, modifyFirst, if_neg (by simp [hbefore b mem_cons_self]),
      ih fun c hc => hbefore c (mem_cons_of_mem b hc)]
    rfl

lemma modifyFirst_cases (p : α → Bool) (f : α → α × Bool) (l : List α) :
    ((∀ a ∈ l, p a = false) ∧ modifyFirst p f l = (l, false)) ∨
      ∃ before a after, l = before ++ a :: after ∧ (∀ b ∈ before, p b = false) ∧ p a = true ∧
        modifyFirst p f l = (before ++ (f a).1 :: after, (f a).2) := by
  cases hfind : l.find? p with
  | none =>
    have hnone : ∀ a ∈ l, p a = false := fun a ha =>
      Bool.eq_false_iff.mpr (find?_eq_none.mp hfind a ha)
    exact .inl ⟨hnone, modifyFirst_of_forall hnone⟩
  | some a =>
    obtain ⟨ha, before, after, rfl, hbefore⟩ := find?_eq_some_iff_append.mp hfind
    have hbefore : ∀ b ∈ before, p b = false := fun b hb => by simpa using hbefore b hb
    exact .inr ⟨before, a, after, rfl, hbefore, ha, modifyFirst_append hbefore ha⟩

/-! ## The table with one entry replaced -/

lemma mem_replaced (h : b ∈ before ++ a :: after) : b = a ∨ b ∈ before ∨ b ∈ after := by
  rcases mem_append.mp h with h | h
  · exact .inr (.inl h)
  · exact (mem_cons.mp h).imp_right Or.inr

lemma mem_of_mem_rest (h : b ∈ before ∨ b ∈ after) : b ∈ before ++ a :: after := by
  rcases h with h | h
  · exact mem_append_left _ h
  · exact mem_append_right _ (mem_cons_of_mem a h)

end Aloe.Lib
