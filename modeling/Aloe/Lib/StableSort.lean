import Mathlib.Data.List.Sort

/-!
# Stable sorting by a key

`StableSort key xs ys` says that `ys` is `xs` sorted by `key`, elements of equal key in the order
they have in `xs`: the sublists of each key agree. The two edits of an ordered queue keep it. An
element that arrives last goes behind everything of no larger key (`insert`); an element that
leaves is struck from both lists (`erase`).
-/

namespace Aloe.Lib

open List

variable {α κ : Type} [LinearOrder κ]

/-- `ys` is `xs` sorted by `key`, equal keys in the order of `xs`. -/
structure StableSort (key : α → κ) (xs ys : List α) : Prop where
  sorted : ys.Pairwise fun a b => key a ≤ key b
  classes : ∀ k, ys.filter (fun a => key a = k) = xs.filter (fun a => key a = k)

def insertLast (key : α → κ) (a : α) (ys : List α) : List α :=
  ys.orderedInsert (fun a b => key a < key b) a

variable {key : α → κ} {a b : α} {xs ys : List α}

lemma insertLast_eq (key : α → κ) (a : α) (ys : List α) :
    insertLast key a ys = ys.takeWhile (fun b => key b ≤ key a) ++
      a :: ys.dropWhile (fun b => key b ≤ key a) := by
  simp [insertLast, orderedInsert_eq_take_drop]

@[simp] lemma mem_insertLast : b ∈ insertLast key a ys ↔ b = a ∨ b ∈ ys := mem_orderedInsert _

lemma length_insertLast : (insertLast key a ys).length = ys.length + 1 :=
  orderedInsert_length _ ys a

lemma insertLast_cons_of_lt (h : key a < key b) : insertLast key a (b :: ys) = a :: b :: ys :=
  if_pos h

lemma insertLast_cons_of_le (h : key b ≤ key a) :
    insertLast key a (b :: ys) = b :: insertLast key a ys :=
  if_neg (not_lt_of_ge h)

lemma sorted_insertLast (h : ys.Pairwise fun a b => key a ≤ key b) :
    (insertLast key a ys).Pairwise fun a b => key a ≤ key b := by
  induction ys with
  | nil => exact pairwise_singleton _ a
  | cons b ys ih =>
    obtain ⟨hb, hys⟩ := pairwise_cons.mp h
    rcases lt_or_ge (key a) (key b) with hlt | hge
    · rw [insertLast_cons_of_lt hlt]
      refine pairwise_cons.mpr ⟨fun c hc => ?_, h⟩
      rcases mem_cons.mp hc with rfl | hc
      · exact hlt.le
      · exact hlt.le.trans (hb c hc)
    · rw [insertLast_cons_of_le hge]
      refine pairwise_cons.mpr ⟨fun c hc => ?_, ih hys⟩
      rcases mem_insertLast.mp hc with rfl | hc
      · exact hge
      · exact hb c hc

lemma filter_insertLast (h : ys.Pairwise fun a b => key a ≤ key b) (k : κ) :
    (insertLast key a ys).filter (fun c => key c = k) =
      ys.filter (fun c => key c = k) ++ [a].filter (fun c => key c = k) := by
  induction ys with
  | nil => rfl
  | cons b ys ih =>
    obtain ⟨hb, hys⟩ := pairwise_cons.mp h
    rcases lt_or_ge (key a) (key b) with hlt | hge
    · rw [insertLast_cons_of_lt hlt]
      by_cases hk : key a = k
      · have hnone : (b :: ys).filter (fun c => key c = k) = [] := by
          refine filter_eq_nil_iff.mpr fun c hc => ?_
          have hbc : key b ≤ key c := by
            rcases mem_cons.mp hc with rfl | hc
            · exact le_rfl
            · exact hb c hc
          simpa [← hk] using (hlt.trans_le hbc).ne'
        rw [hnone, filter_cons, hnone]
        simp [hk]
      · simp [filter_cons, hk]
    · rw [insertLast_cons_of_le hge, filter_cons, filter_cons, ih hys]
      split <;> rfl

namespace StableSort

lemma nil : StableSort key ([] : List α) [] := ⟨List.Pairwise.nil, fun _ => rfl⟩

lemma insert (h : StableSort key xs ys) (a : α) :
    StableSort key (xs ++ [a]) (insertLast key a ys) where
  sorted := sorted_insertLast h.sorted
  classes k := by rw [filter_insertLast h.sorted, h.classes k, filter_append]

section Erase

variable [DecidableEq α]

lemma perm (h : StableSort key xs ys) : ys.Perm xs := by
  refine perm_iff_count.mpr fun a => ?_
  have hcount : ∀ l : List α, l.count a = (l.filter (fun b => key b = key a)).count a :=
    fun l => (count_filter (by simp)).symm
  rw [hcount ys, hcount xs, h.classes]

lemma erase (h : StableSort key xs ys) (hnodup : ys.Nodup) (a : α) :
    StableSort key (xs.erase a) (ys.erase a) where
  sorted := h.sorted.sublist erase_sublist
  classes k := by
    rw [hnodup.erase_eq_filter, (h.perm.nodup_iff.mp hnodup).erase_eq_filter,
      filter_filter, filter_filter]
    have hswap : ∀ l : List α, l.filter (fun b => decide (key b = k) && (b != a)) =
        (l.filter (fun b => key b = k)).filter (· != a) := by
      intro l
      rw [filter_filter]
      exact filter_congr fun b _ => Bool.and_comm _ _
    rw [hswap, hswap, h.classes k]

lemma eq_of_perm {xs' ys' : List α} (h : StableSort key xs ys) (h' : StableSort key xs' ys')
    (hperm : xs.Perm xs') (hinj : ∀ a ∈ xs, ∀ b ∈ xs, key a = key b → a = b) : ys = ys' := by
  have hys : ys.Perm ys' := h.perm.trans (hperm.trans h'.perm.symm)
  refine hys.eq_of_pairwise (fun a b ha hb hab hba => ?_) h.sorted h'.sorted
  exact hinj a (h.perm.mem_iff.mp ha) b (hperm.mem_iff.mpr (h'.perm.mem_iff.mp hb))
    (le_antisymm hab hba)

end Erase

end StableSort

end Aloe.Lib
