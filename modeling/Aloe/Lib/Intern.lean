import Mathlib.Data.List.Nodup

/-!
# Interning

Values are given places in a table of bounded size: one that is in the table keeps its place, a
new one gets the next free place. `internAll_spec` says what a list of values leaves: a table
without repetitions of just these values, and for each of them its place.
-/

namespace Aloe.Lib

open List

variable {α : Type} [DecidableEq α]

/-- The place of `a`, and the table afterwards. `none` if there is no place left. -/
def intern (cap : ℕ) (table : List α) (a : α) : Option (ℕ × List α) :=
  match table.findIdx? fun b => b = a with
  | some j => some (j, table)
  | none => if table.length < cap then some (table.length, table ++ [a]) else none

def internAll (cap : ℕ) (table : List α) : List α → Option (List ℕ × List α)
  | [] => some ([], table)
  | a :: as =>
    match intern cap table a with
    | none => none
    | some (j, table) => (internAll cap table as).map fun r => (j :: r.1, r.2)

variable {cap j : ℕ} {table table' as : List α} {a b : α} {places : List ℕ}

section

variable (h : intern cap table a = some (j, table'))
include h

lemma intern_cases : (table[j]? = some a ∧ table' = table) ∨
      (a ∉ table ∧ table.length < cap ∧ j = table.length ∧ table' = table ++ [a]) := by
  rw [intern] at h
  split at h
  · rename_i j' hfind
    cases h
    obtain ⟨hlt, heq, -⟩ := findIdx?_eq_some_iff_getElem.mp hfind
    refine .inl ⟨?_, rfl⟩
    rw [getElem?_eq_getElem hlt, of_decide_eq_true heq]
  · grind

lemma intern_grows : table <+: table' := by
  obtain ⟨-, rfl⟩ | ⟨-, -, -, rfl⟩ := intern_cases h
  · exact prefix_rfl
  · exact prefix_append table [a]

lemma intern_place : table'[j]? = some a := by
  obtain ⟨hj, rfl⟩ | ⟨-, -, rfl, rfl⟩ := intern_cases h
  · exact hj
  · exact getElem?_concat_length

lemma mem_intern : b ∈ table' ↔ b ∈ table ∨ b = a := by
  obtain ⟨hj, rfl⟩ | ⟨-, -, -, rfl⟩ := intern_cases h
  · exact ⟨.inl, fun hb => hb.elim id fun heq => heq ▸ mem_of_getElem? hj⟩
  · rw [mem_append, mem_singleton]

lemma nodup_intern (hnodup : table.Nodup) : table'.Nodup := by
  obtain ⟨-, rfl⟩ | ⟨hnew, -, -, rfl⟩ := intern_cases h
  · exact hnodup
  · rw [← concat_eq_append]
    exact hnodup.concat hnew

lemma length_intern_le : table'.length ≤ table.length + 1 := by
  obtain ⟨-, rfl⟩ | ⟨-, -, -, rfl⟩ := intern_cases h
  · exact Nat.le_succ _
  · exact Nat.le_of_eq (length_append ..)

end

structure Interned (table as : List α) (places : List ℕ) (table' : List α) : Prop where
  grows : table <+: table'
  places : List.Forall₂ (fun a j => table'[j]? = some a) as places
  mem_iff : ∀ b, b ∈ table' ↔ b ∈ table ∨ b ∈ as
  nodup : table.Nodup → table'.Nodup

lemma internAll_spec (h : internAll cap table as = some (places, table')) :
    Interned table as places table' := by
  induction as generalizing table places with
  | nil =>
    cases h
    exact ⟨prefix_rfl, .nil, fun b => by simp, id⟩
  | cons a as ih =>
    rw [internAll] at h
    split at h
    · cases h
    · rename_i j table1 hone
      obtain ⟨⟨places1, table2⟩, hrest, heq⟩ := Option.map_eq_some_iff.mp h
      cases heq
      have hall : Interned table1 as places1 table2 := ih hrest
      obtain ⟨tail, htail⟩ := hall.grows
      have hplace : table2[j]? = some a := by
        rw [← htail]
        exact getElem?_append_left (List.getElem?_eq_some_iff.mp (intern_place hone)).1 ▸
          intern_place hone
      refine ⟨(intern_grows hone).trans hall.grows, .cons hplace hall.places, fun b => ?_,
        fun hnodup => hall.nodup (nodup_intern hone hnodup)⟩
      rw [hall.mem_iff, mem_intern hone, mem_cons, or_assoc]

lemma exists_internAll (hcap : table.length + as.length ≤ cap) :
    ∃ places table', internAll cap table as = some (places, table') := by
  induction as generalizing table with
  | nil => exact ⟨[], table, rfl⟩
  | cons a as ih =>
    rw [length_cons] at hcap
    obtain ⟨j, table1, hone⟩ : ∃ j table1, intern cap table a = some (j, table1) := by
      rw [intern]
      split
      · exact ⟨_, _, rfl⟩
      · rw [if_pos (by omega)]
        exact ⟨_, _, rfl⟩
    have hle := length_intern_le hone
    obtain ⟨places, table', hrest⟩ := ih (show table1.length + as.length ≤ cap by omega)
    refine ⟨j :: places, table', ?_⟩
    rw [internAll, hone]
    dsimp only
    rw [hrest, Option.map_some]

end Aloe.Lib
