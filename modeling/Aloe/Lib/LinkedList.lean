import Mathlib.Data.List.Nodup

/-!
# Singly linked lists in memory

The nodes of a list are addresses, and each node's `next` field holds the address of the node behind
it or the null pointer. `Linked next q xs` says that the walk from `q` along `next` visits the nodes
of `xs`, in this order, and ends. The walk is determined by its start, so the nodes are distinct
(`Linked.nodup`). A splice is one store into a `next` field, and `Linked.setNext` is the rule for
all of them.
-/

namespace Aloe.Lib

open Function List

variable {P : Type}

/-- The walk from `q` along `next` visits exactly `xs`, in order, and ends. -/
def Linked (next : P → Option P) : Option P → List P → Prop
  | q, [] => q = none
  | q, x :: xs => q = some x ∧ Linked next (next x) xs

namespace Linked

variable {next : P → Option P} {q r : Option P} {p a : P} {xs ys as bs cs : List P}

@[simp] lemma nil_iff : Linked next q [] ↔ q = none := Iff.rfl

lemma unique (hx : Linked next q xs) (hy : Linked next q ys) : xs = ys := by
  induction xs generalizing q ys with
  | nil =>
    cases ys with
    | nil => rfl
    | cons y ys => exact absurd (hy.1.symm.trans hx) (by simp)
  | cons x xs ih =>
    cases ys with
    | nil => exact absurd (hx.1.symm.trans hy) (by simp)
    | cons y ys =>
      obtain rfl : x = y := Option.some.inj (hx.1.symm.trans hy.1)
      rw [ih hx.2 hy.2]

lemma behind (h : Linked next q (as ++ a :: bs)) : Linked next (next a) bs := by
  induction as generalizing q with
  | nil => exact h.2
  | cons x as ih => exact ih h.2

/-- **No cycle.** A node that occurred twice would have two different lists behind it. -/
theorem nodup (h : Linked next q xs) : xs.Nodup := by
  induction xs generalizing q with
  | nil => exact nodup_nil
  | cons x xs ih =>
    refine nodup_cons.mpr ⟨fun hmem => ?_, ih h.2⟩
    obtain ⟨as, bs, rfl⟩ := append_of_mem hmem
    have hlong : Linked next (next x) (as ++ x :: bs) := h.2
    have hlen := congrArg List.length (hlong.unique hlong.behind)
    simp only [length_append, length_cons] at hlen
    omega

lemma not_mem_rest (h : Linked next q (as ++ a :: bs)) : a ∉ as ++ bs :=
  (nodup_cons.mp (nodup_middle.mp h.nodup)).1

section Store

variable [DecidableEq P]

/-- **Frame.** A store into a node outside the list leaves the list alone. -/
theorem update_of_not_mem (h : Linked next q xs) (hp : p ∉ xs) (r : Option P) :
    Linked (update next p r) q xs := by
  induction xs generalizing q with
  | nil => exact h
  | cons x xs ih =>
    obtain ⟨hpx, hpxs⟩ := not_or.mp (mt mem_cons.mpr hp)
    exact ⟨h.1, by simpa [update_of_ne (Ne.symm hpx)] using ih h.2 hpxs⟩

lemma setNext (h : Linked next q (as ++ a :: bs)) (hcs : Linked next r cs) (ha : a ∉ cs) :
    Linked (update next a r) q (as ++ a :: cs) := by
  have hbefore : a ∉ as := fun hmem => h.not_mem_rest (mem_append_left bs hmem)
  induction as generalizing q with
  | nil => exact ⟨h.1, by simpa using hcs.update_of_not_mem ha r⟩
  | cons x as ih =>
    obtain ⟨hax, hmem⟩ := not_or.mp (mt mem_cons.mpr hbefore)
    exact ⟨h.1, by simpa [update_of_ne (Ne.symm hax)] using ih h.2 hmem⟩

lemma push (h : Linked next q xs) (hp : p ∉ xs) : Linked (update next p q) (some p) (p :: xs) :=
  ⟨rfl, by simpa using h.update_of_not_mem hp q⟩

lemma insertAfter (h : Linked next q (as ++ a :: bs)) (hp : p ∉ as ++ a :: bs) :
    Linked (update (update next p (next a)) a (some p)) q (as ++ a :: p :: bs) := by
  have hpbs : p ∉ bs := fun hmem => hp (by simp [hmem])
  have hne : a ≠ p := fun heq => hp (by simp [heq])
  have habs : a ∉ bs := fun hmem => h.not_mem_rest (mem_append_right as hmem)
  exact (h.update_of_not_mem hp (next a)).setNext (h.behind.push hpbs)
    (mt mem_cons.mp (not_or.mpr ⟨hne, habs⟩))

lemma unlink (h : Linked next q (as ++ a :: p :: bs)) :
    Linked (update next a (next p)) q (as ++ a :: bs) := by
  have hsplit : as ++ a :: p :: bs = (as ++ [a]) ++ p :: bs := by simp
  have habs : a ∉ bs := fun hmem => h.not_mem_rest (mem_append_right as (mem_cons_of_mem p hmem))
  exact h.setNext (hsplit ▸ h).behind habs

end Store

end Linked

end Aloe.Lib
