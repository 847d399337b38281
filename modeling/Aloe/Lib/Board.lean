import Mathlib.Data.List.Basic
import Mathlib.Logic.Relation

/-!
# Publishing and taking over

Ports publish objects, each port its own and at most once; other ports take over the object of
the one port they are wired to, once it is there. Whatever the order, a port never takes over an
object other than the one its source has published.
-/

namespace Aloe.Lib

open Function

/-- The objects published so far, and by their numbers what each port has published and what
each port has taken over. -/
structure Board (P O : Type) where
  objects : List O
  published : P → Option ℕ
  taken : P → Option ℕ

attribute [ext] Board

namespace Board

variable {P O : Type} [DecidableEq P]

def publish (b : Board P O) (x : P) (obj : O) : Board P O where
  objects := b.objects ++ [obj]
  published := update b.published x (some b.objects.length)
  taken := b.taken

def take (b : Board P O) (x : P) (n : ℕ) : Board P O :=
  { b with taken := update b.taken x (some n) }

@[simp] lemma publish_self (b : Board P O) (x : P) (obj : O) :
    (b.publish x obj).published x = some b.objects.length :=
  update_self ..

variable {x y : P} {n : ℕ}

@[simp] lemma publish_of_ne (b : Board P O) (obj : O) (h : y ≠ x) :
    (b.publish x obj).published y = b.published y :=
  update_of_ne h ..

@[simp] lemma take_self (b : Board P O) (x : P) (n : ℕ) : (b.take x n).taken x = some n :=
  update_self ..

@[simp] lemma take_of_ne (b : Board P O) (n : ℕ) (h : y ≠ x) : (b.take x n).taken y = b.taken y :=
  update_of_ne h ..

/-- One step, where `make` is the object of a port and `source` the port it is wired to. -/
inductive Step (make : P → Option O) (source : P → Option P) : Board P O → Board P O → Prop
  | publish {b : Board P O} {x : P} {obj : O} (hmake : make x = some obj)
      (hfirst : b.published x = none) : Step make source b (b.publish x obj)
  | take {b : Board P O} {x y : P} {n : ℕ} (hsource : source x = some y)
      (hthere : b.published y = some n) : Step make source b (b.take x n)

abbrev Steps (make : P → Option O) (source : P → Option P) :
    Board P O → Board P O → Prop :=
  Relation.ReflTransGen (Step make source)

variable {make : P → Option O} {source : P → Option P} {b b' : Board P O}

/-! ## What is published stays -/

lemma Step.published_of (h : Step make source b b')
    (hx : b.published x = some n) : b'.published x = some n := by
  cases h with
  | publish hmake hfirst =>
    rw [publish_of_ne, hx]
    rintro rfl
    rw [hfirst] at hx
    exact absurd hx nofun
  | take hsource hthere => exact hx

lemma Steps.published_of (h : Steps make source b b')
    (hx : b.published x = some n) : b'.published x = some n := by
  induction h with
  | refl => exact hx
  | tail _ hstep ih => exact hstep.published_of ih

/-! ## The invariant -/

/-- Every object on the board is the one of the port that has published it, no two ports have
published the same one, and what is taken over is what the source has published. -/
structure Wired (make : P → Option O) (source : P → Option P) (b : Board P O) : Prop where
  object : ∀ x n, b.published x = some n → ∃ obj, make x = some obj ∧ b.objects[n]? = some obj
  single : ∀ x y n, b.published x = some n → b.published y = some n → x = y
  taken : ∀ x n, b.taken x = some n → ∃ y, source x = some y ∧ b.published y = some n

omit [DecidableEq P] in
lemma Wired.empty (hpublished : ∀ x, b.published x = none) (htaken : ∀ x, b.taken x = none) :
    Wired make source b where
  object := fun x n h => by
    rw [hpublished] at h
    exact absurd h nofun
  single := fun x y n h _ => by
    rw [hpublished] at h
    exact absurd h nofun
  taken := fun x n h => by
    rw [htaken] at h
    exact absurd h nofun

variable (h : Wired make source b)

include h

omit [DecidableEq P] in
lemma Wired.lt (hx : b.published x = some n) : n < b.objects.length := by
  obtain ⟨obj, -, hobj⟩ := h.object x n hx
  exact (List.getElem?_eq_some_iff.mp hobj).1

lemma Wired.publish {obj : O} (hmake : make x = some obj)
    (hfirst : b.published x = none) : Wired make source (b.publish x obj) := by
  have hstep : Step make source b (b.publish x obj) := .publish hmake hfirst
  -- a number is either that of the new object and port, or an old one
  have hcases : ∀ y n, (b.publish x obj).published y = some n →
      (y = x ∧ n = b.objects.length) ∨ (b.published y = some n ∧ n < b.objects.length) := by
    intro y n hy
    by_cases hyx : y = x
    · subst hyx
      rw [publish_self] at hy
      exact .inl ⟨rfl, (Option.some.inj hy).symm⟩
    · rw [publish_of_ne b obj hyx] at hy
      exact .inr ⟨hy, h.lt hy⟩
  refine ⟨?_, ?_, ?_⟩
  · intro y n hy
    rcases hcases y n hy with ⟨rfl, rfl⟩ | ⟨hy, hlt⟩
    · exact ⟨obj, hmake, by simp [Board.publish]⟩
    · obtain ⟨obj', hmake', hobj'⟩ := h.object y n hy
      refine ⟨obj', hmake', ?_⟩
      rw [Board.publish, List.getElem?_append_left hlt, hobj']
  · intro y z n hy hz
    rcases hcases y n hy with ⟨rfl, rfl⟩ | ⟨hy, hlt⟩
    · rcases hcases z _ hz with ⟨rfl, -⟩ | ⟨-, hlt⟩
      · rfl
      · exact absurd hlt (Nat.lt_irrefl _)
    · rcases hcases z n hz with ⟨rfl, rfl⟩ | ⟨hz, -⟩
      · exact absurd hlt (Nat.lt_irrefl _)
      · exact h.single y z n hy hz
  · intro y n hy
    obtain ⟨z, hz, hpub⟩ := h.taken y n hy
    exact ⟨z, hz, hstep.published_of hpub⟩

lemma Wired.take (hsource : source x = some y)
    (hthere : b.published y = some n) : Wired make source (b.take x n) := by
  refine ⟨h.object, h.single, ?_⟩
  intro z m hz
  by_cases hzx : z = x
  · subst hzx
    rw [take_self] at hz
    obtain rfl := Option.some.inj hz
    exact ⟨y, hsource, hthere⟩
  · rw [take_of_ne b n hzx] at hz
    exact h.taken z m hz

lemma Wired.step (hstep : Step make source b b') : Wired make source b' := by
  cases hstep with
  | publish hmake hfirst => exact h.publish hmake hfirst
  | take hsource hthere => exact h.take hsource hthere

lemma Wired.steps (hsteps : Steps make source b b') : Wired make source b' := by
  induction hsteps with
  | refl => exact h
  | tail _ hstep ih => exact ih.step hstep

omit h

end Board

end Aloe.Lib
