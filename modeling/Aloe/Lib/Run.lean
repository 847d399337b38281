import Mathlib.Data.Int.Notation
import Mathlib.Tactic.Common

/-!
# Runs of a labelled transition system

A system is a partial step function: `step a s` is the state after action `a`,
`none` where `a` is not enabled in `s`. A run is a list of actions. Safety is
proved by one rule, `run_invariant`: an invariant that every step keeps,
possibly only while a side condition on the step holds, holds at the end of
every run whose steps all meet that condition.
-/

namespace Aloe.Lib

variable {σ α : Type}

/-- The state after the actions, in order; `none` once one is not enabled. -/
def run (step : α → σ → Option σ) : List α → σ → Option σ
  | [], s => some s
  | a :: as, s => (step a s).bind (run step as)

/-- Every action of the run meets `cond` in the state it is taken from. -/
def Meets (step : α → σ → Option σ) (cond : α → σ → Prop) : List α → σ → Prop
  | [], _ => True
  | a :: as, s => cond a s ∧ ∀ s' ∈ step a s, Meets step cond as s'

instance decidableMeets (step : α → σ → Option σ) (cond : α → σ → Prop)
    [∀ a s, Decidable (cond a s)] : ∀ as s, Decidable (Meets step cond as s)
  | [], _ => isTrue trivial
  | a :: as, s =>
    have := fun s' => decidableMeets step cond as s'
    inferInstanceAs (Decidable (cond a s ∧ ∀ s' ∈ step a s, Meets step cond as s'))

variable {step : α → σ → Option σ} {cond : α → σ → Prop}

@[simp] lemma run_nil (s : σ) : run step [] s = some s := rfl

variable {s : σ} {as bs : List α}

lemma run_cons_eq_some {a : α} {t : σ} : run step (a :: as) s = some t ↔
      ∃ s', step a s = some s' ∧ run step as s' = some t := by
  simp [run, Option.bind_eq_some_iff]

lemma run_append_eq_some {u : σ} : run step (as ++ bs) s = some u ↔
      ∃ t, run step as s = some t ∧ run step bs t = some u := by
  induction as generalizing s with
  | nil => simp
  | cons a as ih =>
    rw [List.cons_append, run_cons_eq_some]
    constructor
    · rintro ⟨s', hs, hrest⟩
      obtain ⟨t, has, hbs⟩ := ih.mp hrest
      exact ⟨t, run_cons_eq_some.mpr ⟨s', hs, has⟩, hbs⟩
    · rintro ⟨t, has, hbs⟩
      obtain ⟨s', hs, hrest⟩ := run_cons_eq_some.mp has
      exact ⟨s', hs, ih.mpr ⟨t, hrest, hbs⟩⟩

lemma meets_of_forall_mem (h : ∀ a ∈ as, ∀ s, cond a s) (s : σ) : Meets step cond as s := by
  induction as generalizing s with
  | nil => trivial
  | cons a as ih =>
    exact ⟨h a List.mem_cons_self s, fun s' _ =>
      ih (fun b hb => h b (List.mem_cons_of_mem a hb)) s'⟩

lemma meets_of_forall (h : ∀ a s, cond a s) (as : List α) (s : σ) : Meets step cond as s :=
  meets_of_forall_mem (fun a _ => h a) s

lemma meets_append : Meets step cond (as ++ bs) s ↔
      Meets step cond as s ∧ ∀ t, run step as s = some t → Meets step cond bs t := by
  induction as generalizing s with
  | nil => exact ⟨fun h => ⟨trivial, fun t ht => Option.some.inj ht ▸ h⟩, fun h => h.2 s rfl⟩
  | cons a as ih =>
    constructor
    · rintro ⟨ha, hrest⟩
      refine ⟨⟨ha, fun s' hs' => (ih.mp (hrest s' hs')).1⟩, fun t ht => ?_⟩
      obtain ⟨s', hs', hrun⟩ := run_cons_eq_some.mp ht
      exact (ih.mp (hrest s' hs')).2 t hrun
    · rintro ⟨⟨ha, hrest⟩, hbs⟩
      refine ⟨ha, fun s' hs' => ih.mpr ⟨hrest s' hs', fun t ht => ?_⟩⟩
      exact hbs t (run_cons_eq_some.mpr ⟨s', hs', ht⟩)

section

variable (Inv : σ → Prop) (hstep : ∀ a s s', Inv s → cond a s → step a s = some s' → Inv s')
include hstep

variable {as : List α} {s : σ}

/-- **Invariant rule.** What every step meeting `cond` keeps, holds at the end
of every run that meets `cond`. -/
theorem run_invariant {t : σ} (hs : Inv s) (hmeets : Meets step cond as s)
    (hrun : run step as s = some t) : Inv t := by
  induction as generalizing s with
  | nil =>
    cases hrun
    exact hs
  | cons a as ih =>
    obtain ⟨s', hs', hrest⟩ := run_cons_eq_some.mp hrun
    exact ih (hstep a s s' hs hmeets.1 hs') (hmeets.2 s' hs') hrest

lemma meets_congr {cond' : α → σ → Prop}
    (hcond : ∀ a s, Inv s → (cond' a s ↔ cond a s)) (hs : Inv s) :
    Meets step cond' as s ↔ Meets step cond as s := by
  induction as generalizing s with
  | nil => exact Iff.rfl
  | cons a as ih =>
    rw [Meets, Meets, hcond a s hs]
    refine and_congr_right fun ha => forall₂_congr fun s' hs' => ?_
    exact ih (hstep a s s' hs ha hs')

end

/-- **Loss rule.** Where a step loses something unless it meets `cond`, and nothing is ever
regained, a run loses nothing exactly if all its steps meet `cond`. -/
theorem run_lost_iff (Inv : σ → Prop) (lost : σ → ℤ) (hstep : ∀ a s s', Inv s → step a s = some s' →
      Inv s' ∧ lost s ≤ lost s' ∧ (lost s' = lost s ↔ cond a s)) {t : σ} (hs : Inv s)
    (hrun : run step as s = some t) :
    Inv t ∧ lost s ≤ lost t ∧ (lost t = lost s ↔ Meets step cond as s) := by
  induction as generalizing s with
  | nil =>
    cases hrun
    exact ⟨hs, Int.le_refl _, iff_of_true rfl trivial⟩
  | cons a as ih =>
    obtain ⟨s', hok, hrest⟩ := run_cons_eq_some.mp hrun
    obtain ⟨hs', hle, hiff⟩ := hstep a s s' hs hok
    obtain ⟨ht, hle', hiff'⟩ := ih hs' hrest
    refine ⟨ht, by omega, ?_⟩
    simp only [Meets, hok, Option.mem_some_iff, forall_eq', ← hiff, ← hiff']
    omega

end Aloe.Lib
