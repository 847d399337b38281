import Mathlib.Tactic.Common

/-!
# Fallible computations

Rules for programs in `Except`: how a success decomposes, and what the loops `foldlM`,
`forM` and `mapM` do when they succeed. A log lists what a program does on its way, also
when it ends with an error: `andThen` records after a step that succeeds, `loopLog` in
every round of a loop.
-/

namespace Aloe.Lib

open List

variable {ε α β σ : Type} {x : Except ε α} {f : α → Except ε β} {t s : σ} {bs : List β}

lemma bind_eq_ok {b : β} : x >>= f = .ok b ↔ ∃ a, x = .ok a ∧ f a = .ok b := by
  cases x with
  | error e => exact iff_of_false (fun h => by cases h) (fun ⟨_, h, _⟩ => by cases h)
  | ok a =>
    constructor
    · exact fun h => ⟨a, rfl, h⟩
    · rintro ⟨_, ⟨⟩, h⟩
      exact h

@[simp] lemma bind_ok_eq {a : α} : (Except.ok a >>= f) = f a := rfl

lemma foldlM_cons_ok {f : σ → α → Except ε σ} {a : α} {as : List α} :
    (a :: as).foldlM f s = .ok t ↔ ∃ s', f s a = .ok s' ∧ as.foldlM f s' = .ok t := by
  rw [foldlM_cons, bind_eq_ok]

lemma foldlM_flatMap {f : σ → α → Except ε σ} {g : β → List α} :
    (bs.flatMap g).foldlM f s = bs.foldlM (fun s b => (g b).foldlM f s) s := by
  induction bs generalizing s with
  | nil => rfl
  | cons b bs ih =>
    rw [flatMap_cons, foldlM_append, foldlM_cons]
    exact congrArg _ (funext fun _ => ih)

variable {n : ℕ}

/-- **Total loop rule.** A counting loop whose rounds all succeed and carry the invariant on
succeeds. -/
theorem foldlM_range'_total {f : σ → ℕ → Except ε σ} (Inv : ℕ → σ → Prop) {a : ℕ}
    (hstep : ∀ k s, a ≤ k → k < a + n → Inv k s → ∃ s', f s k = .ok s' ∧ Inv (k + 1) s')
    (hs : Inv a s) :
    ∃ t, (List.range' a n).foldlM f s = .ok t ∧ Inv (a + n) t := by
  induction n generalizing a s with
  | zero => exact ⟨s, rfl, hs⟩
  | succ n ih =>
    obtain ⟨s', hok, hs'⟩ := hstep a s (Nat.le_refl a) (by omega) hs
    obtain ⟨t, hrest, ht⟩ := ih (a := a + 1) (fun k u hk hlt hu =>
      hstep k u (by omega) (by omega) hu) hs'
    refine ⟨t, ?_, ?_⟩
    · rw [range'_succ]
      exact foldlM_cons_ok.mpr ⟨s', hok, hrest⟩
    · rwa [show a + (n + 1) = a + 1 + n by omega]

lemma foldlM_range_total {f : σ → ℕ → Except ε σ} (Inv : ℕ → σ → Prop)
    (hstep : ∀ k s, k < n → Inv k s → ∃ s', f s k = .ok s' ∧ Inv (k + 1) s')
    (hs : Inv 0 s) : ∃ t, (List.range n).foldlM f s = .ok t ∧ Inv n t := by
  obtain ⟨t, hok, ht⟩ := foldlM_range'_total Inv (a := 0) (n := n)
    (fun k u _ hlt hu => hstep k u (by omega) hu) hs
  refine ⟨t, ?_, ?_⟩
  · rw [range_eq_range']
    exact hok
  · rwa [Nat.zero_add] at ht

/-- **Invariant rule.** What every successful round preserves holds after a successful loop. -/
theorem foldlM_inv {f : σ → α → Except ε σ} {P : σ → Prop} {as : List α}
    (hstep : ∀ a ∈ as, ∀ s s', P s → f s a = .ok s' → P s') (hs : P s)
    (h : as.foldlM f s = .ok t) : P t := by
  induction as generalizing s with
  | nil =>
    cases h
    exact hs
  | cons a as ih =>
    obtain ⟨hfirst, hrest⟩ := forall_mem_cons.mp hstep
    obtain ⟨s', hok, hlater⟩ := foldlM_cons_ok.mp h
    exact ih hrest (hfirst s s' hs hok) hlater

/-- **Counting rule.** An invariant that every successful round leads from one count to the next. -/
theorem foldlM_range_inv {f : σ → ℕ → Except ε σ} (Inv : ℕ → σ → Prop)
    (hstep : ∀ k s s', k < n → Inv k s → f s k = .ok s' → Inv (k + 1) s')
    (hs : Inv 0 s) (h : (List.range n).foldlM f s = .ok t) : Inv n t := by
  induction n generalizing t with
  | zero =>
    cases h
    exact hs
  | succ n ih =>
    rw [range_succ, foldlM_append] at h
    obtain ⟨u, hu, hlast⟩ := bind_eq_ok.mp h
    obtain ⟨v, hv, hend⟩ := foldlM_cons_ok.mp hlast
    cases hend
    exact hstep n u t (by omega) (ih (fun k s s' hk => hstep k s s' (by omega)) hu) hv

lemma foldlM_decoded {f : σ → β → Except ε σ} {g : β → Option α} {act : σ → α → Except ε σ}
    (hstep : ∀ s b t, f s b = .ok t ↔ ∃ a, g b = some a ∧ act s a = .ok t) :
    bs.foldlM f s = .ok t ↔ ∃ as, bs.mapM g = some as ∧ as.foldlM act s = .ok t := by
  induction bs generalizing s with
  | nil => simp
  | cons b bs ih =>
    rw [foldlM_cons_ok, mapM_cons]
    constructor
    · simp_all
    · rintro ⟨cs, hcs, hacts⟩
      obtain ⟨a, ha, hcs⟩ := Option.bind_eq_some_iff.mp hcs
      obtain ⟨as, has, hcs⟩ := Option.bind_eq_some_iff.mp hcs
      cases hcs
      obtain ⟨s', hact, hrest⟩ := foldlM_cons_ok.mp hacts
      exact ⟨s', (hstep s b s').mpr ⟨a, ha, hact⟩, ih.mpr ⟨as, has, hrest⟩⟩

lemma forM_eq_ok {f : α → Except ε Unit} {as : List α} :
    as.forM f = .ok () ↔ ∀ a ∈ as, f a = .ok () := by
  induction as with
  | nil => exact ⟨fun _ _ h => absurd h not_mem_nil, fun _ => rfl⟩
  | cons a as ih =>
    show (f a >>= fun _ => as.forM f) = _ ↔ _
    rw [bind_eq_ok, forall_mem_cons, ← ih]
    exact ⟨fun ⟨_, ha, has⟩ => ⟨ha, has⟩, fun ⟨ha, has⟩ => ⟨(), ha, has⟩⟩

lemma mapM_ok {as : List α} (h : as.mapM f = .ok bs) :
    bs.length = as.length ∧ ∀ (i : ℕ) (a : α), as[i]? = some a → ∃ b, bs[i]? = some b ∧ f a =
    .ok b := by
  induction as generalizing bs with
  | nil =>
    rw [mapM_nil] at h
    cases h
    simp
  | cons a as ih =>
    rw [mapM_cons] at h
    obtain ⟨b, hb, hrest⟩ := bind_eq_ok.mp h
    obtain ⟨cs, hcs, hend⟩ := bind_eq_ok.mp hrest
    cases hend
    obtain ⟨hlen, hall⟩ := ih hcs
    refine ⟨by simp [hlen], fun i c hi => ?_⟩
    cases i with
    | zero =>
      cases hi
      exact ⟨b, rfl, hb⟩
    | succ i => exact hall i c hi

lemma mapM_some {g : α → Option β} {as : List α} (h : as.mapM g = some bs) :
    bs.length = as.length ∧ ∀ b ∈ bs, ∃ a ∈ as, g a = some b := by
  induction as generalizing bs with
  | nil =>
    cases h
    simp
  | cons a as ih =>
    rw [mapM_cons] at h
    obtain ⟨b, hb, h⟩ := Option.bind_eq_some_iff.mp h
    obtain ⟨cs, hcs, h⟩ := Option.bind_eq_some_iff.mp h
    cases h
    obtain ⟨hlen, hall⟩ := ih hcs
    refine ⟨by simp [hlen], forall_mem_cons.mpr ⟨⟨a, mem_cons_self, hb⟩, ?_⟩⟩
    intro c hc
    obtain ⟨d, hd, hdc⟩ := hall c hc
    exact ⟨d, mem_cons_of_mem a hd, hdc⟩

lemma mapM_total {as : List α} (h : ∀ a ∈ as, ∃ b, f a = .ok b) : ∃ bs, as.mapM f = .ok bs := by
  induction as with
  | nil => exact ⟨[], rfl⟩
  | cons a as ih =>
    obtain ⟨⟨b, hb⟩, hrest⟩ := forall_mem_cons.mp h
    obtain ⟨bs, hbs⟩ := ih hrest
    refine ⟨b :: bs, ?_⟩
    rw [mapM_cons, hb, hbs]
    rfl

/-! ## Running a computation -/

def failure : Except ε α → Option ε
  | .error e => some e
  | .ok _ => none

def yields (test : α → Prop) [DecidablePred test] : Except ε α → Bool
  | .error _ => false
  | .ok a => decide (test a)

lemma exists_of_yields (test : α → Prop) [DecidablePred test]
    (h : yields test x = true) : ∃ a, x = .ok a ∧ test a := by
  cases x with
  | error e => cases h
  | ok a => exact ⟨a, rfl, of_decide_eq_true h⟩

lemma set_of_getElem? {α : Type} {as : List α} {i : ℕ} {a : α} (h : as[i]? = some a) :
    as.set i a = as := by
  obtain ⟨hi, rfl⟩ := List.getElem?_eq_some_iff.mp h
  exact set_getElem_self hi

/-! ## The calls of a program -/

variable {ε α σ τ : Type}

def andThen (x : Except ε σ) (log : σ → List τ) : List τ :=
  match x with
  | .ok s => log s
  | .error _ => []

def loopLog (f : σ → α → Except ε σ) (log : σ → α → List τ) : List α → σ → List τ
  | [], _ => []
  | a :: as, s => log s a ++ andThen (f s a) (loopLog f log as)

section

variable {f : σ → α → Except ε σ} {log : σ → α → List τ} {as : List α} {s : σ} {t : τ}

lemma mem_andThen {x : Except ε σ} {log : σ → List τ} :
    t ∈ andThen x log ↔ ∃ s, x = .ok s ∧ t ∈ log s := by
  cases x with
  | error e => simp [andThen]
  | ok s => simp [andThen]

lemma mem_loopLog (h : t ∈ loopLog f log as s) : ∃ a ∈ as, ∃ s', t ∈ log s' a := by
  induction as generalizing s with
  | nil => cases h
  | cons a as ih =>
    rcases mem_append.mp h with h | h
    · exact ⟨a, mem_cons_self, s, h⟩
    · obtain ⟨s', -, h⟩ := mem_andThen.mp h
      obtain ⟨b, hb, s', ht⟩ := ih h
      exact ⟨b, mem_cons_of_mem a hb, s', ht⟩

/-- **Log rule.** A property of the records that follows from an invariant of the loop. -/
theorem forall_mem_loopLog {P : σ → Prop} {Q : τ → Prop}
    (hstep : ∀ a ∈ as, ∀ s s', P s → f s a = .ok s' → P s')
    (hlog : ∀ a ∈ as, ∀ s, P s → ∀ t ∈ log s a, Q t) (hs : P s) :
    ∀ t ∈ loopLog f log as s, Q t := by
  induction as generalizing s with
  | nil =>
    intro t ht
    cases ht
  | cons a as ih =>
    obtain ⟨hfirst, hrest⟩ := forall_mem_cons.mp hstep
    obtain ⟨hhead, htail⟩ := forall_mem_cons.mp hlog
    intro t ht
    rcases mem_append.mp ht with ht | ht
    · exact hhead s hs t ht
    · obtain ⟨s', hok, ht⟩ := mem_andThen.mp ht
      exact ih hrest htail (hfirst s s' hs hok) t ht

lemma forall_mem_loopLog_range' {f : σ → ℕ → Except ε σ} {log : σ → ℕ → List τ}
    {Q : τ → Prop} (Inv : ℕ → σ → Prop) {a n : ℕ}
    (hstep : ∀ k s s', a ≤ k → k < a + n → Inv k s → f s k = .ok s' → Inv (k + 1) s')
    (hlog : ∀ k s, a ≤ k → k < a + n → Inv k s → ∀ t ∈ log s k, Q t) (hs : Inv a s) :
    ∀ t ∈ loopLog f log (List.range' a n) s, Q t := by
  induction n generalizing a s with
  | zero =>
    intro t ht
    cases ht
  | succ n ih =>
    intro t ht
    rw [range'_succ] at ht
    rcases mem_append.mp ht with ht | ht
    · exact hlog a s (Nat.le_refl a) (by omega) hs t ht
    · obtain ⟨s', hok, ht⟩ := mem_andThen.mp ht
      exact ih (a := a + 1) (fun k u u' hk hlt hu => hstep k u u' (by omega) (by omega) hu)
        (fun k u hk hlt hu => hlog k u (by omega) (by omega) hu)
        (hstep a s s' (Nat.le_refl a) (by omega) hs hok) t ht

lemma mem_loopLog_of_reached {before after : List α} {a : α} {s' : σ}
    (hreach : before.foldlM f s = .ok s') (ht : t ∈ log s' a) :
    t ∈ loopLog f log (before ++ a :: after) s := by
  induction before generalizing s with
  | nil =>
    cases hreach
    exact mem_append_left _ ht
  | cons b before ih =>
    obtain ⟨s1, hfirst, hrest⟩ := foldlM_cons_ok.mp hreach
    exact mem_append_right _ (mem_andThen.mpr ⟨s1, hfirst, ih hrest⟩)

end

end Aloe.Lib
