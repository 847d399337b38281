import Mathlib.Data.List.Basic

/-!
# Writers and readers in lock step

Programs over a byte channel and an object they work on. A writer appends to the
channel, a reader consumes from it. `Mirrors` relates the two: whatever bytes the
writer appends when it succeeds, the reader consumes exactly those and ends in the
expected object. The rules follow the structure of the programs, so a round trip over
nested records and loops is proved without naming the bytes.

`Grows` is the companion for lengths that are sent ahead of the data: a lower bound on
what a successful writer appends. `Maintains P p` says that `p` ends in a state with `P`
whenever it starts in one, whichever way it ends.
-/

namespace Aloe.Lib

/-- A byte channel: what was written to it, and what is still to be read. -/
class Channel (κ : Type) where
  written : κ → List UInt8
  unread : κ → List UInt8

open Channel

variable {ε κ σ τ α β γ : Type}

/-! ## Filling an array -/

/-- An array of length `n` after `i` of its cells were filled from `cs`, in order. -/
def filled (f : β → γ) (d : γ) (cs : List β) (n i : ℕ) : List γ :=
  (cs.take i).map f ++ List.replicate (n - i) d

lemma filled_zero (f : β → γ) (d : γ) (cs : List β) (n : ℕ) :
    filled f d cs n 0 = List.replicate n d := by
  simp [filled]

lemma filled_length (f : β → γ) (d : γ) (cs : List β) (r : ℕ) :
    filled f d cs (cs.length + r) cs.length = cs.map f ++ List.replicate r d := by
  simp [filled]

variable {n i : ℕ}

lemma filled_getElem? (f : β → γ) (d : γ) {cs : List β} (hi : i < cs.length)
    (hn : cs.length ≤ n) : (filled f d cs n i)[i]? = some d := by
  have hlen : ((cs.take i).map f).length = i := by simp; omega
  rw [filled, List.getElem?_append_right (by omega), hlen, Nat.sub_self,
    List.getElem?_replicate, if_pos (by omega)]

lemma filled_set (f : β → γ) (d : γ) {cs : List β} (hi : i < cs.length) (hn : cs.length ≤ n) :
    (filled f d cs n i).set i (f cs[i]) = filled f d cs n (i + 1) := by
  have hlen : ((cs.take i).map f).length = i := by simp; omega
  have hrest : n - i = n - (i + 1) + 1 := by omega
  rw [filled, List.set_append_right _ _ (by omega), hlen, Nat.sub_self, hrest,
    List.replicate_succ, List.set_cons_zero, filled, List.take_succ_eq_append_getElem hi,
    List.map_append, List.append_assoc]
  rfl

/-- A fixed array whose first `i` cells were filled from `f`; the others are as in `g`. -/
def refilled {n : ℕ} (f g : Fin n → γ) (i : ℕ) : Vector γ n :=
  Vector.ofFn fun j => if j.val < i then f j else g j

@[simp] lemma refilled_zero (f g : Fin n → γ) : refilled f g 0 = Vector.ofFn g := by
  simp [refilled]

lemma refilled_getElem (f g : Fin n → γ) (hi : i < n) : (refilled f g i)[i] = g ⟨i, hi⟩ := by
  simp [refilled]

lemma refilled_set (f g : Fin n → γ) (hi : i < n) :
    (refilled f g i).set i (f ⟨i, hi⟩) = refilled f g (i + 1) := by
  apply Vector.ext
  intro j hj
  simp only [refilled, Vector.getElem_ofFn, Vector.getElem_set]
  by_cases hij : i = j
  · subst hij
    simp
  · have hlt : j < i + 1 ↔ j < i := by omega
    simp [hij, hlt]

/-! ## Working on a part of the object -/

/-- Runs a program on a part of the object; `e` is raised where there is no such
part. -/
def zoom (e : ε) (part : σ → Option τ) (put : τ → σ → σ)
    (p : EStateM ε (κ × τ) α) : EStateM ε (κ × σ) α :=
  fun (k, s) =>
    match part s with
    | none => .error e (k, s)
    | some t =>
      match p (k, t) with
      | .ok a (k', t') => .ok a (k', put t' s)
      | .error e' (k', t') => .error e' (k', put t' s)

variable {k' : κ} {t' : τ} {s' s1 : σ} {c : γ} {cs : List γ}

lemma zoom_ok {e : ε} {part : σ → Option τ} {put : τ → σ → σ}
    {p : EStateM ε (κ × τ) α} {k : κ} {s : σ} {t : τ} {a : α}
    (hpart : part s = some t) (hp : p (k, t) = .ok a (k', t')) :
    zoom e part put p (k, s) = .ok a (k', put t' s) := by
  simp [zoom, hpart, hp]

lemma zoom_error {e e' : ε} {part : σ → Option τ} {put : τ → σ → σ}
    {p : EStateM ε (κ × τ) α} {k : κ} {s : σ} {t : τ}
    (hpart : part s = some t) (hp : p (k, t) = .error e' (k', t')) :
    zoom e part put p (k, s) = .error e' (k', put t' s) := by
  simp [zoom, hpart, hp]

def endState : EStateM.Result ε σ α → σ
  | .ok _ s => s
  | .error _ s => s

section Zoom

variable {e : ε} {part : σ → Option τ} {put : τ → σ → σ} {p q : EStateM ε (κ × τ) α}
  {k : κ} {s : σ} {t : τ}

lemma zoom_eq_iff (hpart : part s = some t) (hput : ∀ t', part (put t' s) = some t') :
    zoom e part put p (k, s) = zoom e part put q (k, s) ↔ p (k, t) = q (k, t) := by
  have hinj : ∀ t1 t2, put t1 s = put t2 s → t1 = t2 := by
    intro t1 t2 heq
    have hread := congrArg part heq
    rw [hput, hput] at hread
    exact Option.some.inj hread
  constructor
  · intro h
    simp only [zoom, hpart] at h
    cases hp : p (k, t) <;> cases hq : q (k, t) <;>
      simp only [hp, hq, EStateM.Result.ok.injEq, EStateM.Result.error.injEq, Prod.mk.injEq,
        reduceCtorEq] at h
    all_goals
      obtain ⟨rfl, hk, ht⟩ := h
      rw [Prod.ext hk (hinj _ _ ht)]
  · intro h
    simp [zoom, hpart, h]

variable {k' : κ} {e' : ε}

lemma zoom_ok_same {a : α} (hpart : part s = some t) (hsame : put t s = s)
    (hp : p (k, t) = .ok a (k', t)) : zoom e part put p (k, s) = .ok a (k', s) := by
  rw [zoom_ok hpart hp, hsame]

lemma zoom_error_same (hpart : part s = some t) (hsame : put t s = s)
    (hp : p (k, t) = .error e' (k', t)) : zoom e part put p (k, s) = .error e' (k', s) := by
  rw [zoom_error hpart hp, hsame]

lemma zoom_error_iff (hpart : part s = some t) :
    (∃ st, zoom e part put p (k, s) = .error e' st) ↔ ∃ st, p (k, t) = .error e' st := by
  simp only [zoom, hpart]
  cases p (k, t) <;> simp

end Zoom

lemma tryCatch_of_ok {p : EStateM ε σ α} {c : ε → EStateM ε σ α} {s : σ} {a : α}
    (h : p s = .ok a s') : tryCatch p c s = .ok a s' := by
  change EStateM.tryCatch p c s = _
  unfold EStateM.tryCatch
  rw [h]

lemma tryCatch_of_error {p : EStateM ε σ α} {c : ε → EStateM ε σ α} {s : σ} {e : ε}
    (h : p s = .error e s') : tryCatch p c s = c e s' := by
  change EStateM.tryCatch p c s = _
  unfold EStateM.tryCatch
  rw [h]
  rfl

lemma bind_ok {w : EStateM ε σ α} {f : α → EStateM ε σ β} {s : σ} {b : β} :
    (w >>= f) s = .ok b s' ↔ ∃ a s1, w s = .ok a s1 ∧ f a s1 = .ok b s' := by
  change EStateM.bind w f s = _ ↔ _
  unfold EStateM.bind
  cases w s <;> simp

lemma bind_error_iff {w : EStateM ε σ α} {f : α → EStateM ε σ β} {s : σ} {e : ε} :
    (∃ st, (w >>= f) s = .error e st) ↔
      (∃ st, w s = .error e st) ∨ ∃ a s1, w s = .ok a s1 ∧ ∃ st, f a s1 = .error e st := by
  change (∃ st, EStateM.bind w f s = .error e st) ↔ _
  unfold EStateM.bind
  cases w s <;> simp

lemma bind_of_ok {w : EStateM ε σ α} {f : α → EStateM ε σ β} {s : σ} {a : α}
    (h : w s = .ok a s1) : (w >>= f) s = f a s1 := by
  change EStateM.bind w f s = _
  simp [EStateM.bind, h]

lemma bind_of_error {w : EStateM ε σ α} {f : α → EStateM ε σ β} {s : σ} {e : ε}
    (h : w s = .error e s1) : (w >>= f) s = .error e s1 := by
  change EStateM.bind w f s = _
  simp [EStateM.bind, h]

lemma forM_cons_of_ok {p : γ → EStateM ε σ Unit} {s : σ} {u : Unit}
    (h : p c s = .ok u s1) : (c :: cs).forM p s = cs.forM p s1 :=
  bind_of_ok h

lemma forM_cons_of_error {p : γ → EStateM ε σ Unit} {s : σ} {e : ε}
    (h : p c s = .error e s1) : (c :: cs).forM p s = .error e s1 :=
  bind_of_error h

lemma forM_ok {p : γ → EStateM ε σ Unit} {s : σ} (h : cs.forM p s = .ok () s') (hc : c ∈ cs) :
    ∃ s1 s2, p c s1 = .ok () s2 := by
  induction cs generalizing s with
  | nil => cases hc
  | cons d cs ih =>
    obtain ⟨_, s1, hd, hcs⟩ := bind_ok.mp h
    cases hc with
    | head => exact ⟨s, s1, hd⟩
    | tail _ hc => exact ih hcs hc

lemma forM_filter (p : γ → EStateM ε σ Unit) (test : γ → Bool) (cs : List γ) :
    (cs.forM fun c => if test c then p c else pure ()) = (cs.filter test).forM p := by
  induction cs with
  | nil => rfl
  | cons c cs ih =>
    rw [List.forM_eq_forM, List.forM_cons, List.filter_cons]
    rw [List.forM_eq_forM] at ih
    by_cases htest : test c = true
    · rw [if_pos htest, if_pos htest, List.forM_cons, ih]
    · rw [if_neg htest, if_neg htest, pure_bind, ih]

lemma forM_range_ok {p : ℕ → EStateM ε σ Unit} (state : ℕ → σ)
    (h : ∀ i < n, p i (state i) = .ok () (state (i + 1))) :
    (List.range n).forM p (state 0) = .ok () (state n) := by
  induction n with
  | zero => rfl
  | succ n ih =>
    have hinit := ih fun i hi => h i (Nat.lt_succ_of_lt hi)
    rw [List.range_succ, List.forM_eq_forM, List.forM_append]
    refine bind_ok.mpr ⟨(), state n, hinit, ?_⟩
    exact bind_ok.mpr ⟨(), state (n + 1), h n (Nat.lt_succ_self n), rfl⟩

/-! ## Lock step -/

variable [Channel κ]

/-- The reader `r` takes the object `t` to `t'` and returns `a` on every channel whose
next bytes are `bs`, and consumes exactly these. -/
def Consumes (r : EStateM ε (κ × τ) α) (bs : List UInt8) (t : τ) (a : α) (t' : τ) : Prop :=
  ∀ q rest, unread q = bs ++ rest →
    ∃ q', r (q, t) = .ok a (q', t') ∧ unread q' = rest ∧ written q' = written q

/-- When the writer `w` succeeds, it has appended some bytes that the reader `r`
consumes. -/
def Mirrors (w : EStateM ε (κ × σ) Unit) (r : EStateM ε (κ × τ) α) (t : τ) (a : α)
    (t' : τ) : Prop :=
  ∀ k s k' s', w (k, s) = .ok () (k', s') →
    ∃ bs, written k' = written k ++ bs ∧ Consumes r bs t a t'

namespace Consumes

variable {r : EStateM ε (κ × τ) α} {f : α → EStateM ε (κ × τ) β} {bs bs1 bs2 : List UInt8}
  {t t1 t2 : τ} {a : α} {b : β}

lemma nil (h : ∀ q, r (q, t) = .ok a (q, t1)) : Consumes r [] t a t1 :=
  fun q _ hq => ⟨q, h q, hq, rfl⟩

lemma bind (h1 : Consumes r bs1 t a t1) (h2 : Consumes (f a) bs2 t1 b t2) :
    Consumes (r >>= f) (bs1 ++ bs2) t b t2 := by
  intro q rest hq
  rw [List.append_assoc] at hq
  obtain ⟨q1, hq1, hrest1, hkept1⟩ := h1 q _ hq
  obtain ⟨q2, hq2, hrest2, hkept2⟩ := h2 q1 rest hrest1
  exact ⟨q2, bind_ok.mpr ⟨a, (q1, t1), hq1, hq2⟩, hrest2, hkept2.trans hkept1⟩

lemma zoom {υ : Type} {e : ε} {part : υ → Option τ} {put : τ → υ → υ} {u : υ}
    (hpart : part u = some t) (h : Consumes r bs t a t1) :
    Consumes (Lib.zoom e part put r) bs u a (put t1 u) := by
  intro q rest hq
  obtain ⟨q', hq', hrest⟩ := h q rest hq
  exact ⟨q', zoom_ok hpart hq', hrest⟩

end Consumes

namespace Mirrors

variable {w w1 w2 : EStateM ε (κ × σ) Unit} {r : EStateM ε (κ × τ) α}
  {f : α → EStateM ε (κ × τ) β} {t t1 t2 : τ} {a : α} {b : β}

lemma nil : Mirrors (pure () : EStateM ε (κ × σ) Unit) (pure a : EStateM ε (κ × τ) α) t a t := by
  intro k s k' s' hw
  cases hw
  exact ⟨[], by simp, Consumes.nil fun _ => rfl⟩

lemma bind (h1 : Mirrors w1 r t a t1) (h2 : Mirrors w2 (f a) t1 b t2) :
    Mirrors (w1 >>= fun _ => w2) (r >>= f) t b t2 := by
  intro k s k' s' hw
  obtain ⟨_, ⟨k1, s1⟩, hw1, hw2⟩ := bind_ok.mp hw
  obtain ⟨bs1, hbs1, hr1⟩ := h1 k s k1 s1 hw1
  obtain ⟨bs2, hbs2, hr2⟩ := h2 k1 s1 k' s' hw2
  exact ⟨bs1 ++ bs2, by simp [hbs2, hbs1], hr1.bind hr2⟩

lemma step (h1 : ∀ q, r (q, t) = .ok a (q, t1)) (h2 : Mirrors w (f a) t1 b t2) :
    Mirrors w (r >>= f) t b t2 := by
  intro k s k' s' hw
  obtain ⟨bs, hbs, hr⟩ := h2 k s k' s' hw
  exact ⟨bs, hbs, (Consumes.nil h1).bind hr⟩

lemma last (h1 : Mirrors w r t a t1) (h2 : ∀ q, f a (q, t1) = .ok b (q, t2)) :
    Mirrors w (r >>= f) t b t2 := by
  intro k s k' s' hw
  obtain ⟨bs, hbs, hr⟩ := h1 k s k' s' hw
  exact ⟨bs, hbs, by simpa using hr.bind (Consumes.nil h2)⟩

lemma of_ok {P : Prop} (hP : ∀ k s k' s', w (k, s) = .ok () (k', s') → P)
    (h : P → Mirrors w r t a t1) : Mirrors w r t a t1 :=
  fun k s k' s' hw => h (hP k s k' s' hw) k s k' s' hw

lemma zoom {υ : Type} {e : ε} {part : υ → Option τ} {put : τ → υ → υ} {u : υ}
    (hpart : part u = some t) (h : Mirrors w r t a t1) :
    Mirrors w (Lib.zoom e part put r) u a (put t1 u) := by
  intro k s k' s' hw
  obtain ⟨bs, hbs, hr⟩ := h k s k' s' hw
  exact ⟨bs, hbs, hr.zoom hpart⟩

variable {wr : γ → EStateM ε (κ × σ) Unit} {rd : ℕ → EStateM ε (κ × τ) Unit}

lemma forM_range' (state : ℕ → τ) (cs : List γ) (j : ℕ) (h : ∀ i (hi : i < cs.length),
      Mirrors (wr cs[i]) (rd (j + i)) (state (j + i)) () (state (j + i + 1))) :
    Mirrors (cs.forM wr) ((List.range' j cs.length).forM rd) (state j) ()
      (state (j + cs.length)) := by
  induction cs generalizing j with
  | nil => exact nil
  | cons c cs ih =>
    have hhead : Mirrors (wr c) (rd j) (state j) () (state (j + 1)) := h 0 (Nat.succ_pos _)
    have htail := ih (j + 1) fun i hi => by
      have := h (i + 1) (Nat.succ_lt_succ hi)
      simpa [Nat.add_assoc, Nat.add_comm 1] using this
    rw [List.length_cons, List.range'_succ,
      show j + (cs.length + 1) = j + 1 + cs.length by omega]
    exact hhead.bind htail

lemma forM (state : ℕ → τ) (cs : List γ)
    (h : ∀ i (hi : i < cs.length), Mirrors (wr cs[i]) (rd i) (state i) () (state (i + 1))) :
    Mirrors (cs.forM wr) ((List.range cs.length).forM rd) (state 0) () (state cs.length) := by
  have hloop : Mirrors (cs.forM wr) ((List.range' 0 cs.length).forM rd) (state 0) ()
      (state (0 + cs.length)) := forM_range' state cs 0 (by simpa using h)
  simpa [List.range_eq_range'] using hloop

end Mirrors

/-! ## Images -/

def joined (first second : Option (List UInt8)) : Option (List UInt8) :=
  first.bind fun bs => second.map (bs ++ ·)

def images (image : γ → Option (List UInt8)) : List γ → Option (List UInt8)
  | [] => some []
  | c :: cs => joined (image c) (images image cs)

def Appends (w : EStateM ε (κ × σ) Unit) (image : Option (List UInt8)) : Prop :=
  ∀ k s k' s', w (k, s) = .ok () (k', s') → ∃ bs, image = some bs ∧ written k' = written k ++ bs

namespace Appends

variable {w1 w2 : EStateM ε (κ × σ) Unit} {first second : Option (List UInt8)}

lemma nil : Appends (pure () : EStateM ε (κ × σ) Unit) (some []) := by
  intro k s k' s' hw
  cases hw
  exact ⟨[], rfl, (List.append_nil _).symm⟩

lemma bind (h1 : Appends w1 first) (h2 : Appends w2 second) :
    Appends (w1 >>= fun _ => w2) (joined first second) := by
  intro k s k' s' hw
  obtain ⟨_, ⟨k1, s1⟩, hw1, hw2⟩ := bind_ok.mp hw
  obtain ⟨bs1, rfl, hbs1⟩ := h1 k s k1 s1 hw1
  obtain ⟨bs2, rfl, hbs2⟩ := h2 k1 s1 k' s' hw2
  exact ⟨bs1 ++ bs2, rfl, by rw [hbs2, hbs1, List.append_assoc]⟩

lemma forM {wr : γ → EStateM ε (κ × σ) Unit} {image : γ → Option (List UInt8)}
    (h : ∀ c, Appends (wr c) (image c)) (cs : List γ) :
    Appends (cs.forM wr) (images image cs) := by
  induction cs with
  | nil => exact nil
  | cons c cs ih => exact (h c).bind ih

end Appends

/-! ## Growth -/

/-- A successful writer appends at least `n` bytes. -/
def Grows (w : EStateM ε (κ × σ) Unit) (n : ℕ) : Prop := ∀ k s k' s', w (k, s) = .ok () (k', s') →
    (written k).length + n ≤ (written k').length

namespace Grows

variable {w w1 w2 : EStateM ε (κ × σ) Unit} {m n : ℕ}

lemma nil : Grows (pure () : EStateM ε (κ × σ) Unit) 0 := by
  intro k s k' s' hw
  cases hw
  exact Nat.le_refl _

lemma bind (h1 : Grows w1 m) (h2 : Grows w2 n) : Grows (w1 >>= fun _ => w2) (m + n) := by
  intro k s k' s' hw
  obtain ⟨_, ⟨k1, s1⟩, hw1, hw2⟩ := bind_ok.mp hw
  have hlen1 := h1 k s k1 s1 hw1
  have hlen2 := h2 k1 s1 k' s' hw2
  omega

lemma mono (h : Grows w n) (hmn : m ≤ n) : Grows w m := by
  intro k s k' s' hw
  have := h k s k' s' hw
  omega

lemma forM {wr : γ → EStateM ε (κ × σ) Unit} (h : ∀ c, Grows (wr c) n)
    (cs : List γ) : Grows (cs.forM wr) (n * cs.length) := by
  induction cs with
  | nil => exact nil
  | cons c cs ih => simpa [Nat.mul_succ, Nat.add_comm] using (h c).bind ih

end Grows

/-! ## What a program maintains -/

open List

variable {ε σ κ τ α β γ : Type} {P : σ → Prop}

def Maintains (P : σ → Prop) (p : EStateM ε σ α) : Prop := ∀ s, P s → P (endState (p s))

namespace Maintains

lemma pure (a : α) : Maintains P (Pure.pure a : EStateM ε σ α) := fun _ h => h

lemma throw (e : ε) : Maintains P (MonadExcept.throw e : EStateM ε σ α) := fun _ h => h

lemma bind {p : EStateM ε σ α} {f : α → EStateM ε σ β} (hp : Maintains P p)
    (hf : ∀ a, Maintains P (f a)) : Maintains P (p >>= f) := by
  intro s hs
  have hfirst := hp s hs
  cases hrun : p s with
  | ok a s1 =>
    rw [hrun] at hfirst
    rw [bind_of_ok hrun]
    exact hf a s1 hfirst
  | error e s1 =>
    rw [hrun] at hfirst
    rw [bind_of_error hrun]
    exact hfirst

lemma forM {p : γ → EStateM ε σ Unit} {cs : List γ} (h : ∀ c ∈ cs, Maintains P (p c)) :
    Maintains P (cs.forM p) := by
  induction cs with
  | nil => exact fun _ hs => hs
  | cons c cs ih =>
    exact (h c mem_cons_self).bind fun _ => ih fun d hd => h d (mem_cons_of_mem c hd)

lemma zoom {P : κ × σ → Prop} {e : ε} {part : σ → Option τ} {put : τ → σ → σ}
    (hput : ∀ k k' s t, P (k, s) → P (k', put t s)) (p : EStateM ε (κ × τ) α) :
    Maintains P (Lib.zoom e part put p) := by
  rintro ⟨k, s⟩ hs
  cases hpart : part s with
  | none =>
    have hrun : Lib.zoom e part put p (k, s) = .error e (k, s) := by simp [Lib.zoom, hpart]
    rw [hrun]
    exact hs
  | some t =>
    cases hp : p (k, t) with
    | ok a st =>
      rw [zoom_ok hpart hp]
      exact hput _ _ _ _ hs
    | error e' st =>
      rw [zoom_error hpart hp]
      exact hput _ _ _ _ hs

end Maintains

variable {n : ℕ} {s : σ} {p : ℕ → EStateM ε σ Unit}

lemma forM_range_cases (Q : ℕ → σ → Prop) (E : ε → σ → Prop) (h : ∀ i < n, ∀ s, Q i s →
      (∃ s', p i s = .ok () s' ∧ Q (i + 1) s') ∨ ∃ e s', p i s = .error e s' ∧ E e s')
    (hs : Q 0 s) :
    (∃ s', (List.range n).forM p s = .ok () s' ∧ Q n s') ∨
      ∃ e s', (List.range n).forM p s = .error e s' ∧ E e s' := by
  induction n with
  | zero => exact .inl ⟨s, rfl, hs⟩
  | succ n ih =>
    rw [range_succ, forM_eq_forM, forM_append]
    rcases ih fun i hi => h i (Nat.lt_succ_of_lt hi) with ⟨s1, hrun1, hs1⟩ | ⟨e, s1, hrun1, hs1⟩
    · rcases h n (Nat.lt_succ_self n) s1 hs1 with ⟨s2, hrun2, hs2⟩ | ⟨e, s2, hrun2, hs2⟩
      · exact .inl ⟨s2, bind_ok.mpr ⟨(), s1, hrun1, bind_ok.mpr ⟨(), s2, hrun2, rfl⟩⟩, hs2⟩
      · exact .inr ⟨e, s2, (bind_of_ok hrun1).trans (bind_of_error hrun2), hs2⟩
    · exact .inr ⟨e, s1, bind_of_error hrun1, hs1⟩

lemma forM_range_run (Q : ℕ → σ → Prop)
    (h : ∀ i < n, ∀ s, Q i s → ∃ s', p i s = .ok () s' ∧ Q (i + 1) s') (hs : Q 0 s) :
    ∃ s', (List.range n).forM p s = .ok () s' ∧ Q n s' := by
  rcases forM_range_cases Q (fun _ _ => False) (fun i hi s hs => .inl (h i hi s hs)) hs with
    hok | ⟨_, _, _, hfalse⟩
  · exact hok
  · exact hfalse.elim

end Aloe.Lib
