import Mathlib.Data.List.Range
import Aloe.Lib.Run

/-!
# Periodic callbacks

A module registers a function with `rtdal_periodic_add` and the kernel is to call it every `period`
time slots, until `rtdal_periodic_remove`. The two calls search the whole table; the kernel serves
the first `nof_periodic` entries. Nothing ever writes `nof_periodic`, so it stays zero and nothing
that is registered is called (`periodic_punctual_iff`).

Everything is stated for a context that starts with `nof_periodic = n`. A count alone would not
do either: an empty entry has `counter == period == 0` and is due at once, through a null pointer.
-/

namespace Aloe.Rtdal.Periodic

open Lib List Option

abbrev Callback := ℕ

/-- `rtdal_periodic_t`. -/
structure Entry where
  callback : Option Callback
  period : ℕ
  counter : ℕ
deriving DecidableEq

def emptyEntry : Entry := ⟨none, 0, 0⟩

/-- The part of `rtdal_context_t` that periodic callbacks use; `locked` is its mutex. -/
structure Context where
  periodic : List Entry
  nofPeriodic : ℕ
  locked : Bool
deriving DecidableEq

def rtdalPeriodicMax : ℕ := 10

def free (c : Context) : Option ℕ := c.periodic.findIdx? (fun e => e.callback = none)

def find (c : Context) (callback : Callback) : Option ℕ :=
  c.periodic.findIdx? (fun e => e.callback = some callback)

/-! ## The code -/

/-- The returned value and the context after the call; `none` where it waits for the mutex. -/
def rtdalPeriodicAdd (callback : Callback) (period : ℕ) (c : Context) : Option (ℤ × Context) :=
  if ¬ period > 0 then some (-1, c)
  else if c.locked then none
  else
    match free c with
    | none => some (-1, c)
    | some i =>
      let entry := { counter := 0, period := period, callback := some callback }
      some (0, { c with periodic := c.periodic.set i entry })

def rtdalPeriodicRemove (callback : Callback) (c : Context) : Option (ℤ × Context) :=
  if c.locked then none
  else
    match find c callback with
    | none => some (-1, { c with locked := true })
    | some i => some (0, { c with periodic := c.periodic.set i emptyEntry })

/-- One round of the loop over the entries, with the callback it calls; `none` for a call through
the null pointer. -/
def serveEntry (e : Entry) : Option (Entry × Option Callback) :=
  if e.counter = e.period then
    e.callback.map fun callback => ({ e with counter := 0 + 1 }, some callback)
  else some ({ e with counter := e.counter + 1 }, none)

/-- `kernel_tslot_run_periodic_callbacks` over the first `n` entries; the calls by entry. -/
def serve : ℕ → List Entry → Option (List Entry × List (Option Callback))
  | 0, es => some (es, [])
  | _ + 1, [] => none
  | n + 1, e :: es =>
    (serveEntry e).bind fun served =>
      (serve n es).map fun rest => (served.1 :: rest.1, served.2 :: rest.2)

/-- `kernel_tslot_run`; `held` is the answer of `kernel_tslot_run_rt_control`, which ends the slot
before the callbacks. -/
def kernelTslotRun (held : Bool) (c : Context) : Option (Context × List (Option Callback)) :=
  if held then some (c, [])
  else (serve c.nofPeriodic c.periodic).map fun served =>
    ({ c with periodic := served.1 }, served.2)

/-! ## Histories -/

inductive Action
  | add (callback : Callback) (period : ℕ)
  | remove (callback : Callback)
  | slot (held : Bool)

structure Kernel where
  context : Context
  slots : List (List (Option Callback))

/-- `none` where the call does not return. -/
def step : Action → Kernel → Option Kernel
  | .add callback period, k =>
    (rtdalPeriodicAdd callback period k.context).map fun r => { k with context := r.2 }
  | .remove callback, k =>
    (rtdalPeriodicRemove callback k.context).map fun r => { k with context := r.2 }
  | .slot held, k => (kernelTslotRun held k.context).map fun r => ⟨r.1, k.slots ++ [r.2]⟩

/-- The context at start-up. The program has `n = 0`. -/
def boot (n : ℕ) : Kernel where
  context :=
    { periodic := List.replicate rtdalPeriodicMax emptyEntry
      nofPeriodic := n
      locked := false }
  slots := []

/-- The action does not free entry `i`. -/
def Keeps (i : ℕ) (a : Action) (k : Kernel) : Prop :=
  ∀ callback, a = .remove callback → find k.context callback ≠ some i

lemma keeps_slot (i : ℕ) (held : Bool) (k : Kernel) : Keeps i (.slot held) k := by
  rintro callback ⟨⟩

/-- A registration in the history `as`: a successful add, and a stretch behind it during which
its entry is not freed. -/
structure Registration (n : ℕ) (as : List Action) where
  before : List Action
  callback : Callback
  period : ℕ
  during : List Action
  after : List Action
  split : as = before ++ .add callback period :: (during ++ after)
  start : Kernel
  reached : run step before (boot n) = some start
  entry : ℕ
  period_pos : 0 < period
  unlocked : start.context.locked = false
  free_entry : free start.context = some entry
  begin : Kernel
  added : step (.add callback period) start = some begin
  kept : Meets step (Keeps entry) during begin
  stop : Kernel
  ran : run step during begin = some stop

namespace Registration

variable {n : ℕ} {as : List Action}

def slots (r : Registration n as) : List (List (Option Callback)) :=
  r.stop.slots.drop r.begin.slots.length

end Registration

def called (i : ℕ) (calls : List (Option Callback)) : Bool := (calls[i]?.getD none).isSome

/-- Exactly one call in every `period` consecutive slots after the first `period`. -/
def CalledOnce (i period : ℕ) (slots : List (List (Option Callback))) : Prop :=
  ∀ a, period ≤ a → a + period ≤ slots.length → ((slots.drop a).take period).countP (called i) = 1

/-- In every state of the history the next slot returns, and what it calls is registered in the
entry it is called from. -/
def OnlyRegistered (n : ℕ) (as : List Action) : Prop :=
  ∀ before, before <+: as → ∀ k, run step before (boot n) = some k → ∀ held,
    ∃ c calls, kernelTslotRun held k.context = some (c, calls) ∧
      ∀ (i : ℕ) callback, calls[i]? = some (some callback) →
        (k.context.periodic[i]?.bind Entry.callback) = some callback

/-! ## What a slot calls -/

section Serving

variable {n : ℕ} {es es' : List Entry} {calls : List (Option Callback)}

lemma serve_length (h : serve n es = some (es', calls)) : calls.length = n := by
  induction n generalizing es es' calls with
  | zero =>
    cases h
    rfl
  | succ n ih =>
    cases es with
    | nil => cases h
    | cons e es =>
      obtain ⟨served, -, hrest⟩ := bind_eq_some_iff.mp h
      obtain ⟨rest, hserve, heq⟩ := map_eq_some_iff.mp hrest
      cases heq
      rw [length_cons, ih hserve]

end Serving

variable {a : Action} {k k' : Kernel}

lemma step_cases (h : step a k = some k') :
    (∃ held c calls, a = .slot held ∧ kernelTslotRun held k.context = some (c, calls) ∧
      k' = ⟨c, k.slots ++ [calls]⟩) ∨
    (k'.slots = k.slots ∧ k'.context.nofPeriodic = k.context.nofPeriodic ∧
      (k'.context.periodic = k.context.periodic ∨
        (∃ i e, free k.context = some i ∧ k'.context.periodic = k.context.periodic.set i e) ∨
        ∃ callback i, a = .remove callback ∧ find k.context callback = some i ∧
          k'.context.periodic = k.context.periodic.set i emptyEntry)) := by
  cases a with
  | add callback period =>
    refine .inr ?_
    obtain ⟨r, hr, rfl⟩ := map_eq_some_iff.mp h
    unfold rtdalPeriodicAdd at hr
    split at hr
    · cases hr
      exact ⟨rfl, rfl, .inl rfl⟩
    split at hr
    · cases hr
    cases hfree : free k.context with
    | none =>
      rw [hfree] at hr
      cases hr
      exact ⟨rfl, rfl, .inl rfl⟩
    | some i =>
      rw [hfree] at hr
      cases hr
      exact ⟨rfl, rfl, .inr (.inl ⟨i, _, rfl, rfl⟩)⟩
  | remove callback =>
    refine .inr ?_
    obtain ⟨r, hr, rfl⟩ := map_eq_some_iff.mp h
    unfold rtdalPeriodicRemove at hr
    split at hr
    · cases hr
    cases hfind : find k.context callback with
    | none =>
      rw [hfind] at hr
      cases hr
      exact ⟨rfl, rfl, .inl rfl⟩
    | some i =>
      rw [hfind] at hr
      cases hr
      exact ⟨rfl, rfl, .inr (.inr ⟨callback, i, rfl, hfind, rfl⟩)⟩
  | slot held =>
    obtain ⟨r, hr, rfl⟩ := map_eq_some_iff.mp h
    exact .inl ⟨held, r.1, r.2, rfl, hr, rfl⟩

lemma kernelTslotRun_count {held : Bool} {c c' : Context} {calls : List (Option Callback)}
    (h : kernelTslotRun held c = some (c', calls)) :
    c'.nofPeriodic = c.nofPeriodic ∧ calls.length ≤ c.nofPeriodic := by
  unfold kernelTslotRun at h
  split at h
  · cases h
    exact ⟨rfl, Nat.zero_le _⟩
  · obtain ⟨served, hserved, heq⟩ := map_eq_some_iff.mp h
    cases heq
    exact ⟨rfl, (serve_length hserved).le⟩

/-! ## The count never changes -/

structure Counted (n : ℕ) (k : Kernel) : Prop where
  count : k.context.nofPeriodic = n
  calls : ∀ s ∈ k.slots, s.length ≤ n

lemma Counted.step {n : ℕ} (h : Counted n k) (hstep : step a k = some k') : Counted n k' := by
  rcases step_cases hstep with ⟨held, c, calls, -, hrun, rfl⟩ | ⟨hslots, hcount, -⟩
  · obtain ⟨hcount, hlen⟩ := kernelTslotRun_count hrun
    refine ⟨hcount.trans h.count, fun s hs => ?_⟩
    rcases mem_append.mp hs with hs | hs
    · exact h.calls s hs
    · rw [mem_singleton.mp hs]
      exact h.count ▸ hlen
  · exact ⟨hcount.trans h.count, hslots ▸ h.calls⟩

lemma counted_run {n : ℕ} {as : List Action}
    (hrun : run step as (boot n) = some k) : Counted n k := by
  have hboot : Counted n (boot n) := ⟨rfl, fun _ hs => absurd hs not_mem_nil⟩
  have hmeets : Meets step (fun _ _ => True) as (boot n) :=
    meets_of_forall (fun _ _ => trivial) as _
  exact run_invariant (Counted n) (fun _ _ _ h _ hstep => h.step hstep) hboot hmeets hrun

/-! ## An entry at or above the count -/

namespace Registration

variable {n : ℕ} {as : List Action} (r : Registration n as)

lemma run_stop :
    run step (r.before ++ .add r.callback r.period :: r.during) (boot n) = some r.stop :=
  run_append_eq_some.mpr ⟨r.start, r.reached, run_cons_eq_some.mpr ⟨r.begin, r.added, r.ran⟩⟩

lemma called_of_le {k : Kernel} {i : ℕ} (hcounted : Counted n k) (hi : n ≤ i)
    {calls : List (Option Callback)} (hcalls : calls ∈ k.slots) : called i calls = false := by
  rw [called, getElem?_eq_none ((hcounted.calls calls hcalls).trans hi)]
  rfl

lemma not_called_of_le (hentry : n ≤ r.entry) : ∀ calls ∈ r.slots, called r.entry calls = false :=
  fun _ hcalls => called_of_le (counted_run r.run_stop) hentry (mem_of_mem_drop hcalls)

lemma calledOnce_iff_of_le (hentry : n ≤ r.entry) :
    CalledOnce r.entry r.period r.slots ↔ r.slots.length < 2 * r.period := by
  have hpos := r.period_pos
  constructor
  · intro honce
    by_contra hlong
    have hone := honce r.period le_rfl (by omega)
    rw [countP_eq_zero.mpr fun calls hcalls => ?_] at hone
    · cases hone
    · rw [r.not_called_of_le hentry calls (mem_of_mem_drop (mem_of_mem_take hcalls))]
      exact Bool.false_ne_true
  · intro hshort a ha hlen
    omega

end Registration

lemma onlyRegistered_zero (as : List Action) : OnlyRegistered 0 as := by
  intro before _ k hrun held
  have hserve : serve k.context.nofPeriodic k.context.periodic = some (k.context.periodic, []) := by
    rw [(counted_run hrun).count, serve]
  cases held with
  | true => exact ⟨k.context, [], rfl, by simp⟩
  | false => exact ⟨k.context, [], by simp [kernelTslotRun, hserve], by simp⟩

-- a count over an empty entry calls through the null pointer in the first slot
example : kernelTslotRun false (boot 1).context = none := by decide

/-- **Periodic callbacks.** From start-up, every registration is called exactly once in every
`period` slots after its first period, and nothing else, if and only if none lasts two periods. -/
theorem periodic_punctual_iff (as : List Action) :
    ((∀ r : Registration 0 as, CalledOnce r.entry r.period r.slots) ∧ OnlyRegistered 0 as) ↔
      ∀ r : Registration 0 as, r.slots.length < 2 * r.period := by
  constructor
  · rintro ⟨honce, -⟩ r
    exact (r.calledOnce_iff_of_le (Nat.zero_le _)).mp (honce r)
  · intro hshort
    exact ⟨fun r => (r.calledOnce_iff_of_le (Nat.zero_le _)).mpr (hshort r), onlyRegistered_zero as⟩

def neverCalled : Registration 0 [.add 7 1, .slot false, .slot false] where
  before := []
  callback := 7
  period := 1
  during := [.slot false, .slot false]
  after := []
  split := rfl
  start := boot 0
  reached := rfl
  entry := 0
  period_pos := Nat.one_pos
  unlocked := rfl
  free_entry := rfl
  begin := ⟨{ (boot 0).context with
    periodic := ⟨some 7, 1, 0⟩ :: List.replicate 9 emptyEntry }, []⟩
  added := rfl
  kept := ⟨keeps_slot 0 false _, fun _ _ => ⟨keeps_slot 0 false _, fun _ _ => trivial⟩⟩
  stop := ⟨{ (boot 0).context with
    periodic := ⟨some 7, 1, 0⟩ :: List.replicate 9 emptyEntry }, [[], []]⟩
  ran := rfl

theorem periodic_never_called : neverCalled.slots = [[], []] ∧
      ¬ CalledOnce neverCalled.entry neverCalled.period neverCalled.slots := by
  refine ⟨rfl, fun honce => ?_⟩
  have hone := honce 1 le_rfl (by decide)
  revert hone
  decide

end Aloe.Rtdal.Periodic
