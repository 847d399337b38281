import Aloe.Oesr.CtrlInit

/-!
# Repeated initialisation of a control module

`Init` of the control skeleton is called again as long as its input is not ready. Every call runs
`ctrl_init`, which hands the parameters of the module to `set_remote_params`. The tables computed
from the parameters are cleared in each call, but `nof_remote_variables` is not: parameters are
appended to those of the calls before.
-/

namespace Aloe.Oesr.CtrlSkeleton

open Lib Oesr.Skeleton List

/-! ## The calls -/

/-- `remote_parameters_sendall`: the parameters that `ctrl_skeleton_send_idx` is called for, where
`sent` tells which of the calls return 0. -/
def remoteParametersSendall (sent : ℕ → Bool) : (i : ℕ) → List RemoteParam → List RemoteParam
  | _, [] => []
  | i, p :: db => p :: if sent i then remoteParametersSendall sent (i + 1) db else []

section

variable (runtime : Skeleton.Runtime) (parts : List Part) (i : ℕ) (part : Part) (lib : Library)

/-- `k` calls of `Init` return 0. Between the calls anything may happen but to the static memory of
the module. -/
inductive Waits : ℕ → World → World → Prop
  | none {g : World} : Waits 0 g g
  | next {k : ℕ} {g g₁ g₂ g' : World} (hcall : init runtime parts i part lib g = .ok 0 g₁)
      (hmemory : g₂.memory i = g₁.memory i) (hrest : Waits k g₂ g') : Waits (k + 1) g g'

/-- The static memory of the module is as it was in `g0`. The number of calls is none of it. -/
def afresh (g₀ g : World) : World := g.modify i fun mem => { g₀.memory i with calls := mem.calls }

/-- After the calls from `g0` to `g`, the call that leads to `g'` leaves what it would have left as
the first one: remote parameters, addresses, outputs and queues. When nothing fails, one `Run` sends
every parameter once. -/
structure Repeats (params : List RemoteParam) (g₀ g g' : World) : Prop where
  exists_first : ∃ g₁, init runtime parts i part lib (afresh i g₀ g) = .ok 1 g₁ ∧
    (g'.memory i).remoteParamsDb = (g₁.memory i).remoteParamsDb ∧
    (g'.memory i).remoteVariables = (g₁.memory i).remoteVariables ∧
    (g'.memory i).outputs = (g₁.memory i).outputs ∧ g'.state = g₁.state
  sends : remoteParametersSendall (fun _ => true) 0 (g'.memory i).remoteParamsDb = params

end

/-! ## The registered parameters -/

def registered (params : List RemoteParam) (k : ℕ) : List RemoteParam :=
  (fun db => setRemoteParams db params)^[k] []

lemma registered_succ (params : List RemoteParam) (k : ℕ) :
    registered params (k + 1) = setRemoteParams (registered params k) params :=
  Function.iterate_succ_apply' _ k []

lemma length_registered (params : List RemoteParam) (k : ℕ) :
    (registered params k).length = min maxVariables (k * params.length) := by
  induction k with
  | zero => rw [zero_mul, Nat.min_zero]; rfl
  | succ k ih =>
    rw [registered_succ, setRemoteParams, length_append, length_take, ih, Nat.succ_mul]
    omega

lemma registered_one (params : List RemoteParam) :
    registered params 1 = params.take maxVariables := rfl

lemma registered_eq {params : List RemoteParam} {k : ℕ}
    (h : k = 0 ∨ params = [] ∨ params.length = maxVariables) :
    registered params (k + 1) = registered params 1 := by
  obtain rfl | rfl | hfull := h
  · rfl
  · exact Function.iterate_fixed rfl (k + 1)
  · induction k with
    | zero => rfl
    | succ k ih =>
      have hlen := congrArg length ih
      rw [length_registered, length_registered] at hlen
      rw [registered_succ, setRemoteParams, length_registered, hlen, one_mul, hfull,
        Nat.min_self, Nat.sub_self, take_zero, append_nil, ih]

lemma registered_eq_self_iff (params : List RemoteParam) (k : ℕ) :
    registered params (k + 1) = params ↔ params.length ≤ maxVariables ∧
      (k = 0 ∨ params = [] ∨ params.length = maxVariables) := by
  constructor
  · intro h
    have hlen := congrArg length h
    rw [length_registered, Nat.succ_mul] at hlen
    refine ⟨by omega, ?_⟩
    by_contra hnot
    obtain ⟨hk, hne, hfull⟩ := by rwa [not_or, not_or] at hnot
    have hpos : 0 < params.length := length_pos_iff.mpr hne
    have hmul : params.length ≤ k * params.length :=
      Nat.le_mul_of_pos_left _ (Nat.pos_of_ne_zero hk)
    omega
  · rintro ⟨hle, h⟩
    rw [registered_eq h, registered_one, take_of_length_le hle]

lemma remoteParametersSendall_of_sent (i : ℕ) (db : List RemoteParam) :
    remoteParametersSendall (fun _ => true) i db = db := by
  induction db generalizing i with
  | nil => rfl
  | cons p db ih => rw [remoteParametersSendall, if_pos rfl, ih]

/-! ## One call -/

section Calls

variable {runtime : Skeleton.Runtime} {parts : List Part} {i : ℕ} {part : Part} {lib : Library}
  {params : List RemoteParam} {g g' : World}

/-- The memory when `ctrl_init` has returned and the tables are cleared. -/
def prepare (params : List RemoteParam) (mem : Memory) : Memory :=
  { mem with
    calls := mem.calls + 1
    remoteParamsDb := setRemoteParams mem.remoteParamsDb params
    outputs := []
    remoteVariables := []
    localVariables := [] }

variable (hlib : ∀ n, lib.ctrlInit n = (1, params))

include hlib in
lemma init_eq (g : World) : init runtime parts i part lib g =
      returning (connect runtime parts i part lib) (g.modify i (prepare params)) := by
  rw [init, returning, returning, bind_of_ok callCtrlInit_run, hlib]
  dsimp only
  rw [if_neg (by decide), if_neg (by decide), initMemory, bind_of_ok (setMemory_run ..),
    modify_modify_memory]
  rfl

lemma initCtrlInput_memory {e : Exit} (h : initCtrlInput runtime parts i part g = .error e g') :
    g'.memory = g.memory := by
  cases hread : createCtrlInput runtime parts i part g.state with
  | ok created s =>
    rw [initCtrlInput_run hread] at h
    split at h
    · cases h
      rfl
    · cases h
  | error e' s =>
    have hinput : initCtrlInput runtime parts i part g = .error e' { g with state := s } := by
      apply bind_of_error
      rw [lift, hread]
    rw [hinput] at h
    cases h
    rfl

include hlib in
lemma memory_of_waits (h : init runtime parts i part lib g = .ok 0 g') :
    g'.memory i = prepare params (g.memory i) := by
  rw [init_eq hlib, returning_ok, connect, bind_of_ok (lift_ok.mpr ⟨_, setModule_run _, rfl⟩)] at h
  cases hinput : initCtrlInput runtime parts i part { g.modify i (prepare params) with
      state := (g.modify i (prepare params)).state.modify i fun ms =>
        { ms with ctrlIn := false } } with
  | error e g1 =>
    rw [bind_of_error hinput] at h
    obtain h | h := h
    all_goals cases h
    rw [initCtrlInput_memory hinput]
    exact modify_memory_self _
  | ok u g1 =>
    rw [bind_of_ok hinput] at h
    obtain h | h := h
    · exact absurd (initRemote_ok h).1 (by decide)
    · obtain heq | heq := initRemote_refuses _ _ _ h
      all_goals cases heq

include hlib in
lemma db_of_success (h : init runtime parts i part lib g = .ok 1 g') :
    (g'.memory i).remoteParamsDb = setRemoteParams (g.memory i).remoteParamsDb params := by
  cases init_answer h with
  | starts _ _ _ hcalled _ hstarted => rw [hstarted.db, hcalled.db, hlib]

/-! ## Any number of calls -/

structure Waited (params : List RemoteParam) (k : ℕ) (mem mem' : Memory) : Prop where
  db : mem'.remoteParamsDb = (fun db => setRemoteParams db params)^[k] mem.remoteParamsDb
  nofOutputDataItf : mem'.nofOutputDataItf = mem.nofOutputDataItf
  interfaces : mem'.interfaces = mem.interfaces

include hlib in
lemma waited_of_waits {k : ℕ} (h : Waits runtime parts i part lib k g g') :
    Waited params k (g.memory i) (g'.memory i) := by
  induction h with
  | none => exact ⟨rfl, rfl, rfl⟩
  | next hcall hmemory _ ih =>
    have hcalled := hmemory.trans (memory_of_waits hlib hcall)
    rw [hcalled] at ih
    exact ⟨ih.db, ih.nofOutputDataItf, ih.interfaces⟩

lemma afresh_prepare {k : ℕ} {g0 : World} (hwaited : Waited params k (g0.memory i) (g.memory i))
    (hdb : setRemoteParams (g.memory i).remoteParamsDb params =
      setRemoteParams (g0.memory i).remoteParamsDb params) :
    (afresh i g0 g).modify i (prepare params) = g.modify i (prepare params) := by
  rw [afresh, modify_modify_memory, World.modify, World.modify]
  congr 2
  rw [prepare, prepare]
  rw [hdb, hwaited.nofOutputDataItf, hwaited.interfaces]

/-- **Repeated initialisation.** The call that succeeds after `k` calls does what the first would
have done exactly if it is the first, or the module has no parameters, or they fill the table. -/
theorem init_repeats_iff (runtime : Skeleton.Runtime) (parts : List Part) (i : ℕ) (part : Part)
    (lib : Library) (params : List RemoteParam) (hlib : ∀ n, lib.ctrlInit n = (1, params)) (k : ℕ)
    (g₀ g g' : World) (hfresh : (g₀.memory i).remoteParamsDb = [])
    (hwaits : Waits runtime parts i part lib k g₀ g)
    (hinit : init runtime parts i part lib g = .ok 1 g') :
    Repeats runtime parts i part lib params g₀ g g' ↔
      params.length ≤ maxVariables ∧ (k = 0 ∨ params = [] ∨ params.length = maxVariables) := by
  have hwaited := waited_of_waits hlib hwaits
  have hdb := hwaited.db
  rw [hfresh] at hdb
  change _ = registered params k at hdb
  have hlast : (g'.memory i).remoteParamsDb = registered params (k + 1) := by
    rw [db_of_success hlib hinit, hdb, registered_succ]
  constructor
  · rintro ⟨-, hsends⟩
    rw [remoteParametersSendall_of_sent, hlast] at hsends
    exact (registered_eq_self_iff params k).mp hsends
  · rintro ⟨hle, h⟩
    refine ⟨⟨g', ?_, rfl, rfl, rfl, rfl⟩, ?_⟩
    · have hsame : setRemoteParams (g.memory i).remoteParamsDb params =
          setRemoteParams (g₀.memory i).remoteParamsDb params := by
        rw [hdb, ← registered_succ, registered_eq h, hfresh]
        rfl
      rw [init_eq hlib, afresh_prepare hwaited hsame, ← init_eq hlib, hinit]
    · rw [remoteParametersSendall_of_sent, hlast]
      exact (registered_eq_self_iff params k).mpr ⟨hle, h⟩

end Calls

/-! ## Two calls -/

def loopModule (id other : ℤ) : Skeleton.Module :=
  ⟨id, [⟨other, 0, 0, 1⟩], [⟨other, 0, 0, 1⟩], true, 0, 0, 0, 0, fun _ => 0⟩

def loopLib (params : List RemoteParam) : Library := ⟨[], fun _ => (1, params), 0⟩

def loopCtrl (params : List RemoteParam) : Part :=
  ⟨loopModule 1 2, "ctrl".toList, ⟨0, maxModes_pos⟩, 1, some (loopLib params)⟩

def loopParts (params : List RemoteParam) : List Part :=
  [loopCtrl params, ⟨loopModule 2 1, "b".toList, ⟨0, maxModes_pos⟩, 1, none⟩]

def loopRuntime : Skeleton.Runtime := ⟨fun _ => true, fun _ => true⟩

/-- The call of `Init` of the first module, a control module with these parameters. -/
def loopInit (params : List RemoteParam) : Prog ℤ :=
  init loopRuntime (loopParts params) 0 (loopCtrl params) (loopLib params)

abbrev LoopWaits (params : List RemoteParam) : ℕ → World → World → Prop :=
  Waits loopRuntime (loopParts params) 0 (loopCtrl params) (loopLib params)

abbrev LoopRepeats (params : List RemoteParam) : World → World → World → Prop :=
  Repeats loopRuntime (loopParts params) 0 (loopCtrl params) (loopLib params) params

/-- The modules have a variable `x`. The outputs are there if `ready`. -/
def loopWorld (ready : Bool) (mem : Memory) : World where
  state := ⟨fun _ => ⟨.loaded, false, fun _ => none,
    fun _ => if ready then some (.queue 0) else none, .noError, 0, false, false,
    fun _ => false, fun _ => false, false⟩, []⟩
  vars := fun _ => [{ Variable.zero with
    id := 1
    size := 4
    name := ofText "x".toList
    initValue := Vector.replicate maxModes (some [1, 0, 0, 0]) }]
  memory := fun _ => mem

def blankMemory : Memory := ⟨0, [], [], [], [], 0, [⟨2, 0, 0, 1⟩]⟩

def paramX : List RemoteParam := [⟨"b".toList, "x".toList, 4⟩]

lemma loop_waits (params : List RemoteParam) : LoopWaits params 1 (loopWorld false blankMemory)
    (loopWorld true (prepare params blankMemory)) := by
  obtain ⟨g, hwait⟩ : ∃ g, loopInit params (loopWorld false blankMemory) = .ok 0 g := ⟨_, rfl⟩
  exact .next hwait (memory_of_waits (fun _ => rfl) hwait).symm .none

theorem init_repeats_after_wait :
    (∃ g', loopInit paramX (loopWorld true blankMemory) = .ok 1 g' ∧
      LoopRepeats paramX (loopWorld true blankMemory) (loopWorld true blankMemory) g') ∧
    ∃ g g', LoopWaits [] 1 (loopWorld false blankMemory) g ∧ loopInit [] g = .ok 1 g' ∧
      LoopRepeats [] (loopWorld false blankMemory) g g' := by
  refine ⟨⟨_, rfl, ?_⟩, _, _, loop_waits [], rfl, ?_⟩
  · exact (init_repeats_iff _ _ _ _ _ _ (fun _ => rfl) 0 _ _ _ rfl .none rfl).mpr
      ⟨by decide, .inl rfl⟩
  · exact (init_repeats_iff _ _ _ _ _ _ (fun _ => rfl) 1 _ _ _ rfl (loop_waits []) rfl).mpr
      ⟨by decide, .inr (.inl rfl)⟩

theorem init_accumulates : ∃ g g', LoopWaits paramX 1 (loopWorld false blankMemory) g ∧
    loopInit paramX g = .ok 1 g' ∧ (g'.memory 0).remoteParamsDb = paramX ++ paramX ∧
    ¬ LoopRepeats paramX (loopWorld false blankMemory) g g' := by
  obtain ⟨g', hinit⟩ : ∃ g', loopInit paramX (loopWorld true (prepare paramX blankMemory)) =
    .ok 1 g' := ⟨_, rfl⟩
  have hdb : (g'.memory 0).remoteParamsDb = paramX ++ paramX :=
    (db_of_success (fun _ => rfl) hinit).trans
      (show setRemoteParams (setRemoteParams [] paramX) paramX = _ from rfl)
  refine ⟨_, g', loop_waits paramX, hinit, hdb, ?_⟩
  rintro ⟨-, hsends⟩
  rw [remoteParametersSendall_of_sent, hdb] at hsends
  exact absurd (congrArg List.length hsends) (by decide)

end Aloe.Oesr.CtrlSkeleton
