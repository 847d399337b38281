import Aloe.Oesr.CtrlInit
import Mathlib.Data.List.TakeWhile

/-!
# The schedule of the initialisation

In which pass of `nod_waveform_status_init_thread` each module gets done can be computed from the
graph, the remote parameters and the answers of `ctrl_init` alone (`initSchedule`): a plain module
makes its outputs in its first visit and is done in the first one that finds all its data inputs;
a control module makes no output before the visit that it is done in. A thread that succeeds
follows this schedule (`thread_follows`).
-/

namespace Aloe.Oesr.CtrlSkeleton

open Lib Oesr.Skeleton List CtrlSkeleton.Part Schedule

/-! ## A visit of a control module -/

def dataItfName : CString := "nof_output_data_itf".toList

/-- What a call of `Init` of a control module leaves that does not fail. -/
structure CtrlVisited (parts : List Part) (i : ℕ) (part : Part) (lib : Library) (n : ℤ)
    (g g' : World) : Prop where
  grows : Extends i g.state g'.state
  done : n ≠ 0 ↔ (lib.ctrlInit (g.memory i).calls).1 ≠ 0 ∧
    ∀ y, feeder (parts.map Part.module) (i, 0) = some y → Made g.state y
  memory : ∀ j, j ≠ i → g'.memory j = g.memory j
  calls : n = 0 → (g'.memory i).calls = (g.memory i).calls + 1
  db : (g'.memory i).remoteParamsDb =
    setRemoteParams (g.memory i).remoteParamsDb (lib.ctrlInit (g.memory i).calls).2
  physicIds : g'.physicIds i = g.physicIds i
  tables : ∀ used k, Table used (g.vars k) → Table used (g'.vars k)
  closed : n = 0 → ∀ q, ¬ Made g'.state (i, q)
  opened : n ≠ 0 → ∃ found D, paramGetIntName (g.vars i) part.curMode dataItfName 0 =
      .ok (found, D) ∧
    ∀ q, Made g'.state (i, q) ↔ q < part.module.outputs.length ∧
      ∃ k, Addressed parts (g'.memory i).remoteParamsDb k ∧ (remotePort part.module D k).toNat = q

section Control

variable {runtime : Skeleton.Runtime} {parts : List Part} {i : ℕ} {part : Part} {lib : Library}
  {g g' : World} {s s' : State} {n : ℤ}

lemma Called.tables (h : Called lib i g g') (used : List Variable) (k : ℕ)
    (ht : Table used (g.vars k)) : Table used (g'.vars k) := by
  rwa [h.vars]

lemma Called.physicIds (h : Called lib i g g') : g'.physicIds i = g.physicIds i := by
  rw [World.physicIds, h.interfaces, World.physicIds]

lemma create_read_ready {created : Bool} (hw : Internal (parts.map module))
    (hi : (parts.map module)[i]? = some part.module) {size : ℕ}
    (hread : oesrItfCreate runtime (parts.map module) i part.module 0 .read size s =
      .ok created s') :
    Reads i s s' ∧ (¬(created = false ∧ (s'.modules i).error = .notReady) ↔
      ∀ y, feeder (parts.map module) (i, 0) = some y → Made s y) := by
  obtain ⟨rfl, y, handle, hy, hhandle, rfl⟩ | ⟨rfl, hfed, code, rfl, hcode⟩ :=
    create_read_ok hw hi hread
  · refine ⟨Reads.plug, iff_of_true (fun h => by cases h.1) fun z hz => ?_⟩
    obtain rfl := Option.some.inj (hy.symm.trans hz)
    exact fun hnone => by cases hhandle.symm.trans hnone
  · refine ⟨reads_modify rfl rfl, ?_⟩
    rw [State.setError, modify_self]
    rw [hcode]
    cases hfeeder : feeder (parts.map module) (i, 0) with
    | none => exact iff_of_true (fun h => h.2 rfl) fun _ hy => by cases hy
    | some y =>
      refine iff_of_false (fun h => h ⟨rfl, Option.some_ne_none y⟩) fun hall => ?_
      exact hfed ⟨y, hfeeder, hall y rfl⟩

lemma Called.visited (h : Called lib i g g') (hleaves : Leaves i g.state g'.state)
    (hnone : ∀ q, ¬ Made g.state (i, q)) (hwaits : ¬((lib.ctrlInit (g.memory i).calls).1 ≠ 0 ∧
      ∀ y, feeder (parts.map module) (i, 0) = some y → Made g.state y)) :
    CtrlVisited parts i part lib 0 g g' where
  grows := hleaves.grows
  done := iff_of_false (fun h => h rfl) hwaits
  memory := h.others
  calls := fun _ => h.calls
  db := h.db
  physicIds := h.physicIds
  tables := h.tables
  closed := fun _ q hq => hnone q (hleaves.made_iff.mp hq)
  opened := fun h => absurd rfl h

/-- **A call of `Init`** that does not fail. -/
theorem init_ctrlVisited (hw : Internal (parts.map module))
    (hi : parts[i]? = some part) (hids : g.physicIds i =
      part.module.outputs.map Skeleton.Interface.physicItfId)
    (hnone : ∀ q, ¬ Made g.state (i, q)) (hrun : init runtime parts i part lib g = .ok n g')
    (hn : n ≠ -1) :
    (n = 0 ∨ n = 1) ∧ (g'.state.modules i).status = (g.state.modules i).status ∧
      CtrlVisited parts i part lib n g g' := by
  have hi' : (parts.map module)[i]? = some part.module := by
    rw [getElem?_map, hi, Option.map_some]
  have hcleared : Reads i g.state (g.state.modify i fun ms => { ms with ctrlIn := false }) :=
    reads_modify rfl rfl
  cases init_answer hrun with
  | refuses => exact absurd rfl hn
  | unwilling hvalue hcalled hstate =>
    refine ⟨.inl rfl, by rw [hstate], hcalled.visited ?_ hnone fun h => h.1 hvalue⟩
    rw [hstate]
    exact (Reads.refl _).toLeaves
  | @waits _ s hvalue hread herror hcalled hstate =>
    obtain ⟨hreads, hready⟩ := create_read_ready hw hi' hread
    have hall : Reads i g.state g'.state := by
      rw [hstate]
      exact (hcleared.trans hreads).trans (reads_modify rfl rfl)
    refine ⟨.inl rfl, hall.status, hcalled.visited hall.toLeaves hnone fun h => ?_⟩
    exact hready.mpr (fun y hy => hcleared.made_iff.mpr (h.2 y hy)) ⟨rfl, herror⟩
  | @starts g1 _ s created hvalue hread hready hcalled hstate hstarted =>
    obtain ⟨hreads, hready'⟩ := create_read_ready hw hi' hread
    have hall : Reads i g.state g1.state := by
      rw [hstate]
      exact (hcleared.trans hreads).trans (reads_modify rfl rfl)
    obtain ⟨D, table, found, hparam, htable, -, -, hopens⟩ := hstarted.exists_table
    rw [hcalled.physicIds, hids] at hopens
    rw [hcalled.vars] at hparam
    obtain ⟨hgrows, hmade⟩ := hopens.grows
      (hw.outputs _ (mem_of_getElem? hi')) fun q hq => hnone q (hall.made_iff.mp hq)
    obtain ⟨hwOutput, code, hown⟩ := hopens.own
    refine ⟨.inr rfl, by rw [hown, hall.status], hall.grows.trans hgrows, ?_, fun j hj => ?_,
      fun h => absurd h one_ne_zero, hstarted.db.trans hcalled.db,
      hstarted.physicIds.trans hcalled.physicIds, fun used k ht => ?_,
      fun h => absurd h one_ne_zero, fun _ => ⟨found, D, hparam, fun q => ?_⟩⟩
    · refine iff_of_true one_ne_zero ⟨hvalue, fun y hy => ?_⟩
      exact hcleared.made_iff.mp (hready'.mp hready y hy)
    · rw [hstarted.memory j hj, hcalled.others j hj]
    · exact hstarted.tables used k (hcalled.tables used k ht)
    · rw [hmade, hstarted.db]
      simp [htable]

lemma CtrlVisited.after (hleaves : Leaves i g.state s)
    (h : CtrlVisited parts i part lib n { g with state := s } g') :
    CtrlVisited parts i part lib n g g' where
  grows := hleaves.grows.trans h.grows
  done := by
    simp only [← hleaves.made_iff]
    exact h.done
  memory := h.memory
  calls := h.calls
  db := h.db
  physicIds := h.physicIds
  tables := h.tables
  closed := h.closed
  opened := h.opened

lemma CtrlVisited.leaves (h : CtrlVisited parts i part lib n g g')
    (hleaves : Leaves i g'.state s) : CtrlVisited parts i part lib n g { g' with state := s } where
  grows := h.grows.trans hleaves.grows
  done := h.done
  memory := h.memory
  calls := h.calls
  db := h.db
  physicIds := h.physicIds
  tables := h.tables
  closed := fun hn q hq => h.closed hn q (hleaves.made_iff.mp hq)
  opened := by
    simp only [hleaves.made_iff]
    exact h.opened

/-- **A visit** of a control module. -/
theorem nodModuleInit_ctrlVisited (hw : Internal (parts.map module))
    (hi : parts[i]? = some part) (hcontrol : part.control = some lib)
    (hids : g.physicIds i = part.module.outputs.map Skeleton.Interface.physicItfId)
    (hnone : ∀ q, ¬ Made g.state (i, q)) (hrun : nodModuleInit runtime parts i part g = .ok n g')
    (hn : ¬ n < 0) :
    (g'.state.modules i).status = (if n = 0 then (g.state.modules i).status else .init) ∧
      CtrlVisited parts i part lib n g g' := by
  rw [nodModuleInit, hcontrol] at hrun
  dsimp only at hrun
  split at hrun
  · rw [callInit, bind_of_ok (lift_ok.mpr ⟨_, setModule_run _, rfl⟩)] at hrun
    obtain ⟨n', g1, hinit, hrun⟩ := bind_ok.mp hrun
    have hn' : n' ≠ -1 := by
      rintro rfl
      cases hrun
      exact absurd (by decide) hn
    have hreads : Reads i g.state (g.state.modify i fun ms => { ms with changingStatus := true }) :=
      reads_modify rfl rfl
    obtain ⟨hanswer, hstatus, hvisited⟩ := init_ctrlVisited (g := { g with
        state := g.state.modify i fun ms => { ms with changingStatus := true } }) hw hi hids
        (fun q hq => hnone q (hreads.made_iff.mp hq)) hinit hn'
    have hvisited := hvisited.after hreads.toLeaves
    rw [hreads.status] at hstatus
    obtain rfl | rfl := hanswer
    · cases hrun
      exact ⟨hstatus, hvisited⟩
    · rw [if_neg (by decide), if_neg one_ne_zero,
        bind_of_ok (lift_ok.mpr ⟨_, setModule_run _, rfl⟩)] at hrun
      cases hrun
      exact ⟨by rw [modify_self]; rfl, hvisited.leaves (leaves_modify rfl)⟩
  · cases hrun
    exact absurd (by decide) hn

end Control

/-! ## The schedule -/

/-- A waveform with its control modules as `nod_waveform_load` leaves it. -/
structure LoadedWorld (parts : List Part) (g : World) : Prop where
  state : Loaded (parts.map Part.module) g.state
  calls : ∀ i, (g.memory i).calls = 0
  db : ∀ i, (g.memory i).remoteParamsDb = []
  interfaces : ∀ i part, parts[i]? = some part → (g.memory i).interfaces = part.module.outputs
  /-- Behind the variables in use there are none that were given a value. -/
  vars : ∀ i, ∀ v ∈ (g.vars i).dropWhile (·.id ≠ 0), Blank v

def World.used (g : World) (i : ℕ) : List Variable := (g.vars i).takeWhile (·.id ≠ 0)

/-- The remote parameters after the first calls of `ctrl_init`. -/
def Library.params (lib : Library) : ℕ → List RemoteParam
  | 0 => []
  | n + 1 => setRemoteParams (lib.params n) (lib.ctrlInit n).2

section Schedule

variable (parts : List Part) (g : World)

def nofOutputDataItf (i : ℕ) (part : Part) : CInt :=
  match paramGetIntName (g.used i) part.curMode dataItfName 0 with
  | .ok (_, n) => n
  | .error _ => 0

/-- Whether control module `i` opens output `q` if call `n` is the one that gets it done. -/
def opensPort (i : ℕ) (part : Part) (lib : Library) (n q : ℕ) : Bool :=
  q < part.module.outputs.length && (lib.params (n + 1)).any fun p =>
    (oesrGetModuleIdx parts p.moduleName).any fun k =>
      (remotePort part.module (nofOutputDataItf g i part) k).toNat == q

/-- Whether output `y` is made when module `i` looks for its inputs in a round, where `f` is what
was done before. -/
def available (round i : ℕ) (f : Progress) (y : ℕ × ℕ) : Bool :=
  match parts[y.1]? with
  | none => false
  | some part =>
    match part.control with
    | none => y.2 < part.module.nofOutputItf && y.2 < part.module.outputs.length &&
        (0 < round || y.1 ≤ i)
    | some lib => (f y.1).any fun t => opensPort parts g y.1 part lib t y.2

/-- Whether a visit of module `i` gets it done. -/
def readyIn (round i : ℕ) (f : Progress) : Bool :=
  match parts[i]? with
  | none => false
  | some part =>
    match part.control with
    | none => (List.range part.module.nofInputItf).all fun p =>
      (feeder (parts.map Part.module) (i, p)).any (available parts g round i f)
    | some lib => (lib.ctrlInit round).1 ≠ 0 &&
        (feeder (parts.map Part.module) (i, 0)).all (available parts g round i f)

def initSchedule : Schedule := ⟨parts.length, readyIn parts g⟩

end Schedule

section ScheduleLemmas

variable {parts : List Part} {g : World} {i k n q round : ℕ} {part : Part} {lib : Library}
  {f : Progress} {y : ℕ × ℕ}

lemma opensPort_iff : opensPort parts g i part lib n q = true ↔
    q < part.module.outputs.length ∧ ∃ k, Addressed parts (lib.params (n + 1)) k ∧
      (remotePort part.module (nofOutputDataItf g i part) k).toNat = q := by
  simp only [opensPort, Bool.and_eq_true, decide_eq_true_iff, any_eq_true,
    Option.any_eq_true, beq_iff_eq, Addressed, Names]
  grind

lemma available_plain (hk : parts[y.1]? = some part) (hplain : part.control = none) :
    available parts g round i f y = true ↔
      y.2 < part.module.nofOutputItf ∧ y.2 < part.module.outputs.length ∧
        (0 < round ∨ y.1 ≤ i) := by
  simp [available, hk, hplain, and_assoc]

lemma available_control (hk : parts[y.1]? = some part) (hcontrol : part.control = some lib) :
    available parts g round i f y = true ↔
      ∃ t, f y.1 = some t ∧ opensPort parts g y.1 part lib t y.2 = true := by
  simp only [available, hk, hcontrol, Option.any_eq_true]

lemma LoadedWorld.table (h : LoadedWorld parts g) (k : ℕ) : Table (g.used k) (g.vars k) := by
  refine ⟨fun v hv => ?_, _, takeWhile_append_dropWhile.symm, h.vars k⟩
  have hid := mem_takeWhile_imp hv
  exact of_decide_eq_true hid

lemma nofOutputDataItf_eq {vars : List Variable} (h : Table (g.used i) vars) {found : Bool}
    {D : CInt} (hread : paramGetIntName vars part.curMode dataItfName 0 = .ok (found, D)) :
    nofOutputDataItf g i part = D := by
  obtain ⟨found', hused⟩ := h.paramGetIntName hread
  rw [nofOutputDataItf, hused]

end ScheduleLemmas

/-! ## The thread follows its schedule -/

/-- A plain module `k`: what it has made, and whether it has its control input. -/
structure PlainAt (parts : List Part) (g₀ : World) (k : ℕ) (m : Skeleton.Module) (round i : ℕ)
    (f : Progress) (s : State) : Prop where
  sound : Sound (parts.map Part.module) k m s
  made : ∀ q, Made s (k, q) ↔ q < m.nofOutputItf ∧ q < m.outputs.length ∧ 0 < passes round i k
  memOk : ∀ t, f k = some t → (s.modules k).memOk = true
  ctrlIn : ∀ t, f k = some t → ((s.modules k).ctrlIn = true ↔ m.nofInputItf < m.inputs.length ∧
    ∃ y, feeder (parts.map Part.module) (k, m.ctrlPort) = some y ∧
      available parts g₀ t k (Schedule.past t k f) y = true)

/-- A control module `k`: what it has made, and the memory of its library. -/
structure ControlAt (parts : List Part) (g₀ : World) (k : ℕ) (part : Part) (lib : Library)
    (round i : ℕ) (f : Progress) (g : World) : Prop where
  made : ∀ q, Made g.state (k, q) ↔ ∃ t, f k = some t ∧ opensPort parts g₀ k part lib t q = true
  calls : f k = none → (g.memory k).calls = passes round i k ∧
    (g.memory k).remoteParamsDb = lib.params (passes round i k)
  db : ∀ t, f k = some t → (g.memory k).remoteParamsDb = lib.params (t + 1)
  physicIds : g.physicIds k = part.module.outputs.map Skeleton.Interface.physicItfId
  table : Table (g₀.used k) (g.vars k)

/-- The state of the thread at job `i` of a round, where `f` is what the schedule has done. -/
structure Follows (parts : List Part) (g₀ : World) (round i : ℕ) (f : Progress) (g : World) :
    Prop where
  before : ∀ j t, f j = some t → Schedule.Before t j round i
  status : ∀ k < parts.length, (g.state.modules k).status = .init ↔ f k ≠ none
  queues : ∀ (y : ℕ × ℕ) hw, (g.state.modules y.1).hwOutput y.2 = some hw → ∃ n, hw = .queue n
  plain : ∀ k part, parts[k]? = some part → part.control = none →
    PlainAt parts g₀ k part.module round i f g.state
  control : ∀ k part lib, parts[k]? = some part → part.control = some lib →
    ControlAt parts g₀ k part lib round i f g

section Following

variable {runtime : Skeleton.Runtime} {parts : List Part} {g0 g g' : World} {i j k n q round : ℕ}
  {part : Part} {lib : Library} {f : Progress} {y : ℕ × ℕ} {m : Skeleton.Module} {s s' : State}

lemma follows_start (h : LoadedWorld parts g) : Follows parts g 0 0 (fun _ => none) g where
  before := fun _ _ hnow => by cases hnow
  status := fun k _ => by
    rw [h.state.status]
    exact iff_of_false (fun h => by cases h) fun hne => hne rfl
  queues := fun y hw hy => by
    rw [h.state.hwOutput] at hy
    cases hy
  plain := fun k part _ _ =>
    { sound := {
        flags := fun q _ => by
          rw [h.state.outputs, Made, h.state.hwOutput]
          exact iff_of_false (fun h => by cases h) fun hne => hne rfl
        cleared := fun _ p => ⟨h.state.inputs k p, h.state.outputs k p⟩
        found := fun p hp => by cases (h.state.inputs k p).symm.trans hp
        attached := fun hmem => by cases (h.state.memOk k).symm.trans hmem }
      made := fun q => by
        rw [Made, h.state.hwOutput]
        exact iff_of_false (fun hne => hne rfl) fun h => lt_irrefl 0 h.2.2
      memOk := fun _ hnow => by cases hnow
      ctrlIn := fun _ hnow => by cases hnow }
  control := fun k part lib hk _ =>
    { made := fun q => by
        rw [Made, h.state.hwOutput]
        refine iff_of_false (fun hne => hne rfl) ?_
        rintro ⟨_, hnow, _⟩
        cases hnow
      calls := fun _ => ⟨h.calls k, h.db k⟩
      db := fun _ hnow => by cases hnow
      physicIds := by rw [World.physicIds, h.interfaces k part hk]
      table := h.table k }

lemma Follows.nextRound (h : Follows parts g0 round parts.length f g) :
    Follows parts g0 (round + 1) 0 f g where
  before := fun j t hj => by
    obtain hlt | ⟨rfl, -⟩ := h.before j t hj
    · exact .inl (Nat.lt_succ_of_lt hlt)
    · exact .inl (Nat.lt_succ_self t)
  status := h.status
  queues := h.queues
  plain := fun k part hk hplain => by
    have hat := h.plain k part hk hplain
    have hpasses : passes (round + 1) 0 k = passes round parts.length k :=
      passes_round (List.getElem?_eq_some_iff.mp hk).1
    exact ⟨hat.sound, by rw [hpasses]; exact hat.made, hat.memOk, hat.ctrlIn⟩
  control := fun k part lib hk hcontrol => by
    have hat := h.control k part lib hk hcontrol
    have hpasses : passes (round + 1) 0 k = passes round parts.length k :=
      passes_round (List.getElem?_eq_some_iff.mp hk).1
    exact ⟨hat.made, by rw [hpasses]; exact hat.calls, hat.db, hat.physicIds, hat.table⟩

lemma Follows.pass (h : Follows parts g0 round i f g) (hi : f i ≠ none) :
    Follows parts g0 round (i + 1) f g where
  before := fun j t hj => (h.before j t hj).succ
  status := h.status
  queues := h.queues
  plain := fun k part hk hplain => by
    have hat := h.plain k part hk hplain
    have hpasses : 0 < passes round (i + 1) k ↔ 0 < passes round i k := by
      by_cases hki : k = i
      · subst hki
        obtain ⟨t, ht⟩ := Option.ne_none_iff_exists'.mp hi
        have hround : 0 < round := by
          obtain hlt | ⟨-, hlt⟩ := h.before k t ht
          · exact Nat.zero_lt_of_lt hlt
          · exact absurd hlt (lt_irrefl k)
        rw [passes_succ_self, passes_self]
        exact iff_of_true (Nat.succ_pos round) hround
      · rw [passes_succ_of_ne hki]
    exact ⟨hat.sound, by simp only [hpasses]; exact hat.made, hat.memOk, hat.ctrlIn⟩
  control := fun k part lib hk hcontrol => by
    have hat := h.control k part lib hk hcontrol
    refine ⟨hat.made, fun hnone => ?_, hat.db, hat.physicIds, hat.table⟩
    have hki : k ≠ i := by
      rintro rfl
      exact hi hnone
    rw [passes_succ_of_ne hki]
    exact hat.calls hnone

/-! ### What the module that is visited finds -/

lemma Follows.made_iff_of_ne (h : Follows parts g0 round i f g) (hk : parts[y.1]? = some part)
    (hne : y.1 ≠ i) : Made g.state y ↔ available parts g0 round i f y = true := by
  cases hcontrol : part.control with
  | none =>
    rw [available_plain hk hcontrol, (h.plain y.1 part hk hcontrol).made, ← passes_succ_pos_iff,
      passes_succ_of_ne hne]
  | some lib =>
    rw [available_control hk hcontrol, (h.control y.1 part lib hk hcontrol).made]

lemma feeder_lt {w : Skeleton.Waveform} {x : ℕ × ℕ} (h : feeder w x = some y) :
    ∃ m, w[y.1]? = some m := by
  simp only [feeder, Option.bind_eq_bind, Option.bind_eq_some_iff] at h
  obtain ⟨receiver, -, inp, -, ⟨remote, k⟩, hfind, h⟩ := h
  split at h
  · obtain rfl := Option.some.inj h
    exact ⟨remote, (nodWaveformFindModuleId_some hfind).1⟩
  · cases h

lemma exists_part {x : ℕ × ℕ} (h : feeder (parts.map module) x = some y) :
    ∃ part, parts[y.1]? = some part := by
  obtain ⟨m, hm⟩ := feeder_lt h
  rw [getElem?_map] at hm
  obtain ⟨part, hpart, -⟩ := Option.map_eq_some_iff.mp hm
  exact ⟨part, hpart⟩

/-! ### The modules that are not visited -/

lemma PlainAt.other (h : PlainAt parts g0 k m round i f s) (hne : k ≠ i)
    (hgrows : Extends i s s') (hbefore : ∀ t, f k = some t → Before t k round i) :
    PlainAt parts g0 k m round (i + 1) ((initSchedule parts g0).visit round i f) s' where
  sound := h.sound.extends hne hgrows
  made := fun q => by
    rw [Made, hgrows.others k hne, passes_succ_of_ne hne]
    exact h.made q
  memOk := fun t ht => by
    rw [visit_of_ne hne] at ht
    rw [hgrows.others k hne]
    exact h.memOk t ht
  ctrlIn := fun t ht => by
    rw [visit_of_ne hne] at ht
    rw [hgrows.others k hne, past_visit (hbefore t ht).asymm]
    exact h.ctrlIn t ht

lemma ControlAt.other (h : ControlAt parts g0 k part lib round i f g) (hne : k ≠ i)
    (hgrows : Extends i g.state g'.state) (hmemory : g'.memory k = g.memory k)
    (htable : Table (g0.used k) (g'.vars k)) :
    ControlAt parts g0 k part lib round (i + 1) ((initSchedule parts g0).visit round i f) g' where
  made := fun q => by
    rw [Made, hgrows.others k hne, visit_of_ne hne]
    exact h.made q
  calls := fun hnone => by
    rw [visit_of_ne hne] at hnone
    rw [hmemory, passes_succ_of_ne hne]
    exact h.calls hnone
  db := fun t ht => by
    rw [visit_of_ne hne] at ht
    rw [hmemory]
    exact h.db t ht
  physicIds := by
    rw [World.physicIds, hmemory]
    exact h.physicIds
  table := htable

/-! ### A step -/

section

variable (h : Follows parts g0 round i f g)
include h

lemma Follows.visit {n : ℤ} (hopen : f i = none)
    (hi : parts[i]? = some part) (hgrows : Extends i g.state g'.state)
    (hmemory : ∀ k, k ≠ i → g'.memory k = g.memory k)
    (htables : ∀ used k, Table used (g.vars k) → Table used (g'.vars k))
    (hstatus : (g'.state.modules i).status = if n = 0 then (g.state.modules i).status else .init)
    (hready : n ≠ 0 ↔ readyIn parts g0 round i f = true)
    (hplain : part.control = none → PlainAt parts g0 i part.module round (i + 1)
      ((initSchedule parts g0).visit round i f) g'.state)
    (hcontrol : ∀ lib, part.control = some lib → ControlAt parts g0 i part lib round (i + 1)
      ((initSchedule parts g0).visit round i f) g') :
    Follows parts g0 round (i + 1) ((initSchedule parts g0).visit round i f) g' where
  before := fun j t hj => by
    obtain hj | ⟨rfl, rfl⟩ := visit_some hj
    · exact (h.before j t hj).succ
    · exact .inr ⟨rfl, Nat.lt_succ_self j⟩
  status := fun k hk => by
    by_cases hki : k = i
    · subst hki
      have hdone := (visit_ne_none_iff (S := initSchedule parts g0) hopen).trans hready.symm
      rw [hstatus, hdone]
      split
      · rename_i hzero
        exact iff_of_false (fun hinit => (h.status k hk).mp hinit hopen) fun hne => hne hzero
      · rename_i hzero
        exact iff_of_true rfl hzero
    · rw [hgrows.others k hki, visit_of_ne hki]
      exact h.status k hk
  queues := fun y hw hy => by
    by_cases hyi : y.1 = i
    · rw [hyi] at hy
      obtain hold | hnew := hgrows.queues y.2 hw hy
      · exact h.queues (i, y.2) hw hold
      · exact hnew
    · rw [hgrows.others y.1 hyi] at hy
      exact h.queues y hw hy
  plain := fun k part' hk hplain' => by
    by_cases hki : k = i
    · subst hki
      obtain rfl := Option.some.inj (hi.symm.trans hk)
      exact hplain hplain'
    · exact (h.plain k part' hk hplain').other hki hgrows (h.before k)
  control := fun k part' lib hk hcontrol' => by
    by_cases hki : k = i
    · subst hki
      obtain rfl := Option.some.inj (hi.symm.trans hk)
      exact hcontrol lib hcontrol'
    · have hat := h.control k part' lib hk hcontrol'
      exact hat.other hki hgrows (hmemory k hki) (htables _ k hat.table)

lemma Follows.made_iff_visited {n : ℤ} (hi : parts[i]? = some part) (hplain : part.control = none)
    (hvisited : Visited (parts.map module) i part.module n g.state s')
    {part' : Part} (hk : parts[y.1]? = some part') :
    Made s' y ↔ available parts g0 round i f y = true := by
  by_cases hyi : y.1 = i
  · obtain ⟨k, q⟩ := y
    obtain rfl : k = i := hyi
    rw [available_plain hi hplain, hvisited.made, (h.plain k part hi hplain).made]
    constructor
    · rintro (⟨hq, hq', -⟩ | ⟨hq, hq'⟩)
      all_goals exact ⟨hq, hq', .inr le_rfl⟩
    · exact fun hq => .inr ⟨hq.1, hq.2.1⟩
  · rw [Made, hvisited.grows.others y.1 hyi]
    exact h.made_iff_of_ne hk hyi

lemma Follows.fed_iff_visited {n : ℤ} (hi : parts[i]? = some part) (hplain : part.control = none)
    (hvisited : Visited (parts.map module) i part.module n g.state s') (x : ℕ × ℕ) :
    Fed (parts.map module) s' x ↔ ∃ y, feeder (parts.map module) x = some y ∧
      available parts g0 round i f y = true := by
  refine exists_congr fun y => and_congr_right fun hy => ?_
  obtain ⟨part', hk⟩ := exists_part hy
  exact h.made_iff_visited hi hplain hvisited hk

lemma Follows.past_visit : Schedule.past round i ((initSchedule parts g0).visit round i f) = f := by
  rw [Schedule.past_visit (Schedule.Before.irrefl round i), Schedule.past_eq_self h.before]

end

lemma visit_self_some {t : ℕ} (hopen : f i = none)
    (h : (initSchedule parts g0).visit round i f i = some t) : t = round := by
  obtain h | ⟨-, h⟩ := visit_some h
  · cases hopen.symm.trans h
  · exact h

lemma readyIn_plain (hi : parts[i]? = some part) (hplain : part.control = none) :
    readyIn parts g0 round i f = true ↔ ∀ p < part.module.nofInputItf,
      ∃ y, feeder (parts.map module) (i, p) = some y ∧ available parts g0 round i f y = true := by
  simp only [readyIn, hi, hplain, all_eq_true, mem_range, Option.any_eq_true]

lemma readyIn_control (hi : parts[i]? = some part) (hcontrol : part.control = some lib) :
    readyIn parts g0 round i f = true ↔ (lib.ctrlInit round).1 ≠ 0 ∧
      ∀ y, feeder (parts.map module) (i, 0) = some y → available parts g0 round i f y = true := by
  simp only [readyIn, hi, hcontrol, Bool.and_eq_true, decide_eq_true_iff]
  refine and_congr_right fun _ => ?_
  cases feeder (parts.map module) (i, 0) with
  | none => exact iff_of_true rfl fun _ hy => by cases hy
  | some y => simp

section

variable (hw : Internal (parts.map module)) (h : Follows parts g0 round i f g) (hopen : f i = none)
include hw h hopen

/-- **The step of a plain module.** -/
theorem Follows.step_plain (hi : parts[i]? = some part)
    (hplain : part.control = none) {n : ℤ} (hrun : nodModuleInit runtime parts i part g = .ok n g')
    (hn : ¬ n < 0) :
    Follows parts g0 round (i + 1) ((initSchedule parts g0).visit round i f) g' ∧
      (n ≠ 0 ↔ readyIn parts g0 round i f = true) := by
  rw [nodModuleInit, hplain] at hrun
  obtain ⟨s', hinit, rfl⟩ := lift_ok.mp hrun
  have hi' : (parts.map module)[i]? = some part.module := by
    rw [getElem?_map, hi, Option.map_some]
  have hat := h.plain i part hi hplain
  obtain ⟨hstatus, hvisited⟩ := nodModuleInit_visits hw hi' hat.sound hinit hn
  have hready : n ≠ 0 ↔ readyIn parts g0 round i f = true := by
    rw [hvisited.done, readyIn_plain hi hplain]
    simp only [h.fed_iff_visited hi hplain hvisited]
  refine ⟨h.visit hopen hi hvisited.grows (fun _ _ => rfl) (fun _ _ ht => ht) hstatus hready
    (fun _ => ?_)
    (fun lib hcontrol => by cases hplain.symm.trans hcontrol), hready⟩
  refine ⟨hvisited.running.toSound, fun q => ?_, fun t _ => hvisited.running.memOk, fun t ht => ?_⟩
  · rw [hvisited.made, hat.made, passes_succ_self]
    constructor
    · rintro (⟨hq, hq', -⟩ | ⟨hq, hq'⟩)
      all_goals exact ⟨hq, hq', Nat.succ_pos round⟩
    · exact fun hq => .inr ⟨hq.1, hq.2.1⟩
  · obtain rfl := visit_self_some hopen ht
    rw [hvisited.ctrlIn, h.past_visit, h.fed_iff_visited hi hplain hvisited]

/-- **The step of a control module.** -/
theorem Follows.step_control (hi : parts[i]? = some part)
    (hcontrol : part.control = some lib) {n : ℤ}
    (hrun : nodModuleInit runtime parts i part g = .ok n g') (hn : ¬ n < 0) :
    Follows parts g0 round (i + 1) ((initSchedule parts g0).visit round i f) g' ∧
      (n ≠ 0 ↔ readyIn parts g0 round i f = true) := by
  have hat := h.control i part lib hi hcontrol
  obtain ⟨hcalls, hdb⟩ := hat.calls hopen
  rw [passes_self] at hcalls hdb
  have hclosed : ∀ q, ¬ Made g.state (i, q) := fun q hq => by
    obtain ⟨t, ht, -⟩ := (hat.made q).mp hq
    cases hopen.symm.trans ht
  obtain ⟨hstatus, hvisited⟩ :=
    nodModuleInit_ctrlVisited hw hi hcontrol hat.physicIds hclosed hrun hn
  have hparams : (g'.memory i).remoteParamsDb = lib.params (round + 1) := by
    rw [hvisited.db, hcalls, hdb, Library.params]
  have hready : n ≠ 0 ↔ readyIn parts g0 round i f = true := by
    rw [hvisited.done, readyIn_control hi hcontrol, hcalls]
    refine and_congr_right fun _ => forall₂_congr fun y hy => ?_
    by_cases hyi : y.1 = i
    · obtain ⟨k, q⟩ := y
      obtain rfl : k = i := hyi
      rw [hat.made, available_control hi hcontrol]
    · obtain ⟨part', hk⟩ := exists_part hy
      exact h.made_iff_of_ne hk hyi
  have hentry : n ≠ 0 → (initSchedule parts g0).visit round i f i = some round := fun hne => by
    rw [visit_of_ready hopen (hready.mp hne), Function.update_self]
  have hnone : n = 0 → (initSchedule parts g0).visit round i f i = none := fun hzero => by
    rw [visit_of_not_ready, hopen]
    exact Bool.eq_false_iff.mpr fun htrue => hready.mpr htrue hzero
  refine ⟨h.visit hopen hi hvisited.grows hvisited.memory hvisited.tables hstatus hready
    (fun hplain => by cases hplain.symm.trans hcontrol) (fun lib' hcontrol' => ?_), hready⟩
  obtain rfl := Option.some.inj (hcontrol.symm.trans hcontrol')
  refine ⟨fun q => ?_, fun hagain => ?_, fun t ht => ?_, hvisited.physicIds.trans hat.physicIds,
    hvisited.tables _ i hat.table⟩
  · by_cases hzero : n = 0
    · rw [hnone hzero]
      refine iff_of_false (hvisited.closed hzero q) ?_
      rintro ⟨_, hnow, _⟩
      cases hnow
    · obtain ⟨found, D, hread, hmade⟩ := hvisited.opened hzero
      rw [hmade, hparams, hentry hzero, ← nofOutputDataItf_eq hat.table hread]
      simp [opensPort_iff]
  · have hzero : n = 0 := not_not.mp fun hne => by cases hagain.symm.trans (hentry hne)
    rw [hvisited.calls hzero, hparams, hcalls, passes_succ_self]
    exact ⟨rfl, rfl⟩
  · obtain rfl := visit_self_some hopen ht
    exact hparams

lemma Follows.step {answer : Attempt}
    (hattempt : (initJobs runtime parts).attempt i g = .ok answer g') (hanswer : answer ≠ .fails) :
    Follows parts g0 round (i + 1) ((initSchedule parts g0).visit round i f) g' ∧
      (answer = .done ↔ readyIn parts g0 round i f = true) := by
  simp only [initJobs] at hattempt
  cases hi : parts[i]? with
  | none =>
    rw [hi] at hattempt
    cases hattempt
  | some part =>
    rw [hi] at hattempt
    obtain ⟨n, g1, hrun, hattempt⟩ := bind_ok.mp hattempt
    obtain ⟨rfl, rfl⟩ := EStateM.Result.ok.inj hattempt
    have hn : ¬ n < 0 := fun hneg => hanswer (if_pos hneg)
    have hdone : answerOf n = .done ↔ n ≠ 0 := by
      rw [answerOf, if_neg hn]
      split
      · rename_i hzero
        exact iff_of_false (fun hdone => by cases hdone) fun hne => hne hzero
      · rename_i hzero
        exact iff_of_true rfl hzero
    rw [hdone]
    cases hcontrol : part.control with
    | none => exact h.step_plain hw hopen hi hcontrol hrun hn
    | some lib => exact h.step_control hw hopen hi hcontrol hrun hn

end

/-- **A thread that succeeds follows the schedule.** -/
theorem thread_follows (hw : Internal (parts.map module)) (hloaded : LoadedWorld parts g)
    (hrun : nodWaveformStatusInitThread runtime parts g = .ok true g') :
    (initSchedule parts g).Complete ((initSchedule parts g).start 3) ∧
      ∃ round i, Follows parts g round i ((initSchedule parts g).start 3) g' := by
  obtain ⟨result, g1, hloop, hrun⟩ := bind_ok.mp hrun
  obtain ⟨hresult, rfl⟩ := EStateM.Result.ok.inj hrun
  have hloop : (initJobs runtime parts).loop (3 * parts.length) 0 0 0 g = .ok (some true) g1 := by
    cases result with
    | none => cases hresult
    | some b =>
      obtain rfl : b = true := hresult
      exact hloop
  have hend : (initSchedule parts g).Complete
        ((initSchedule parts g).start (initJobs runtime parts).rounds) ∧
      ∃ round i, Follows parts g round i
        ((initSchedule parts g).start (initJobs runtime parts).rounds) g1 := by
    refine Poll.loop_schedule rfl ?_ ?_ ?_ ?_ (Nat.succ_pos 2) (follows_start hloaded) hloop
    · intro round i f s h k hk
      rw [← h.status k hk]
      exact decide_eq_true_iff
    · intro round i s answer s' _ h hopen hattempt hanswer
      exact h.step hw hopen hattempt hanswer
    · exact fun round i f s h hne => h.pass hne
    · exact fun round f s h => h.nextRound
  exact hend

end Following

end Aloe.Oesr.CtrlSkeleton
