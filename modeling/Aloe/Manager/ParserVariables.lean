import Aloe.Manager.ModelTree
import Aloe.Manager.ParserConnections

/-!
# The variables of a parsed waveform

A listed variable stands for assignments of values to modes: one value for all the modes, or
a list with a value for each mode that it names. `WellListed` says what a listing has to be,
`Stored` what a module holds of its listings when all of them have arrived.
`read_variables` answers a listing that it cannot read with 0, which its caller takes for the
number of variables, and nothing checks that the modes of a listing are different ones.
`waveform_parse_variables_iff` states when a parse that returns 0 has stored every variable.
-/

namespace Aloe.Manager

open Lib List Option

/-! ## Listings -/

/-- The size of a value: a text stands in an array of `STR_LEN` bytes. -/
def Value.bytes : Value → ℕ
  | .ints ns => 4 * ns.length
  | .floats xs => 4 * xs.length
  | .text _ => strLen

def asValue : Setting → Option Value
  | .int n => some (.ints [n])
  | .float x => some (.floats [x])
  | .string s => some (.text (s.take strLen))
  | .array elems =>
    match elems with
    | .int _ :: _ => some (.ints (elems.map Setting.getInt))
    | .float _ :: _ => some (.floats (elems.map Setting.getFloat))
    | _ => none
  | _ => none

def namedMode (modes : List CStr) (part : Setting) : Option ℕ :=
  (part.stringElem 0).bind fun name => modes.findIdx? fun mode => strEq mode name

def assignment (modes : List CStr) (part : Setting) : Option (ℕ × Value) :=
  (namedMode modes part).bind fun m => ((part.elem 1).bind asValue).map fun x => (m, x)

/-- What the `value` of a listing assigns: a single value goes to all the modes. -/
def assignments (modes : List CStr) (value : Setting) : Option (List (ℕ × Value)) :=
  if value.length ≤ 1 then
    (asValue ((value.elem 0).getD value)).map fun x => (List.range modes.length).map fun m => (m, x)
  else if value.length ≠ modes.length then none
  else (value.parts.map (·.2)).mapM (assignment modes)

/-- A listing with a name and a value, of which every part has a supported type and names
a mode, none of them twice, and all values have one size. -/
structure WellListed (modes : List CStr) (cfg : Setting) : Prop where
  named : (cfg.lookupString "name").isSome = true
  valued : ∃ value as, cfg.member "value" = some value ∧ assignments modes value = some as ∧
    (as.map Prod.fst).Nodup ∧ ∃ size, ∀ a ∈ as, a.2.bytes = size

def listed (cfg : Setting) : List Setting :=
  match cfg.member "variables" with
  | none => []
  | some vars => vars.parts.map (·.2)

def Full (nofModes : ℕ) (v : Var) : Prop :=
  1 ≤ v.size ∧ ∀ k < nofModes, ∃ x, v.initValue[k]? = some (some x) ∧ x.bytes = v.size

structure Stored (nofModes : ℕ) (cfg : Setting) (vars : List Var) : Prop where
  length_eq : vars.length = (listed cfg).length
  each : ∀ (i : ℕ) s v, (listed cfg)[i]? = some s → vars[i]? = some v →
    v.id = i + 1 ∧ (s.lookupString "name").map strcpy = some v.name ∧ Full nofModes v

/-! ## Assigning the values -/

def setAssignment (v : Var) (a : ℕ × Value) : Except Stop Var := setValue v a.1 a.2.bytes a.2

section Assign

variable {v v' : Var} {a : ℕ × Value} {as : List (ℕ × Value)} {k : ℕ}

lemma setAssignment_ok (h : setAssignment v a = .ok v') :
    (v.size = 0 ∨ v.size = a.2.bytes) ∧ ∃ hlt : a.1 < maxModes,
      v' = { v with size := a.2.bytes, initValue := v.initValue.set a.1 (some a.2) hlt } := by
  unfold setAssignment setValue at h
  split at h
  · cases h
  · next hsize =>
    split at h
    · next hlt =>
      cases h
      exact ⟨by omega, hlt, rfl⟩
    · cases h

lemma assign_of_size (hlt : a.1 < maxModes) (hsize : v.size = 0 ∨ v.size = a.2.bytes) :
    setAssignment v a =
      .ok { v with size := a.2.bytes, initValue := v.initValue.set a.1 (some a.2) hlt } := by
  unfold setAssignment setValue
  rw [if_neg (by omega), dif_pos hlt]
  rfl

lemma initValue_setAssignment (h : setAssignment v a = .ok v') (k : ℕ) :
    v'.initValue[k]? = if a.1 = k then some (some a.2) else v.initValue[k]? := by
  obtain ⟨-, hlt, rfl⟩ := setAssignment_ok h
  show (v.initValue.set a.1 (some a.2) hlt)[k]? = _
  rw [Vector.getElem?_set]

/-- **Run lemma.** What a run of assignments leaves: the one size of all the values, and a
value in each mode that was named. -/
theorem assigned (hpos : ∀ a ∈ as, 0 < a.2.bytes) (h : as.foldlM setAssignment v = .ok v') :
    (v'.id = v.id ∧ v'.name = v.name) ∧ (v.size ≠ 0 → v'.size = v.size) ∧
      (∀ a ∈ as, a.2.bytes = v'.size) ∧
      ∀ k, (∀ x, v'.initValue[k]? = some (some x) → v.initValue[k]? = some (some x) ∨ (k, x) ∈ as) ∧
        ((∃ x, v'.initValue[k]? = some (some x)) ↔
          (∃ x, v.initValue[k]? = some (some x)) ∨ k ∈ as.map Prod.fst) := by
  induction as generalizing v with
  | nil =>
    cases h
    simp
  | cons a as ih =>
    obtain ⟨hfirst, hrest⟩ := forall_mem_cons.mp hpos
    obtain ⟨v1, hok, h⟩ := foldlM_cons_ok.mp h
    obtain ⟨hnames, hsize, hsizes, hvalues⟩ := ih hrest h
    have hset := initValue_setAssignment hok
    obtain ⟨hfit, hlt, rfl⟩ := setAssignment_ok hok
    have hsame : v'.size = a.2.bytes := hsize (ne_of_gt hfirst)
    refine ⟨hnames, fun hv => ?_, ?_, fun k => ⟨fun x hx => ?_, ?_⟩⟩
    · rw [hsame]
      omega
    · exact forall_mem_cons.mpr ⟨hsame.symm, hsizes⟩
    · rcases (hvalues k).1 x hx with hx | hx
      · grind
      · exact .inr (mem_cons_of_mem a hx)
    · grind

lemma assign_total {size : ℕ} (hlt : ∀ a ∈ as, a.1 < maxModes)
    (hsize : ∀ a ∈ as, a.2.bytes = size) (hv : v.size = 0 ∨ v.size = size) :
    ∃ v', as.foldlM setAssignment v = .ok v' := by
  induction as generalizing v with
  | nil => exact ⟨v, rfl⟩
  | cons a as ih =>
    obtain ⟨hlt, hlts⟩ := forall_mem_cons.mp hlt
    obtain ⟨hsize, hsizes⟩ := forall_mem_cons.mp hsize
    obtain ⟨v', hv'⟩ := ih hlts hsizes (v := { v with
      size := a.2.bytes, initValue := v.initValue.set a.1 (some a.2) hlt }) (.inr hsize)
    exact ⟨v', foldlM_cons_ok.mpr ⟨_, assign_of_size hlt (hsize.symm ▸ hv), hv'⟩⟩

end Assign

/-! ## Reading the listings -/

section Reading

variable {w : PWaveform} {v v' : Var} {s value cfg : Setting} {as : List (ℕ × Value)}
  {x : Value} {n : ℕ} {modes : List CStr}

lemma readVariableValue_some (h : asValue s = some x) (v : Var) (idx : ℕ) :
    readVariableValue s v idx = setAssignment v (idx, x) := by
  unfold asValue at h
  split at h
  · cases h
    rfl
  · cases h
    rfl
  · cases h
    rfl
  · split at h
    · cases h
      simp [readVariableValue, setAssignment, Value.bytes, mul_comm]
    · cases h
      simp [readVariableValue, setAssignment, Value.bytes, mul_comm]
    · cases h
  · cases h

lemma readVariableValue_none (h : asValue s = none) (v : Var) (idx : ℕ) :
    readVariableValue s v idx ≠ .ok v' := by
  cases s with
  | int n => cases h
  | float x => cases h
  | string s => cases h
  | bool b => exact fun hok => by cases hok
  | list elems => exact fun hok => by cases hok
  | group members => exact fun hok => by cases hok
  | array elems =>
    cases elems with
    | nil => exact fun hok => by cases hok
    | cons e elems =>
      cases e with
      | int n => cases h
      | float x => cases h
      | bool b => exact fun hok => by cases hok
      | string s => exact fun hok => by cases hok
      | array es => exact fun hok => by cases hok
      | list es => exact fun hok => by cases hok
      | group ms => exact fun hok => by cases hok

lemma readVariableValue_ok {idx : ℕ} : readVariableValue s v idx = .ok v' ↔
      ∃ x, asValue s = some x ∧ setAssignment v (idx, x) = .ok v' := by
  cases hx : asValue s with
  | none => simp [readVariableValue_none hx]
  | some x => simp [readVariableValue_some hx]

lemma asValue_bytes_pos (h : asValue s = some x) : 0 < x.bytes := by
  unfold asValue at h
  split at h
  · cases h
    exact Nat.zero_lt_succ 3
  · cases h
    exact Nat.zero_lt_succ 3
  · cases h
    exact Nat.zero_lt_succ 63
  · split at h
    · cases h
      simp [Value.bytes]
    · cases h
      simp [Value.bytes]
    · cases h
  · cases h

lemma readVariableMode_ok : readVariableMode w v s = .ok v' ↔
      ∃ a, assignment (w.modes.map (·.1)) s = some a ∧ setAssignment v a = .ok v' := by
  unfold readVariableMode assignment namedMode findMode
  cases s.stringElem 0 with
  | none => exact iff_of_false (fun h => by cases h) (fun ⟨_, h, _⟩ => by cases h)
  | some name =>
    simp only [bind_some, findIdx?_map, Function.comp_def]
    cases w.modes.findIdx? fun m => strEq m.1 name with
    | none => exact iff_of_false (fun h => by cases h) (fun ⟨_, h, _⟩ => by cases h)
    | some m =>
      cases s.elem 1 with
      | none => exact iff_of_false (fun h => by cases h) (fun ⟨_, h, _⟩ => by cases h)
      | some value =>
        simp only [bind_some, map_eq_some_iff]
        rw [readVariableValue_ok]
        constructor
        · rintro ⟨x, hx, hok⟩
          exact ⟨(m, x), ⟨x, hx, rfl⟩, hok⟩
        · rintro ⟨_, ⟨x, hx, rfl⟩, hok⟩
          exact ⟨x, hx, hok⟩

def blankVar (name : CStr) : Var := ⟨0, strcpy name, 0, .replicate maxModes none⟩

lemma readSingle_ok (hn : 1 ≤ n) : (List.range n).foldlM (readVariableValue s) v = .ok v' ↔
      ∃ as, ((asValue s).map fun x => (List.range n).map fun m => (m, x)) = some as ∧
        as.foldlM setAssignment v = .ok v' := by
  cases hx : asValue s with
  | none =>
    refine iff_of_false ?_ (fun ⟨_, h, _⟩ => by cases h)
    obtain ⟨k, rfl⟩ := Nat.exists_eq_add_of_le hn
    rw [add_comm, range_succ_eq_map, foldlM_cons_ok]
    rintro ⟨v1, hok, -⟩
    exact readVariableValue_none hx v 0 hok
  | some x =>
    have hstep : readVariableValue s = fun v m => setAssignment v (m, x) :=
      funext fun v => funext fun m => readVariableValue_some hx v m
    simp only [map_some, some.injEq, exists_eq_left', foldlM_map, hstep]

lemma readVariable_ok (hmodes : 1 ≤ w.modes.length) :
    readVariable w cfg = .ok v ↔ ∃ name value as, cfg.lookupString "name" = some name ∧
      cfg.member "value" = some value ∧ assignments (w.modes.map (·.1)) value = some as ∧
      as.foldlM setAssignment (blankVar name) = .ok v := by
  unfold readVariable
  cases cfg.lookupString "name" with
  | none => exact iff_of_false (fun h => by cases h) (fun ⟨_, _, _, h, _⟩ => by cases h)
  | some name =>
    cases cfg.member "value" with
    | none => exact iff_of_false (fun h => by cases h) (fun ⟨_, _, _, _, h, _⟩ => by cases h)
    | some value =>
      simp only [some.injEq, exists_and_left, exists_eq_left', assignments, length_map]
      by_cases hone : value.length ≤ 1
      · rw [if_pos hone, if_pos hone]
        exact readSingle_ok hmodes
      · rw [if_neg hone, if_neg hone]
        by_cases hlen : value.length = w.modes.length
        · rw [if_neg (not_not_intro hlen), if_neg (not_not_intro hlen)]
          have hstep : ∀ v s v', readVariableMode w v s = .ok v' ↔
              ∃ a, assignment (w.modes.map (·.1)) s = some a ∧ setAssignment v a = .ok v' :=
            fun _ _ _ => readVariableMode_ok
          exact foldlM_decoded hstep
        · rw [if_pos hlen, if_pos hlen]
          exact iff_of_false (fun h => by cases h) (fun ⟨_, h, _⟩ => by cases h)

lemma assignments_facts (h : assignments modes value = some as) :
    as.length = modes.length ∧ ∀ a ∈ as, a.1 < modes.length ∧ 0 < a.2.bytes := by
  unfold assignments at h
  split at h
  · obtain ⟨x, hx, rfl⟩ := map_eq_some_iff.mp h
    refine ⟨by simp, fun a ha => ?_⟩
    obtain ⟨m, hm, rfl⟩ := mem_map.mp ha
    exact ⟨mem_range.mp hm, asValue_bytes_pos hx⟩
  · split at h
    · cases h
    · next hlen =>
      obtain ⟨hlength, hparts⟩ := mapM_some h
      refine ⟨?_, fun a ha => ?_⟩
      · rw [hlength, length_map]
        exact Decidable.not_not.mp hlen
      · obtain ⟨part, -, hpart⟩ := hparts a ha
        obtain ⟨m, hm, hpart⟩ := bind_eq_some_iff.mp hpart
        obtain ⟨x, hx, rfl⟩ := map_eq_some_iff.mp hpart
        obtain ⟨name, -, hfind⟩ := bind_eq_some_iff.mp hm
        obtain ⟨s, -, hs⟩ := bind_eq_some_iff.mp hx
        obtain ⟨hlt, -⟩ := findIdx?_eq_some_iff_getElem.mp hfind
        exact ⟨hlt, asValue_bytes_pos hs⟩

lemma nodup_iff_covers {l : List ℕ} (hlen : l.length = n) (hlt : ∀ k ∈ l, k < n) :
    l.Nodup ↔ ∀ k < n, k ∈ l := by
  constructor
  · intro hnodup k hk
    have hsub : l.Subperm (List.range n) :=
      subperm_of_subset hnodup fun j hj => mem_range.mpr (hlt j hj)
    have hperm := hsub.perm_of_length_le (by rw [length_range, hlen])
    exact hperm.mem_iff.mpr (mem_range.mpr hk)
  · intro hall
    have hsub : (List.range n).Subperm l :=
      subperm_of_subset nodup_range fun j hj => hall j (mem_range.mp hj)
    have hperm := hsub.perm_of_length_le (by rw [length_range, hlen])
    exact hperm.nodup_iff.mp nodup_range

lemma full_iff {name : CStr} (hmodes : 1 ≤ modes.length) (h : assignments modes value = some as)
    (hrun : as.foldlM setAssignment (blankVar name) = .ok v) :
    Full modes.length v ↔ (as.map Prod.fst).Nodup := by
  obtain ⟨hlen, hfacts⟩ := assignments_facts h
  obtain ⟨-, -, hsizes, hvalues⟩ := assigned (fun a ha => (hfacts a ha).2) hrun
  have hblank : ∀ (k : ℕ) x, (blankVar name).initValue[k]? ≠ some (some x) := by
    intro k x hx
    simp [blankVar, Vector.getElem?_replicate] at hx
  have hlt : ∀ k ∈ as.map Prod.fst, k < modes.length := by
    intro k hk
    obtain ⟨a, ha, rfl⟩ := mem_map.mp hk
    exact (hfacts a ha).1
  have hmem : ∀ k : ℕ, (∃ x, v.initValue[k]? = some (some x)) ↔ k ∈ as.map Prod.fst := by
    intro k
    rw [(hvalues k).2]
    simp [hblank]
  rw [nodup_iff_covers (by rw [length_map, hlen]) hlt]
  constructor
  · intro hfull k hk
    obtain ⟨x, hx, -⟩ := hfull.2 k hk
    exact (hmem k).mp ⟨x, hx⟩
  · intro hall
    refine ⟨?_, fun k hk => ?_⟩
    · grind
    · grind

/-- **A listing is well made exactly when it is read to a full variable.** -/
theorem wellListed_iff (hmodes : 1 ≤ w.modes.length) (hmax : w.modes.length ≤ maxModes) :
    WellListed (w.modes.map (·.1)) cfg ↔
      ∃ v, readVariable w cfg = .ok v ∧ Full w.modes.length v := by
  have hlength : (w.modes.map (·.1)).length = w.modes.length := length_map _
  constructor
  · rintro ⟨hname, value, as, hvalue, has, hnodup, size, hsize⟩
    obtain ⟨name, hname⟩ := isSome_iff_exists.mp hname
    obtain ⟨-, hfacts⟩ := assignments_facts has
    obtain ⟨v, hv⟩ := assign_total (v := blankVar name)
      (fun a ha => lt_of_lt_of_le (hlength ▸ (hfacts a ha).1) hmax) hsize (.inl rfl)
    refine ⟨v, (readVariable_ok hmodes).mpr ⟨name, value, as, hname, hvalue, has, hv⟩, ?_⟩
    rw [← hlength]
    exact (full_iff (hlength.symm ▸ hmodes) has hv).mpr hnodup
  · rintro ⟨v, hread, hfull⟩
    obtain ⟨name, value, as, hname, hvalue, has, hv⟩ := (readVariable_ok hmodes).mp hread
    obtain ⟨-, hfacts⟩ := assignments_facts has
    obtain ⟨-, -, hsizes, -⟩ := assigned (fun a ha => (hfacts a ha).2) hv
    rw [← hlength] at hfull
    exact ⟨by rw [hname]; rfl, value, as, hvalue, has,
      (full_iff (hlength.symm ▸ hmodes) has hv).mp hfull, v.size, hsizes⟩

lemma name_of_readVariable (hmodes : 1 ≤ w.modes.length) (h : readVariable w cfg = .ok v) :
    (cfg.lookupString "name").map strcpy = some v.name := by
  obtain ⟨name, value, as, hname, -, has, hv⟩ := (readVariable_ok hmodes).mp h
  obtain ⟨-, hfacts⟩ := assignments_facts has
  obtain ⟨⟨-, heq⟩, -⟩ := assigned (fun a ha => (hfacts a ha).2) hv
  rw [hname, heq]
  rfl

lemma stored_iff {vars : List Var} (hmodes : 1 ≤ w.modes.length)
    (hmax : w.modes.length ≤ maxModes) (h : readVariables w cfg = .ok vars) :
    Stored w.modes.length cfg vars ↔ ∀ s ∈ listed cfg, WellListed (w.modes.map (·.1)) s := by
  unfold readVariables at h
  cases hcfg : cfg.member "variables" with
  | none =>
    have hnone : listed cfg = [] := by rw [listed, hcfg]
    rw [hcfg] at h
    cases h
    refine iff_of_true ⟨by rw [hnone]; rfl, ?_⟩ (by simp [hnone])
    intro i s v _ hv
    cases hv
  | some list =>
    have hlist : listed cfg = list.parts.map (·.2) := by rw [listed, hcfg]
    rw [hcfg] at h
    simp only [← hlist] at h
    cases hall : (listed cfg).mapM (readVariable w) with
    | error e =>
      rw [hall] at h
      cases e with
      | fault => cases h
      | fuel => cases h
      | error =>
        cases h
        constructor
        · intro hstored s hs
          rw [eq_nil_of_length_eq_zero hstored.length_eq.symm] at hs
          cases hs
        · -- listings that are well made would all have been read
          intro hwell
          obtain ⟨vs, hvs⟩ := mapM_total (f := readVariable w) fun s hs => by
            obtain ⟨v, hv, -⟩ := (wellListed_iff hmodes hmax).mp (hwell s hs)
            exact ⟨v, hv⟩
          rw [hall] at hvs
          cases hvs
    | ok vs =>
      rw [hall] at h
      cases h
      obtain ⟨hlen, heach⟩ := mapM_ok hall
      constructor
      · intro hstored s hs
        obtain ⟨i, hi, rfl⟩ := mem_iff_getElem.mp hs
        obtain ⟨v, hv, hread⟩ := heach i _ (getElem?_eq_getElem hi)
        refine (wellListed_iff hmodes hmax).mpr ⟨v, hread, ?_⟩
        exact (hstored.each i _ { v with id := i + 1 } (getElem?_eq_getElem hi)
          (by rw [getElem?_mapIdx, hv]; rfl)).2.2
      · intro hwell
        refine ⟨by rw [length_mapIdx, hlen], fun i s v' hs hv' => ?_⟩
        obtain ⟨v, hv, hread⟩ := heach i s hs
        rw [getElem?_mapIdx, hv] at hv'
        cases hv'
        obtain ⟨u, hu, hfull⟩ := (wellListed_iff hmodes hmax).mp (hwell s (mem_of_getElem? hs))
        rw [hread] at hu
        cases hu
        have hname := name_of_readVariable hmodes hread
        exact ⟨rfl, hname, hfull⟩

end Reading

/-! ## The parse -/

def modeNames (root : Setting) : List CStr :=
  match root.member "modes" with
  | none => ["default".toList]
  | some cfg => cfg.parts.map fun part => strcpy ((part.2.lookupString "name").getD [])

def mainModes (env : Env) (file : CStr) : List CStr :=
  match env.files file with
  | none => []
  | some root => modeNames root

section Parse

variable {env : Env} {fuel : ℕ} {file : CStr} {root : Setting} {w w' : PWaveform}

lemma readMode_ok {cfg : Setting} {mode : CStr × CStr} (h : readMode cfg = .ok mode) :
    mode.1 = strcpy ((cfg.lookupString "name").getD []) := by
  unfold readMode at h
  split at h
  · next name desc hname _ =>
    cases h
    rw [hname]
    rfl
  · cases h

lemma readModes_names (h : readModes root w = .ok w') :
    w'.modes.map (·.1) = modeNames root ∧ 1 ≤ w'.modes.length ∧ w'.modes.length ≤ maxModes := by
  unfold readModes at h
  unfold modeNames
  cases hcfg : root.member "modes" with
  | none =>
    rw [hcfg] at h
    cases h
    exact ⟨rfl, le_refl 1, Nat.le_add_left 1 24⟩
  | some cfg =>
    rw [hcfg] at h
    simp only at h
    split at h
    · cases h
    · next hpos =>
      split at h
      · cases h
      · next hmax =>
        obtain ⟨modes, hmodes, h⟩ := bind_eq_ok.mp h
        cases h
        obtain ⟨hlen, hall⟩ := mapM_ok hmodes
        rw [length_map] at hlen
        have hlen' : modes.length = cfg.length := hlen
        refine ⟨ext_getElem? fun i => ?_, ?_, ?_⟩
        · show (modes.map (·.1))[i]? = _
          rw [getElem?_map, getElem?_map]
          cases hi : cfg.parts[i]? with
          | none =>
            rw [List.getElem?_eq_none_iff] at hi
            rw [getElem?_eq_none (by omega)]
            rfl
          | some part =>
            obtain ⟨mode, hmode, hok⟩ := hall i part.2 (by rw [getElem?_map, hi]; rfl)
            rw [hmode, map_some, map_some, readMode_ok hok]
        · show 1 ≤ modes.length
          omega
        · show modes.length ≤ maxModes
          omega

def AllStored (env : Env) (fuel : ℕ) (file : CStr) (w : PWaveform) : Prop :=
  ∀ (k : ℕ) e, (instances env fuel [] file)[k]? = some e →
    ∃ m, w.modules[k]? = some m ∧ Stored (mainModes env file).length e.cfg m.vars

def DefectsReported (env : Env) (fuel : ℕ) (file : CStr) : Prop :=
  ∀ e ∈ instances env fuel [] file, ∀ s ∈ listed e.cfg, ¬ WellListed (mainModes env file) s →
    waveformParse env fuel true (newWaveform file) = .error .error

/-- **A parse that returns 0 has stored every variable, and left no defect unreported, exactly
when every listing of the tree is well made.** -/
theorem waveform_parse_variables_iff (h : waveformParse env fuel true (newWaveform file) = .ok w) :
    AllStored env fuel file w ∧ DefectsReported env fuel file ↔
      ∀ e ∈ instances env fuel [] file, ∀ s ∈ listed e.cfg, WellListed (mainModes env file) s := by
  cases fuel with
  | zero => cases h
  | succ fuel =>
    obtain ⟨-, root, w₁, hroot, h₁, hread⟩ := waveformParse_modules h
    obtain ⟨hnames, hpos, hmax⟩ := readModes_names h₁
    have hmain : mainModes env file = w₁.modes.map (·.1) := by
      rw [hnames, mainModes, show env.files file = some root from hroot]
    have hlength : (mainModes env file).length = w₁.modes.length := by
      rw [hmain, length_map]
    have hmodules : ∀ (k : ℕ) e, (instances env (fuel + 1) [] file)[k]? = some e →
        ∃ m, w.modules[k]? = some m ∧
          ∃ v : PWaveform, v.modes = w₁.modes ∧ readVariables v e.cfg = .ok m.vars := by
      intro k e he
      obtain ⟨r, entry, hr, hitem, rfl⟩ := reading_of_instance [] he
      obtain ⟨m, hm, -, -, hnamed⟩ := hread k r hr
      exact ⟨m, hm, (hnamed entry hitem).2⟩
    have hstored : ∀ (k : ℕ) e m, (instances env (fuel + 1) [] file)[k]? = some e →
        w.modules[k]? = some m →
        (Stored (mainModes env file).length e.cfg m.vars ↔
          ∀ s ∈ listed e.cfg, WellListed (mainModes env file) s) := by
      intro k e m he hm
      obtain ⟨m', hm', v, hv, hread⟩ := hmodules k e he
      rw [hm] at hm'
      cases hm'
      rw [hlength, hmain, ← hv]
      exact stored_iff (hv ▸ hpos) (hv ▸ hmax) hread
    constructor
    · rintro ⟨hall, -⟩ e he
      obtain ⟨k, hk⟩ := mem_iff_getElem?.mp he
      obtain ⟨m, hm, hm'⟩ := hall k e hk
      exact (hstored k e m hk hm).mp hm'
    · intro hwell
      refine ⟨fun k e he => ?_, fun e he s hs hdefect => absurd (hwell e he s hs) hdefect⟩
      obtain ⟨m, hm, -⟩ := hmodules k e he
      exact ⟨m, hm, (hstored k e m he hm).mpr (hwell e (mem_of_getElem? he))⟩

end Parse

def ampModule (listing : Setting) : Setting :=
  .group [("binary".toList, .string "amp".toList), ("variables".toList, .list [listing])]

def ampModel (listing : Setting) : Setting :=
  let text (s : String) : Setting := .string s.toList
  let mode (name : String) : Setting :=
    .group [("name".toList, text name), ("desc".toList, text name)]
  .group [("modes".toList, .list [mode "idle", mode "full"]),
    ("modules".toList, .group [("amp".toList, ampModule listing)]),
    ("interfaces".toList, .list [.group [
      ("src".toList, text "amp"), ("dest".toList, text "_output")]])]

def gainListing (first second : String) : Setting :=
  let part (mode : String) (n : ℤ) : Setting := .list [.string mode.toList, .int n]
  .group [("name".toList, .string "gain".toList),
    ("value".toList, .list [part first 1, part second 2])]

theorem waveform_parse_variables_each :
    ∃ w, waveformParse (modelEnv (ampModel (gainListing "idle" "full"))) 1 true
        (newWaveform "amp".toList) = .ok w ∧
      AllStored (modelEnv (ampModel (gainListing "idle" "full"))) 1 "amp".toList w := by
  refine ⟨_, rfl, ((waveform_parse_variables_iff rfl).mpr ?_).1⟩
  intro e he s hs
  have hinst : instances (modelEnv (ampModel (gainListing "idle" "full"))) 1 [] "amp".toList =
      [⟨["amp".toList], ampModule (gainListing "idle" "full")⟩] := rfl
  rw [hinst, mem_singleton] at he
  subst he
  have hlisted : listed (ampModule (gainListing "idle" "full")) = [gainListing "idle" "full"] := rfl
  rw [hlisted, mem_singleton] at hs
  subst hs
  exact ⟨rfl, _, [(0, .ints [1]), (1, .ints [2])], rfl, rfl, by decide, 4, by decide⟩

def bareListing : Setting := .group [("name".toList, .string "gain".toList)]

/-- Two listings with which the parse returns 0: of the one without a value nothing is
stored, of the one that names a mode twice the other mode has no value. -/
theorem waveform_parse_variables_lost : (∃ w, waveformParse (modelEnv (ampModel bareListing)) 1 true
    (newWaveform "amp".toList) = .ok w ∧
      ¬ AllStored (modelEnv (ampModel bareListing)) 1 "amp".toList w) ∧
    ∃ w, waveformParse (modelEnv (ampModel (gainListing "idle" "idle"))) 1 true
        (newWaveform "amp".toList) = .ok w ∧
      ¬ AllStored (modelEnv (ampModel (gainListing "idle" "idle"))) 1 "amp".toList w := by
  refine ⟨⟨_, rfl, fun hall => ?_⟩, _, rfl, fun hall => ?_⟩
  · obtain ⟨m, hm, hstored⟩ := hall 0 _ rfl
    cases hm
    exact absurd hstored.length_eq (by decide)
  · obtain ⟨m, hm, hstored⟩ := hall 0 _ rfl
    cases hm
    obtain ⟨x, hx, -⟩ := (hstored.each 0 _ _ rfl rfl).2.2.2 1 (by decide)
    cases hx

end Aloe.Manager
