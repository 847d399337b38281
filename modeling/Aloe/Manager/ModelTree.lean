import Aloe.Lib.Fallible
import Aloe.Manager.ParserRuns

/-!
# The tree of model files

A model includes others, and these include further ones. `instances` lists the modules of the whole
tree in the order of the files, each with the names of the entries that lead to it. `readings` adds
the interface entries and the prefix that is in force at each entry. `calls` lists the interface
entries that a parse reads, also one that fails, with the waveform as it stands at each of them.

A parse that succeeds reads the tree: its modules are those of `readings`, named and numbered in
their order (`waveformParse_modules`), and its calls are made for the interface entries of
`readings`, under their prefixes (`waveformParse_calls`).
-/

namespace Aloe.Manager

open Lib List Option PModule

/-! ## The tree -/

/-- One instance of an entry of a `modules` section. -/
structure Entry where
  name : Option CStr
  inst : Option ℕ
  cfg : Setting

namespace Entry

def label (e : Entry) : CStr :=
  match e.inst with
  | none => e.name.getD []
  | some j => e.name.getD [] ++ '_' :: Nat.toDigits 10 j

def file (e : Entry) : Option CStr := e.cfg.lookupString "include"

end Entry

/-- The entries of a `modules` section, each once for every instance. -/
def entriesOf (modules : Setting) : List Entry :=
  modules.parts.flatMap fun part =>
    (List.range (instancesOf part.2).toNat).map fun j =>
      ⟨part.1, if instancesOf part.2 = 1 then none else some j, part.2⟩

def modelEntries (env : Env) (file : CStr) : List Entry :=
  match (env.files file).bind (·.member "modules") with
  | none => []
  | some modules => entriesOf modules

lemma modelEntries_eq {env : Env} {file : CStr} {root modules : Setting}
    (hroot : env.files file = some root) (hmodules : root.member "modules" = some modules) :
    modelEntries env file = entriesOf modules := by
  rw [modelEntries, hroot, bind_some, hmodules]

def modelInterfaces (env : Env) (file : CStr) : List Setting :=
  match (env.files file).bind (·.member "interfaces") with
  | none => []
  | some interfaces => interfaces.parts.map (·.2)

structure Instance where
  path : List CStr
  cfg : Setting

def instances (env : Env) : (fuel : ℕ) → List CStr → CStr → List Instance
  | 0, _, _ => []
  | fuel + 1, path, file =>
    (modelEntries env file).flatMap fun e =>
      match e.file with
      | none => [⟨path ++ [e.label], e.cfg⟩]
      | some sub => instances env fuel (path ++ [e.label]) sub

/-! ## The prefixes -/

/-- The name that `read_module` gives to an entry under a prefix. -/
def Entry.named (e : Entry) (pre : CStr) : CStr :=
  if pre = [] then if e.inst = none then strcpy e.label else snprintf e.label
  else snprintf (pre ++ '_' :: e.label)

/-- The prefix that entries leave: an included model clears it. -/
def prefixAfter (es : List Entry) (pre : CStr) : CStr :=
  if es.any (·.file.isSome) then [] else pre

/-- A module or an interface of a model, with the path to the model and the prefix in force. -/
structure Reading where
  path : List CStr
  pre : CStr
  item : Entry ⊕ Setting

def readsFrom (reads : CStr → Entry → List Reading) : List Entry → CStr → List Reading
  | [], _ => []
  | e :: es, pre => reads pre e ++ readsFrom reads es (prefixAfter [e] pre)

/-- What there is to read of a model and those it includes. -/
def readings (env : Env) : (fuel : ℕ) → List CStr → CStr → CStr → List Reading
  | 0, _, _, _ => []
  | fuel + 1, path, pre, file =>
    readsFrom (fun pre e =>
      match e.file with
      | none => [⟨path, pre, .inl e⟩]
      | some sub => readings env fuel (path ++ [e.label]) (strcpy (e.named pre)) sub)
      (modelEntries env file) pre ++
    (modelInterfaces env file).map fun cfg =>
      ⟨path, prefixAfter (modelEntries env file) pre, .inr cfg⟩

def Entry.readings (env : Env) (fuel : ℕ) (path : List CStr) (pre : CStr) (e : Entry) :
    List Reading :=
  match e.file with
  | none => [⟨path, pre, .inl e⟩]
  | some sub => Manager.readings env fuel (path ++ [e.label]) (strcpy (e.named pre)) sub

lemma readings_succ (env : Env) (fuel : ℕ) (path : List CStr) (pre file : CStr) :
    readings env (fuel + 1) path pre file =
      readsFrom (Entry.readings env fuel path) (modelEntries env file) pre ++
        (modelInterfaces env file).map fun cfg =>
          ⟨path, prefixAfter (modelEntries env file) pre, .inr cfg⟩ := rfl

lemma prefixAfter_cons (e : Entry) (es : List Entry) (pre : CStr) :
    prefixAfter (e :: es) pre = prefixAfter es (prefixAfter [e] pre) := by
  unfold prefixAfter
  cases he : e.file.isSome with
  | true => simp [he]
  | false => simp [he]

def moduleReadings (rs : List Reading) : List Reading := rs.filter (·.item.isLeft)

def interfaceReadings (rs : List Reading) : List Reading := rs.filter (·.item.isRight)

/-- The instance that a module is. -/
def Reading.toInstance (r : Reading) : Instance :=
  match r.item with
  | .inl e => ⟨r.path ++ [e.label], e.cfg⟩
  | .inr cfg => ⟨r.path, cfg⟩

lemma moduleReadings_append (rs rs' : List Reading) :
    moduleReadings (rs ++ rs') = moduleReadings rs ++ moduleReadings rs' := filter_append ..

lemma interfaceReadings_append (rs rs' : List Reading) :
    interfaceReadings (rs ++ rs') = interfaceReadings rs ++ interfaceReadings rs' :=
    filter_append ..

section Interfaces

variable (path : List CStr) (pre : CStr) (cfgs : List Setting)

lemma moduleReadings_interfaces :
    moduleReadings (cfgs.map fun cfg => ⟨path, pre, .inr cfg⟩) = [] := by
  rw [moduleReadings, filter_eq_nil_iff]
  intro r hr
  obtain ⟨cfg, -, rfl⟩ := mem_map.mp hr
  exact Bool.false_ne_true

end Interfaces

lemma readings_instances (env : Env) (fuel : ℕ) (path : List CStr) (pre file : CStr) :
    (moduleReadings (readings env fuel path pre file)).map Reading.toInstance =
      instances env fuel path file := by
  induction fuel generalizing path pre file with
  | zero => rfl
  | succ fuel ih =>
    rw [readings_succ, moduleReadings_append, moduleReadings_interfaces, append_nil, instances]
    induction modelEntries env file generalizing pre with
    | nil => rfl
    | cons e es ihes =>
      rw [readsFrom, moduleReadings_append, map_append, flatMap_cons, ihes]
      congr 1
      unfold Entry.readings
      cases e.file with
      | none => rfl
      | some sub => exact ih ..

lemma reading_of_instance {env : Env} {fuel k : ℕ} {path : List CStr} {file : CStr} (pre : CStr)
    {i : Instance} (h : (instances env fuel path file)[k]? = some i) :
    ∃ r e, (moduleReadings (readings env fuel path pre file))[k]? = some r ∧ r.item = .inl e ∧
      i = ⟨r.path ++ [e.label], e.cfg⟩ := by
  rw [← readings_instances env fuel path pre file, getElem?_map] at h
  obtain ⟨r, hr, rfl⟩ := map_eq_some_iff.mp h
  obtain ⟨e, he⟩ := Sum.isLeft_iff.mp (mem_filter.mp (mem_of_getElem? hr)).2
  exact ⟨r, e, hr, he, by rw [Reading.toInstance, he]⟩

/-! ## The calls of a parse -/

/-- A call that works on the port tables: `read_interface` on an entry of the model that a
path leads to, or the end of the main model. -/
inductive Call where
  | interface (path : List CStr) (w : PWaveform) (cfg : Setting)
  | close (w : PWaveform) (root : Setting)

/-- The interface entry that a call reads. -/
def Call.reading : Call → Option Reading
  | .interface path w cfg => some ⟨path, w.namePrefix, .inr cfg⟩
  | .close _ _ => none

/-- One instance of `readInstances`. -/
def readEntry (parseSub : PWaveform → Except Stop PWaveform) (hasSlots : Bool) (w : PWaveform)
    (e : Entry) : Except Stop PWaveform :=
  readModule parseSub e.name e.cfg (if hasSlots then some w.nofParsedModules else none) e.inst w

/-- The waveform that `read_module` hands to the parse of an included model. -/
def enterModel (hasSlots : Bool) (w : PWaveform) (e : Entry) (file : CStr) :
    Except Stop PWaveform :=
  match e.name with
  | none => throw .error
  | some name => do
      let full ← moduleName w name e.inst
      let w ← nameSlot w (if hasSlots then some w.nofParsedModules else none) full
      return { w with modelFile := strcpy file, namePrefix := strcpy full }

def openModel (isMain : Bool) (root modules : Setting) (w : PWaveform) :
    Except Stop PWaveform := do
  let w ← onMain isMain (readModes root) w
  if countModules modules ≠ 0 then waveformAlloc w (countModules modules) else pure w

def entryCalls (sub : List CStr → PWaveform → List Call) (hasSlots : Bool) (path : List CStr)
    (w : PWaveform) (e : Entry) : List Call :=
  match e.file with
  | none => []
  | some file => andThen (enterModel hasSlots w e file) (sub (path ++ [e.label]))

def calls (env : Env) : (fuel : ℕ) → List CStr → (isMain : Bool) → PWaveform → List Call
  | 0, _, _, _ => []
  | fuel + 1, path, isMain, w =>
    if strLen ≤ w.modelFile.length then []
    else
      match env.files w.modelFile with
      | none => []
      | some root =>
        match root.member "modules" with
        | none => []
        | some modules =>
          let hasSlots : Bool := countModules modules ≠ 0
          let read := readEntry (waveformParse env fuel false) hasSlots
          let inside := entryCalls (fun path w => calls env fuel path false w) hasSlots path
          andThen (openModel isMain root modules w) fun w =>
            loopLog read inside (entriesOf modules) w ++
            andThen ((entriesOf modules).foldlM read w) fun w =>
            andThen (onMain isMain (joinStages · (root.member "join_stages")) w) fun w =>
              match root.member "interfaces" with
              | none => []
              | some interfaces =>
                let cfgs := interfaces.parts.map (·.2)
                loopLog readInterface (fun w cfg => [.interface path w cfg]) cfgs w ++
                if isMain && interfaces.length ≠ 0 then
                  andThen (cfgs.foldlM readInterface w) fun w => [.close w root]
                else []

abbrev readEntries (env : Env) (fuel : ℕ) (modules : Setting) : PWaveform → Except Stop PWaveform :=
  (entriesOf modules).foldlM (readEntry (waveformParse env fuel false) (countModules modules ≠ 0))

abbrev entriesLog (env : Env) (fuel : ℕ) (path : List CStr) (modules : Setting) :
    PWaveform → List Call :=
  loopLog (readEntry (waveformParse env fuel false) (countModules modules ≠ 0))
    (entryCalls (fun path w => calls env fuel path false w) (countModules modules ≠ 0) path)
    (entriesOf modules)

abbrev interfacesLog (path : List CStr) (interfaces : Setting) : PWaveform → List Call :=
  loopLog readInterface (fun w cfg => [.interface path w cfg]) (interfaces.parts.map (·.2))

/-! ## The steps of a parse -/

section Steps

variable {parseSub : PWaveform → Except Stop PWaveform} {hasSlots : Bool}
  {w w' : PWaveform} {e : Entry}

lemma calls_of_ok {env : Env} {fuel : ℕ} {path : List CStr} {root modules interfaces : Setting}
    {isMain : Bool} {w2 w3 w4 : PWaveform}
    (hlt : w.modelFile.length < strLen) (hroot : env.files w.modelFile = some root)
    (hmodules : root.member "modules" = some modules)
    (hinterfaces : root.member "interfaces" = some interfaces)
    (hopen : openModel isMain root modules w = .ok w2)
    (hread : readEntries env fuel modules w2 = .ok w3)
    (hstages : onMain isMain (joinStages · (root.member "join_stages")) w3 = .ok w4) :
    calls env (fuel + 1) path isMain w = entriesLog env fuel path modules w2 ++
      (interfacesLog path interfaces w4 ++
        if isMain && interfaces.length ≠ 0 then
          andThen ((interfaces.parts.map (·.2)).foldlM readInterface w4) fun w => [.close w root]
        else []) := by
  rw [calls, if_neg (not_le.mpr hlt), hroot]
  simp only [hmodules, hopen, hread, hstages, hinterfaces, andThen]

lemma foldlM_readInstances (modules : Setting) :
    modules.parts.foldlM (readInstances parseSub hasSlots) w =
      (entriesOf modules).foldlM (readEntry parseSub hasSlots) w := by
  rw [entriesOf, foldlM_flatMap]
  congr 1
  funext v part
  rw [foldlM_map]
  rfl

/-- Reading an entry puts a module into the next slot, or parses a model under the prefix of the
entry, which is dropped in the end. -/
theorem readEntry_cases (h : readEntry parseSub hasSlots w e = .ok w') :
    (∃ name full, e.file = none ∧ e.name = some name ∧ moduleName w name e.inst = .ok full ∧
      readBinary w e.cfg full w.nofParsedModules = .ok w') ∨
    ∃ sub w1 w2, e.file = some sub ∧ enterModel hasSlots w e sub = .ok w1 ∧
      parseSub w1 = .ok w2 ∧ w' = { w2 with namePrefix := [] } := by
  unfold readEntry readModule at h
  cases hname : e.name with
  | none =>
    rw [hname] at h
    cases h
  | some name =>
    rw [hname] at h
    obtain ⟨full, hfull, h⟩ := bind_eq_ok.mp h
    cases hinc : e.cfg.lookupString "include" with
    | none =>
      left
      simp only [hinc] at h
      cases hasSlots with
      | false => cases h
      | true => exact ⟨name, full, hinc, rfl, hfull, h⟩
    | some sub =>
      right
      simp only [hinc] at h
      obtain ⟨w1, hnamed, h⟩ := bind_eq_ok.mp h
      obtain ⟨w2, hparse, h⟩ := bind_eq_ok.mp h
      cases h
      refine ⟨sub, _, w2, hinc, ?_, hparse, rfl⟩
      simp only [enterModel, hname, hfull, bind_ok_eq, hnamed]
      rfl

variable {sub : CStr}

lemma moduleName_eq {name full : CStr} (hname : e.name = some name)
    (h : moduleName w name e.inst = .ok full) : full = e.named w.namePrefix := by
  have hlabel : ∀ label, withPrefix w label = .ok full → full =
    snprintf (w.namePrefix ++ '_' :: label) := by
    intro label h
    unfold withPrefix at h
    split at h
    · cases h
    · exact (Except.ok.inj h).symm
  unfold moduleName at h
  unfold Entry.named Entry.label
  cases hinst : e.inst with
  | none =>
    simp only [hinst] at h
    rw [hname]
    split at h
    · next hnil =>
      rw [if_pos hnil]
      exact (Except.ok.inj h).symm
    · next hnil =>
      rw [if_neg hnil]
      exact hlabel name h
  | some j =>
    simp only [hinst] at h
    rw [hname]
    split at h
    · next hnil =>
      rw [if_pos hnil]
      exact (Except.ok.inj h).symm
    · next hnil =>
      rw [if_neg hnil]
      exact hlabel _ h

lemma enterModel_ok (h : enterModel hasSlots w e sub = .ok w') :
    ∃ w1, nameSlot w (if hasSlots then some w.nofParsedModules else none)
        (e.named w.namePrefix) = .ok w1 ∧
      w' = { w1 with modelFile := strcpy sub, namePrefix := strcpy (e.named w.namePrefix) } := by
  unfold enterModel at h
  cases hname : e.name with
  | none =>
    rw [hname] at h
    cases h
  | some name =>
    rw [hname] at h
    obtain ⟨full, hfull, h⟩ := bind_eq_ok.mp h
    obtain ⟨w1, hnamed, h⟩ := bind_eq_ok.mp h
    cases h
    obtain rfl := moduleName_eq hname hfull
    exact ⟨w1, hnamed, rfl⟩

lemma enterModel_progress (h : enterModel hasSlots w e sub = .ok w') : Progress 0 w w' := by
  obtain ⟨w1, hnamed, rfl⟩ := enterModel_ok h
  refine Progress.trans (a := 0) (b := 0) (nameSlot_progress hnamed) ?_
  exact Progress.idle rfl rfl rfl rfl

end Steps

/-! ## What a parse leaves in the modules -/

def PModule.static (m : PModule) : CStr × List Var × ℕ × ℕ := (m.name, m.vars, m.id, m.index)

lemma static_eq_iff {m m' : PModule} : m'.static = m.static ↔
      m'.name = m.name ∧ m'.vars = m.vars ∧ m'.id = m.id ∧ m'.index = m.index := by
  simp [static]

/-- A part of a parse that reads the modules `es`: they follow those read before, which keep
what is read of them. -/
structure Grows (P : Reading → CStr → List Var → Prop) (es : List Reading)
    (w w' : PWaveform) : Prop where
  parsed : w'.nofParsedModules = w.nofParsedModules + es.length
  old : ∀ i m, i < w.nofParsedModules → w.modules[i]? = some m →
    ∃ m', w'.modules[i]? = some m' ∧ m'.static = m.static
  new : ∀ k e, es[k]? = some e →
    ∃ m, w'.modules[w.nofParsedModules + k]? = some m ∧ P e m.name m.vars

namespace Grows

variable {P : Reading → CStr → List Var → Prop} {es es' : List Reading}
  {w w' w'' : PWaveform}

lemma keep (hp : w'.nofParsedModules = w.nofParsedModules)
    (hm : ∀ i m, i < w.nofParsedModules → w.modules[i]? = some m →
      ∃ m', w'.modules[i]? = some m' ∧ m'.static = m.static) :
    Grows P [] w w' := by
  refine ⟨hp, hm, ?_⟩
  intro k e he
  cases he

lemma idle (hm : w'.modules = w.modules) (hp : w'.nofParsedModules = w.nofParsedModules) :
    Grows P [] w w' :=
  keep hp fun _ m _ h => ⟨m, hm ▸ h, rfl⟩

lemma trans (h : Grows P es w w') (h' : Grows P es' w' w'') : Grows P (es ++ es') w w'' where
  parsed := by
    rw [h'.parsed, h.parsed, length_append, add_assoc]
  old i m hi hm := by
    obtain ⟨m', hm', hsame⟩ := h.old i m hi hm
    have hlt : i < w'.nofParsedModules := lt_of_lt_of_le hi (by rw [h.parsed]; omega)
    obtain ⟨m'', hm'', hsame'⟩ := h'.old i m' hlt hm'
    exact ⟨m'', hm'', hsame'.trans hsame⟩
  new k e he := by
    rcases lt_or_ge k es.length with hk | hk
    · rw [getElem?_append_left hk] at he
      obtain ⟨m, hm, hP⟩ := h.new k e he
      obtain ⟨m', hm', hsame⟩ := h'.old _ m (by rw [h.parsed]; omega) hm
      obtain ⟨hname, hvars, -⟩ := static_eq_iff.mp hsame
      exact ⟨m', hm', by rw [hname, hvars]; exact hP⟩
    · rw [getElem?_append_right hk] at he
      obtain ⟨m, hm, hP⟩ := h'.new _ e he
      refine ⟨m, ?_, hP⟩
      rw [← hm, h.parsed]
      congr 1
      omega

lemma setModule {i : ℕ} {m m' : PModule} (hm : w.modules[i]? = some m)
    (hsame : m'.static = m.static) : Grows P [] w (setModule w i m') := by
  refine keep rfl fun j n _ hn => ?_
  rw [modules_setModule]
  split
  · next heq =>
    subst heq
    rw [hm] at hn
    cases hn
    exact ⟨m', by rw [hm]; rfl, hsame⟩
  · exact ⟨n, hn, rfl⟩

end Grows

structure SameContext (w w' : PWaveform) : Prop where
  modes : w'.modes = w.modes
  namePrefix : w'.namePrefix = w.namePrefix

section Steps

variable {P : Reading → CStr → List Var → Prop} {w w' : PWaveform} {cfg : Setting}

lemma waveformAlloc_grows {n : ℤ} (h : waveformAlloc w n = .ok w') :
    SameContext w w' ∧ Grows P [] w w' := by
  unfold waveformAlloc at h
  split at h
  · cases h
  · cases h
    refine ⟨⟨rfl, rfl⟩, Grows.keep rfl fun i m _ hm => ⟨m, ?_, rfl⟩⟩
    rw [getElem?_append_left (List.getElem?_eq_some_iff.mp hm).1]
    exact hm

lemma joinStages_grows {cfg : Option Setting} (h : joinStages w cfg = .ok w') :
    SameContext w w' ∧ Grows P [] w w' := by
  cases cfg with
  | none =>
    cases h
    exact ⟨⟨rfl, rfl⟩, Grows.idle rfl rfl⟩
  | some cfg =>
    obtain ⟨stages, -, h⟩ := bind_eq_ok.mp h
    cases h
    exact ⟨⟨rfl, rfl⟩, Grows.idle rfl rfl⟩

lemma readBinary_grows {name : CStr} {e : Reading}
    (h : readBinary w cfg name w.nofParsedModules = .ok w')
    (hP : ∀ vars, readVariables w cfg = .ok vars → P e name vars) :
    SameContext w w' ∧ Grows P [e] w w' := by
  unfold readBinary at h
  split at h
  · cases h
  · obtain ⟨m, hm, h⟩ := bind_eq_ok.mp h
    obtain ⟨mopts, -, h⟩ := bind_eq_ok.mp h
    obtain ⟨vars, hvars, h⟩ := bind_eq_ok.mp h
    cases h
    rw [moduleAt_ok] at hm
    refine ⟨⟨rfl, rfl⟩, rfl, ?_, ?_⟩
    · intro i n hi hn
      refine ⟨n, ?_, rfl⟩
      rw [modules_setModule, if_neg (ne_of_gt hi)]
      exact hn
    · intro k e' he
      cases k with
      | succ k => cases he
      | zero =>
        cases he
        have hself : ∀ n,
            (setModule w w.nofParsedModules n).modules[w.nofParsedModules]? = some n := by
          intro n
          rw [modules_setModule, if_pos rfl, hm]
          rfl
        refine ⟨_, hself _, ?_⟩
        exact hP vars hvars

variable {l : Link}

lemma connectSource_grows (h : connectSource w cfg l = .ok w') :
    SameContext w w' ∧ Grows P [] w w' := by
  cases hl : l.src with
  | none =>
    simp only [connectSource, hl] at h
    cases h
    exact ⟨⟨rfl, rfl⟩, Grows.idle rfl rfl⟩
  | some i =>
    obtain ⟨m, _, _, _, _, hm, _, _, _, _, rfl⟩ := connectSource_ok h hl
    exact ⟨⟨rfl, rfl⟩, Grows.setModule hm rfl⟩

lemma connectDest_grows (h : connectDest w cfg l = .ok w') :
    SameContext w w' ∧ Grows P [] w w' := by
  cases hl : l.dest with
  | none =>
    simp only [connectDest, hl] at h
    cases h
    exact ⟨⟨rfl, rfl⟩, Grows.idle rfl rfl⟩
  | some k =>
    obtain ⟨m, _, _, _, _, hm, _, _, _, _, _, rfl⟩ := connectDest_ok h hl
    exact ⟨⟨rfl, rfl⟩, Grows.setModule hm rfl⟩

lemma readInterface_grows (h : readInterface w cfg = .ok w') :
    SameContext w w' ∧ Grows P [] w w' := by
  obtain ⟨l, w1, w2, hsource, hdest, rfl⟩ := readInterface_ok h
  obtain ⟨hctx1, hgrow1⟩ := connectSource_grows (P := P) hsource
  obtain ⟨hctx2, hgrow2⟩ := connectDest_grows (P := P) hdest
  refine ⟨⟨hctx2.modes.trans hctx1.modes, hctx2.namePrefix.trans hctx1.namePrefix⟩, ?_⟩
  have hlog : Grows P [] w2 { w2 with links := l :: w.links } := Grows.idle rfl rfl
  exact (hgrow1.trans hgrow2).trans hlog

lemma enterModel_grows {hasSlots : Bool} {e : Entry} {sub : CStr}
    (h : enterModel hasSlots w e sub = .ok w') :
    Grows P [] w w' ∧ w'.modes = w.modes ∧ w'.namePrefix = strcpy (e.named w.namePrefix) := by
  obtain ⟨w1, hnamed, rfl⟩ := enterModel_ok h
  rcases nameSlot_ok hnamed with ⟨-, rfl⟩ | ⟨i, m, hi, hm, rfl⟩
  · exact ⟨Grows.idle rfl rfl, rfl, rfl⟩
  · refine ⟨Grows.keep rfl fun j n hj hn => ⟨n, ?_, rfl⟩, rfl, rfl⟩
    -- the slot is that of a module still to be read
    have hne : i ≠ j := by
      split at hi
      · cases hi
        exact ne_of_gt hj
      · cases hi
    show (setModule w i _).modules[j]? = _
    rw [modules_setModule, if_neg hne]
    exact hn

end Steps

/-! ## The induction over a parse -/

/-- What a module is called under its prefix, and where its variables come from. -/
def Named (modes : List (CStr × CStr)) (r : Reading) (name : CStr) (vars : List Var) : Prop :=
  ∀ e, r.item = .inl e → name = e.named r.pre ∧
    ∃ w : PWaveform, w.modes = modes ∧ readVariables w e.cfg = .ok vars

/-- A part of a parse that reads `rs` and makes the calls `log`. -/
structure Reads (rs : List Reading) (log : List Call) (w w' : PWaveform) : Prop where
  grows : Grows (Named w.modes) (moduleReadings rs) w w'
  modes : w'.modes = w.modes
  log_eq : log.filterMap Call.reading = interfaceReadings rs

section Induction

variable {env : Env} {fuel : ℕ} (path : List CStr) {w w' w'' : PWaveform} {hasSlots : Bool}
  {e : Entry} {sub : CStr} {rs rs' : List Reading} {log log' : List Call}

lemma Reads.idle (hgrows : Grows (Named w.modes) [] w w') (hctx : SameContext w w') :
    Reads [] [] w w' :=
  ⟨hgrows, hctx.modes, rfl⟩

lemma Reads.trans (h : Reads rs log w w') (h' : Reads rs' log' w' w'') :
    Reads (rs ++ rs') (log ++ log') w w'' where
  grows := by
    have hgrows := h'.grows
    rw [h.modes] at hgrows
    rw [moduleReadings_append]
    exact h.grows.trans hgrows
  modes := h'.modes.trans h.modes
  log_eq := by rw [filterMap_append, interfaceReadings_append, h.log_eq, h'.log_eq]

lemma modelFile_of_enter
    (h : enterModel hasSlots w e sub = .ok w') (hlt : w'.modelFile.length < strLen) :
    w'.modelFile = sub := by
  obtain ⟨_, _, rfl⟩ := enterModel_ok h
  have hle : sub.length ≤ strLen := by
    simp only [strcpy, length_take] at hlt
    omega
  exact take_of_length_le hle

lemma modelFile_lt (h : waveformParse env fuel false w = .ok w') : w.modelFile.length < strLen := by
  cases fuel with
  | zero => cases h
  | succ fuel =>
    obtain ⟨_, _, _, _, _, _, _, _, ⟨hlt, -⟩, -⟩ := waveformParse_ok h
    exact hlt

def Parses (env : Env) (fuel : ℕ) : Prop :=
  ∀ path w w', waveformParse env fuel false w = .ok w' →
    Reads (readings env fuel path w.namePrefix w.modelFile) (calls env fuel path false w) w w'

/-- **Step lemma.** An entry of a model, module or included model. -/
theorem readEntry_reads (hparses : Parses env fuel)
    (h : readEntry (waveformParse env fuel false) hasSlots w e = .ok w') :
    Reads (e.readings env fuel path w.namePrefix)
        (entryCalls (fun path w => calls env fuel path false w) hasSlots path w e) w w' ∧
      w'.namePrefix = prefixAfter [e] w.namePrefix := by
  rcases readEntry_cases h with ⟨name, full, hnone, hname, hfull, h⟩ |
    ⟨sub, w1, w2, hsub, henter, hparse, rfl⟩
  · obtain rfl := moduleName_eq hname hfull
    obtain ⟨hctx, hgrow⟩ := readBinary_grows (P := Named w.modes)
      (e := ⟨path, w.namePrefix, .inl e⟩) h fun vars hvars e' he' => by
        cases he'
        exact ⟨rfl, w, rfl, hvars⟩
    refine ⟨⟨?_, hctx.modes, ?_⟩, ?_⟩
    · rw [Entry.readings, hnone]
      exact hgrow
    · rw [Entry.readings, entryCalls, hnone]
      rfl
    · rw [hctx.namePrefix, prefixAfter]
      simp [hnone]
  · have hfile := modelFile_of_enter henter (modelFile_lt hparse)
    obtain ⟨hgrow, hmodes, hpre⟩ := enterModel_grows (P := Named w.modes) henter
    have hreads := hparses (path ++ [e.label]) w1 w2 hparse
    rw [hpre, hfile] at hreads
    have hidle : Grows (Named w.modes) [] w2 { w2 with namePrefix := [] } := Grows.idle rfl rfl
    refine ⟨⟨?_, hreads.modes.trans hmodes, ?_⟩, ?_⟩
    · have hinside := hreads.grows
      rw [hmodes] at hinside
      have hall := (hgrow.trans hinside).trans hidle
      rw [nil_append, append_nil] at hall
      rw [Entry.readings, hsub]
      exact hall
    · rw [Entry.readings, hsub, entryCalls, hsub]
      simp only [henter, andThen]
      exact hreads.log_eq
    · simp [prefixAfter, hsub]

/-- **Run lemma.** The entries of a model. -/
theorem entries_reads (hparses : Parses env fuel) {es : List Entry}
    (h : es.foldlM (readEntry (waveformParse env fuel false) hasSlots) w = .ok w') :
    Reads (readsFrom (Entry.readings env fuel path) es w.namePrefix)
        (loopLog (readEntry (waveformParse env fuel false) hasSlots)
          (entryCalls (fun path w => calls env fuel path false w) hasSlots path) es w) w w' ∧
      w'.namePrefix = prefixAfter es w.namePrefix := by
  induction es generalizing w with
  | nil =>
    cases h
    exact ⟨.idle (Grows.idle rfl rfl) ⟨rfl, rfl⟩, rfl⟩
  | cons e es ih =>
    obtain ⟨w1, hfirst, hrest⟩ := foldlM_cons_ok.mp h
    obtain ⟨hreads, hpre⟩ := readEntry_reads path hparses hfirst
    obtain ⟨hreads', hpre'⟩ := ih hrest
    rw [hpre] at hreads' hpre'
    rw [prefixAfter_cons]
    refine ⟨?_, hpre'⟩
    rw [loopLog, hfirst]
    exact hreads.trans hreads'

lemma interfaces_reads {cfgs : List Setting} (h : cfgs.foldlM readInterface w = .ok w') :
    Reads (cfgs.map fun cfg => ⟨path, w.namePrefix, .inr cfg⟩)
      (loopLog readInterface (fun w cfg => [.interface path w cfg]) cfgs w) w w' := by
  induction cfgs generalizing w with
  | nil =>
    cases h
    exact .idle (Grows.idle rfl rfl) ⟨rfl, rfl⟩
  | cons cfg cfgs ih =>
    obtain ⟨w1, hfirst, hrest⟩ := foldlM_cons_ok.mp h
    obtain ⟨hctx, hgrow⟩ := readInterface_grows (P := Named w.modes) hfirst
    have hreads : Reads [⟨path, w.namePrefix, .inr cfg⟩] [.interface path w cfg] w w1 :=
      ⟨hgrow, hctx.modes, rfl⟩
    have hreads' := ih hrest
    rw [hctx.namePrefix] at hreads'
    rw [map_cons, loopLog, hfirst]
    exact hreads.trans hreads'

lemma model_reads {root modules interfaces : Setting} {isMain : Bool} {file : CStr}
    {w2 w3 w4 : PWaveform} (hparses : Parses env fuel) (hroot : env.files file = some root)
    (hmodules : root.member "modules" = some modules)
    (hinterfaces : root.member "interfaces" = some interfaces)
    (halloc : (if countModules modules ≠ 0 then waveformAlloc w (countModules modules)
      else pure w) = .ok w2)
    (hread : readEntries env fuel modules w2 = .ok w3)
    (hstages : onMain isMain (joinStages · (root.member "join_stages")) w3 = .ok w4)
    (hitfs : (interfaces.parts.map (·.2)).foldlM readInterface w4 = .ok w') :
    Reads (readings env (fuel + 1) path w.namePrefix file)
      (entriesLog env fuel path modules w2 ++ interfacesLog path interfaces w4) w w' := by
  have hopened : SameContext w w2 ∧ Reads [] [] w w2 := by
    split at halloc
    · obtain ⟨hctx, hgrow⟩ := waveformAlloc_grows (P := Named w.modes) halloc
      exact ⟨hctx, .idle hgrow hctx⟩
    · cases halloc
      exact ⟨⟨rfl, rfl⟩, .idle (Grows.idle rfl rfl) ⟨rfl, rfl⟩⟩
  obtain ⟨hctx2, hreads2⟩ := hopened
  obtain ⟨hreads3, hprefix3⟩ := entries_reads path hparses hread
  have hstaged : SameContext w3 w4 ∧ Reads [] [] w3 w4 := by
    cases isMain with
    | true =>
      obtain ⟨hctx, hgrow⟩ := joinStages_grows (P := Named w3.modes) hstages
      exact ⟨hctx, .idle hgrow hctx⟩
    | false =>
      cases hstages
      exact ⟨⟨rfl, rfl⟩, .idle (Grows.idle rfl rfl) ⟨rfl, rfl⟩⟩
  obtain ⟨hctx4, hreads4⟩ := hstaged
  have hreads' := interfaces_reads path hitfs
  rw [hctx4.namePrefix, hprefix3] at hreads'
  have hall := ((hreads2.trans hreads3).trans hreads4).trans hreads'
  have hentries := modelEntries_eq hroot hmodules
  have hcfgs : modelInterfaces env file = interfaces.parts.map (·.2) := by
    rw [modelInterfaces, hroot, bind_some, hinterfaces]
  rw [hctx2.namePrefix, nil_append, nil_append, append_nil, append_nil] at hall
  rw [readings_succ, hentries, hcfgs]
  exact hall

/-- **Run lemma.** A parse of an included model reads what is in it. -/
theorem parses (env : Env) (fuel : ℕ) : Parses env fuel := by
  induction fuel with
  | zero =>
    intro path w w' h
    cases h
  | succ fuel ih =>
    intro path w w' h
    obtain ⟨root, modules, interfaces, w1, w2, w3, w4, w5, ⟨hlt, hroot, hmodules, hinterfaces, -⟩,
      h1, h2, h3, h4, h5, hend⟩ := waveformParse_ok h
    cases h1
    cases hend
    have hopen : openModel false root modules w = .ok w2 := bind_eq_ok.mpr ⟨w, rfl, h2⟩
    rw [foldlM_readInstances] at h3
    rw [calls_of_ok hlt hroot hmodules hinterfaces hopen h3 h4, Bool.false_and,
      if_neg Bool.false_ne_true, append_nil]
    exact model_reads path ih hroot hmodules hinterfaces h2 h3 h4 h5

end Induction

/-! ## The end of the main model -/

section Close

variable {env : Env} {w w' : PWaveform} {m : PModule} {i : ℕ} {m' : PModule}

lemma static_setModule (hm : w.modules[i]? = some m) (hsame : m'.static = m.static) :
    (setModule w i m').modules.map static = w.modules.map static := by
  rw [setModule, map_set, hsame]
  exact set_of_getElem? (by rw [getElem?_map, hm]; rfl)

lemma connectCtrl_static {c : ℕ} (h : connectCtrl c w i = .ok w') :
    w'.modules.map static = w.modules.map static := by
  obtain ⟨ctrl, hctrl, h⟩ := bind_eq_ok.mp h
  obtain ⟨m, hm, h⟩ := bind_eq_ok.mp h
  obtain ⟨outPort, -, h⟩ := bind_eq_ok.mp h
  obtain ⟨inPort, -, h⟩ := bind_eq_ok.mp h
  rw [moduleAt_ok] at hctrl hm
  cases h
  have hfirst : ∀ n : PModule, n.static = ctrl.static →
      (setModule w c n).modules.map static = w.modules.map static :=
    fun _ hn => static_setModule hctrl hn
  show ((setModule w c _).modules.set i _).map static = _
  rw [map_set, hfirst]
  · exact set_of_getElem? (by rw [getElem?_map, hm]; rfl)
  · rfl

lemma closeInterfaces_static (h : closeInterfaces env m = .ok m') : m'.static = m.static := by
  obtain ⟨ins, -, h⟩ := bind_eq_ok.mp h
  obtain ⟨outs, -, h⟩ := bind_eq_ok.mp h
  cases h
  rfl

lemma waveformMainConfig_static {cfg : Option Setting} (h : waveformMainConfig env w cfg = .ok w') :
    w'.modules.map static = w.modules.map static := by
  unfold waveformMainConfig at h
  split at h
  · cases h
    rfl
  · split at h
    · cases h
      rfl
    · dsimp only at h
      split at h
      · cases h
      · next c _ =>
        obtain ⟨ctrl, hctrl, h⟩ := bind_eq_ok.mp h
        rw [moduleAt_ok] at hctrl
        split at h
        · cases h
        · refine foldlM_inv (P := fun v => v.modules.map static = w.modules.map static) ?_ ?_ h
          · intro i _ v v' hv hok
            exact (connectCtrl_static hok).trans hv
          · exact static_setModule hctrl rfl

lemma closeMain_static {root : Setting} (h : closeMain env root w = .ok w') :
    w'.modules.map static = w.modules.map static := by
  obtain ⟨w1, hconfig, h⟩ := bind_eq_ok.mp h
  obtain ⟨modules, hmodules, h⟩ := bind_eq_ok.mp h
  cases h
  rw [← waveformMainConfig_static hconfig]
  obtain ⟨hlen, hall⟩ := mapM_ok hmodules
  refine ext_getElem? fun j => ?_
  rw [getElem?_map, getElem?_map]
  rcases lt_or_ge j w1.modules.length with hj | hj
  · obtain ⟨m', hm', hclose⟩ := hall j _ (getElem?_eq_getElem hj)
    show (modules[j]?).map _ = _
    rw [hm', getElem?_eq_getElem hj, map_some, map_some, closeInterfaces_static hclose]
  · show (modules[j]?).map _ = _
    rw [getElem?_eq_none hj, getElem?_eq_none (by omega)]

end Close

/-! ## The main model -/

section Main

variable {env : Env} {path : List CStr} {file : CStr} {fuel : ℕ} {w w' w1 w2 w3 w4 : PWaveform}
  {root modules interfaces : Setting} {isMain : Bool} {c : Call}
  {sub : List CStr → PWaveform → List Call}

lemma openModel_ok (h : openModel isMain root modules w = .ok w') :
    ∃ w1, onMain isMain (readModes root) w = .ok w1 ∧
      (if countModules modules ≠ 0 then waveformAlloc w1 (countModules modules) else pure w1)
        = .ok w' := bind_eq_ok.mp h

lemma readModes_ok (h : readModes root w = .ok w') : ∃ modes, w' = { w with modes := modes } := by
  unfold readModes at h
  split at h
  · cases h
    exact ⟨_, rfl⟩
  · split at h
    · cases h
    · split at h
      · cases h
      · obtain ⟨modes, -, h⟩ := bind_eq_ok.mp h
        cases h
        exact ⟨modes, rfl⟩

lemma phases_progress (hopen : openModel isMain root modules w = .ok w2)
    (hread : readEntries env fuel modules w2 = .ok w3)
    (hstages : onMain isMain (joinStages · (root.member "join_stages")) w3 = .ok w4)
    (hitfs : (interfaces.parts.map (·.2)).foldlM readInterface w4 = .ok w') :
    Progress 0 w w' := by
  obtain ⟨w1, hmodes, halloc⟩ := openModel_ok hopen
  rw [readEntries, ← foldlM_readInstances] at hread
  have p1 := onMain_progress (fun _ _ => readModes_progress) hmodes
  have p3 := readModules_progress (fun _ _ => waveformParse_progress) halloc hread
  have p4 := onMain_progress (fun _ _ => joinStages_progress) hstages
  exact ((p1.trans p3).trans p4).trans (readInterfaces_progress hitfs)

lemma Parsed.of_progress (h : Progress 0 (newWaveform file) w) : Parsed w := by
  have htables := h.tables (Tables.new file)
  refine ⟨htables, ?_, h.ctrl⟩
  have hle := htables.slots.parsed_le
  have hgap := h.parsed
  simp only [newWaveform, length_nil, Nat.cast_zero, zero_add, add_zero] at hgap
  omega

/-- The phases of a parse of the main model. -/
theorem waveformParse_reads (h : waveformParse env (fuel + 1) true (newWaveform file) = .ok w') :
    ∃ root w1 w5, env.files file = some root ∧ readModes root (newWaveform file) = .ok w1 ∧
      w1.nofParsedModules = 0 ∧ Parsed w5 ∧ closeMain env root w5 = .ok w' ∧
      Reads (readings env (fuel + 1) [] [] file)
        (calls env (fuel + 1) [] true (newWaveform file)) w1 w5 := by
  obtain ⟨root, modules, interfaces, w1, w2, w3, w4, w5, ⟨hlt, hroot, hmodules, hinterfaces, -⟩, h1,
    h2, h3, h4, h5, hend⟩ := waveformParse_ok h
  have hopen : openModel true root modules (newWaveform file) = .ok w2 :=
    bind_eq_ok.mpr ⟨w1, h1, h2⟩
  rw [foldlM_readInstances] at h3
  have hreads := model_reads [] (parses env fuel) hroot hmodules hinterfaces h2 h3 h4 h5
  obtain ⟨modes, hw1⟩ := readModes_ok h1
  refine ⟨root, w1, w5, hroot, h1, by rw [hw1]; rfl, .of_progress (phases_progress hopen h3 h4 h5),
    hend, ?_⟩
  have hnone : w1.namePrefix = [] := by rw [hw1]; rfl
  have hclose : Reads [] (if true && interfaces.length ≠ 0 then
      andThen ((interfaces.parts.map (·.2)).foldlM readInterface w4) fun w => [.close w root]
      else []) w5 w5 := by
    refine ⟨Grows.idle rfl rfl, rfl, ?_⟩
    rw [h5]
    split <;> rfl
  rw [calls_of_ok hlt hroot hmodules hinterfaces hopen h3 h4, ← append_assoc]
  rw [hnone] at hreads
  have hall := hreads.trans hclose
  rwa [append_nil] at hall

/-- **A parsed waveform holds the modules of the tree**, in their order and numbered from 1 on, each
with the name it gets under its prefix. -/
theorem waveformParse_modules (h : waveformParse env fuel true (newWaveform file) = .ok w') :
    w'.modules.length = (moduleReadings (readings env fuel [] [] file)).length ∧
      ∃ root w1, env.files file = some root ∧ readModes root (newWaveform file) = .ok w1 ∧
        ∀ k r, (moduleReadings (readings env fuel [] [] file))[k]? = some r →
          ∃ m, w'.modules[k]? = some m ∧ m.id = k + 1 ∧ m.index = k ∧
            Named w1.modes r m.name m.vars := by
  cases fuel with
  | zero => cases h
  | succ fuel =>
    obtain ⟨root, w1, w5, hroot, h1, hstart, hparsed, hend, hgrow, -⟩ := waveformParse_reads h
    have hstatic := closeMain_static hend
    refine ⟨?_, root, w1, hroot, h1, fun k r hr => ?_⟩
    · have hlen := congrArg List.length hstatic
      rw [length_map, length_map, ← hparsed.all_read, hgrow.parsed, hstart] at hlen
      omega
    · obtain ⟨m, hm, hP⟩ := hgrow.new k r hr
      rw [hstart, zero_add] at hm
      have hk := (List.getElem?_eq_some_iff.mp hm).1
      have hread := hparsed.tables.slots.read k m hm (hparsed.all_read.symm ▸ hk)
      have hsame : (w'.modules[k]?).map static = some m.static := by
        rw [← getElem?_map, hstatic, getElem?_map, hm, map_some]
      obtain ⟨m', hm', heq⟩ := map_eq_some_iff.mp hsame
      obtain ⟨hname, hvars, hid, hindex⟩ := static_eq_iff.mp heq
      exact ⟨m', hm', hid.trans hread.id_eq, hindex.trans hread.index_eq,
        by rw [hname, hvars]; exact hP⟩

/-- **The calls of a parse that succeeds are those for the interfaces of the tree**, each under the
prefix that is in force there. -/
theorem waveformParse_calls (h : waveformParse env fuel true (newWaveform file) = .ok w') :
    (calls env fuel [] true (newWaveform file)).filterMap Call.reading =
      interfaceReadings (readings env fuel [] [] file) := by
  cases fuel with
  | zero => cases h
  | succ fuel =>
    obtain ⟨_, _, _, -, -, -, -, -, hreads⟩ := waveformParse_reads h
    exact hreads.log_eq

/-! ## The states of the calls -/

lemma mem_calls (h : c ∈ calls env (fuel + 1) path isMain w) :
    ∃ root modules w2, w.modelFile.length < strLen ∧ env.files w.modelFile = some root ∧
      root.member "modules" = some modules ∧ openModel isMain root modules w = .ok w2 ∧
      (c ∈ entriesLog env fuel path modules w2 ∨
        ∃ (w3 w4 : PWaveform) (interfaces : Setting),
          readEntries env fuel modules w2 = .ok w3 ∧
          onMain isMain (joinStages · (root.member "join_stages")) w3 = .ok w4 ∧
          (c ∈ interfacesLog path interfaces w4 ∨
            isMain = true ∧ ∃ w5, (interfaces.parts.map (·.2)).foldlM readInterface w4 = .ok w5 ∧
              c = .close w5 root)) := by
  rw [calls] at h
  split at h
  · cases h
  · next hlt =>
    split at h
    · cases h
    · next root hroot =>
      split at h
      · cases h
      · next modules hmodules =>
        obtain ⟨w2, hopen, h⟩ := mem_andThen.mp h
        refine ⟨root, modules, w2, Nat.lt_of_not_le hlt, hroot, hmodules, hopen, ?_⟩
        refine (mem_append.mp h).imp_right fun h => ?_
        obtain ⟨w3, hread, h⟩ := mem_andThen.mp h
        obtain ⟨w4, hstages, h⟩ := mem_andThen.mp h
        split at h
        · cases h
        · next interfaces _ =>
          refine ⟨w3, w4, interfaces, hread, hstages, ?_⟩
          refine (mem_append.mp h).imp_right fun h => ?_
          split at h
          · next hmain =>
            obtain ⟨w5, hitfs, h⟩ := mem_andThen.mp h
            rw [Bool.and_eq_true] at hmain
            exact ⟨hmain.1, w5, hitfs, mem_singleton.mp h⟩
          · cases h

lemma mem_entryCalls {hasSlots : Bool} {e : Entry} (h : c ∈ entryCalls sub hasSlots path w e) :
    ∃ file w1, e.file = some file ∧ enterModel hasSlots w e file = .ok w1 ∧
      c ∈ sub (path ++ [e.label]) w1 := by
  unfold entryCalls at h
  split at h
  · cases h
  · next file hfile =>
    obtain ⟨w1, henter, h⟩ := mem_andThen.mp h
    exact ⟨file, w1, hfile, henter, h⟩

/-- The tables of the waveform are in order, and no module is the control module yet. -/
def Sane (w : PWaveform) : Prop := Tables w ∧ w.autoCtrlModule = none

def SaneCall (c : Call) : Prop := ∀ path w cfg, c = .interface path w cfg → Sane w

lemma Progress.sane {n : ℤ} (h : Progress n w w') (hw : Sane w) : Sane w' :=
  ⟨h.tables hw.1, h.ctrl.trans hw.2⟩

lemma readEntry_sane {hasSlots : Bool} {e : Entry} (hw : Sane w)
    (h : readEntry (waveformParse env fuel false) hasSlots w e = .ok w') : Sane w' :=
  (readModule_progress (fun _ _ => waveformParse_progress) h).sane hw

/-- **Run lemma.** Every interface entry that a parse reads finds the tables in order. -/
theorem calls_sane (hw : Sane w) : ∀ c ∈ calls env fuel path isMain w, SaneCall c := by
  induction fuel generalizing path isMain w with
  | zero =>
    intro c hc
    cases hc
  | succ fuel ih =>
    intro c hc
    obtain ⟨root, modules, w2, -, -, -, hopen, hc⟩ := mem_calls hc
    have hw2 : Sane w2 := by
      obtain ⟨w1, h1, halloc⟩ := openModel_ok hopen
      have hw1 := (onMain_progress (fun _ _ => readModes_progress) h1).sane hw
      split at halloc
      · exact (waveformAlloc_progress halloc).sane hw1
      · cases halloc
        exact hw1
    rcases hc with hc | ⟨w3, w4, interfaces, hread, hstages, hc⟩
    · refine forall_mem_loopLog (P := Sane) (Q := SaneCall) (fun _ _ _ _ =>
        readEntry_sane) ?_ hw2 c hc
      intro e _ v hv c hc
      obtain ⟨sub, v1, -, henter, hc⟩ := mem_entryCalls hc
      exact ih ((enterModel_progress henter).sane hv) c hc
    · have hw3 := foldlM_inv (fun _ _ _ _ => readEntry_sane) hw2 hread
      have hw4 := (onMain_progress (fun _ _ => joinStages_progress) hstages).sane hw3
      rcases hc with hc | ⟨-, w5, -, rfl⟩
      · refine forall_mem_loopLog (P := Sane) (Q := SaneCall) ?_ ?_ hw4 c hc
        · exact fun cfg _ v v' hv hok => (readInterface_progress hok).sane hv
        · intro cfg _ v hv c hc p v' cfg' heq
          rw [mem_singleton] at hc
          cases hc.symm.trans heq
          exact hv
      · intro p v cfg heq
        cases heq

lemma tables_of_call {cfg : Setting}
    (h : .interface path w cfg ∈ calls env fuel [] true (newWaveform file)) :
    Tables w ∧ w.autoCtrlModule = none :=
  calls_sane ⟨Tables.new file, rfl⟩ _ h path w cfg rfl

lemma close_of_call {v : PWaveform} (h : .close v root ∈ calls env fuel path isMain w) :
    isMain = true ∧ (w = newWaveform file → Parsed v) := by
  induction fuel generalizing path isMain w with
  | zero => cases h
  | succ fuel ih =>
    obtain ⟨_, modules, w2, -, -, -, hopen, hc⟩ := mem_calls h
    rcases hc with hc | ⟨w3, w4, interfaces, hread, hstages, hc | ⟨hmain, w5, hitfs, heq⟩⟩
    · obtain ⟨e, -, v', hc⟩ := mem_loopLog hc
      obtain ⟨_, _, -, -, hc⟩ := mem_entryCalls hc
      cases (ih hc).1
    · obtain ⟨cfg, -, v', hc⟩ := mem_loopLog hc
      cases mem_singleton.mp hc
    · cases heq
      refine ⟨hmain, ?_⟩
      rintro rfl
      exact .of_progress (phases_progress hopen hread hstages hitfs)

end Main

end Aloe.Manager
