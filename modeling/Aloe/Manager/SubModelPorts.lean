import Aloe.Manager.ModelTree

/-!
# Names and ports under inclusion

A module of an included model is called after the entries that lead to it. The parser keeps
these names in one prefix, which every included model sets on its way in and clears on its
way out, so that what an included model names after including another one has no prefix any
more (`model_names_iff`).

An interface may end at an included model, which declares its ports by interfaces that start at
`_input` or end at `_output`. They leave a negative number in the port of one of its modules,
and `waveform_find_module_name_inputport` and `_outputport` look for that number in the modules
whose names start with the name of the model. `OpenEnd` says which ports such a search can find,
`sub_model_port_iff` when it comes to the port that the model has declared.
-/

namespace Aloe.Manager

open Lib List

/-! ## Joined names -/

/-- The labels of a path, joined by `_`. -/
def joined (path : List CStr) : CStr :=
  path.foldl (fun name label => if name = [] then label else name ++ '_' :: label) []

lemma joined_append (path : List CStr) (label : CStr) : joined (path ++ [label]) =
      if joined path = [] then label else joined path ++ '_' :: label := by
  rw [joined, foldl_append]
  rfl

/-- The name that `read_interface_mod_itf` looks for first. -/
def lookupName (w : PWaveform) (name : CStr) : Except Stop CStr :=
  if w.namePrefix = [] then pure name else withPrefix w name

def endNames (cfg : Setting) : List CStr :=
  ((cfg.member "src").toList ++ (cfg.member "dest").toList).filterMap fun part =>
    (readInterfacePair part).bind fun (name, _) =>
      if strEq name "_input".toList || strEq name "_output".toList then none else some name

/-- An interface entry of the model at a path is resolved under the prefix of this model. A
name that no module has there is searched for without a prefix. -/
def ResolvedAt (path : List CStr) (w : PWaveform) (cfg : Setting) : Prop :=
  ∀ x ∈ endNames cfg, lookupName w x = .ok (joined (path ++ [x])) ∧
    (findModuleName w (joined (path ++ [x])) = none → x = joined (path ++ [x]))

/-- The modules are those of the tree, numbered and named after it, and every interface is
resolved under the prefix of its model. -/
structure NamedByTree (env : Env) (fuel : ℕ) (file : CStr) (w : PWaveform) : Prop where
  length_eq : w.modules.length = (instances env fuel [] file).length
  named : ∀ (k : ℕ) e, (instances env fuel [] file)[k]? = some e →
    ∃ m, w.modules[k]? = some m ∧ m.id = k + 1 ∧ m.index = k ∧ m.name = joined e.path ∧
      m.name.length < strLen
  resolved : ∀ path v cfg, .interface path v cfg ∈ calls env fuel [] true (newWaveform file) →
    ResolvedAt path v cfg

/-- Every module is named, an interface if it has an end other than `_input` and `_output`. -/
def Reading.Names (r : Reading) : Prop := ∀ cfg, r.item = .inr cfg → endNames cfg ≠ []

/-- No model but the main one names anything after an included model: neither a module nor, in a
model that it includes next, anything, nor by its interfaces. -/
def PrefixKept (env : Env) : (fuel : ℕ) → List CStr → CStr → Prop
  | 0, _, _ => True
  | fuel + 1, path, file =>
    (∀ e ∈ modelEntries env file, ∀ sub, e.file = some sub →
      PrefixKept env fuel (path ++ [e.label]) sub) ∧
    (joined path ≠ [] → ∀ before e after, modelEntries env file = before ++ e :: after →
      e.file ≠ none → (∀ e' ∈ after, ∀ r ∈ e'.readings env fuel path [], ¬ r.Names) ∧
        ∀ cfg ∈ modelInterfaces env file, endNames cfg = [])

/-- All names fit, nothing is named after an included model in another one, and the interfaces of
an included model name its modules. -/
structure NamesFit (env : Env) (fuel : ℕ) (file : CStr) : Prop where
  modules : ∀ e ∈ instances env fuel [] file, (joined e.path).length < strLen
  kept : PrefixKept env fuel [] file
  ends : ∀ path v cfg, .interface path v cfg ∈ calls env fuel [] true (newWaveform file) →
    joined path ≠ [] → ∀ x ∈ endNames cfg, (joined (path ++ [x])).length < strLen ∧
      ∃ m ∈ v.modules, m.name = joined (path ++ [x])

section Names

variable {path : List CStr} {w : PWaveform} {e : Entry} {name pre : CStr}

lemma strcpy_of_lt (h : name.length < strLen) : strcpy name = name :=
  take_of_length_le (le_of_lt h)

lemma snprintf_of_lt (h : name.length < strLen) : snprintf name = name :=
  take_of_length_le (Nat.le_sub_one_of_lt h)

lemma withPrefix_of_lt (hlt : w.namePrefix.length < strLen)
    (h : (w.namePrefix ++ '_' :: name).length < strLen) :
    withPrefix w name = .ok (w.namePrefix ++ '_' :: name) := by
  rw [withPrefix, if_neg (not_le.mpr hlt), snprintf_of_lt h]
  rfl

lemma length_joined_le (path : List CStr) (label : CStr) :
    (joined path).length ≤ (joined (path ++ [label])).length := by
  rw [joined_append]
  split
  · next hnil => simp [hnil]
  · simp

lemma named_joined (hlt : (joined (path ++ [e.label])).length < strLen) :
    e.named (joined path) = joined (path ++ [e.label]) := by
  rw [joined_append] at hlt ⊢
  unfold Entry.named
  split
  · next hnil =>
    rw [if_pos hnil] at hlt
    split
    · exact strcpy_of_lt hlt
    · exact snprintf_of_lt hlt
  · next hnil =>
    rw [if_neg hnil] at hlt
    exact snprintf_of_lt hlt

lemma lookupName_joined {x : CStr} (hinitial : w.namePrefix = joined path)
    (hlt : joined path ≠ [] → (joined (path ++ [x])).length < strLen) :
    lookupName w x = .ok (joined (path ++ [x])) := by
  rw [lookupName, joined_append, ← hinitial]
  rw [joined_append, ← hinitial] at hlt
  by_cases hnil : w.namePrefix = []
  · rw [if_pos hnil, if_pos hnil]
    rfl
  · have hlt := hlt hnil
    rw [if_neg hnil] at hlt
    rw [if_neg hnil, if_neg hnil]
    exact withPrefix_of_lt (by rw [length_append] at hlt; omega) hlt

lemma strEq_of_lt {a b : CStr} (hb : b.length < strLen) (h : strEq a b = true) : a = b := by
  have heq : a.take strLen = b := by
    rw [← take_of_length_le (le_of_lt hb)]
    exact of_decide_eq_true h
  have hlen := congrArg List.length heq
  rw [length_take] at hlen
  rw [← heq, take_of_length_le (by omega)]

/-- A prefix that is not that of the path has lost something. -/
def Short (path : List CStr) (pre : CStr) : Prop := pre.length < (joined path).length

lemma named_short (h : Short path pre) : Short (path ++ [e.label]) (e.named pre) := by
  unfold Short at h ⊢
  have hne : joined path ≠ [] := fun hnil => by simp [hnil] at h
  rw [joined_append, if_neg hne, Entry.named]
  split
  · split <;> simp only [strcpy, snprintf, length_take, length_append, length_cons] <;> omega
  · simp only [snprintf, length_take, length_append, length_cons]
    omega

lemma lookupName_short {x y : CStr} (h : Short path w.namePrefix) (hlookup : lookupName w x =
    .ok y) :
    Short (path ++ [x]) y := by
  unfold Short at h ⊢
  have hne : joined path ≠ [] := fun hnil => by simp [hnil] at h
  rw [joined_append, if_neg hne]
  unfold lookupName withPrefix at hlookup
  split at hlookup
  · cases hlookup
    simp only [length_append, length_cons]
    omega
  · split at hlookup
    · cases hlookup
    · cases hlookup
      simp only [snprintf, length_take, length_append, length_cons]
      omega

lemma strcpy_length_le (name : CStr) : (strcpy name).length ≤ name.length := by
  simp [strcpy]

/-- The prefix is that of the path, or short of it. -/
def Carried (path : List CStr) (pre : CStr) : Prop := pre = joined path ∨ Short path pre

lemma Carried.clear (path : List CStr) : Carried path [] := by
  by_cases hnil : joined path = []
  · exact .inl hnil.symm
  · exact .inr (length_pos_iff.mpr hnil)

lemma Carried.enter (h : Carried path pre) :
    Carried (path ++ [e.label]) (strcpy (e.named pre)) := by
  rcases h with rfl | hshort
  · -- a cut name of the full length is whole
    have hcut : strcpy (e.named (joined path)) <+: joined (path ++ [e.label]) := by
      rw [joined_append]
      unfold Entry.named strcpy snprintf
      split
      · grind
      · exact ( take_prefix _ _).trans ( take_prefix _ _)
    rcases hcut.length_le.lt_or_eq with hless | heq
    · exact .inr hless
    · exact .inl (hcut.eq_of_length heq)
  · exact .inr (lt_of_le_of_lt (strcpy_length_le _) (named_short hshort))

end Names

/-! ## The prefixes along the tree -/

section Prefixes

variable {env : Env} {fuel : ℕ} {file : CStr} {path : List CStr} {pre : CStr} {r : Reading}

lemma mem_readsFrom {reads : CStr → Entry → List Reading} {es : List Entry} :
    r ∈ readsFrom reads es pre ↔ ∃ before e after, es = before ++ e :: after ∧
      r ∈ reads (prefixAfter before pre) e := by
  induction es generalizing pre with
  | nil =>
    refine iff_of_false not_mem_nil ?_
    rintro ⟨before, e, after, heq, -⟩
    simp at heq
  | cons a es ih =>
    rw [readsFrom, mem_append, ih]
    constructor
    · rintro (h | ⟨before, e, after, rfl, h⟩)
      · exact ⟨[], a, es, rfl, h⟩
      · refine ⟨a :: before, e, after, rfl, ?_⟩
        rwa [prefixAfter_cons]
    · rintro ⟨before, e, after, heq, h⟩
      cases before with
      | nil =>
        cases heq
        exact .inl h
      | cons b before =>
        cases heq
        rw [prefixAfter_cons] at h
        exact .inr ⟨before, e, after, rfl, h⟩

lemma prefixAfter_cases (es : List Entry) (pre : CStr) :
    prefixAfter es pre = pre ∨ prefixAfter es pre = [] ∧ ∃ e ∈ es, e.file ≠ none := by
  unfold prefixAfter
  split
  · grind
  · exact .inl rfl

lemma prefixAfter_include {es : List Entry} {e : Entry} (he : e ∈ es) (hfile : e.file ≠ none) :
    prefixAfter es pre = [] :=
  if_pos (any_eq_true.mpr ⟨e, he, Option.isSome_iff_ne_none.mpr hfile⟩)

/-- **Run lemma.** What holds of the prefix of a model, and is kept when it is cleared and when a
model is entered, holds wherever something is read. -/
theorem readings_rule (R : List CStr → CStr → Prop) (hclear : ∀ path pre, R path pre → R path [])
    (henter : ∀ path pre (e : Entry), R path pre → R (path ++ [e.label]) (strcpy (e.named pre)))
    (hR : R path pre) : ∀ r ∈ readings env fuel path pre file, R r.path r.pre := by
  induction fuel generalizing path pre file with
  | zero =>
    intro r hr
    cases hr
  | succ fuel ih =>
    have hafter : ∀ es, R path (prefixAfter es pre) := by
      intro es
      rcases prefixAfter_cases es pre with heq | ⟨heq, -⟩
      · rwa [heq]
      · rw [heq]
        exact hclear path pre hR
    intro r hr
    rw [readings_succ] at hr
    rcases mem_append.mp hr with hr | hr
    · obtain ⟨before, e, after, -, hr⟩ := mem_readsFrom.mp hr
      unfold Entry.readings at hr
      split at hr
      · cases mem_singleton.mp hr
        exact hafter before
      · exact ih (henter _ _ e (hafter before)) r hr
    · obtain ⟨cfg, -, rfl⟩ := mem_map.mp hr
      exact hafter _

lemma short_readings (h : Short path pre) :
    ∀ r ∈ readings env fuel path pre file, Short r.path r.pre :=
  readings_rule Short (fun _ _ h => Nat.lt_of_le_of_lt (Nat.zero_le _) h)
    (fun _ _ _ h => lt_of_le_of_lt (strcpy_length_le _) (named_short h)) h

def Right (r : Reading) : Prop := r.Names → r.pre = joined r.path

lemma not_right_of_short (h : Short r.path r.pre) (hnames : r.Names) : ¬ Right r := by
  intro hright
  rw [Short, hright hnames] at h
  exact lt_irrefl _ h

/-- Where all names are right, no model has named anything after an include. -/
theorem kept_of_right (h : Carried path pre)
    (hright : ∀ r ∈ readings env fuel path pre file, Right r) : PrefixKept env fuel path file := by
  induction fuel generalizing path pre file with
  | zero => trivial
  | succ fuel ih =>
    rw [readings_succ] at hright
    have hentry : ∀ before e after, modelEntries env file = before ++ e :: after →
        ∀ r ∈ e.readings env fuel path (prefixAfter before pre), Right r :=
      fun before e after hsplit r hr => hright r
        (mem_append_left _ (mem_readsFrom.mpr ⟨before, e, after, hsplit, hr⟩))
    constructor
    · intro e he sub hsub
      obtain ⟨before, after, hsplit⟩ := append_of_mem he
      have hcarried : Carried path (prefixAfter before pre) := by
        rcases prefixAfter_cases before pre with heq | ⟨heq, -⟩
        · rwa [heq]
        · rw [heq]
          exact Carried.clear path
      refine ih hcarried.enter fun r hr => hentry before e after hsplit r ?_
      rw [Entry.readings, hsub]
      exact hr
    · intro hne before e after hsplit hfile
      have hshort : Short path [] := length_pos_iff.mpr hne
      refine ⟨fun e' he' r hr hnames => ?_, fun cfg hcfg => ?_⟩
      · obtain ⟨b, a, rfl⟩ := append_of_mem he'
        have hnone : prefixAfter (before ++ e :: b) pre = [] := prefixAfter_include (by simp) hfile
        have hr' := hentry (before ++ e :: b) e' a (by rw [hsplit]; simp) r (by rwa [hnone])
        refine not_right_of_short ?_ hnames hr'
        unfold Entry.readings at hr
        split at hr
        · cases mem_singleton.mp hr
          exact hshort
        · exact short_readings (lt_of_le_of_lt (strcpy_length_le _) (named_short hshort)) r hr
      · by_contra hends
        have hnone : prefixAfter (modelEntries env file) pre = [] :=
          prefixAfter_include (by rw [hsplit]; simp) hfile
        have hr := hright ⟨path, prefixAfter (modelEntries env file) pre, .inr cfg⟩
          (mem_append_right _ (mem_map_of_mem hcfg))
        rw [hnone] at hr
        refine not_right_of_short (r := ⟨path, [], .inr cfg⟩) hshort ?_ hr
        rintro _ ⟨⟩
        exact hends

lemma length_readings :
    ∀ r ∈ readings env fuel path pre file, (joined path).length ≤ (joined r.path).length :=
  readings_rule (fun p _ => (joined path).length ≤ (joined p).length) (fun _ _ h => h)
    (fun p _ e h => h.trans (length_joined_le p e.label)) le_rfl

theorem right_of_kept (hkept : PrefixKept env fuel path file)
    (hfits : ∀ r ∈ readings env fuel path (joined path) file, r.Names →
      (joined r.path).length < strLen) :
    ∀ r ∈ readings env fuel path (joined path) file, Right r := by
  induction fuel generalizing path file with
  | zero =>
    intro r hr
    cases hr
  | succ fuel ih =>
    intro r hr hnames
    have hlt := hfits r hr hnames
    obtain ⟨hsubs, horder⟩ := hkept
    rw [readings_succ] at hr hfits
    rcases mem_append.mp hr with hr | hr
    · obtain ⟨before, e, after, hsplit, hr⟩ := mem_readsFrom.mp hr
      have hbefore : prefixAfter before (joined path) = joined path := by
        rcases prefixAfter_cases before (joined path) with heq | ⟨heq, e', he', hfile⟩
        · exact heq
        · by_contra hne
          rw [heq] at hne hr
          obtain ⟨b, a, rfl⟩ := append_of_mem he'
          refine (horder (Ne.symm hne) b e' (a ++ e :: after) (by rw [hsplit]; simp) hfile).1 e
            (by simp) r hr hnames
      have hmem := hr
      rw [hbefore] at hr
      unfold Entry.readings at hr
      split at hr
      · cases mem_singleton.mp hr
        rfl
      · next sub hsub =>
        have hexact : strcpy (e.named (joined path)) = joined (path ++ [e.label]) := by
          have hlt' := lt_of_le_of_lt (length_readings r hr) hlt
          rw [named_joined hlt', strcpy_of_lt hlt']
        rw [hexact] at hr
        refine ih (hsubs e (by rw [hsplit]; simp) sub hsub) (fun r' hr' => hfits r' ?_) r hr hnames
        refine mem_append_left _ (mem_readsFrom.mpr ⟨before, e, after, hsplit, ?_⟩)
        rw [hbefore, Entry.readings, hsub]
        exact hexact.symm ▸ hr'
    · obtain ⟨cfg, hcfg, rfl⟩ := mem_map.mp hr
      rcases prefixAfter_cases (modelEntries env file) (joined path) with heq | ⟨heq, e, he, hfile⟩
      · exact heq
      · by_contra hne
        obtain ⟨before, after, hsplit⟩ := append_of_mem he
        simp only [heq] at hne
        exact hnames cfg rfl ((horder (Ne.symm hne) before e after hsplit hfile).2 cfg hcfg)

end Prefixes

section Result

variable {env : Env} {fuel : ℕ} {file : CStr} {w : PWaveform}

lemma call_of_reading {r : Reading} {cfg : Setting}
    (h : waveformParse env fuel true (newWaveform file) = .ok w)
    (hr : r ∈ readings env fuel [] [] file) (hitem : r.item = .inr cfg) :
    ∃ v, .interface r.path v cfg ∈ calls env fuel [] true (newWaveform file) ∧
      v.namePrefix = r.pre := by
  have hmem : r ∈ interfaceReadings (readings env fuel [] [] file) :=
    mem_filter.mpr ⟨hr, by rw [hitem]; rfl⟩
  rw [← waveformParse_calls h] at hmem
  obtain ⟨c, hc, heq⟩ := mem_filterMap.mp hmem
  cases c with
  | close v root => cases heq
  | interface path v cfg' =>
    cases heq
    cases hitem
    exact ⟨v, hc, rfl⟩

lemma reading_of_call {path : List CStr} {v : PWaveform} {cfg : Setting}
    (h : waveformParse env fuel true (newWaveform file) = .ok w)
    (hcall : .interface path v cfg ∈ calls env fuel [] true (newWaveform file)) :
    ⟨path, v.namePrefix, .inr cfg⟩ ∈ readings env fuel [] [] file := by
  have hmem : ⟨path, v.namePrefix, .inr cfg⟩ ∈ interfaceReadings
    (readings env fuel [] [] file) := by
    rw [← waveformParse_calls h]
    exact mem_filterMap.mpr ⟨_, hcall, rfl⟩
  exact (mem_filter.mp hmem).1

lemma instance_of_reading {r : Reading} {e : Entry} (hr : r ∈ readings env fuel [] [] file)
    (hitem : r.item = .inl e) :
    ∃ k : ℕ, (moduleReadings (readings env fuel [] [] file))[k]? = some r ∧
      (instances env fuel [] file)[k]? = some ⟨r.path ++ [e.label], e.cfg⟩ := by
  have hmem : r ∈ moduleReadings (readings env fuel [] [] file) :=
    mem_filter.mpr ⟨hr, by rw [hitem]; rfl⟩
  obtain ⟨k, hk⟩ := mem_iff_getElem?.mp hmem
  refine ⟨k, hk, ?_⟩
  rw [← readings_instances env fuel [] [] file, getElem?_map, hk, Option.map_some,
    Reading.toInstance, hitem]

lemma named_of_fits (hfit : NamesFit env fuel file)
    (h : waveformParse env fuel true (newWaveform file) = .ok w) :
    NamedByTree env fuel file w := by
  have hright : ∀ r ∈ readings env fuel [] [] file, Right r := right_of_kept hfit.kept
    fun r hr hnames => by
    cases hitem : r.item with
    | inl e =>
      obtain ⟨k, -, hk⟩ := instance_of_reading hr hitem
      exact lt_of_le_of_lt (length_joined_le _ _) (hfit.modules _ (mem_of_getElem? hk))
    | inr cfg =>
      obtain ⟨x, hx⟩ := exists_mem_of_ne_nil _ (hnames cfg hitem)
      obtain ⟨v, hcall, -⟩ := call_of_reading h hr hitem
      by_cases hnil : joined r.path = []
      · rw [hnil]
        exact Nat.zero_lt_succ 63
      · exact lt_of_le_of_lt (length_joined_le _ x) (hfit.ends _ v cfg hcall hnil x hx).1
  obtain ⟨hlen, root, w1, -, -, hmodules⟩ := waveformParse_modules h
  refine ⟨?_, fun k i hi => ?_, fun path v cfg hcall x hx => ?_⟩
  · rw [hlen, ← readings_instances env fuel [] [] file, length_map]
  · obtain ⟨r, e, hr, hitem, rfl⟩ := reading_of_instance [] hi
    obtain ⟨m, hm, hid, hindex, hnamed⟩ := hmodules k r hr
    have hlt := hfit.modules _ (mem_of_getElem? hi)
    have hpre : r.pre = joined r.path := by
      refine hright r (mem_filter.mp (mem_of_getElem? hr)).1 fun cfg hcfg => ?_
      cases hitem.symm.trans hcfg
    have hname := (hnamed e hitem).1
    rw [hpre, named_joined hlt] at hname
    exact ⟨m, hm, hid, hindex, hname, hname ▸ hlt⟩
  · have hpre : v.namePrefix = joined path := by
      refine hright _ (reading_of_call h hcall) ?_
      rintro _ ⟨⟩ hnone
      rw [hnone] at hx
      cases hx
    refine ⟨lookupName_joined hpre fun hne => (hfit.ends path v cfg hcall hne x hx).1,
      fun hnone => ?_⟩
    by_cases hnil : joined path = []
    · rw [joined_append, if_pos hnil]
    · obtain ⟨-, m, hm, hname⟩ := hfit.ends path v cfg hcall hnil x hx
      rw [findModuleName, findIdx?_eq_none_iff] at hnone
      have hne := hnone m hm
      rw [hname, strEq, decide_eq_false_iff_not] at hne
      exact absurd rfl hne

lemma right_of_named (h : waveformParse env fuel true (newWaveform file) = .ok w)
    (hnamed : NamedByTree env fuel file w) : ∀ r ∈ readings env fuel [] [] file, Right r := by
  intro r hr hnames
  refine (readings_rule Carried (fun path _ _ => Carried.clear path) (fun _ _ _ h => h.enter)
    (.inl rfl) r hr).resolve_right fun hshort => ?_
  cases hitem : r.item with
  | inl e =>
    obtain ⟨k, hk, hi⟩ := instance_of_reading hr hitem
    obtain ⟨-, root, w1, -, -, hmodules⟩ := waveformParse_modules h
    obtain ⟨m, hm, -, -, hname⟩ := hmodules k r hk
    obtain ⟨m', hm', -, -, hname', -⟩ := hnamed.named k _ hi
    cases hm.symm.trans hm'
    have hlost := named_short (e := e) hshort
    rw [← (hname e hitem).1, hname'] at hlost
    exact lt_irrefl _ hlost
  | inr cfg =>
    obtain ⟨x, hx⟩ := exists_mem_of_ne_nil _ (hnames cfg hitem)
    obtain ⟨v, hcall, hpre⟩ := call_of_reading h hr hitem
    have hlookup := (hnamed.resolved _ v cfg hcall x hx).1
    rw [← hpre] at hshort
    exact lt_irrefl _ (lookupName_short hshort hlookup)

lemma fits_of_named (h : waveformParse env fuel true (newWaveform file) = .ok w)
    (hnamed : NamedByTree env fuel file w) : NamesFit env fuel file where
  modules e he := by
    obtain ⟨k, hk⟩ := mem_iff_getElem?.mp he
    obtain ⟨m, -, -, -, hname, hlt⟩ := hnamed.named k e hk
    exact hname ▸ hlt
  kept := kept_of_right (.inl rfl) (right_of_named h hnamed)
  ends path v cfg hcall hne x hx := by
    obtain ⟨hlookup, hsearch⟩ := hnamed.resolved path v cfg hcall x hx
    have hjoined : joined (path ++ [x]) = joined path ++ '_' :: x := by
      rw [joined_append, if_neg hne]
    have hlonger : x ≠ joined (path ++ [x]) := by
      -- a name under the prefix is longer than the name itself
      intro heq
      have hlen := congrArg List.length heq
      rw [hjoined, length_append, length_cons] at hlen
      omega
    have hlt : (joined (path ++ [x])).length < strLen := by
      unfold lookupName withPrefix at hlookup
      split at hlookup
      · exact absurd (Except.ok.inj hlookup) hlonger
      · split at hlookup
        · cases hlookup
        · rw [← Except.ok.inj hlookup, snprintf, length_take]
          exact Nat.lt_of_le_of_lt (Nat.min_le_left _ _) (Nat.lt_succ_self 63)
    refine ⟨hlt, ?_⟩
    cases hfind : findModuleName v (joined (path ++ [x])) with
    | none => exact absurd (hsearch hfind) hlonger
    | some i =>
      obtain ⟨hi, heq, -⟩ := findIdx?_eq_some_iff_getElem.mp hfind
      exact ⟨v.modules[i], getElem_mem hi, strEq_of_lt hlt heq⟩

/-- **The modules and interfaces of a parsed waveform have the names of the tree exactly when
the names fit, no included model names anything after including another one, and the interfaces of
included models name modules of theirs.** -/
theorem model_names_iff (h : waveformParse env fuel true (newWaveform file) = .ok w) :
    NamedByTree env fuel file w ↔ NamesFit env fuel file :=
  ⟨fits_of_named h, fun hfit => named_of_fits hfit h⟩

end Result

def filesEnv (files : List (String × Setting)) : Env :=
  ⟨fun name => (files.find? fun f => f.1.toList = name).map (·.2), 1, Port.zero⟩

def smallModel (modules : List (String × String × String)) (src dest : String) : Setting :=
  .model modules [(src, dest)] []

/-- The front end is included by a model that is included itself. -/
def deepReceiver : Env :=
  filesEnv [("main", smallModel [("rx", "include", "rx")] "_input" "_output"),
    ("rx", smallModel [("fe", "include", "fe")] "_input" "_output"),
    ("fe", smallModel [("adc", "binary", "adc")] "_input" "adc")]

theorem model_names_deep :
    ∃ w m, waveformParse deepReceiver 3 true (newWaveform "main".toList) = .ok w ∧
      w.modules[0]? = some m ∧ m.name = "rx_fe_adc".toList ∧
      NamedByTree deepReceiver 3 "main".toList w := by
  obtain ⟨w, m, hw, hm⟩ : ∃ w m, waveformParse deepReceiver 3 true (newWaveform "main".toList) =
      .ok w ∧ w.modules[0]? = some m ∧ m.name = "rx_fe_adc".toList := ⟨_, _, rfl, rfl, rfl⟩
  refine ⟨w, m, hw, hm.1, hm.2, (model_names_iff hw).mpr ⟨by decide, ?_, ?_⟩⟩
  · obtain ⟨e, hmain, hfile⟩ : ∃ e, modelEntries deepReceiver "main".toList = [e] ∧
        e.file = some "rx".toList := ⟨_, rfl, rfl⟩
    obtain ⟨e', hrx, hfile'⟩ : ∃ e, modelEntries deepReceiver "rx".toList = [e] ∧
        e.file = some "fe".toList := ⟨_, rfl, rfl⟩
    obtain ⟨e'', hfe, hnone⟩ : ∃ e, modelEntries deepReceiver "fe".toList = [e] ∧ e.file = none :=
      ⟨_, rfl, rfl⟩
    refine ⟨fun a ha sub hsub => ?_, fun hne => absurd rfl hne⟩
    rw [hmain, mem_singleton] at ha
    subst ha
    obtain rfl := Option.some.inj (hfile.symm.trans hsub)
    refine ⟨fun a ha sub hsub => ?_, fun _ before a after hsplit _ => ⟨?_, by decide⟩⟩
    · rw [hrx, mem_singleton] at ha
      subst ha
      obtain rfl := Option.some.inj (hfile'.symm.trans hsub)
      refine ⟨fun a ha sub hsub => ?_, fun _ before a after hsplit hsome => ?_⟩
      · simp_all
      · rw [hfe, singleton_eq_append_iff] at hsplit
        simp_all
    · rw [hrx, singleton_eq_append_iff] at hsplit
      simp_all
  · obtain ⟨u, v, v', t, cfg, cfg', cfg'', root, hcalls, hends, hends', m, hm⟩ :
        ∃ u v v' t cfg cfg' cfg'' root, calls deepReceiver 3 [] true (newWaveform "main".toList) =
            [.interface ["rx".toList, "fe".toList] u cfg, .interface ["rx".toList] v cfg',
              .interface [] v' cfg'', .close t root] ∧
          endNames cfg = ["adc".toList] ∧ endNames cfg' = [] ∧
          ∃ m, u.modules[0]? = some m ∧ m.name = "rx_fe_adc".toList :=
      ⟨_, _, _, _, _, _, _, _, rfl, rfl, rfl, _, rfl, rfl⟩
    rw [hcalls]
    intro path v₁ cfg₁ hcall hne x hx
    simp only [mem_cons, not_mem_nil, or_false, reduceCtorEq, Call.interface.injEq] at hcall
    rcases hcall with ⟨rfl, rfl, rfl⟩ | ⟨rfl, rfl, rfl⟩ | ⟨rfl, rfl, rfl⟩
    · rw [hends, mem_singleton] at hx
      subst hx
      exact ⟨by decide, m, mem_of_getElem? hm.1, hm.2⟩
    · rw [hends'] at hx
      cases hx
    · exact absurd rfl hne

def nestedReceiver : Env :=
  filesEnv [("main", smallModel [("rx", "include", "rx")] "_input" "_output"),
    ("rx", smallModel [("fe", "include", "fe"), ("dec", "binary", "dec")] "_input" "dec"),
    ("fe", smallModel [("adc", "binary", "adc")] "_input" "adc")]

theorem model_names_nested :
    ∃ w m e, waveformParse nestedReceiver 3 true (newWaveform "main".toList) = .ok w ∧
      w.modules[1]? = some m ∧ m.name = "dec".toList ∧
      (instances nestedReceiver 3 [] "main".toList)[1]? = some e ∧
      joined e.path = "rx_dec".toList ∧ ¬ NamedByTree nestedReceiver 3 "main".toList w := by
  refine ⟨_, _, _, rfl, rfl, rfl, rfl, rfl, fun h => ?_⟩
  obtain ⟨m, hm, -, -, hname, -⟩ := h.named 1 _ rfl
  cases hm
  revert hname
  decide

/-! ## The search for a port of an included model -/

/-- The port carries the number of end `n` of a model. -/
def Marked (table : Option (List Port)) (n j : ℕ) : Prop :=
  ∃ port, (table.getD [])[j]? = some port ∧ port.remoteModuleId = -((n : ℤ) + 1)

def Unmarked (table : Option (List Port)) (n j : ℕ) : Prop :=
  ∃ port, (table.getD [])[j]? = some port ∧ port.remoteModuleId ≠ -((n : ℤ) + 1)

def Passed (table : PModule → Option (List Port)) (name : CStr) (n : ℕ) (m : PModule) : Prop :=
  startsWith m.name name = .ok false ∨
    startsWith m.name name = .ok true ∧ ∀ j < m.nofInputs, Unmarked (table m) n j

/-- The search ends at port `j` of the module. -/
def Met (table : PModule → Option (List Port)) (name : CStr) (n : ℕ) (m : PModule) (j : ℕ) :
    Prop :=
  startsWith m.name name = .ok true ∧ j < m.nofInputs ∧ Marked (table m) n j ∧
    ∀ k < j, Unmarked (table m) n k

section Search

variable {table : PModule → Option (List Port)} {name : CStr} {n : ℕ} {m : PModule}
  {ms : List PModule} {ports : List Port} {left j i : ℕ}

lemma scanPorts_step {found : Option ℕ} :
    scanPorts ports (-((n : ℤ) + 1)) (left + 1) j = .ok found ↔
      Marked (some ports) n j ∧ found = some j ∨
        Unmarked (some ports) n j ∧ scanPorts ports (-((n : ℤ) + 1)) left (j + 1) = .ok found := by
  rw [scanPorts]
  cases hport : ports[j]? with
  | none => simp [Marked, Unmarked, hport]
  | some port =>
    simp only [Marked, Unmarked, Option.getD_some, hport, Option.some.injEq, exists_eq_left']
    split
    · next hmark =>
      simp only [hmark, true_and, ne_eq, not_true_eq_false, false_and, or_false]
      exact ⟨fun h => (Except.ok.inj h).symm, fun h => h ▸ rfl⟩
    · next hmark => grind

lemma scanPorts_none : scanPorts ports (-((n : ℤ) + 1)) left j = .ok none ↔
      ∀ k, j ≤ k → k < j + left → Unmarked (some ports) n k := by
  induction left generalizing j with
  | zero => exact iff_of_true rfl fun k hk hlt => absurd hlt (by omega)
  | succ left ih =>
    rw [scanPorts_step, ih]
    grind

lemma scanPorts_some : scanPorts ports (-((n : ℤ) + 1)) left j = .ok (some i) ↔
      j ≤ i ∧ i < j + left ∧ Marked (some ports) n i ∧
        ∀ k, j ≤ k → k < i → Unmarked (some ports) n k := by
  induction left generalizing j with
  | zero => exact iff_of_false (fun h => by cases h) fun h => absurd h.2.1 (by omega)
  | succ left ih =>
    have hdisjoint : Marked (some ports) n j → ¬ Unmarked (some ports) n j := by
      rintro ⟨port, hport, hmark⟩ ⟨port', hport', hne⟩
      exact hne (Option.some.inj (hport.symm.trans hport') ▸ hmark)
    rw [scanPorts_step, ih, Option.some.injEq]
    grind

lemma passed_iff :
    Passed table name n m ↔ startsWith m.name name = .ok false ∨ startsWith m.name name = .ok true ∧
        scanPorts ((table m).getD []) (-((n : ℤ) + 1)) m.nofInputs 0 = .ok none := by
  rw [scanPorts_none, zero_add]
  refine or_congr_right (and_congr_right fun _ => ?_)
  exact ⟨fun h k _ hk => h k hk, fun h k hk => h k (Nat.zero_le k) hk⟩

lemma met_iff : Met table name n m j ↔ startsWith m.name name = .ok true ∧
      scanPorts ((table m).getD []) (-((n : ℤ) + 1)) m.nofInputs 0 = .ok (some j) := by
  rw [scanPorts_some, zero_add]
  refine and_congr_right fun _ => ?_
  constructor
  · rintro ⟨hlt, hmark, hbefore⟩
    exact ⟨Nat.zero_le j, hlt, hmark, fun k _ hk => hbefore k hk⟩
  · rintro ⟨-, hlt, hmark, hbefore⟩
    exact ⟨hlt, hmark, fun k hk => hbefore k (Nat.zero_le k) hk⟩

lemma findSubPort_cons {result : Option (ℕ × ℕ)} :
    findSubPort table name n (m :: ms) i = .ok result ↔
      Passed table name n m ∧ findSubPort table name n ms (i + 1) = .ok result ∨
        ∃ j, Met table name n m j ∧ result = some (i, j) := by
  simp only [passed_iff, met_iff]
  rw [findSubPort]
  cases startsWith m.name name with
  | error e =>
    refine iff_of_false (fun h => by cases h) ?_
    simp
  | ok starts =>
    cases starts with
    | false => simp
    | true =>
      cases scanPorts ((table m).getD []) (-((n : ℤ) + 1)) m.nofInputs 0 with
      | error e =>
        refine iff_of_false (fun h => by cases h) ?_
        simp
      | ok found =>
        cases found with
        | none => simp
        | some j =>
          simp only [bind_ok_eq, Except.ok.injEq, reduceCtorEq, Bool.true_eq_false,
            and_false, or_self, false_and, true_and, Option.some.injEq, false_or,
            exists_eq_left']
          exact ⟨fun h => (Except.ok.inj h).symm, fun h => by rw [h]; rfl⟩

lemma findSubPort_none :
    findSubPort table name n ms i = .ok none ↔ ∀ m ∈ ms, Passed table name n m := by
  induction ms generalizing i with
  | nil => exact iff_of_true rfl fun m hm => by cases hm
  | cons m ms ih =>
    rw [findSubPort_cons, ih, forall_mem_cons]
    constructor
    · rintro (h | ⟨j, -, heq⟩)
      · exact h
      · cases heq
    · exact .inl

lemma findSubPort_some {p : ℕ} : findSubPort table name n ms i = .ok (some (p, j)) ↔
      ∃ k m, p = i + k ∧ ms[k]? = some m ∧ Met table name n m j ∧
        ∀ k' < k, ∀ m', ms[k']? = some m' → Passed table name n m' := by
  induction ms generalizing i with
  | nil =>
    refine iff_of_false (fun h => by cases h) ?_
    rintro ⟨k, m, -, hm, -⟩
    cases hm
  | cons m ms ih =>
    rw [findSubPort_cons, ih]
    constructor
    · rintro (⟨hpassed, k, m', rfl, hm', hmet, hbefore⟩ | ⟨j', hmet, heq⟩)
      · refine ⟨k + 1, m', by omega, hm', hmet, fun k' hk' m'' hm'' => ?_⟩
        cases k' with
        | zero =>
          cases hm''
          exact hpassed
        | succ k' => exact hbefore k' (by omega) m'' hm''
      · cases heq
        exact ⟨0, m, rfl, rfl, hmet, fun k' hk' => absurd hk' (Nat.not_lt_zero k')⟩
    · rintro ⟨k, m', rfl, hm', hmet, hbefore⟩
      cases k with
      | zero =>
        cases hm'
        exact .inr ⟨j, hmet, rfl⟩
      | succ k =>
        exact .inl ⟨hbefore 0 (Nat.succ_pos k) m rfl, k, m', by omega, hm', hmet,
          fun k' hk' => hbefore (k' + 1) (by omega)⟩

end Search

/-! ## What the search meets -/

/-- The latest entry on output port `j` of module `i` leads to end `n` of a model. -/
def leadsOut (links : List Link) (i j n : ℕ) : Prop :=
  ∃ l, (links.find? fun l => l.isFrom i j) = some l ∧ l.dest = none ∧ l.destPort = n

/-- The entries seen from the modules whose ports are searched: for the source of an interface
these are output ports. -/
def fromPorts (isInput : Bool) (links : List Link) : List Link :=
  if isInput then links else links.map Link.flip

def searchedTable (isInput : Bool) : PModule → Option (List Port) :=
  if isInput then PModule.outputs else PModule.inputs

def searchedPorts (isInput : Bool) : ℕ := if isInput then itfPrealloc else itfPrealloc + 1

/-- The search goes past module `i`: its name does not start with `x`, or none of its ports,
as many as it has inputs, leads to end `n`. -/
def PassesBy (w : PWaveform) (isInput : Bool) (x : CStr) (n i : ℕ) : Prop :=
  ∃ m, w.modules[i]? = some m ∧ (startsWith m.name x = .ok false ∨
    startsWith m.name x = .ok true ∧ ∀ j < inCount w.links i,
      j < searchedPorts isInput ∧ ¬ leadsOut (fromPorts isInput w.links) i j n)

/-- The search ends at port `j` of module `i`. -/
def ComesTo (w : PWaveform) (isInput : Bool) (x : CStr) (n i j : ℕ) : Prop :=
  ∃ m, w.modules[i]? = some m ∧ startsWith m.name x = .ok true ∧ j < inCount w.links i ∧
    j < searchedPorts isInput ∧ leadsOut (fromPorts isInput w.links) i j n ∧
    ∀ k < j, ¬ leadsOut (fromPorts isInput w.links) i k n

section Entries

variable {w : PWaveform} {isInput : Bool} {x : CStr} {n i j : ℕ} {m : PModule}
  {links : List Link} {size count : ℕ} {table : Option (List Port)}

lemma outValue_eq_neg_iff : (outValue links i j).1 = -((n : ℤ) + 1) ↔ leadsOut links i j n := by
  unfold outValue leadsOut
  cases links.find? fun l => l.isFrom i j with
  | none =>
    simp only [reduceCtorEq, false_and, exists_false, iff_false]
    omega
  | some l =>
    simp only [Option.some.injEq, exists_eq_left', Link.farEnd]
    cases l.dest with
    | none =>
      simp only [true_and]
      omega
    | some k =>
      simp only [reduceCtorEq, false_and, iff_false]
      omega

section

variable (h : Table links i size table count)
include h

lemma Table.exists_port {q : ℤ → Prop} :
    (∃ port, (table.getD [])[j]? = some port ∧ q port.remoteModuleId) ↔
      j < size ∧ q (outValue links i j).1 := by
  obtain ⟨ports, rfl, hlen, hvalue⟩ := h.ports
  constructor
  · rintro ⟨port, hport, hq⟩
    rw [← hvalue j port hport]
    exact ⟨hlen ▸ (List.getElem?_eq_some_iff.mp hport).1, hq⟩
  · rintro ⟨hlt, hq⟩
    have hport := getElem?_eq_getElem (hlen.symm ▸ hlt : j < ports.length)
    rw [← hvalue j _ hport] at hq
    exact ⟨_, hport, hq⟩

lemma Table.marked_iff : Marked table n j ↔ j < size ∧ leadsOut links i j n := by
  rw [← outValue_eq_neg_iff]
  exact h.exists_port (q := (· = -((n : ℤ) + 1)))

lemma Table.unmarked_iff : Unmarked table n j ↔ j < size ∧ ¬ leadsOut links i j n := by
  rw [← outValue_eq_neg_iff]
  exact h.exists_port (q := (· ≠ -((n : ℤ) + 1)))

end

lemma Read.searched (h : Read w.links w.links i m) (isInput : Bool) :
    ∃ count, Table (fromPorts isInput w.links) i (searchedPorts isInput)
      (searchedTable isInput m) count := by
  cases isInput with
  | true => exact ⟨_, h.outputs⟩
  | false => exact ⟨_, h.inputs⟩

lemma Tables.inCount_unread (h : Tables w) (hi : w.nofParsedModules ≤ i) :
    inCount w.links i = 0 := by
  refine outCount_of_unused fun l hl hsrc => ?_
  obtain ⟨l', hl', rfl⟩ := mem_map.mp hl
  exact Nat.not_lt_of_le hi (h.dest_lt l' hl' i hsrc).1

lemma Tables.passed_iff (h : Tables w) (hm : w.modules[i]? = some m) :
    Passed (searchedTable isInput) x n m ↔ PassesBy w isInput x n i := by
  rw [PassesBy, hm]
  simp only [Option.some.injEq, exists_eq_left']
  refine or_congr_right (and_congr_right fun _ => ?_)
  rcases lt_or_ge i w.nofParsedModules with hlt | hge
  · have hread := h.slots.read i m hm hlt
    obtain ⟨count, htable⟩ := hread.searched isInput
    rw [hread.inputs.count_eq]
    exact forall₂_congr fun _ _ => htable.unmarked_iff
  · rw [(h.slots.unread i m hm hge).nofInputs, h.inCount_unread hge]
    exact iff_of_true (fun k hk => by omega) (fun k hk => by omega)

lemma Tables.met_iff (h : Tables w) (hm : w.modules[i]? = some m) :
    Met (searchedTable isInput) x n m j ↔ ComesTo w isInput x n i j := by
  rw [ComesTo, hm]
  simp only [Option.some.injEq, exists_eq_left']
  refine and_congr_right fun _ => ?_
  rcases lt_or_ge i w.nofParsedModules with hlt | hge
  · have hread := h.slots.read i m hm hlt
    obtain ⟨count, htable⟩ := hread.searched isInput
    rw [hread.inputs.count_eq, htable.marked_iff, and_assoc]
    refine and_congr_right fun _ => and_congr_right fun hj => and_congr_right fun _ => ?_
    refine forall₂_congr fun k hk => htable.unmarked_iff.trans ?_
    exact ⟨fun h => h.2, fun h => ⟨lt_trans hk hj, h⟩⟩
  · rw [(h.slots.unread i m hm hge).nofInputs, h.inCount_unread hge]
    exact iff_of_false (fun h => absurd h.1 (Nat.not_lt_zero j))
      (fun h => absurd h.1 (Nat.not_lt_zero j))

lemma Tables.findSubPort_some (h : Tables w) :
    findSubPort (searchedTable isInput) x n w.modules 0 = .ok (some (i, j)) ↔
      ComesTo w isInput x n i j ∧ ∀ i' < i, PassesBy w isInput x n i' := by
  rw [Manager.findSubPort_some]
  constructor
  · rintro ⟨k, m, hk, hm, hmet, hbefore⟩
    obtain rfl : i = k := by omega
    refine ⟨(h.met_iff hm).mp hmet, fun i' hi' => ?_⟩
    have hm' := getElem?_eq_getElem (hi'.trans (List.getElem?_eq_some_iff.mp hm).1)
    exact (h.passed_iff hm').mp (hbefore i' hi' _ hm')
  · rintro ⟨hcomes, hpasses⟩
    obtain ⟨m, hm, -⟩ := id hcomes
    exact ⟨i, m, (zero_add i).symm, hm, (h.met_iff hm).mpr hcomes,
      fun i' hi' m' hm' => (h.passed_iff hm').mpr (hpasses i' hi')⟩

lemma Tables.findSubPort_none (h : Tables w) :
    findSubPort (searchedTable isInput) x n w.modules 0 = .ok none ↔
      ∀ i < w.modules.length, PassesBy w isInput x n i := by
  rw [Manager.findSubPort_none]
  constructor
  · intro hall i hi
    exact (h.passed_iff (getElem?_eq_getElem hi)).mp (hall _ (getElem_mem hi))
  · intro hall m hm
    obtain ⟨i, hi, rfl⟩ := mem_iff_getElem.mp hm
    exact (h.passed_iff (getElem?_eq_getElem hi)).mpr (hall i hi)

/-- Port `j` of module `i` can be found as end `n` of `x`: the name of the module starts with `x`,
the port lies below the number of its inputs, and the latest entry on it leads to end `n` of a
model. -/
def OpenEnd (w : PWaveform) (isInput : Bool) (x : CStr) (n i j : ℕ) : Prop :=
  ∃ m, w.modules[i]? = some m ∧ startsWith m.name x = .ok true ∧ j < inCount w.links i ∧
    leadsOut (fromPorts isInput w.links) i j n

/-- Up to the first open end no name fills its array and no port lies past the table. -/
def Readable (w : PWaveform) (isInput : Bool) (x : CStr) (n : ℕ) : Prop :=
  ∀ i m, w.modules[i]? = some m → (∀ i' < i, ∀ j, ¬ OpenEnd w isInput x n i' j) →
    (∃ b, startsWith m.name x = .ok b) ∧ (startsWith m.name x = .ok true →
      ∀ j < inCount w.links i, (∀ k < j, ¬ OpenEnd w isInput x n i k) → j < searchedPorts isInput)

lemma openEnd_iff (hm : w.modules[i]? = some m) (hstarts : startsWith m.name x = .ok true)
    (hj : j < inCount w.links i) :
    OpenEnd w isInput x n i j ↔ leadsOut (fromPorts isInput w.links) i j n := by
  simp [OpenEnd, hm, hstarts, hj]

lemma comesTo_iff : ComesTo w isInput x n i j ↔
    OpenEnd w isInput x n i j ∧ j < searchedPorts isInput ∧
      ∀ k < j, ¬ OpenEnd w isInput x n i k := by
  constructor
  · rintro ⟨m, hm, hstarts, hj, hsize, hleads, hbefore⟩
    refine ⟨⟨m, hm, hstarts, hj, hleads⟩, hsize, fun k hk => ?_⟩
    rw [openEnd_iff hm hstarts (hk.trans hj)]
    exact hbefore k hk
  · rintro ⟨⟨m, hm, hstarts, hj, hleads⟩, hsize, hbefore⟩
    refine ⟨m, hm, hstarts, hj, hsize, hleads, fun k hk => ?_⟩
    rw [← openEnd_iff hm hstarts (hk.trans hj)]
    exact hbefore k hk

lemma passesBy_iff (hm : w.modules[i]? = some m) : PassesBy w isInput x n i ↔
    (∃ b, startsWith m.name x = .ok b) ∧ (startsWith m.name x = .ok true →
      ∀ j < inCount w.links i, j < searchedPorts isInput) ∧
      ∀ j, ¬ OpenEnd w isInput x n i j := by
  unfold PassesBy OpenEnd
  simp only [hm, Option.some.injEq, exists_eq_left']
  cases startsWith m.name x with
  | error e => simp
  | ok b =>
    cases b with
    | false => simp
    | true =>
      simp
      grind

/-- **What the search finds, in terms of the names and the entries read so far.** -/
theorem Tables.findSubPort_open (h : Tables w) :
    findSubPort (searchedTable isInput) x n w.modules 0 = .ok (some (i, j)) ↔
      Readable w isInput x n ∧ OpenEnd w isInput x n i j ∧
        ∀ i' j', OpenEnd w isInput x n i' j' → i < i' ∨ i = i' ∧ j ≤ j' := by
  rw [h.findSubPort_some, comesTo_iff]
  constructor
  · rintro ⟨⟨hopen, hsize, hbefore⟩, hpasses⟩
    refine ⟨fun i' m' hm' hfree => ?_, hopen, fun i' j' hopen' => ?_⟩
    · rcases lt_trichotomy i' i with hlt | rfl | hgt
      · obtain ⟨hok, hports, -⟩ := (passesBy_iff hm').mp (hpasses i' hlt)
        exact ⟨hok, fun hstarts k hk _ => hports hstarts k hk⟩
      · obtain ⟨m, hm, hstarts, -⟩ := id hopen
        cases hm.symm.trans hm'
        refine ⟨⟨true, hstarts⟩, fun _ k _ hfree' => ?_⟩
        by_contra hge
        exact hfree' j (by omega) hopen
      · exact absurd hopen (hfree i hgt j)
    · by_contra hlt
      obtain ⟨m', hm', -⟩ := id hopen'
      rcases lt_or_ge i' i with hi | hi
      · exact ((passesBy_iff hm').mp (hpasses i' hi)).2.2 j' hopen'
      · obtain rfl : i' = i := by omega
        exact hbefore j' (by omega) hopen'
  · rintro ⟨hread, hopen, hfirst⟩
    have hfree : ∀ i' ≤ i, ∀ i'' < i', ∀ k, ¬ OpenEnd w isInput x n i'' k := by
      intro i' hi' i'' hi'' k hopen'
      have := hfirst i'' k hopen'
      omega
    have hbefore : ∀ k < j, ¬ OpenEnd w isInput x n i k := by
      intro k hk hopen'
      have := hfirst i k hopen'
      omega
    obtain ⟨m, hm, hstarts, hj, -⟩ := id hopen
    refine ⟨⟨hopen, (hread i m hm (hfree i le_rfl)).2 hstarts j hj hbefore, hbefore⟩,
      fun i' hi' => ?_⟩
    have hlen := (List.getElem?_eq_some_iff.mp hm).1
    have hm' := getElem?_eq_getElem (hi'.trans hlen)
    obtain ⟨hok, hports⟩ := hread i' _ hm' (hfree i' hi'.le)
    have hclosed := hfree i le_rfl i' hi'
    exact (passesBy_iff hm').mpr
      ⟨hok, fun hstarts k hk => hports hstarts k hk fun k' _ => hclosed k', hclosed⟩

lemma Tables.findSubPort_closed (h : Tables w) :
    findSubPort (searchedTable isInput) x n w.modules 0 = .ok none ↔
      Readable w isInput x n ∧ ∀ i j, ¬ OpenEnd w isInput x n i j := by
  rw [h.findSubPort_none]
  constructor
  · intro hpasses
    refine ⟨fun i m hm _ => ?_, fun i j hopen => ?_⟩
    · have hlt := (List.getElem?_eq_some_iff.mp hm).1
      obtain ⟨hok, hports, -⟩ := (passesBy_iff hm).mp (hpasses i hlt)
      exact ⟨hok, fun hstarts k hk _ => hports hstarts k hk⟩
    · obtain ⟨m, hm, -⟩ := id hopen
      have hlt := (List.getElem?_eq_some_iff.mp hm).1
      exact ((passesBy_iff hm).mp (hpasses i hlt)).2.2 j hopen
  · rintro ⟨hread, hclosed⟩ i hi
    have hm := getElem?_eq_getElem hi
    obtain ⟨hok, hports⟩ := hread i _ hm fun i' _ => hclosed i'
    exact (passesBy_iff hm).mpr
      ⟨hok, fun hstarts k hk => hports hstarts k hk fun k' _ => hclosed i k', hclosed i⟩

end Entries

lemma exists_first {P : ℕ → ℕ → Prop} (h : ∃ i j, P i j) :
    ∃ i j, P i j ∧ ∀ i' j', P i' j' → i < i' ∨ i = i' ∧ j ≤ j' := by
  classical
  have hports := Nat.find_spec h
  refine ⟨Nat.find h, Nat.find hports, Nat.find_spec hports, fun i' j' hP => ?_⟩
  rcases (Nat.find_min' h ⟨j', hP⟩).lt_or_eq with hlt | heq
  · exact .inl hlt
  · exact .inr ⟨heq, Nat.find_min' hports (heq ▸ hP)⟩

/-! ## The ports that a model declares -/

/-- The model at a path declares port `j` of module `i` as its end `n`: as an output for the
source of an interface, else as an input. -/
def Declares (log : List Call) (path : List CStr) (isInput : Bool) (n i j : ℕ) : Prop :=
  ∃ v cfg l, .interface path v cfg ∈ log ∧ resolveLink v cfg = .ok l ∧
    (if isInput then l else l.flip) = ⟨some i, j, none, n⟩

/-- Module `i` belongs to the model at a path by its name. -/
def BelongsTo (w : PWaveform) (path : List CStr) (i : ℕ) : Prop :=
  ∃ m suffix, w.modules[i]? = some m ∧ m.name = joined path ++ '_' :: suffix

/-- The search for end `n` of the included model `x` finds a port of its modules that it has
declared, or reports that it declares none. -/
def FindsDeclared (log : List Call) (path : List CStr) (w : PWaveform) (isInput : Bool)
    (x : CStr) (n : ℕ) : Prop :=
  (∃ i j, findSubPort (searchedTable isInput) x n w.modules 0 = .ok (some (i, j)) ∧
    BelongsTo w (path ++ [x]) i ∧ Declares log (path ++ [x]) isInput n i j) ∨
  findSubPort (searchedTable isInput) x n w.modules 0 = .ok none ∧
    ∀ i j, ¬ Declares log (path ++ [x]) isInput n i j

/-- A port of the model itself: it has declared it, and the module is called after it. -/
def OwnEnd (log : List Call) (path : List CStr) (w : PWaveform) (isInput : Bool) (n i j : ℕ) :
    Prop :=
  BelongsTo w path i ∧ Declares log path isInput n i j

/-- What the search for end `n` of the included model `x` rests on. -/
structure SearchClear (log : List Call) (path : List CStr) (w : PWaveform) (isInput : Bool)
    (x : CStr) (n : ℕ) : Prop where
  readable : Readable w isInput x n
  /-- If the entries of the model declare the end, then one of its ports is still open: no later
  entry has taken it, it lies below the number of inputs of its module, and the name of this module
  starts with `x` as well as with the prefix of the model. -/
  kept : (∃ i j, Declares log (path ++ [x]) isInput n i j) →
    ∃ i j, OwnEnd log (path ++ [x]) w isInput n i j ∧ OpenEnd w isInput x n i j
  /-- An open end of any other model with the number `n`, at a module whose name starts with `x`,
  comes after one of the model. -/
  others : ∀ i j, OpenEnd w isInput x n i j → ¬ OwnEnd log (path ++ [x]) w isInput n i j →
    ∃ i' j', OwnEnd log (path ++ [x]) w isInput n i' j' ∧ OpenEnd w isInput x n i' j' ∧
      (i' < i ∨ i' = i ∧ j' < j)

/-- **The search for a port of an included model finds what the model has declared exactly when
what the model has declared is still open, and no other module whose name starts in the same way
has an end with that number before it.** -/
theorem sub_model_port_iff {env : Env} {fuel : ℕ} {file x : CStr} {path : List CStr}
    {w : PWaveform} {cfg : Setting} {isInput : Bool} {n : ℕ}
    (hcall : .interface path w cfg ∈ calls env fuel [] true (newWaveform file)) :
    FindsDeclared (calls env fuel [] true (newWaveform file)) path w isInput x n ↔
      SearchClear (calls env fuel [] true (newWaveform file)) path w isInput x n := by
  obtain ⟨htables, -⟩ := tables_of_call hcall
  unfold FindsDeclared
  simp only [htables.findSubPort_open, htables.findSubPort_closed]
  constructor
  · rintro (⟨i, j, ⟨hread, hopen, hfirst⟩, hown⟩ | ⟨⟨hread, hclosed⟩, hnone⟩)
    · refine ⟨hread, fun _ => ⟨i, j, hown, hopen⟩, fun i' j' hopen' hother => ?_⟩
      refine ⟨i, j, hown, hopen, ?_⟩
      rcases hfirst i' j' hopen' with hlt | ⟨rfl, hle⟩
      · exact .inl hlt
      · refine .inr ⟨rfl, lt_of_le_of_ne hle ?_⟩
        rintro rfl
        exact hother hown
    · refine ⟨hread, fun ⟨i, j, h⟩ => absurd h (hnone i j), fun i j hopen => ?_⟩
      exact absurd hopen (hclosed i j)
  · rintro ⟨hread, hkept, hothers⟩
    by_cases hopen : ∃ i j, OpenEnd w isInput x n i j
    · obtain ⟨i, j, hopen, hfirst⟩ := exists_first hopen
      refine .inl ⟨i, j, ⟨hread, hopen, hfirst⟩, ?_⟩
      by_contra hother
      obtain ⟨i', j', -, hopen', hbefore⟩ := hothers i j hopen hother
      have := hfirst i' j' hopen'
      omega
    · simp_all

/-- The front end is read before the source that feeds it. -/
def receiver : Env :=
  filesEnv [("main", smallModel [("rx", "include", "fe"), ("src", "binary", "source")] "src" "rx"),
    ("fe", smallModel [("adc", "binary", "adc")] "_input" "adc")]

theorem sub_model_port_receiver :
    ∃ w cfg, .interface [] w cfg ∈ calls receiver 2 [] true (newWaveform "main".toList) ∧
      FindsDeclared (calls receiver 2 [] true (newWaveform "main".toList)) [] w false
        "rx".toList 0 := by
  obtain ⟨v, w, u, cfg, cfg', root, hcalls, hlink, hlinks, m, m', hmodules, hname, hname'⟩ :
      ∃ v w u cfg cfg' root, calls receiver 2 [] true (newWaveform "main".toList) =
        [.interface ["rx".toList] v cfg, .interface [] w cfg', .close u root] ∧
      resolveLink v cfg = .ok ⟨none, 0, some 0, 0⟩ ∧ w.links = [⟨none, 0, some 0, 0⟩] ∧
      ∃ m m', w.modules = [m, m'] ∧ m.name = "rx_adc".toList ∧ m'.name = "src".toList :=
    ⟨_, _, _, _, _, _, rfl, rfl, rfl, _, _, rfl, rfl, rfl⟩
  have hcall : .interface [] w cfg' ∈ calls receiver 2 [] true (newWaveform "main".toList) := by
    rw [hcalls]
    exact mem_cons_of_mem _ mem_cons_self
  have hown : OwnEnd (calls receiver 2 [] true (newWaveform "main".toList)) ["rx".toList] w false
      0 0 0 := by
    rw [hcalls]
    exact ⟨⟨m, "adc".toList, by rw [hmodules]; rfl, by rw [hname]; rfl⟩,
      v, cfg, _, mem_cons_self, hlink, rfl⟩
  have hopen : OpenEnd w false "rx".toList 0 0 0 :=
    ⟨m, by rw [hmodules]; rfl, by rw [hname]; rfl, by rw [hlinks]; decide,
      ⟨some 0, 0, none, 0⟩, by rw [hlinks]; rfl, rfl, rfl⟩
  refine ⟨w, cfg', hcall, (sub_model_port_iff hcall).mpr
    ⟨fun i m₁ hm₁ hfree => ?_, fun _ => ⟨0, 0, hown, hopen⟩, fun i j hopen' hother => ?_⟩⟩
  · -- the search ends at the first module
    obtain rfl : i = 0 := by
      by_contra hne
      exact hfree 0 (Nat.pos_of_ne_zero hne) 0 hopen
    rw [hmodules] at hm₁
    cases hm₁
    refine ⟨⟨true, by rw [hname]; rfl⟩, fun _ j _ hbefore => ?_⟩
    obtain rfl : j = 0 := by
      by_contra hne
      exact hbefore 0 (Nat.pos_of_ne_zero hne) hopen
    decide
  · grind

def twinReceivers : Env :=
  filesEnv [("main", smallModel [("rx2", "include", "fe"), ("rx", "include", "fe")] "_input" "rx"),
    ("fe", smallModel [("adc", "binary", "adc")] "_input" "adc")]

theorem sub_model_port_astray :
    ∃ w cfg m, .interface [] w cfg ∈ calls twinReceivers 2 [] true (newWaveform "main".toList) ∧
      findSubPort (searchedTable false) "rx".toList 0 w.modules 0 = .ok (some (0, 0)) ∧
      w.modules[0]? = some m ∧ m.name = "rx2_adc".toList ∧
      ¬ FindsDeclared (calls twinReceivers 2 [] true (newWaveform "main".toList)) [] w false
        "rx".toList 0 := by
  obtain ⟨v, v', w, u, cfg, cfg', cfg'', root, hcalls, hfind, m, hm, hname⟩ :
      ∃ v v' w u cfg cfg' cfg'' root,
      calls twinReceivers 2 [] true (newWaveform "main".toList) =
        [.interface ["rx2".toList] v cfg, .interface ["rx".toList] v' cfg',
          .interface [] w cfg'', .close u root] ∧
      findSubPort (searchedTable false) "rx".toList 0 w.modules 0 = .ok (some (0, 0)) ∧
      ∃ m, w.modules[0]? = some m ∧ m.name = "rx2_adc".toList :=
    ⟨_, _, _, _, _, _, _, _, rfl, rfl, _, rfl, rfl⟩
  refine ⟨w, cfg'', m, by rw [hcalls]; simp, hfind, hm, hname, ?_⟩
  rintro (⟨i, j, hfind', ⟨m', suffix, hm', hname'⟩, -⟩ | ⟨hnone, -⟩)
  · cases hfind.symm.trans hfind'
    cases hm.symm.trans hm'
    cases hname.symm.trans hname'
  · cases hfind.symm.trans hnone

end Aloe.Manager
