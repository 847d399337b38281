import Aloe.Lib.Run
import Aloe.Oesr.CtrlSkeleton

/-!
# The variables of a module

Model of `oesr_var_create`, `oesr_var_param_create_remote` and `oesr_var_close` of
`oesr_api/oesr_var.c`, as a table of slots that calls fill and free. A slot is free by its id, it is
found by its name, and `oesr_var_close` clears the one and leaves the other. A name is appended to
the name that the slot holds, and the limit is what the *new* name leaves of the field.

A slot stands for the pointer to it; `none` is the null pointer.
-/

namespace Aloe.Oesr.VarRegistry

open Lib Oesr.CtrlSkeleton List Variable

/-! ## The calls -/

/-- `oesr_var_create`. The pointer that it returns is null in any case. -/
def oesrVarCreate (host : Host) (vars : List Variable) (name : CString) (ptr : Ptr) (size : CInt) :
    Option ℕ × List Variable :=
  let publish (v : Variable) : Variable := { v with size := size, curValue := ptr }
  if size.toInt ≤ 0 ∨ ptr = none then (none, vars)
  else
    match nodModuleVariableGet vars name with
    | some i => (none, vars.modify i publish)
    | none =>
      match nodModuleVariableCreate vars host.nofModes name 0 with
      | none => (none, vars)
      | some (i, vars) => (none, vars.modify i publish)

def oesrVarClose (vars : List Variable) (i : ℕ) : List Variable :=
  vars.modify i fun v => { v with size := 0, id := 0, curValue := none }

/-! ## Histories -/

inductive Call where
  | create (name : CString) (ptr : List UInt8) (size : CInt)
  | createRemote (name : CString) (size : CInt)
  | close (i : ℕ)

def IsName (name : CString) : Prop := name.length < strLen ∧ ∀ c ∈ name, 0 < c.toNat ∧ c.toNat < 256

variable {name : CString}

lemma isName_of_all (hlen : name.length < strLen)
    (h : name.all (fun c => 0 < c.toNat && c.toNat < 256) = true) : IsName name := by
  refine ⟨hlen, fun c hc => ?_⟩
  have hc' := all_eq_true.mp h c hc
  rw [Bool.and_eq_true, decide_eq_true_eq, decide_eq_true_eq] at hc'
  exact hc'

def Call.Valid (vars : List Variable) : Call → Prop
  | .create name _ size => IsName name ∧ 0 < size.toInt
  | .createRemote name size => IsName name ∧ 0 ≤ size.toInt
  | .close i => ∃ v, vars[i]? = some v ∧ v.id ≠ 0

def Call.run (host : Host) (vars : List Variable) : Call → Option ℕ × List Variable
  | .create name ptr size => oesrVarCreate host vars name (some ptr) size
  | .createRemote name size => oesrVarParamCreateRemote host vars name size
  | .close i => (none, oesrVarClose vars i)

def Call.step (host : Host) (call : Call) (vars : List Variable) : Option (List Variable) :=
  some (call.run host vars).2

def ValidRun (host : Host) (vars : List Variable) (calls : List Call) : Prop :=
  Meets (Call.step host) (fun call vars => call.Valid vars) calls vars

/-! ## What the calls are for -/

/-- A new variable gets a handler while there is a free slot, and a lookup of its name finds it.
Other names find the variables they found, or nothing as before. -/
def Creates (name : CString) (vars : List Variable) (r : Option ℕ × List Variable) : Prop :=
  (∃ v ∈ vars, v.id = 0) → ∃ i v, r.1 = some i ∧ nodModuleVariableGet r.2 name = some i ∧
    r.2[i]? = some v ∧ text v.name = name ∧
    ∀ other ≠ name,
      (∀ j w, nodModuleVariableGet vars other = some j → vars[j]? = some w → w.id ≠ 0 →
        nodModuleVariableGet r.2 other = some j) ∧
      (nodModuleVariableGet vars other = none → nodModuleVariableGet r.2 other = none)

/-- After a variable has been closed its name finds nothing. Its slot is free, and when it is used
again under another name, that is its name. -/
def Closes (host : Host) (vars : List Variable) (i : ℕ) (vars' : List Variable) : Prop :=
  ∀ v, vars[i]? = some v → nodModuleVariableGet vars' (text v.name) = none ∧
    (∃ v', vars'[i]? = some v' ∧ v'.id = 0) ∧
    ∀ name size vars'', IsName name → name ≠ text v.name →
      nodModuleVariableCreate vars' host.nofModes name size = some (i, vars'') →
      ∃ v'', vars''[i]? = some v'' ∧ text v''.name = name

def Call.Serves (host : Host) (vars : List Variable) : Call → Prop
  | .create name ptr size => Creates name vars (Call.run host vars (.create name ptr size))
  | .createRemote name size => Creates name vars (Call.run host vars (.createRemote name size))
  | .close i => Closes host vars i (oesrVarClose vars i)

def KeepsRegistry (host : Host) (vars : List Variable) (calls : List Call) : Prop :=
  Meets (Call.step host) (fun call vars => call.Serves host vars) calls vars

/-- The calls that do: creations for a module that is not the first, under new names of less than
half the length of a name. In a full table no creation is asked to do anything. -/
def Fits (moduleIdx : ℕ) : (names : List CString) → (free : ℕ) → List Call → Prop
  | _, _, [] => True
  | _, _, .close _ :: _ => False
  | names, 0, _ :: calls => Fits moduleIdx names 0 calls
  | _, _ + 1, .create .. :: _ => False
  | names, free + 1, .createRemote name _ :: calls =>
    moduleIdx ≠ 0 ∧ 2 * name.length < strLen ∧ name ∉ names ∧
      Fits moduleIdx (names ++ [name]) free calls

/-! ## Names -/

lemma char_of_byte {c : Char} (h : c.toNat < 256) : Char.ofNat (UInt8.ofNat c.toNat).toNat = c := by
  rw [UInt8.toNat_ofNat_of_lt' h, Char.ofNat_toNat]

lemma byte_ne_zero {c : Char} (hpos : 0 < c.toNat) (hlt : c.toNat < 256) :
    UInt8.ofNat c.toNat ≠ 0 := by
  intro h
  have hzero := congrArg UInt8.toNat h
  rw [UInt8.toNat_ofNat_of_lt' hlt] at hzero
  exact hpos.ne' hzero

lemma text_ofText (h : IsName name) : text (ofText name) = name := by
  obtain ⟨hlen, hchars⟩ := h
  have hbytes : ∀ b ∈ name.map (fun c : Char => UInt8.ofNat c.toNat),
      decide (b ≠ 0) = true := by
    intro b hb
    obtain ⟨c, hc, rfl⟩ := mem_map.mp hb
    exact decide_eq_true (byte_ne_zero (hchars c hc).1 (hchars c hc).2)
  have htake : (ofText name).1 = name.map (fun c : Char => UInt8.ofNat c.toNat) ++
      0 :: List.replicate (strLen - 1 - name.length) 0 := by
    have hrest : strLen - name.length = (strLen - 1 - name.length) + 1 := by omega
    change (name.map (fun c : Char => UInt8.ofNat c.toNat) ++
      List.replicate strLen 0).take strLen = _
    rw [take_append, take_of_length_le (by rw [length_map]; omega),
      length_map, take_replicate, min_eq_left (Nat.sub_le _ _), hrest,
      replicate_succ]
  rw [text, htake, takeWhile_append_of_pos hbytes, takeWhile_cons_of_neg (by decide),
    append_nil, map_map]
  exact (map_congr_left fun c hc => char_of_byte (hchars c hc).2).trans (map_id name)

lemma text_fill_zero (h : IsName name) (i nofModes : ℕ) (size : CInt) :
    text (fillVariable i nofModes name size zero).name = name.take (strLen - 1 - name.length) := by
  have hname : (fillVariable i nofModes name size zero).name =
      ofText (strncat (text zero.name) name) := by
    rw [fillVariable]
    split
    all_goals rfl
  have hempty : text zero.name = [] := rfl
  rw [hname, hempty, strncat, nil_append, if_pos h.1, text_ofText]
  refine ⟨?_, fun c hc => h.2 c (mem_of_mem_take hc)⟩
  rw [length_take]
  exact (min_le_right _ _).trans_lt h.1

lemma take_eq_self_iff :
    name.take (strLen - 1 - name.length) = name ↔ 2 * name.length < strLen := by
  rw [List.take_eq_self_iff]
  change name.length ≤ 64 - 1 - name.length ↔ 2 * name.length < 64
  omega

/-! ## Tables -/

def slots (used : List Variable) (free : ℕ) : List Variable :=
  used ++ List.replicate free Variable.zero

section Tables

variable {used : List Variable} {free : ℕ} {name : CString}

lemma get_append (vars rest : List Variable) (name : CString) :
    nodModuleVariableGet (vars ++ rest) name = (nodModuleVariableGet vars name).or
      ((nodModuleVariableGet rest name).map (· + vars.length)) :=
  findIdx?_append

lemma get_cons (v : Variable) (rest : List Variable) (name : CString) :
    nodModuleVariableGet (v :: rest) name =
      if text v.name = name then some 0 else (nodModuleVariableGet rest name).map (· + 1) := by
  rw [nodModuleVariableGet, findIdx?_cons]
  simp only [decide_eq_true_eq]
  rfl

lemma get_eq_none_iff {vars : List Variable} :
    nodModuleVariableGet vars name = none ↔ name ∉ vars.map fun v => text v.name := by
  rw [nodModuleVariableGet, findIdx?_eq_none_iff]
  simp

lemma get_lt {vars : List Variable} {i : ℕ} (h : nodModuleVariableGet vars name = some i) :
    i < vars.length :=
  (findIdx?_eq_some_iff_findIdx_eq.mp h).1

lemma modify_append_cons (f : Variable → Variable) (v : Variable) (rest : List Variable) :
    (used ++ v :: rest).modify used.length f = used ++ f v :: rest := by
  induction used with
  | nil => rfl
  | cons w used ih => rw [cons_append, length_cons, modify_succ_cons, ih]; rfl

section

variable (hids : ∀ v ∈ used, v.id ≠ 0) (nofModes : ℕ) (name : CString) (size : CInt)
include hids

lemma create_slots :
    nodModuleVariableCreate (slots used (free + 1)) nofModes name size = some (used.length,
        slots (used ++ [fillVariable used.length nofModes name size zero]) free) := by
  have hfree : (slots used (free + 1)).findIdx? (fun v => v.id = 0) = some used.length := by
    rw [slots, findIdx?_append, findIdx?_eq_none_iff.mpr fun v hv =>
      decide_eq_false (hids v hv), replicate_succ, findIdx?_cons]
    simp [zero]
  rw [nodModuleVariableCreate, hfree, Option.map_some, slots, replicate_succ, modify_append_cons,
    slots, append_assoc]
  rfl

lemma create_full : nodModuleVariableCreate (slots used 0) nofModes name size = none := by
  have hfree : (slots used 0).findIdx? (fun v => v.id = 0) = none := by
    rw [slots, replicate_zero, append_nil]
    exact findIdx?_eq_none_iff.mpr fun v hv => decide_eq_false (hids v hv)
  rw [nodModuleVariableCreate, hfree, Option.map_none]

end

lemma get_used {j : ℕ} {w : Variable} (h : nodModuleVariableGet (slots used free) name = some j)
    (hw : (slots used free)[j]? = some w) (hid : w.id ≠ 0) :
    nodModuleVariableGet used name = some j := by
  have hlt : j < used.length := by
    by_contra hle
    rw [slots, getElem?_append_right (not_lt.mp hle)] at hw
    rw [eq_of_mem_replicate (mem_of_getElem? hw)] at hid
    exact hid rfl
  rw [slots, get_append] at h
  cases hused : nodModuleVariableGet used name with
  | some i => rwa [hused, Option.some_or] at h
  | none =>
    rw [hused, Option.none_or] at h
    obtain ⟨i, -, rfl⟩ := Option.map_eq_some_iff.mp h
    omega

end Tables

/-! ## One call -/

section Calls

variable {host : Host} {used : List Variable} {free : ℕ} {name : CString} {size : CInt}

def names (used : List Variable) : List CString := used.map fun v => text v.name

def newVariable (host : Host) (used : List Variable) (name : CString) (size : CInt) : Variable :=
  fillVariable used.length host.nofModes name size Variable.zero

lemma createRemote_slots (hids : ∀ v ∈ used, v.id ≠ 0) (hidx : host.moduleIdx ≠ 0)
    (hsize : 0 ≤ size.toInt) :
    oesrVarParamCreateRemote host (slots used (free + 1)) name size =
      (some used.length, slots (used ++ [newVariable host used name size]) free) := by
  rw [oesrVarParamCreateRemote, if_neg (by omega), create_slots hids]
  rfl

lemma creates_of_stored (hnew : name ∉ names used)
    (hstored : text (newVariable host used name size).name = name) :
    Creates name (slots used (free + 1))
      (some used.length, slots (used ++ [newVariable host used name size]) free) := by
  have hget : ∀ other, nodModuleVariableGet
      (slots (used ++ [newVariable host used name size]) free) other =
        (nodModuleVariableGet used other).or ((if name = other then some 0
            else (nodModuleVariableGet (List.replicate free zero) other).map (· + 1)).map
              (· + used.length)) := by
    intro other
    rw [slots, append_assoc, singleton_append, get_append, get_cons, hstored]
  refine fun _ => ⟨used.length, newVariable host used name size, rfl, ?_, ?_, hstored, ?_⟩
  · rw [hget, get_eq_none_iff.mpr hnew, if_pos rfl, Option.none_or, Option.map_some, zero_add]
  · rw [slots, append_assoc, getElem?_append_right le_rfl, Nat.sub_self]
    rfl
  · refine fun other hother => ⟨fun j w hj hw hid => ?_, fun hnone => ?_⟩
    · rw [hget, get_used hj hw hid, Option.some_or]
    · rw [slots, replicate_succ, get_append, get_cons] at hnone
      rw [hget, if_neg hother.symm]
      obtain ⟨hused, hrest⟩ := Option.or_eq_none_iff.mp hnone
      rw [hused, Option.none_or]
      split at hrest
      · cases hrest
      · exact hrest

lemma creates_remote_iff (hids : ∀ v ∈ used, v.id ≠ 0) (hname : IsName name)
    (hsize : 0 ≤ size.toInt) :
    Creates name (slots used (free + 1))
        (oesrVarParamCreateRemote host (slots used (free + 1)) name size) ↔
      host.moduleIdx ≠ 0 ∧ 2 * name.length < strLen ∧ name ∉ names used := by
  have hfree : ∃ v ∈ slots used (free + 1), v.id = 0 :=
    ⟨zero, mem_append_right _ (mem_replicate.mpr ⟨Nat.succ_ne_zero _, rfl⟩), rfl⟩
  have htext : text (newVariable host used name size).name = name ↔ 2 * name.length < strLen := by
    rw [newVariable, text_fill_zero hname, take_eq_self_iff]
  constructor
  · intro h
    by_cases hidx : host.moduleIdx = 0
    · obtain ⟨i, v, hsome, -⟩ := h hfree
      rw [oesrVarParamCreateRemote, if_pos (.inl hidx)] at hsome
      cases hsome
    · rw [createRemote_slots hids hidx hsize] at h
      obtain ⟨i, v, hsome, hget, hv, hstored, -⟩ := h hfree
      cases hsome
      refine ⟨hidx, ?_, ?_⟩
      · dsimp only at hv
        rw [slots, append_assoc, getElem?_append_right le_rfl, Nat.sub_self] at hv
        cases hv
        exact htext.mp hstored
      · intro hmem
        rw [slots, append_assoc, get_append] at hget
        cases hused : nodModuleVariableGet used name with
        | none => exact get_eq_none_iff.mp hused hmem
        | some j =>
          rw [hused, Option.some_or] at hget
          cases hget
          exact absurd (get_lt hused) (lt_irrefl _)
  · rintro ⟨hidx, hlen, hnew⟩
    rw [createRemote_slots hids hidx hsize]
    exact creates_of_stored hnew (htext.mpr hlen)

lemma oesrVarCreate_fst (host : Host) (vars : List Variable) (name : CString) (ptr : Ptr)
    (size : CInt) : (oesrVarCreate host vars name ptr size).1 = none := by
  rw [oesrVarCreate]
  split
  · rfl
  · split
    · rfl
    · split
      all_goals rfl

lemma creates_full (hids : ∀ v ∈ used, v.id ≠ 0) (r : Option ℕ × List Variable) :
    Creates name (slots used 0) r := by
  rintro ⟨v, hv, hid⟩
  rw [slots, replicate_zero, append_nil] at hv
  exact absurd hid (hids v hv)

lemma not_creates_create (ptr : Ptr) : ¬ Creates name (slots used (free + 1))
      (oesrVarCreate host (slots used (free + 1)) name ptr size) := by
  intro h
  obtain ⟨i, v, hsome, -⟩ := h ⟨zero,
    mem_append_right _ (mem_replicate.mpr ⟨Nat.succ_ne_zero _, rfl⟩), rfl⟩
  rw [oesrVarCreate_fst] at hsome
  cases hsome

lemma not_closes {vars : List Variable} {i : ℕ} {v : Variable} (hv : vars[i]? = some v) :
    ¬ Closes host vars i (oesrVarClose vars i) := by
  intro h
  refine get_eq_none_iff.mp (h v hv).1 (mem_map.mpr ?_)
  refine ⟨{ v with size := 0, id := 0, curValue := none }, ?_, rfl⟩
  refine mem_of_getElem? (i := i) ?_
  rw [oesrVarClose, getElem?_modify_eq, hv]
  rfl

lemma create_slots_zero (host : Host) (name : CString) (ptr : Ptr) (size : CInt)
    (hids : ∀ v ∈ used, v.id ≠ 0) :
    ∃ used', (oesrVarCreate host (slots used 0) name ptr size).2 = slots used' 0 ∧
      (∀ v ∈ used', v.id ≠ 0) ∧ names used' = names used := by
  have hslots : ∀ vars : List Variable, slots vars 0 = vars := fun vars => by
    rw [slots, replicate_zero, append_nil]
  rw [oesrVarCreate]
  split
  · exact ⟨used, rfl, hids, rfl⟩
  · cases hget : nodModuleVariableGet (slots used 0) name with
    | none =>
      rw [create_full hids]
      exact ⟨used, rfl, hids, rfl⟩
    | some i =>
      refine ⟨used.modify i fun v => { v with size := size, curValue := ptr }, ?_, ?_, ?_⟩
      · dsimp only
        rw [hslots, hslots]
      · intro v hv
        obtain ⟨j, hj⟩ := mem_iff_getElem?.mp hv
        rw [getElem?_modify] at hj
        obtain ⟨w, hw, rfl⟩ := Option.map_eq_some_iff.mp hj
        have hid := hids w (mem_of_getElem? hw)
        split
        all_goals exact hid
      · apply ext_getElem?
        intro j
        rw [names, names, getElem?_map, getElem?_map, getElem?_modify]
        cases used[j]? with
        | none => rfl
        | some w =>
          refine congrArg some ?_
          split
          all_goals rfl

lemma createRemote_slots_zero (host : Host) (name : CString) (size : CInt)
    (hids : ∀ v ∈ used, v.id ≠ 0) :
    (oesrVarParamCreateRemote host (slots used 0) name size).2 = slots used 0 := by
  rw [oesrVarParamCreateRemote, create_full hids]
  split
  all_goals rfl

lemma newVariable_id (hlen : used.length + 1 < 2 ^ 32) :
    (newVariable host used name size).id ≠ 0 := by
  have hid : (newVariable host used name size).id = BitVec.ofNat 32 (used.length + 1) := by
    rw [newVariable, fillVariable]
  intro hzero
  have hnat := congrArg BitVec.toNat (hid.symm.trans hzero)
  rw [BitVec.toNat_ofNat, Nat.mod_eq_of_lt hlen] at hnat
  exact Nat.succ_ne_zero _ hnat

end Calls

/-! ## Histories of calls -/

/-- **The registry.** From a table of variables with free slots behind them, all calls do what they
are for exactly if none is an `oesr_var_close` and, while there is a free slot, all are remote
creations in a module other than the first, under new names shorter than half the field. -/
theorem keeps_registry_iff (host : Host) (used : List Variable) (free : ℕ)
    (hids : ∀ v ∈ used, v.id ≠ 0) (hlen : used.length + free < 2 ^ 31) (calls : List Call)
    (hvalid : ValidRun host (slots used free) calls) :
    KeepsRegistry host (slots used free) calls ↔ Fits host.moduleIdx (names used) free calls := by
  induction calls generalizing used free with
  | nil => exact iff_of_true trivial trivial
  | cons call calls ih =>
    obtain ⟨hcall, hrest⟩ := hvalid
    replace hrest := hrest _ rfl
    have hcons : KeepsRegistry host (slots used free) (call :: calls) ↔
        call.Serves host (slots used free) ∧
          KeepsRegistry host (call.run host (slots used free)).2 calls :=
      and_congr_right fun _ => ⟨fun h => h _ rfl, fun h _ hs => Option.some.inj hs ▸ h⟩
    rw [hcons]
    cases call with
    | close i =>
      obtain ⟨v, hv, -⟩ := hcall
      exact iff_of_false (fun h => not_closes hv h.1) (fun h => h)
    | create name ptr size =>
      cases free with
      | zero =>
        obtain ⟨used', hused', hids', hnames⟩ := create_slots_zero host name (some ptr) size hids
        have hlen' : used'.length = used.length := by
          have := congrArg List.length hnames
          rwa [names, names, length_map, length_map] at this
        rw [Call.run, hused'] at hrest ⊢
        rw [ih used' 0 hids' (by omega) hrest, hnames]
        exact and_iff_right (creates_full hids _)
      | succ free => exact iff_of_false (fun h => not_creates_create _ h.1) (fun h => h)
    | createRemote name size =>
      obtain ⟨hname, hsize⟩ := hcall
      cases free with
      | zero =>
        rw [Call.run, createRemote_slots_zero host name size hids] at hrest ⊢
        rw [ih used 0 hids hlen hrest]
        exact and_iff_right (creates_full hids _)
      | succ free =>
        have hserves : (Call.createRemote name size).Serves host (slots used (free + 1)) ↔
            host.moduleIdx ≠ 0 ∧ 2 * name.length < strLen ∧ name ∉ names used :=
          creates_remote_iff hids hname hsize
        rw [hserves, Fits, and_assoc, and_assoc]
        refine and_congr_right fun hidx => and_congr_right fun hhalf => and_congr_right fun _ => ?_
        rw [Call.run, createRemote_slots hids hidx hsize] at hrest ⊢
        have hstored : text (newVariable host used name size).name = name := by
          rw [newVariable, text_fill_zero hname, take_eq_self_iff.mpr hhalf]
        have hids' : ∀ v ∈ used ++ [newVariable host used name size], v.id ≠ 0 := by
          intro v hv
          obtain hv | hv := mem_append.mp hv
          · exact hids v hv
          · rw [mem_singleton.mp hv]
            exact newVariable_id (by omega)
        have hnames : names (used ++ [newVariable host used name size]) = names used ++ [name] := by
          rw [names, map_append, map_singleton, hstored]
          rfl
        rw [← hnames]
        exact ih _ free hids' (by rw [length_append, length_singleton]; omega) hrest

def twoCreations : List Call := [.createRemote "mcs".toList 4, .createRemote "tbs".toList 4]

theorem keeps_registry_two : KeepsRegistry ⟨1, 1⟩ (slots [] 2) twoCreations := by
  have hvalid : ValidRun ⟨1, 1⟩ (slots [] 2) twoCreations :=
    ⟨⟨isName_of_all (by decide) rfl, by decide⟩, fun _ _ =>
      ⟨⟨isName_of_all (by decide) rfl, by decide⟩, fun _ _ => trivial⟩⟩
  exact (keeps_registry_iff ⟨1, 1⟩ [] 2 (fun v hv => absurd hv not_mem_nil) (by decide)
    twoCreations hvalid).mpr ⟨by decide, by decide, by decide, by decide, by decide, by decide,
    trivial⟩

def opened (name : CString) : List Variable :=
  (oesrVarParamCreateRemote ⟨1, 1⟩ (slots [] 1) name 4).2

/-- `oesr_var_create` returns no handler. The name of a closed variable is found, and its slot gets
the names of both variables. A name of 40 characters is not found. -/
theorem registry_broken : (oesrVarCreate ⟨1, 1⟩ (slots [] 1) "x".toList (some [0]) 1).1 = none ∧
    nodModuleVariableGet (oesrVarClose (opened "x".toList) 0) "x".toList = some 0 ∧
    nodModuleVariableGet (oesrVarParamCreateRemote ⟨1, 1⟩ (oesrVarClose (opened "x".toList) 0)
      "y".toList 4).2 "xy".toList = some 0 ∧
    nodModuleVariableGet (opened (List.replicate 40 'x')) (List.replicate 40 'x') = none ∧
    ¬ KeepsRegistry ⟨1, 1⟩ (slots [] 1) [.createRemote "x".toList 4, .close 0] := by
  refine ⟨rfl, rfl, rfl, rfl, ?_⟩
  rintro ⟨-, hclose⟩
  exact not_closes rfl (hclose _ rfl).1

end Aloe.Oesr.VarRegistry
