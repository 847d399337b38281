import Aloe.Oesr.CtrlPacket

/-!
# Setting and reading a parameter

Model of `oesr_var_param_set_value`, `oesr_var_param_set_value_idx` and `oesr_var_param_get_value`
of `oesr_api/oesr_var.c` for a module that may have to change its mode. A parameter has a value for
each mode. Only a call that reads makes the change that is due: a value that is set in the slot of
the change goes to the old mode.
-/

namespace Aloe.Oesr.VarValues

open Lib Oesr.Ctrl Option List

/-! ## The calls -/

structure Params where
  vars : List Variable
  curMode : Fin maxModes
  nextMode : Fin maxModes
  nextTslot : ℤ

def Params.receiver (m : Params) : Receiver := ⟨m.vars, m.curMode⟩

/-- `oesr_var_param_set_value`, by the place of the variable behind the handler. -/
def oesrVarParamSetValue (rcv : Receiver) (i : ℕ) (value : List UInt8) (size : CInt) :
    Option (ℤ × Receiver) :=
  if size.toInt ≤ 0 then some (-1, rcv) else setValueAt rcv i value size

inductive Setter where
  | byIdx (idx : CInt)
  | byHandler (i : ℕ)

def Setter.place : Setter → ℕ
  | .byIdx idx => idx.toInt.toNat
  | .byHandler i => i

/-- The return value and the module; `none` for an access outside of a table or a value. -/
def Setter.run (setter : Setter) (m : Params) (value : List UInt8) (size : CInt) :
    Option (ℤ × Params) :=
  let r :=
    match setter with
    | .byIdx idx => oesrVarParamSetValueIdx m.receiver idx value size
    | .byHandler i => oesrVarParamSetValue m.receiver i value size
  r.map fun r => (r.1, { m with vars := r.2.vars })

/-- The change of mode that `oesr_var_param_get_value` makes when it is due. -/
def Params.switch (now : ℤ) (m : Params) : Params :=
  if m.nextTslot ≠ 0 ∧ m.nextTslot ≤ now then { m with curMode := m.nextMode, nextTslot := 0 }
  else m

/-- `oesr_var_param_get_value` in slot `now`: the return value, the bytes copied and the module;
`none` for an access outside of a table or a value. -/
def oesrVarParamGetValue (now : ℤ) (m : Params) (i : ℕ) (size : CInt) :
    Option (ℤ × List UInt8 × Params) :=
  if size.toInt ≤ 0 then some (-1, [], m)
  else
    match m.vars[i]? with
    | none => none
    | some v =>
      let cpySz := if size.toInt < v.size.toInt then size.toInt else v.size.toInt
      let m := m.switch now
      match v.initValue.get m.curMode with
      | none => none
      | some block =>
        if 0 ≤ cpySz ∧ cpySz ≤ block.length then
          some (cpySz, block.take cpySz.toNat, m)
        else none

/-! ## What they are for -/

/-- In slot `now`, other variables than the one at `i` are read. -/
inductive OthersRead (now : ℤ) (i : ℕ) : Params → Params → Prop
  | none {m : Params} : OthersRead now i m m
  | next {m m₁ m₂ : Params} {j : ℕ} {size : CInt} {n : ℤ} {bytes : List UInt8} (hj : j ≠ i)
      (hread : oesrVarParamGetValue now m j size = some (n, bytes, m₁))
      (hrest : OthersRead now i m₁ m₂) : OthersRead now i m m₂

/-- The next call that reads the variable in this slot returns a value that begins with the first
`n` bytes of `value`, as far as they fit into the caller's buffer. -/
def ReadsBack (now : ℤ) (i : ℕ) (n : ℤ) (value : List UInt8) (m : Params) : Prop :=
  ∀ m₁, OthersRead now i m m₁ → ∀ size : CInt, 0 < size.toInt →
    ∃ ret bytes m₂, oesrVarParamGetValue now m₁ i size = some (ret, bytes, m₂) ∧
      bytes.take n.toNat = (value.take n.toNat).take size.toInt.toNat

/-- The mode whose value is read in slot `now`. -/
def Params.modeIn (m : Params) (now : ℤ) : Fin maxModes := (m.switch now).curMode

/-! ## The change of mode -/

variable {m m' : Params} {now n : ℤ} {i : ℕ} {value : List UInt8} {size : CInt}

lemma switch_vars (now : ℤ) (m : Params) : (m.switch now).vars = m.vars := by
  rw [Params.switch]
  split
  all_goals rfl

lemma switch_switch (now : ℤ) (m : Params) : (m.switch now).switch now = m.switch now := by
  by_cases hdue : m.nextTslot ≠ 0 ∧ m.nextTslot ≤ now
  · have hm : m.switch now = { m with curMode := m.nextMode, nextTslot := 0 } := if_pos hdue
    rw [hm]
    exact if_neg fun h => h.1 rfl
  · have hm : m.switch now = m := if_neg hdue
    rw [hm, hm]

lemma getValue_iff {ret : ℤ} {bytes : List UInt8} (hsize : 0 < size.toInt) :
    oesrVarParamGetValue now m i size = some (ret, bytes, m') ↔
      ∃ v block, m.vars[i]? = some v ∧ v.initValue.get (m.modeIn now) = some block ∧
        0 ≤ v.size.toInt ∧ min size.toInt v.size.toInt ≤ block.length ∧
        ret = min size.toInt v.size.toInt ∧
        bytes = block.take (min size.toInt v.size.toInt).toNat ∧ m' = m.switch now := by
  have hmin : ∀ v : Variable, (if size.toInt < v.size.toInt then size.toInt else v.size.toInt) =
      min size.toInt v.size.toInt := fun v => by split <;> omega
  constructor
  · intro h
    rw [oesrVarParamGetValue, if_neg (not_le.mpr hsize)] at h
    cases hv : m.vars[i]? with
    | none =>
      rw [hv] at h
      cases h
    | some v =>
      rw [hv] at h
      dsimp only at h
      rw [hmin] at h
      cases hblock : v.initValue.get (m.switch now).curMode with
      | none =>
        rw [hblock] at h
        cases h
      | some block =>
        rw [hblock] at h
        dsimp only at h
        by_cases hfits : 0 ≤ min size.toInt v.size.toInt ∧
            min size.toInt v.size.toInt ≤ block.length
        · rw [if_pos hfits] at h
          cases h
          exact ⟨v, block, rfl, hblock, by omega, hfits.2, rfl, rfl, rfl⟩
        · rw [if_neg hfits] at h
          cases h
  · rintro ⟨v, block, hv, hblock, hpos, hfits, rfl, rfl, rfl⟩
    rw [Params.modeIn] at hblock
    rw [oesrVarParamGetValue, if_neg (not_le.mpr hsize), hv]
    dsimp only
    rw [hmin, hblock]
    exact if_pos ⟨by omega, hfits⟩

lemma switch_of_othersRead (h : OthersRead now i m m') :
    m'.vars = m.vars ∧ m'.modeIn now = m.modeIn now := by
  induction h with
  | none => exact ⟨rfl, rfl⟩
  | @next m m1 m2 j size n bytes hj hread hrest ih =>
    by_cases hsize : 0 < size.toInt
    · obtain ⟨v, block, -, -, -, -, -, -, rfl⟩ := (getValue_iff hsize).mp hread
      refine ⟨ih.1.trans (switch_vars now m), ih.2.trans ?_⟩
      rw [Params.modeIn, switch_switch, Params.modeIn]
    · rw [oesrVarParamGetValue, if_pos (not_lt.mp hsize)] at hread
      cases hread
      exact ih

/-! ## Setting -/

def assign (v : Variable) (mode : Fin maxModes) (block value : List UInt8) (n : ℕ) : Variable :=
  { v with
    initValue := v.initValue.set mode (some (overwrite block (value.take n))) mode.isLt }

structure IsSet (m : Params) (i : ℕ) (value : List UInt8) (n : ℕ) (v : Variable)
    (block : List UInt8) (m' : Params) : Prop where
  variable_eq : m.vars[i]? = some v
  block_eq : v.initValue.get m.curMode = some block
  le_size : (n : ℤ) ≤ v.size.toInt
  le_block : n ≤ block.length
  le_value : n ≤ value.length
  result : m' = { m with vars := m.vars.set i (assign v m.curMode block value n) }

lemma isSet_of_copy {v v' : Variable} {cpySz : ℤ} (hv : m.vars[i]? = some v)
    (hle : cpySz ≤ v.size.toInt) (hcopy : copyValue v m.curMode value cpySz = some v') :
    ∃ n : ℕ, cpySz = n ∧ ∃ block, IsSet m i value n v block { m with vars := m.vars.set i v' } := by
  rw [copyValue] at hcopy
  cases hblock : v.initValue.get m.curMode with
  | none =>
    rw [hblock] at hcopy
    cases hcopy
  | some block =>
    rw [hblock] at hcopy
    dsimp only at hcopy
    split at hcopy
    · rename_i hfits
      cases hcopy
      obtain ⟨n, rfl⟩ := Int.eq_ofNat_of_zero_le hfits.1
      exact ⟨n, rfl, block, hv, hblock, hle, by omega, by omega, rfl⟩
    · cases hcopy

lemma setValueIdx_of_nonneg (rcv : Receiver) {idx : CInt} (h : 0 ≤ idx.toInt)
    (value : List UInt8) (size : CInt) :
    oesrVarParamSetValueIdx rcv idx value size =
      oesrVarParamSetValue rcv idx.toInt.toNat value size := by
  rw [oesrVarParamSetValueIdx, oesrVarParamSetValue]
  by_cases hsize : size.toInt ≤ 0
  · exact (if_pos (.inr hsize)).trans (if_pos hsize).symm
  · exact (if_neg (by omega)).trans (if_neg hsize).symm

lemma isSet_of_setValue {rcv : Receiver}
    (h : oesrVarParamSetValue m.receiver i value size = some (n, rcv)) (hn : n ≠ -1) :
    ∃ k : ℕ, n = k ∧ ∃ v block, IsSet m i value k v block { m with vars := rcv.vars } := by
  rw [oesrVarParamSetValue, setValueAt] at h
  split at h
  · cases h
    exact absurd rfl hn
  · cases hv : m.receiver.vars[i]? with
    | none =>
      rw [hv] at h
      cases h
    | some v =>
      rw [hv] at h
      obtain ⟨v', hcopy, heq⟩ := map_eq_some_iff.mp h
      cases heq
      obtain ⟨k, hk, block, hset⟩ := isSet_of_copy hv (by split <;> omega) hcopy
      exact ⟨k, hk, v, block, hset⟩

lemma isSet_of_run {setter : Setter} (h : setter.run m value size = some (n, m'))
    (hn : n ≠ -1) : ∃ k : ℕ, n = k ∧ ∃ v block, IsSet m setter.place value k v block m' := by
  obtain ⟨⟨n', rcv⟩, hset, heq⟩ := map_eq_some_iff.mp h
  cases heq
  cases setter with
  | byIdx idx =>
    by_cases hidx : 0 ≤ idx.toInt
    · dsimp only at hset
      rw [setValueIdx_of_nonneg _ hidx] at hset
      exact isSet_of_setValue hset hn
    · dsimp only at hset
      rw [oesrVarParamSetValueIdx, if_pos (.inl (not_le.mp hidx))] at hset
      cases hset
      exact absurd rfl hn
  | byHandler j => exact isSet_of_setValue hset hn

/-! ## Reading back -/

section

variable {v : Variable} {block : List UInt8} {k : ℕ}

lemma assign_get (mode mode' : Fin maxModes) : (assign v mode block value k).initValue.get mode' =
      if mode' = mode then some (overwrite block (value.take k)) else v.initValue.get mode' := by
  change (v.initValue.set mode _ mode.isLt)[mode'] = _
  by_cases h : mode' = mode
  · rw [if_pos h, h]
    exact Vector.getElem_set_self _
  · rw [if_neg h]
    exact Vector.getElem_set_ne _ _ fun heq => h (Fin.ext heq.symm)

lemma IsSet.take_overwrite (h : IsSet m i value k v block m') :
    (overwrite block (value.take k)).take k = value.take k ∧
      (overwrite block (value.take k)).length = block.length := by
  have hlen : (value.take k).length = k := length_take_of_le h.le_value
  refine ⟨?_, length_overwrite (hlen.trans_le h.le_block)⟩
  rw [overwrite, take_left' hlen]

lemma IsSet.found (h : IsSet m i value k v block m') {m1 : Params}
    (hreads : OthersRead now i m' m1) :
    m1.vars[i]? = some (assign v m.curMode block value k) ∧ m1.modeIn now = m.modeIn now := by
  obtain ⟨hvars, hmode⟩ := switch_of_othersRead hreads
  have hlt : i < m.vars.length := (List.getElem?_eq_some_iff.mp h.variable_eq).1
  rw [hvars, hmode, h.result]
  refine ⟨getElem?_set_self hlt, ?_⟩
  rw [Params.modeIn, Params.modeIn, Params.switch, Params.switch]
  split
  all_goals rfl

def intMax : CInt := BitVec.ofNat 32 (2 ^ 31 - 1)

lemma min_intMax (size : CInt) : min intMax.toInt size.toInt = size.toInt := by
  have hlt := BitVec.toInt_lt (x := size)
  have hmax : intMax.toInt = 2 ^ 31 - 1 := by decide
  rw [hmax]
  omega

lemma IsSet.readsBack_iff (h : IsSet m i value k v block m') : ReadsBack now i k value m' ↔
      ∃ stored, (assign v m.curMode block value k).initValue.get (m.modeIn now) = some stored ∧
        v.size.toInt ≤ stored.length ∧ stored.take k = value.take k := by
  have hsize := h.le_size
  have hlen : (value.take k).length = k := length_take_of_le h.le_value
  constructor
  · intro hback
    obtain ⟨ret, bytes, m2, hget, hbytes⟩ := hback m' .none intMax (by decide)
    obtain ⟨hfound, hmode⟩ := h.found (.none : OthersRead now i m' m')
    obtain ⟨w, stored, hw, hstored, -, hle, -, rfl, -⟩ := (getValue_iff (by decide)).mp hget
    obtain rfl : assign v m.curMode block value k = w := some.inj (hfound.symm.trans hw)
    rw [hmode] at hstored
    have hall : min intMax.toInt (assign v m.curMode block value k).size.toInt = v.size.toInt :=
      min_intMax v.size
    rw [hall] at hle hbytes
    refine ⟨stored, hstored, hle, ?_⟩
    rw [Int.toNat_natCast, take_take, min_eq_left (by omega),
      take_of_length_le (i := intMax.toInt.toNat) (by rw [hlen]; omega)] at hbytes
    exact hbytes
  · rintro ⟨stored, hstored, hle, htake⟩ m1 hreads bufSize hbuf
    obtain ⟨hfound, hmode⟩ := h.found hreads
    rw [← hmode] at hstored
    refine ⟨_, _, _, (getValue_iff hbuf).mpr
      ⟨_, stored, hfound, hstored, hsize.trans' (Int.natCast_nonneg k), ?_, rfl, rfl, rfl⟩, ?_⟩
    · exact (min_le_right _ _).trans hle
    · change (stored.take (min bufSize.toInt v.size.toInt).toNat).take (k : ℤ).toNat = _
      rw [Int.toNat_natCast, ← htake, take_take, take_take]
      congr 1
      omega

end

/-- **Set, then get.** A value is read back in the slot exactly if the mode of the slot has a value
of the variable's size, and is the mode it was set in, or its value began with these bytes before.
-/
theorem set_then_get_iff (m : Params) (now : ℤ) (setter : Setter) (value : List UInt8)
    (size : CInt) (n : ℤ) (m' : Params) (hset : setter.run m value size = some (n, m'))
    (hn : n ≠ -1) :
    ReadsBack now setter.place n value m' ↔ ∃ v block, m.vars[setter.place]? = some v ∧
        v.initValue.get (m.modeIn now) = some block ∧ v.size.toInt ≤ block.length ∧
        (m.modeIn now = m.curMode ∨ block.take n.toNat = value.take n.toNat) := by
  obtain ⟨k, rfl, v, block, h⟩ := isSet_of_run hset hn
  obtain ⟨hoverwrite, hlength⟩ := h.take_overwrite
  rw [h.readsBack_iff, assign_get, Int.toNat_natCast]
  by_cases hmode : m.modeIn now = m.curMode
  · rw [if_pos hmode, hmode]
    constructor
    · rintro ⟨stored, hstored, hle, -⟩
      cases hstored
      exact ⟨v, block, h.variable_eq, h.block_eq, hlength ▸ hle, .inl rfl⟩
    · rintro ⟨v', block', hv', hblock', hle, -⟩
      obtain rfl : v = v' := some.inj (h.variable_eq.symm.trans hv')
      obtain rfl : block = block' := some.inj (h.block_eq.symm.trans hblock')
      exact ⟨_, rfl, hlength.symm ▸ hle, hoverwrite⟩
  · rw [if_neg hmode]
    constructor
    · rintro ⟨stored, hstored, hle, htake⟩
      exact ⟨v, stored, h.variable_eq, hstored, hle, .inr htake⟩
    · rintro ⟨v', block', hv', hblock', hle, hor⟩
      obtain rfl : v = v' := some.inj (h.variable_eq.symm.trans hv')
      exact ⟨block', hblock', hle, hor.resolve_left hmode⟩

/-- A module with one parameter of a byte, 1 in the first mode and 2 in all others, that is to
change to the second mode in slot 5. -/
def changing : Params where
  vars := [{ Variable.zero with
    id := 1
    size := 1
    initValue := Vector.ofFn fun mode => some [if mode.val = 0 then 1 else 2] }]
  curMode := ⟨0, maxModes_pos⟩
  nextMode := ⟨1, Nat.one_lt_succ_succ 23⟩
  nextTslot := 5

theorem set_then_get_before : ∃ m', (Setter.byIdx 0).run changing [9] 1 = some (1, m') ∧
    ReadsBack 4 0 1 [9] m' := by
  obtain ⟨m', hset⟩ : ∃ m', (Setter.byIdx 0).run changing [9] 1 = some (1, m') := ⟨_, rfl⟩
  exact ⟨m', hset, (set_then_get_iff changing 4 (.byIdx 0) [9] 1 1 m' hset (by decide)).mpr
    ⟨_, [1], rfl, rfl, by decide, .inl rfl⟩⟩

theorem set_then_get_other : ∃ m' m'', (Setter.byIdx 0).run changing [9] 1 = some (1, m') ∧
    oesrVarParamGetValue 5 m' 0 1 = some (1, [2], m'') ∧ ¬ ReadsBack 5 0 1 [9] m' := by
  obtain ⟨m', hset, hget⟩ : ∃ m', (Setter.byIdx 0).run changing [9] 1 = some (1, m') ∧
    oesrVarParamGetValue 5 m' 0 1 = some (1, [2], m'.switch 5) := ⟨_, rfl, rfl⟩
  refine ⟨m', _, hset, hget, fun h => ?_⟩
  obtain ⟨ret, bytes, m₂, hget', hbytes⟩ := h m' .none 1 (by decide)
  obtain ⟨-, rfl, -⟩ : 1 = ret ∧ [2] = bytes ∧ m'.switch 5 = m₂ := by
    simpa using hget.symm.trans hget'
  exact absurd hbytes (by decide)

end Aloe.Oesr.VarValues
