import Aloe.Oesr.Waveform

/-!
# A waveform survives its LOAD packet

The manager writes a waveform with `waveform_serialize`, the node rebuilds it with
`nod_waveform_unserializeTo`. Each level of nesting (values of a variable, variables of a module,
modules of the waveform) has its own lemma: the writer and the reader of that level run in lock
step.
-/

namespace Aloe.Oesr

open Lib Nat Image Oesr.Module List Mirrors

variable {σ : Type} {pool : Pool}

/-! ## What the node must hold -/

/-- The value of a variable in a mode: the first `size` bytes behind its pointer. -/
def Variable.value (v : Variable) (i : Fin maxModes) : List UInt8 :=
  (v.initValue[i.val].getD []).take v.size.count

def Variable.received (v : Variable) (nofModes : CInt) : Variable :=
  { Variable.zero with
    id := v.id
    size := v.size
    type := v.type
    name := v.name
    nofModes := nofModes
    initValue := Vector.ofFn fun i =>
      if i.val < nofModes.count then some (v.value i) else none }

def Module.received (m : Module) : Module :=
  { Module.zero with
    id := m.id
    processorIdx := m.processorIdx
    execPosition := m.execPosition
    nofModes := m.nofModes
    mode := ⟨m.mode.curMode, 0, 0⟩
    logEnable := m.logEnable
    name := m.name
    binary := m.binary
    execinfo := m.execinfo
    vars := m.vars.map (·.received m.nofModes) ++ List.replicate nofUserVariables Variable.zero
    inputs := m.inputs
    outputs := m.outputs
    allocated := true }

/-- The slot `dest` of the node after it received the waveform: the modules are those
mapped to the node, in the order of the waveform. -/
def Waveform.received (src : Waveform) (nodeId : CInt) (tsLenNs : ℤ) (dest : NodWaveform) :
    NodWaveform where
  id := src.id
  name := src.name
  precachPipeline := src.precachPipeline
  tslotMultiplicity := tslotMultiplicityOf tsLenNs src.granularityUs
  nofModes := src.nofModes
  modes := Vector.ofFn fun i =>
    if i.val < src.nofModes.count then src.modes[i.val] else dest.modes[i.val]
  modules := (src.modulesOn nodeId).map fun m => ⟨m.received, true⟩
  status := { dest.status with curStatus := loaded }

/-! ## Values of a variable -/

lemma mirrors_into {bs block : List UInt8} {len : ℤ} (hlen : 0 < len)
    (hblock : block.length = len.toNat) {τ : Type} (t : τ) :
    Mirrors (packetAddData (some bs) len : Prog σ Unit) (packetGetInto (some block) len) t
      (bs.take len.toNat) t := by
  refine of_ok (P := len.toNat ≤ bs.length)
    (fun k s k' s' hw => (packetAddData_ok hw).2.1) fun hbs => ?_
  refine (mirrors_data hlen).last fun q => ?_
  have hfits : (bs.take len.toNat).length = block.length := by
    rw [length_take, hblock, min_eq_left hbs]
  rw [if_pos (le_of_eq hfits), hfits, drop_length, append_nil]
  rfl

/-- The values of the first `i` modes have arrived, the other modes have their
cleared blocks. -/
def Variable.arrived (v : Variable) (nofModes : CInt) (i : ℕ) : Variable :=
  { v.received nofModes with
    initValue := refilled (fun j => some (v.value j))
      (fun j => if j.val < nofModes.count then some (List.replicate v.size.count 0) else none) i }

lemma Variable.arrived_count (v : Variable) (nofModes : CInt) :
    v.arrived nofModes nofModes.count = v.received nofModes := by
  have hvalues : refilled (fun j => some (v.value j))
      (fun j => if j.val < nofModes.count then some (replicate v.size.count 0) else none)
      nofModes.count = (v.received nofModes).initValue := by
    apply Vector.ext
    intro j hj
    simp only [refilled, received, Vector.getElem_ofFn]
    split <;> simp_all
  rw [arrived, hvalues]

variable {nofModes : CInt}

lemma mirrors_mode (v : Variable) (hsize : 0 < v.size.toInt) {i : ℕ} (hi : i < nofModes.count) :
    Mirrors (variableSerializeMode v i : Prog σ Unit) (variableUnserializeMode i)
      (v.arrived nofModes i) () (v.arrived nofModes (i + 1)) := by
  unfold variableSerializeMode variableUnserializeMode
  by_cases hmax : i < maxModes
  · rw [dif_pos hmax, dif_pos hmax]
    cases hptr : v.initValue[i] with
    | none =>
      -- the writer refuses a null pointer
      intro k s k' s' hw
      cases hw
    | some bs =>
      have hblock : (v.arrived nofModes i).initValue[i] = some (replicate v.size.count 0) := by
        rw [Variable.arrived, refilled_getElem _ _ hmax, if_pos hi]
      have hvalue : bs.take v.size.toInt.toNat = v.value ⟨i, hmax⟩ := by
        simp [Variable.value, hptr, CInt.count]
      refine step (fun _ => rfl) ?_
      rw [hblock]
      refine (mirrors_into hsize (by simp [CInt.count]) _).last fun q => ?_
      rw [hvalue, Variable.arrived, Variable.arrived, ← refilled_set _ _ hmax]
      rfl
  · rw [dif_neg hmax]
    intro k s k' s' hw
    cases hw

/-! ## Variables -/

/-- The variable after its first three words, with blocks for the first `k` modes. -/
def Variable.announced (v : Variable) (nofModes : CInt) (k : ℕ) : Variable :=
  { Variable.zero with
    id := v.id
    size := v.size
    type := v.type
    nofModes := nofModes
    initValue := refilled (fun _ => some (List.replicate v.size.count 0)) (fun _ => none) k }

lemma variableAllocMode_ok {v : Variable} (hblock : pool 1 (.bytes v.size) = true) {k : ℕ}
    (hk : k < maxModes) (q : Packet) :
    variableAllocMode pool k (q, v) = .ok () (q, { v with
      initValue := v.initValue.set k (some (replicate v.size.count 0)) }) := by
  refine bind_ok.mpr ⟨v, (q, v), rfl, ?_⟩
  rw [dif_pos hk, if_pos hblock]
  rfl

lemma variableAlloc_ok (hpool : pool.Serves) (v : Variable) (hsize : 0 < v.size.toInt)
    (hmax : nofModes.count ≤ maxModes) (q : Packet) :
    variableAlloc pool nofModes (q, v.announced nofModes 0) =
      .ok () (q, v.announced nofModes nofModes.count) := by
  have hblock : pool 1 (.bytes v.size) = true :=
    hpool _ _ (by decide) (fun size hobj => by cases hobj; exact hsize)
  have hloop := forM_range_ok (p := variableAllocMode pool) (n := nofModes.count)
    (fun k => (q, v.announced nofModes k)) fun k hk => by
      have hk' : k < maxModes := by omega
      rw [variableAllocMode_ok (v := v.announced nofModes k) hblock hk' q, Variable.announced,
        Variable.announced, ← refilled_set _ _ hk']
  exact bind_ok.mpr ⟨(), _, hloop, rfl⟩

lemma count_le_of_serialize {v : Variable} {pkt pkt' : Packet} {s s' : σ}
    (h : (range nofModes.count).forM (variableSerializeMode v) (pkt, s) =
      .ok () (pkt', s')) : nofModes.count ≤ maxModes := by
  by_contra hgt
  have hmem : maxModes ∈ range nofModes.count := by
    rw [mem_range]
    omega
  obtain ⟨s1, s2, hmode⟩ := forM_ok h hmem
  cases hmode

lemma mirrors_variable (hpool : pool.Serves) (v : Variable) (hsize : 0 < v.size.toInt)
    (nofModes : CInt) :
    Mirrors (variableSerialize v .cpInit nofModes : Prog σ Unit)
      (variableUnserializeTo pool .cpInit nofModes) Variable.zero () (v.received nofModes) := by
  refine (mirrors_i _ _ _).bind ((mirrors_i _ _ _).bind ((mirrors_i _ _ _).bind ?_))
  have hset : ∀ q : Packet, setObj (fun v : Variable => { v with nofModes := nofModes })
      (q, { Variable.zero with id := v.id, size := v.size, type := v.type }) =
        .ok () (q, v.announced nofModes 0) := fun q => by
    have hnone : Vector.ofFn (fun _ : Fin maxModes => (none : Ptr)) =
        Vector.replicate maxModes none := by
      apply Vector.ext
      simp
    rw [Variable.announced, refilled_zero, hnone]
    rfl
  refine step hset ?_
  refine of_ok (P := nofModes.count ≤ maxModes) (fun k s k' s' hw => ?_) fun hmax => ?_
  · obtain ⟨_, ⟨k1, s1⟩, -, hloop⟩ := bind_ok.mp hw
    exact count_le_of_serialize hloop
  refine step (variableAlloc_ok hpool v hsize hmax) ?_
  refine (mirrors_obj (succ_pos 63) _ _ _).bind ?_
  have hloop : Mirrors ((range nofModes.count).forM (variableSerializeMode v) : Prog σ Unit)
      ((range (range nofModes.count).length).forM variableUnserializeMode)
      (v.arrived nofModes 0) () (v.arrived nofModes (range nofModes.count).length) :=
    forM (v.arrived nofModes) (range nofModes.count) fun i hi => by
      rw [getElem_range]
      exact mirrors_mode v hsize (by simpa using hi)
  rw [length_range, v.arrived_count] at hloop
  have hstart : v.arrived nofModes 0 =
      { v.announced nofModes nofModes.count with name := v.name } := by
    simp only [Variable.arrived, Variable.received, Variable.announced, refilled_zero]
    rfl
  exact hloop

/-! ## Modules -/

lemma grows_mode (v : Variable) (i : ℕ) : Grows (variableSerializeMode v i : Prog σ Unit) 0 := by
  unfold variableSerializeMode
  split
  · exact grows_data.mono (zero_le _)
  · intro k s k' s' hw
    cases hw

lemma grows_variable (v : Variable) (nofModes : CInt) :
    Grows (variableSerialize v .cpInit nofModes : Prog σ Unit) 1 := by
  have hvalues : Grows ((range nofModes.count).forM (variableSerializeMode v) :
      Prog σ Unit) 0 := (Grows.forM (grows_mode v) _).mono (zero_le _)
  have hall := (grows_i v.id).bind ((grows_i v.size).bind ((grows_i v.type).bind
    ((grows_obj str v.name).bind hvalues)))
  exact hall.mono (by omega)

lemma grows_module (m : Module) : Grows (moduleSerialize .cpInit m : Prog σ Unit)
      (24 + m.vars.length + m.inputs.length + m.outputs.length) := by
  have hvars := Grows.forM (fun v => grows_variable (σ := σ) v m.nofModes) m.vars
  have hinputs := Grows.forM (grows_obj (σ := σ) interface) m.inputs
  have houtputs := Grows.forM (grows_obj (σ := σ) interface) m.outputs
  have hall := (grows_i m.id).bind ((grows_i m.processorIdx).bind ((grows_i m.execPosition).bind
    ((grows_i m.nofModes).bind ((grows_i m.mode.curMode).bind ((grows_i m.logEnable).bind
    ((grows_obj str m.name).bind ((grows_obj str m.binary).bind
    ((grows_obj execInfo m.execinfo).bind ((grows_i (lengthI m.vars)).bind
    ((grows_i (lengthI m.inputs)).bind ((grows_i (lengthI m.outputs)).bind
    (hvars.bind (hinputs.bind houtputs)))))))))))))
  have hitf : interface.size = 40 := rfl
  exact hall.mono (by rw [hitf]; omega)

/-- The module while its arrays arrive: `i` variables, `j` inputs and `l` outputs. -/
def Module.arrived (m : Module) (i j l : ℕ) : Module :=
  { m.received with
    vars := filled (·.received m.nofModes) Variable.zero m.vars
      (m.vars.length + nofUserVariables) i
    inputs := filled (fun itf => itf) Interface.zero m.inputs m.inputs.length j
    outputs := filled (fun itf => itf) Interface.zero m.outputs m.outputs.length l }

lemma Module.arrived_all (m : Module) :
    m.arrived m.vars.length m.inputs.length m.outputs.length = m.received := by
  have hin := filled_length (fun itf => itf) Interface.zero m.inputs 0
  have hout := filled_length (fun itf => itf) Interface.zero m.outputs 0
  simp only [add_zero, map_id', replicate_zero, append_nil] at hin hout
  rw [arrived, filled_length, hin, hout]
  rfl

lemma mirrors_vars (hpool : pool.Serves) (m : Module) (hsize : ∀ v ∈ m.vars, 0 < v.size.toInt) :
    Mirrors (m.vars.forM fun v => variableSerialize v .cpInit m.nofModes : Prog σ Unit)
      ((range m.vars.length).forM (moduleUnserializeVar pool .cpInit m.nofModes))
      (m.arrived 0 0 0) () (m.arrived m.vars.length 0 0) := by
  refine forM (fun i => m.arrived i 0 0) m.vars fun i hi => ?_
  have hcell : (m.arrived i 0 0).vars[i]? = some Variable.zero :=
    filled_getElem? _ _ hi (le_add_right _ _)
  have hnext : m.arrived (i + 1) 0 0 = { m.arrived i 0 0 with
      vars := (m.arrived i 0 0).vars.set i (m.vars[i].received m.nofModes) } := by
    simp only [arrived]
    rw [filled_set _ _ hi (le_add_right _ _)]
  rw [hnext]
  exact (mirrors_variable hpool m.vars[i] (hsize _ (getElem_mem hi)) m.nofModes).zoom hcell

lemma mirrors_inputs (m : Module) : Mirrors (m.inputs.forM (addObj interface) : Prog σ Unit)
      ((range m.inputs.length).forM moduleUnserializeInput)
      (m.arrived m.vars.length 0 0) () (m.arrived m.vars.length m.inputs.length 0) := by
  refine forM (fun j => m.arrived m.vars.length j 0) m.inputs fun j hj => ?_
  have hnext : m.arrived m.vars.length (j + 1) 0 = { m.arrived m.vars.length j 0 with
      inputs := (m.arrived m.vars.length j 0).inputs.set j m.inputs[j] } := by
    simp only [arrived]
    rw [filled_set (fun itf => itf) _ hj (le_refl _)]
  rw [hnext]
  exact mirrors_obj (succ_pos 39) m.inputs[j] _ _

lemma mirrors_outputs (m : Module) : Mirrors (m.outputs.forM (addObj interface) : Prog σ Unit)
      ((range m.outputs.length).forM moduleUnserializeOutput)
      (m.arrived m.vars.length m.inputs.length 0) () m.received := by
  rw [← m.arrived_all]
  refine forM (fun l => m.arrived m.vars.length m.inputs.length l) m.outputs
    fun l hl => ?_
  have hnext : m.arrived m.vars.length m.inputs.length (l + 1) =
      { m.arrived m.vars.length m.inputs.length l with
        outputs := (m.arrived m.vars.length m.inputs.length l).outputs.set l m.outputs[l] } := by
    simp only [arrived]
    rw [filled_set (fun itf => itf) _ hl (le_refl _)]
  rw [hnext]
  exact mirrors_obj (succ_pos 39) m.outputs[l] _ _

def Module.header (m : Module) : Module :=
  { m.received with vars := [], inputs := [], outputs := [], allocated := false }

lemma moduleAlloc_ok (hpool : pool.Serves) (m : Module)
    (hlen : 24 + m.vars.length + m.inputs.length + m.outputs.length < 2 ^ 31) (q : Packet) :
    moduleAlloc pool (lengthI m.inputs) (lengthI m.outputs)
      (lengthI m.vars + BitVec.ofNat 32 nofUserVariables) (q, m.header) =
        .ok () (q, m.arrived 0 0 0) := by
  have hvars : (lengthI m.vars + BitVec.ofNat 32 nofUserVariables : CInt) =
      BitVec.ofNat 32 (m.vars.length + nofUserVariables) := by
    rw [lengthI, BitVec.ofNat_add]
  have hnof : nofUserVariables = 10 := rfl
  have halloc : ∀ (n : ℕ) (obj : Object), n < 2 ^ 31 → (∀ size, obj ≠ .bytes size) →
      pool (BitVec.ofNat 32 n) obj = true := by
    intro n obj hn hobj
    refine hpool _ _ ?_ fun size hbytes => absurd hbytes (hobj size)
    rw [CInt.toInt_ofNat hn]
    exact Int.natCast_nonneg n
  refine bind_ok.mpr ⟨m.header, (q, m.header), rfl, ?_⟩
  rw [if_neg (by simp [header]), hvars, lengthI, lengthI,
    halloc _ .interface (by omega) (by simp), halloc _ .interface (by omega) (by simp),
    halloc _ .var (by omega) (by simp)]
  rw [CInt.count_ofNat (by omega), CInt.count_ofNat (by omega), CInt.count_ofNat (by omega),
    arrived, filled_zero, filled_zero, filled_zero]
  rfl

/-- **Modules.** A module written by the manager is rebuilt by the node in an empty
module. -/
theorem mirrors_module (hpool : pool.Serves) (m : Module) (hsize : ∀ v ∈ m.vars, 0 < v.size.toInt) :
    Mirrors (moduleSerialize .cpInit m : Prog σ Unit) (moduleUnserializeTo pool .cpInit)
      zero () m.received := by
  refine of_ok (fun k s k' s' hw => length_lt_of_grows (grows_module m) hw) fun hlen => ?_
  have hvars : (lengthI m.vars).count = m.vars.length := CInt.count_ofNat (by omega)
  refine (mirrors_i _ _ _).bind ((mirrors_i _ _ _).bind ((mirrors_i _ _ _).bind
    ((mirrors_i _ _ _).bind ((mirrors_i _ _ _).bind ((mirrors_i _ _ _).bind ?_)))))
  refine step (fun _ => rfl) ?_
  refine (mirrors_obj (succ_pos 63) _ _ _).bind ((mirrors_obj (succ_pos 63) _ _ _).bind
    ((mirrors_obj (succ_pos 103) _ _ _).bind ?_))
  refine (mirrors_readI _ _).bind ((mirrors_readI _ _).bind ((mirrors_readI _ _).bind ?_))
  refine step (moduleAlloc_ok hpool m hlen) ?_
  refine step (fun _ => rfl) ?_
  have hin : (m.arrived 0 0 0).inputs.length = m.inputs.length := by
    simp [arrived, filled_zero]
  have hout : (m.arrived 0 0 0).outputs.length = m.outputs.length := by
    simp [arrived, filled_zero]
  rw [hvars, hin, hout]
  exact (mirrors_vars hpool m hsize).bind ((mirrors_inputs m).bind (mirrors_outputs m))

/-! ## Waveforms -/

/-- The node's slot before its modules arrive, with the first `i` modes. -/
def Waveform.announced (src : Waveform) (tsLenNs : ℤ) (dest : NodWaveform) (i : ℕ) :
    NodWaveform :=
  { dest with
    id := src.id
    name := src.name
    precachPipeline := src.precachPipeline
    tslotMultiplicity := tslotMultiplicityOf tsLenNs src.granularityUs
    nofModes := src.nofModes
    modes := refilled (fun j => src.modes[j.val]) (fun j => dest.modes[j.val]) i }

lemma mirrors_waveformModes (src : Waveform) (tsLenNs : ℤ) (dest : NodWaveform) :
    Mirrors ((range src.nofModes.count).forM (waveformSerializeMode src) : Prog σ Unit)
      ((range src.nofModes.count).forM waveformUnserializeMode)
      (src.announced tsLenNs dest 0) () (src.announced tsLenNs dest src.nofModes.count) := by
  have hloop : Mirrors ((range src.nofModes.count).forM (waveformSerializeMode src) : Prog σ Unit)
      ((range (range src.nofModes.count).length).forM waveformUnserializeMode)
      (src.announced tsLenNs dest 0) ()
      (src.announced tsLenNs dest (range src.nofModes.count).length) := by
    refine forM (src.announced tsLenNs dest) (range src.nofModes.count) fun i hi => ?_
    rw [getElem_range]
    unfold waveformSerializeMode waveformUnserializeMode
    by_cases hmax : i < maxModes
    · rw [dif_pos hmax, dif_pos hmax]
      have hnext : src.announced tsLenNs dest (i + 1) = { src.announced tsLenNs dest i with
          modes := (src.announced tsLenNs dest i).modes.set i src.modes[i] } := by
        simp only [Waveform.announced]
        rw [refilled_set (fun j => src.modes[j.val]) _ hmax]
      rw [hnext]
      exact mirrors_obj (succ_pos 191) src.modes[i] _ _
    · rw [dif_neg hmax]
      intro k s k' s' hw
      cases hw
  rwa [length_range] at hloop

/-- The node's slot when `i` of its modules have arrived. -/
def Waveform.arrived (src : Waveform) (ms : List Module) (tsLenNs : ℤ) (dest : NodWaveform)
    (i : ℕ) : NodWaveform :=
  { src.announced tsLenNs dest src.nofModes.count with
    modules := filled (fun m : Module => (⟨m.received, true⟩ : NodModule)) NodModule.zero
      ms ms.length i }

lemma mirrors_nodModule (hpool : pool.Serves) (m : Module)
    (hsize : ∀ v ∈ m.vars, 0 < v.size.toInt) :
    Mirrors (moduleSerialize .cpInit m : Prog σ Unit) (nodModuleUnserializeTo pool .cpInit)
      NodModule.zero () ⟨m.received, true⟩ := by
  have hcontext : ∀ q : Packet, nodModuleAlloc pool (q, NodModule.zero) =
      .ok () (q, ⟨zero, true⟩) := fun q => by
    rw [nodModuleAlloc, if_pos (hpool _ _ (by decide) (by simp))]
    rfl
  exact step hcontext ((mirrors_module hpool m hsize).zoom rfl)

lemma mirrors_modules (hpool : pool.Serves) (src : Waveform) (ms : List Module)
    (hsize : ∀ m ∈ ms, ∀ v ∈ m.vars, 0 < v.size.toInt) (tsLenNs : ℤ) (dest : NodWaveform) :
    Mirrors (ms.forM (moduleSerialize .cpInit) : Prog σ Unit)
      ((range ms.length).forM fun i => onModule i (nodModuleUnserializeTo pool .cpInit))
      (src.arrived ms tsLenNs dest 0) () (src.arrived ms tsLenNs dest ms.length) := by
  refine forM (src.arrived ms tsLenNs dest) ms fun i hi => ?_
  have hcell : (src.arrived ms tsLenNs dest i).modules[i]? = some NodModule.zero :=
    filled_getElem? _ _ hi (le_refl _)
  have hnext : src.arrived ms tsLenNs dest (i + 1) = { src.arrived ms tsLenNs dest i with
      modules := (src.arrived ms tsLenNs dest i).modules.set i ⟨ms[i].received, true⟩ } := by
    simp only [Waveform.arrived]
    rw [filled_set (fun m : Module => (⟨m.received, true⟩ : NodModule)) _ hi (le_refl _)]
  rw [hnext]
  exact (mirrors_nodModule hpool ms[i] (hsize _ (getElem_mem hi))).zoom hcell

lemma nodWaveformAlloc_ok (hpool : pool.Serves) (src : Waveform) {ms : List Module}
    (hlen : ms.length < 2 ^ 31) (tsLenNs : ℤ) (dest : NodWaveform) (q : Packet) :
    nodWaveformAlloc pool (lengthI ms) (q, src.announced tsLenNs dest src.nofModes.count) =
        .ok () (q, src.arrived ms tsLenNs dest 0) := by
  have halloc : pool (lengthI ms) .nodModule = true := by
    refine hpool _ _ ?_ (by simp)
    rw [lengthI, CInt.toInt_ofNat hlen]
    exact Int.natCast_nonneg _
  rw [nodWaveformAlloc, if_pos halloc, lengthI, CInt.count_ofNat hlen, Waveform.arrived,
    filled_zero]
  rfl

lemma Waveform.announced_zero (src : Waveform) (tsLenNs : ℤ) (dest : NodWaveform) :
    src.announced tsLenNs dest 0 = { dest with
      id := src.id
      name := src.name
      precachPipeline := src.precachPipeline
      tslotMultiplicity := tslotMultiplicityOf tsLenNs src.granularityUs
      nofModes := src.nofModes } := by
  have hmodes : Vector.ofFn (fun j : Fin maxModes => dest.modes[j.val]) = dest.modes := by
    apply Vector.ext
    simp
  rw [announced, refilled_zero, hmodes]

lemma Waveform.received_eq (src : Waveform) (nodeId : CInt) (tsLenNs : ℤ) (dest : NodWaveform) :
    src.received nodeId tsLenNs dest =
      { src.arrived (src.modulesOn nodeId) tsLenNs dest (src.modulesOn nodeId).length with
        status := { dest.status with curStatus := loaded } } := by
  have hmodules := filled_length (fun m : Module => (⟨m.received, true⟩ : NodModule))
    NodModule.zero (src.modulesOn nodeId) 0
  simp only [add_zero, replicate_zero, append_nil] at hmodules
  rw [arrived, hmodules]
  rfl

/-- **Waveforms.** A LOAD packet written by the manager is rebuilt by the node. -/
theorem mirrors_waveform (machine : Machine) (ops : StatusOps) (hpool : machine.pool.Serves)
    (src : Waveform) (nodeId : CInt)
    (hsize : ∀ m ∈ src.modules, ∀ v ∈ m.vars, 0 < v.size.toInt) (dest : NodWaveform) :
    Mirrors (waveformSerialize src nodeId .load .cpInit : Prog σ Unit)
      (nodWaveformUnserializeTo machine ops) dest ()
      (src.received nodeId machine.tsLenNs dest) := by
  have hfilter : (src.modules.forM fun m =>
      if m.nodeId = nodeId then moduleSerialize .cpInit m else pure () : Prog σ Unit) =
        (src.modulesOn nodeId).forM (moduleSerialize .cpInit) := by
    rw [Waveform.modulesOn, ← forM_filter]
    simp
  refine (mirrors_readI _ _).bind ?_
  change Mirrors _ (nodWaveformUnserializeLoad machine) _ _ _
  refine (mirrors_readI _ _).bind ((mirrors_i _ _ _).bind ((mirrors_i _ _ _).bind
    ((mirrors_i _ _ _).bind ((mirrors_obj (succ_pos 63) _ _ _).bind
    ((mirrors_i _ _ _).bind (step (fun _ => rfl) ?_))))))
  rw [hfilter]
  have hmodes := (mirrors_waveformModes (σ := σ) src machine.tsLenNs dest)
  rw [src.announced_zero] at hmodes
  refine hmodes.bind ?_
  refine of_ok (P := (src.modulesOn nodeId).length < 2 ^ 31) (fun k s k' s' hw => ?_) fun hlen => ?_
  · -- every module costs at least a byte, so their number fits an `int`
    have hgrows := (grows_i (σ := σ) (lengthI (src.modulesOn nodeId))).bind
      (Grows.forM (fun m => (grows_module m).mono (by omega : 1 ≤ _)) (src.modulesOn nodeId))
    have := length_lt_of_grows hgrows hw
    omega
  refine (mirrors_readI _ _).bind ?_
  refine step (nodWaveformAlloc_ok hpool src hlen machine.tsLenNs dest) ?_
  refine step (fun _ => rfl) ?_
  have hcount : (src.arrived (src.modulesOn nodeId) machine.tsLenNs dest 0).modules.length =
      (src.modulesOn nodeId).length := by
    simp [Waveform.arrived, filled_zero]
  have hsent : ∀ m ∈ src.modulesOn nodeId, ∀ v ∈ m.vars, 0 < v.size.toInt :=
    fun m hm => hsize m (mem_of_mem_filter hm)
  rw [hcount]
  refine (mirrors_modules hpool src _ hsent machine.tsLenNs dest).last fun q => ?_
  rw [src.received_eq]
  rfl

/-- **LOAD round trip.** When `waveform_serialize` succeeds on a cleared packet, the
node decodes any copy of the packet, consumes all of it and holds the waveform. -/
theorem waveform_load_round_trip (machine : Machine) (ops : StatusOps)
    (hpool : machine.pool.Serves) (src : Waveform) (nodeId : CInt)
    (hsize : ∀ m ∈ src.modules, ∀ v ∈ m.vars, 0 < v.size.toInt) (pkt pkt' : Packet) (s s' : σ)
    (hwrite : waveformSerialize src nodeId .load .cpInit (packetClear pkt, s) = .ok () (pkt', s'))
    (copy : Packet) (hdata : copy.data = pkt'.data) (hstart : copy.rPtr = 0) (dest : NodWaveform) :
    ∃ copy', nodWaveformUnserializeTo machine ops (copy, dest) =
        .ok () (copy', src.received nodeId machine.tsLenNs dest) ∧
      copy'.data = pkt'.data ∧ copy'.rPtr = pkt'.data.length := by
  obtain ⟨bs, hbs, hread⟩ :=
    mirrors_waveform machine ops hpool src nodeId hsize dest _ s pkt' s' hwrite
  have hwritten : pkt'.data = bs := hbs
  obtain ⟨copy', hok, hunread, hkept⟩ := hread copy [] (by
    change copy.unread = _
    rw [Packet.unread, hstart, List.drop_zero, hdata, hwritten, List.append_nil])
  have hkept : copy'.data = copy.data := hkept
  have hunread : copy'.unread = [] := hunread
  refine ⟨copy', hok, hkept.trans hdata, ?_⟩
  have hlen := copy'.length_unread
  rw [hunread, List.length_nil] at hlen
  have hle := copy'.rPtr_le
  rw [← hdata, ← hkept]
  omega

/-! A waveform with one mode and two modules on different nodes. The module on node 0
has a variable of four bytes and one input. -/

def gainVariable : Variable :=
  { Variable.zero with
    id := 1
    size := 4
    nofModes := 1
    initValue := Vector.ofFn fun i => if i.val = 0 then some [7, 0, 0, 0] else none }

def amplifierWaveform : Waveform where
  id := 3
  modules :=
    [{ Module.zero with id := 1, nofModes := 1, vars := [gainVariable], inputs :=
    [Interface.zero] },
     { Module.zero with id := 2, nodeId := 1, nofModes := 1, outputs := [Interface.zero] }]
  status := ⟨0, 0⟩
  modes := Vector.replicate maxModes WaveformMode.zero
  name := Str.empty
  nofModes := 1
  granularityUs := 0
  precachPipeline := 1

theorem waveform_load_round_trip_amplifier :
    ∃ pkt' copy' : Packet, waveformSerialize amplifierWaveform 0 .load .cpInit
        (packetClear (emptyPacket 1024 (by decide)), ()) = .ok () (pkt', ()) ∧
      nodWaveformUnserializeTo ⟨fun _ _ => true, 1000000⟩ ⟨fun _ => pure (), pure ()⟩
        ({ pkt' with rPtr := 0, rPtr_le := zero_le _ }, emptySlot) =
          .ok () (copy', amplifierWaveform.received 0 1000000 emptySlot) ∧
      copy'.rPtr = pkt'.data.length := by
  have hok : (waveformSerialize amplifierWaveform 0 .load .cpInit
      (packetClear (emptyPacket 1024 (by decide)), ()) matches .ok _ _) = true := by
    decide +kernel
  cases hwrite : waveformSerialize amplifierWaveform 0 .load .cpInit
      (packetClear (emptyPacket 1024 (by decide)), ()) with
  | error e st =>
    rw [hwrite] at hok
    cases hok
  | ok u st =>
    obtain ⟨pkt', s'⟩ := st
    obtain ⟨copy', hread, -, hall⟩ := waveform_load_round_trip ⟨fun _ _ => true, 1000000⟩
      ⟨fun _ => pure (), pure ()⟩ (fun _ _ _ _ => rfl) amplifierWaveform 0 (by decide)
      (emptyPacket 1024 (by decide)) pkt' () s' hwrite
      { pkt' with rPtr := 0, rPtr_le := zero_le _ } rfl rfl emptySlot
    exact ⟨pkt', copy', rfl, hread, hall⟩

end Aloe.Oesr
