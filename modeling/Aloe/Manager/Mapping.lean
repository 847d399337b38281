import Aloe.Crm.Mapper
import Aloe.Manager.WaveformParser

/-!
# The mapping of a waveform

Model of `oesr/src/manager/man_mapping.c`. `mapping_map` builds a task graph from the
modules of a waveform, has it mapped, and gives every module the processor of its task.
The waveform is one that the parser has filled: its stages name modules, and its port
tables are as long as its counters say. Allocations succeed.
-/

namespace Aloe.Manager

open Function

open Crm (Fault Parameters PlatformResources WaveformResources Globals)

/-- `man_platform_t` as far as the mapping reads it. `man_platform_config` gives it one
node, with id 0, and the processors their own index there. -/
structure ManPlatform where
  nofProcessors : ℕ
  core0Relative : ℚ
  tsLengthUs : ℤ

/-- What `mapping_map` writes to a module: the node, `processor_idx` and `exec_position`. -/
structure Placement where
  nodeId : ℕ
  processorIdx : ℕ
  execPosition : ℕ
deriving DecidableEq, Repr

/-- `processors[p]`, with the id of its node. -/
def ManPlatform.processorAt (plat : ManPlatform) (p : ℤ) : Except Fault (ℕ × ℕ) :=
  if 0 ≤ p ∧ p < plat.nofProcessors then .ok (0, p.toNat) else .error .bounds

/-! ## The model of platform and waveform -/

def setupAlgorithm : Parameters := ⟨.noOrd, 4, 0, 1 / 2⟩

/-- `generate_model_platform`; the architecture is set with the algorithm. -/
def generateModelPlatform (plat : ManPlatform) : PlatformResources where
  nofProcessors := plat.nofProcessors
  arch := .fd
  C i := if i = 0 then plat.core0Relative * plat.tsLengthUs else plat.tsLengthUs
  B _ _ := 1000000

/-- `generate_model_join_function`: the module that stands for each module. -/
def generateModelJoinFunction (wf : PWaveform) : ℕ → ℕ :=
  wf.stages.foldl (fun join row =>
    row.foldl (fun join x => update join x (row.headD 0)) join) fun i => i

def PModule.demand (m : PModule) (multiplicity : ℤ) : ℚ :=
  m.cMopts.get ⟨0, by decide⟩ * multiplicity

/-- `tmp_c`: what the modules that are joined need together. -/
def tmpC (wf : PWaveform) (join : ℕ → ℕ) (multiplicity : ℤ) : ℕ → ℚ :=
  wf.modules.zipIdx.foldl (fun c m =>
    update c (join m.2) (c (join m.2) + m.1.demand multiplicity)) fun _ => 0

/-- `joined_function`: the modules that stand for a task. -/
def joinedFunction (wf : PWaveform) (c : ℕ → ℚ) : List ℕ :=
  (List.range wf.modules.length).filter fun i => c i ≠ 0

/-- `joined_function_inv`: the task of each module. -/
def joinedFunctionInv (join : ℕ → ℕ) (joined : List ℕ) : ℕ → ℕ :=
  (List.range joined.length).foldl (fun inv k i =>
    if joined[k]? = some (join i) then k else inv i) fun _ => 0

def PModule.outputPorts (m : PModule) : List Port := (m.outputs.getD []).take m.nofOutputs

/-- `tmp_b`: the bandwidth between the modules that stand for tasks. -/
def tmpB (wf : PWaveform) (join : ℕ → ℕ) (multiplicity : ℤ) : ℕ → ℕ → ℚ :=
  wf.modules.zipIdx.foldl (fun b m =>
    m.1.outputPorts.foldl (fun b port =>
      wf.modules.zipIdx.foldl (fun b d =>
        if port.remoteModuleId = d.1.id then
          Crm.set₂ b (join m.2) (join d.2)
            (b (join m.2) (join d.2) + port.totalMbpts * multiplicity / 1000)
        else b) b) b) fun _ _ => 0

/-- What `generate_model` leaves for the algorithm and for the modules. -/
structure Model where
  wave : WaveformResources
  join : ℕ → ℕ
  joined : List ℕ
  joinedInv : ℕ → ℕ

/-- `generate_model_c_vector` and `generate_model_b_matrix`. -/
def generateModelWaveform (wf : PWaveform) (multiplicity : ℤ) : Model :=
  let join := generateModelJoinFunction wf
  let c := tmpC wf join multiplicity
  let b := tmpB wf join multiplicity
  let joined := joinedFunction wf c
  { wave :=
      { nofTasks := joined.length
        c := fun j => (joined[j]?).elim 0 c
        b := fun i j => (joined[i]?).elim 0 fun x => (joined[j]?).elim 0 fun y => b x y
        force := fun i => if i < wf.modules.length then -1 else 0 }
    join, joined
    joinedInv := joinedFunctionInv join joined }

/-- `tmp_stages`: a task comes after those before it that it gets data from. -/
def tmpStages (wave : WaveformResources) : ℕ → ℕ :=
  (List.range (wave.nofTasks - 1)).foldl (fun st i =>
    (List.range' (i + 1) (wave.nofTasks - (i + 1))).foldl (fun st j =>
      if 0 < wave.b i j ∧ st j ≤ st i then update st j (st i + 1) else st) st)
    fun i => if i < wave.nofTasks then 1 else 0

def stageDelay (wf : PWaveform) (stage : ℕ → ℕ) (s : ℕ) (port : Port) : Port :=
  wf.modules.zipIdx.foldl (fun port d =>
    if port.remoteModuleId = d.1.id ∧ port.delay = -1 then
      { port with delay := |(s : ℤ) - stage d.2| }
    else port) port

/-- `generate_model_stages`: the stage of each module, and the delays that follow. -/
def generateModelStages (wf : PWaveform) (model : Model) : (ℕ → ℕ) × List PModule :=
  let stage := fun i => tmpStages model.wave (model.joinedInv i)
  (stage, wf.modules.zipIdx.map fun m =>
    { m.1 with outputs := m.1.outputs.map fun ports =>
        (ports.take m.1.nofOutputs).map (stageDelay wf stage (stage m.2)) ++
          ports.drop m.1.nofOutputs })

/-- The multiplicity of `generate_model`; without one the granularity does not fit. -/
def multiplicityOf (plat : ManPlatform) (wf : PWaveform) : Option ℤ :=
  if wf.granularityUs = 0 then some 1
  else if plat.tsLengthUs.tmod wf.granularityUs = 0 then
    some (plat.tsLengthUs.tdiv wf.granularityUs)
  else none

/-! ## The algorithm and its result -/

/-- A delay for the first `n` ports of a table. -/
def delayPorts (table : Option (List Port)) (n : ℕ) (delay : ℤ) : Option (List Port) :=
  table.map fun ports =>
    (ports.take n).map (fun port => { port with delay := delay }) ++ ports.drop n

def loopDelays (modules : List PModule) : List PModule :=
  let modules := modules.map fun m =>
    { m with
      outputs := delayPorts m.outputs m.nofOutputs (-1)
      inputs := delayPorts m.inputs m.nofInputs (-1) }
  modules.foldl (fun ms m =>
    ((m.inputs.getD []).take m.nofInputs).foldl (fun ms input =>
      if (m.id : ℤ) < input.remoteModuleId then
        ms.map fun k =>
          if (k.id : ℤ) = input.remoteModuleId then
            { k with outputs := k.outputs.map fun ports =>
                ports.modify input.remotePortIdx.toNat fun port => { port with delay := -2 } }
          else k
      else ms) ms) modules

/-- What `mapping_map` leaves: its return value, the modules with their delays, stages and
placements, `modules_x_node`, and the globals of the mapper. -/
structure Mapping where
  ret : ℤ
  modules : List PModule
  stage : ℕ → Option ℕ
  place : ℕ → Option Placement
  modulesXNode : ℕ → ℕ
  globals : Globals

/-- `call_algorithm`: the processor of each task, unless the cost is infinite; on a
platform without time slots all tasks go to the first processor. -/
def callAlgorithm (plat : ManPlatform) (model : Model) (modules : List PModule) (g : Globals) :
    Except Fault (Option (ℕ → ℤ) × List PModule × Globals) := do
  if 1 < plat.tsLengthUs then
    let r ← Crm.mapper setupAlgorithm (generateModelPlatform plat) model.wave g
    return (if r.1 = Crm.infinite then none else some r.2.1, modules, r.2.2)
  else return (some fun _ => 0, loopDelays modules, g)

/-- The loop over the modules from `i` on, which stops at a processor that there is not. -/
def assign (plat : ManPlatform) (pRes : ℕ → ℤ) (joinedInv : ℕ → ℕ) :
    List ℕ → Mapping → Except Fault Mapping
  | [], m => return { m with ret := 0 }
  | i :: rest, m => do
      if (plat.nofProcessors : ℤ) ≤ pRes (joinedInv i) then return m
      else
        let p ← plat.processorAt (pRes (joinedInv i))
        assign plat pRes joinedInv rest { m with
          place := update m.place i (some ⟨p.1, p.2, i⟩)
          modulesXNode := update m.modulesXNode p.1 (m.modulesXNode p.1 + 1) }

def mappingMap (plat : ManPlatform) (wf : PWaveform) (g : Globals) : Except Fault Mapping :=
  match multiplicityOf plat wf with
  | none => return ⟨-1, wf.modules, fun _ => none, fun _ => none, fun _ => 0, g⟩
  | some multiplicity => do
      let model := generateModelWaveform wf multiplicity
      let stages := generateModelStages wf model
      let r ← callAlgorithm plat model stages.2 g
      let m : Mapping := ⟨-1, r.2.1, fun i => some (stages.1 i), fun _ => none, fun _ => 0, r.2.2⟩
      match r.1 with
      | none => return m
      | some pRes => assign plat pRes model.joinedInv (List.range wf.modules.length) m

end Aloe.Manager
