import Aloe.Oesr.CtrlRouting
import Aloe.Oesr.InitSchedule

/-!
# The control inputs after the initialisation

A plain module looks for its control input in each of its visits, but it is done as soon as it has
its data inputs. Its control input is attached then exactly if the control module was done before,
and the control module may be kept waiting by an input of its own (`control_attached`).
-/

namespace Aloe.Oesr.CtrlSkeleton

open Lib Oesr.Skeleton List Manager CtrlSkeleton.Part Schedule

structure Launch where
  env : Manager.Env
  fuel : ℕ
  file : Manager.CStr
  waveform : Manager.PWaveform
  parsed : Manager.waveformParse env fuel true (Manager.newWaveform file) = .ok waveform
  ctrl : ℕ
  auto : waveform.autoCtrlModule = some ctrl
  binary : ℕ → Binary
  lib : Library
  control : (binary ctrl).control = some lib
  runtime : Skeleton.Runtime
  world : World
  loaded : LoadedWorld (deploy waveform binary) world
  final : World
  completes : nodWaveformStatusInitThread runtime (deploy waveform binary) world = .ok true final

namespace Launch

def parts (l : Launch) : List Part := deploy l.waveform l.binary

def modules (l : Launch) : Skeleton.Waveform := l.parts.map Part.module

structure Receives (l : Launch) (m : ℕ) : Prop where
  behind : l.ctrl < m
  plain : (l.binary m).control = none
  addressed : Addressed l.parts (l.final.memory l.ctrl).remoteParamsDb m

/-- `ctrl_in` of module `m` is the queue of the output of the control module that is connected to
the last input of `m`. -/
def Attached (l : Launch) (m : ℕ) : Prop :=
  (l.final.state.modules m).ctrlIn = true ∧ ∃ port q n : ℕ,
    Manager.output l.waveform l.ctrl port = some ((Manager.idOf l.waveform m : ℤ), (q : ℤ)) ∧
    LastInput l.waveform m q ∧ (l.final.state.modules m).hwInput q = some (.queue n) ∧
    (l.final.state.modules l.ctrl).hwOutput port = some (.queue n)

def pass (l : Launch) : Progress := (initSchedule l.parts l.world).start 3

def dataOutputs (l : Launch) : ℕ := Manager.outCount l.waveform.links l.ctrl

def dataInputs (l : Launch) (m : ℕ) : ℕ := Manager.inCount l.waveform.links m

def portTo (l : Launch) (m : ℕ) : ℕ := l.dataOutputs + (m - (l.ctrl + 1))

def Spare (l : Launch) (m : ℕ) : Prop := (l.binary m).nofInputItf ≤ l.dataInputs m

/-- The call of `Init` that gets the control module done opens the output for module `m`. -/
def Opened (l : Launch) (m : ℕ) : Prop := ∃ part t, l.parts[l.ctrl]? = some part ∧
  l.pass l.ctrl = some t ∧ opensPort l.parts l.world l.ctrl part l.lib t (l.portTo m) = true

/-- The control module gets done no later than module `m`. -/
def InTime (l : Launch) (m : ℕ) : Prop :=
  ∃ t t', l.pass l.ctrl = some t ∧ l.pass m = some t' ∧ t ≤ t'

def Configured (l : Launch) : Prop := ∀ part, l.parts[l.ctrl]? = some part →
  (nofOutputDataItf l.world l.ctrl part).toInt = l.dataOutputs

def Single (l : Launch) : Prop := ∀ k, k ≠ l.ctrl → (l.binary k).control = none

/-- A data input of module `m` is fed by such a module. -/
def Awaits (l : Launch) (m : ℕ) (P : ℕ → Prop) : Prop :=
  ∃ p < (l.binary m).nofInputItf, ∃ y, feeder l.modules (m, p) = some y ∧ P y.1

def Early (l : Launch) : Prop :=
  (l.lib.ctrlInit 0).1 ≠ 0 ∧ ∀ y, feeder l.modules (l.ctrl, 0) = some y → y.1 ≤ l.ctrl

end Launch

/-! ## The waveform at the node -/

section Deployed

variable {w : PWaveform} {binary : ℕ → Binary} {junk : ℤ × ℤ} {c k q : ℕ} {part : Part}

lemma internal_deploy (w : PWaveform) (binary : ℕ → Binary) :
    Internal ((deploy w binary).map module) := by
  have hparts : ∀ m ∈ (deploy w binary).map module,
      ∃ pm b, m = (deployModule pm b).module := by
    intro m hm
    obtain ⟨part, hpart, rfl⟩ := mem_map.mp hm
    obtain ⟨i, hi⟩ := mem_iff_getElem?.mp hpart
    rw [deploy_getElem?] at hi
    obtain ⟨pm, -, rfl⟩ := Option.map_eq_some_iff.mp hi
    exact ⟨pm, binary i, rfl⟩
  have hzero : ∀ table n, ∀ itf ∈ toInterfaces table n, itf.physicItfId = 0 := by
    intro table n itf hitf
    obtain ⟨port, -, rfl⟩ := mem_map.mp hitf
    rfl
  refine ⟨fun m hm itf hitf => ?_, fun m hm itf hitf => ?_⟩
  all_goals
    obtain ⟨pm, b, rfl⟩ := hparts m hm
    exact hzero _ _ itf hitf

lemma module_deploy (hw : Returned w junk)
    (hk : (deploy w binary)[k]? = some part) : part.module.id = k + 1 := by
  rw [deploy_getElem?] at hk
  obtain ⟨pm, hpm, rfl⟩ := Option.map_eq_some_iff.mp hk
  have hid := hw.id_eq k (List.getElem?_eq_some_iff.mp hpm).1
  rw [idOf, hpm, Option.map_some, Option.getD_some] at hid
  change (pm.id : ℤ) = k + 1
  rw [hid]
  rfl

lemma input_deploy (hk : (deploy w binary)[k]? = some part) (q : ℕ) :
    part.module.inputs[q]?.map (fun itf => (itf.remoteModuleId, itf.remotePortIdx)) =
      input w k q := by
  rw [deploy_getElem?] at hk
  obtain ⟨pm, hpm, rfl⟩ := Option.map_eq_some_iff.mp hk
  rw [input, hpm, Option.bind_some, ← toInterfaces_view]
  rfl

lemma find_deploy (hw : Returned w junk) (hk : (deploy w binary)[k]? = some part) :
    nodWaveformFindModuleId ((deploy w binary).map module) ((k + 1 : ℕ) : ℤ) =
      some (part.module, k) := by
  have hid : part.module.id = ((k + 1 : ℕ) : ℤ) := by
    rw [module_deploy hw hk]
    rfl
  have hk' : ((deploy w binary).map module)[k]? = some part.module := by
    rw [getElem?_map, hk, Option.map_some]
  rw [← hid]
  refine find_of_unique hk' fun j m hj hm => ?_
  rw [getElem?_map] at hj
  obtain ⟨part', hpart', rfl⟩ := Option.map_eq_some_iff.mp hj
  rw [module_deploy hw hpart', module_deploy hw hk] at hm
  omega

section

variable (hw : Returned w junk) (hauto : w.autoCtrlModule = some c) (hbehind : c < k)
  (hk : (deploy w binary)[k]? = some part)
include hw hauto hbehind hk

lemma length_inputs : part.module.inputs.length = inCount w.links k + 1 := by
  have hlt : k < w.modules.length := by
    rw [← length_deploy w binary]
    exact (List.getElem?_eq_some_iff.mp hk).1
  obtain ⟨-, hinput, hlast⟩ := control_port hw hauto hbehind hlt
  have hnone := hlast _ (Nat.lt_succ_self _)
  rw [← input_deploy hk] at hinput hnone
  obtain ⟨itf, hitf, -⟩ := Option.map_eq_some_iff.mp hinput
  have hgt := (List.getElem?_eq_some_iff.mp hitf).1
  have hle := List.getElem?_eq_none_iff.mp (Option.map_eq_none_iff.mp hnone)
  omega

lemma feeder_deploy : feeder ((deploy w binary).map module) (k, part.module.ctrlPort) =
      some (c, outCount w.links c + (k - (c + 1))) := by
  have hlt : k < w.modules.length := by
    rw [← length_deploy w binary]
    exact (List.getElem?_eq_some_iff.mp hk).1
  obtain ⟨houtput, hinput, -⟩ := control_port hw hauto hbehind hlt
  obtain ⟨pm, hpm⟩ : ∃ pm, w.modules[c]? = some pm := ⟨_, getElem?_eq_getElem (hbehind.trans hlt)⟩
  have hc : (deploy w binary)[c]? = some (deployModule pm (binary c)) := by
    rw [deploy_getElem?, hpm, Option.map_some]
  have hport := output_lt_length (b := binary c) hpm houtput
  rw [← input_deploy hk] at hinput
  obtain ⟨itf, hitf, heq⟩ := Option.map_eq_some_iff.mp hinput
  obtain ⟨hid, hidx⟩ := Prod.ext_iff.mp heq
  dsimp only at hid hidx
  have hctrl : part.module.ctrlPort = inCount w.links k := by
    rw [Module.ctrlPort, length_inputs hw hauto hbehind hk, Nat.add_sub_cancel]
  have hk' : ((deploy w binary).map module)[k]? = some part.module := by
    rw [getElem?_map, hk, Option.map_some]
  rw [feeder, hctrl]
  simp only [hk', hitf, hid, find_deploy hw hc, hidx, Option.bind_eq_bind, Option.bind_some]
  rw [if_pos ⟨Int.natCast_nonneg _, Int.ofNat_lt.mpr hport⟩, Int.toNat_natCast]

end

end Deployed

/-! ## The end of the initialisation -/

namespace Launch

variable {l : Launch} {m : ℕ} {part : Part}

lemma returned (l : Launch) : Returned l.waveform l.env.junk.ref :=
  waveformParse_returned l.parsed

lemma follows (l : Launch) : ∃ round i, Follows l.parts l.world round i l.pass l.final :=
  (thread_follows (internal_deploy _ _) l.loaded l.completes).2

lemma complete (l : Launch) {k : ℕ} (hk : l.parts[k]? = some part) : ∃ t, l.pass k = some t :=
  Option.ne_none_iff_exists'.mp ((thread_follows (internal_deploy _ _) l.loaded l.completes).1 k
    (List.getElem?_eq_some_iff.mp hk).1)

lemma control_of_part {k : ℕ} (hk : l.parts[k]? = some part) :
    part.control = (l.binary k).control := by
  rw [parts, deploy_getElem?] at hk
  obtain ⟨pm, -, rfl⟩ := Option.map_eq_some_iff.mp hk
  rfl

lemma exists_ctrl (l : Launch) (hk : l.parts[m]? = some part) (hbehind : l.ctrl < m) :
    ∃ part', l.parts[l.ctrl]? = some part' :=
  ⟨_, getElem?_eq_getElem (hbehind.trans (List.getElem?_eq_some_iff.mp hk).1)⟩

lemma nofInputItf_of_part (hk : l.parts[m]? = some part) :
    part.module.nofInputItf = (l.binary m).nofInputItf := by
  rw [parts, deploy_getElem?] at hk
  obtain ⟨pm, -, rfl⟩ := Option.map_eq_some_iff.mp hk
  rfl

section

variable (hk : l.parts[m]? = some part) (hbehind : l.ctrl < m)
include hk hbehind

lemma spare_iff : l.Spare m ↔ part.module.nofInputItf < part.module.inputs.length := by
  rw [length_inputs l.returned l.auto hbehind hk, nofInputItf_of_part hk, Nat.lt_succ_iff]
  rfl

lemma ctrlIn_iff (hplain : (l.binary m).control = none) :
    (l.final.state.modules m).ctrlIn = true ↔ l.Spare m ∧ l.Opened m ∧ l.InTime m := by
  obtain ⟨round, i, hfollows⟩ := l.follows
  obtain ⟨t', ht'⟩ := l.complete hk
  obtain ⟨part', hc⟩ := l.exists_ctrl hk hbehind
  have hat := hfollows.plain m part hk ((control_of_part hk).trans hplain)
  have hfeeder := feeder_deploy l.returned l.auto hbehind hk
  rw [hat.ctrlIn t' ht', spare_iff hk hbehind]
  refine and_congr_right fun _ => ?_
  have havailable : available l.parts l.world t' m (past t' m l.pass)
      (l.ctrl, l.portTo m) = true ↔ ∃ t, past t' m l.pass l.ctrl = some t ∧
        opensPort l.parts l.world l.ctrl part' l.lib t (l.portTo m) = true :=
    available_control hc ((control_of_part hc).trans l.control)
  constructor
  · rintro ⟨y, hy, hready⟩
    obtain rfl := Option.some.inj (hfeeder.symm.trans hy)
    obtain ⟨t, ht, hopens⟩ := havailable.mp hready
    obtain ⟨ht, hbefore⟩ := past_eq_some.mp ht
    refine ⟨⟨part', t, hc, ht, hopens⟩, t, t', ht, ht', ?_⟩
    obtain hlt | ⟨rfl, -⟩ := hbefore
    · exact hlt.le
    · exact le_rfl
  · rintro ⟨⟨part'', t, hc', ht, hopens⟩, t1, t2, ht1, ht2, hle⟩
    obtain rfl := Option.some.inj (hc.symm.trans hc')
    obtain rfl := Option.some.inj (ht.symm.trans ht1)
    obtain rfl := Option.some.inj (ht'.symm.trans ht2)
    refine ⟨_, hfeeder, havailable.mpr ⟨t, past_eq_some.mpr ⟨ht, ?_⟩, hopens⟩⟩
    exact (Nat.lt_or_eq_of_le hle).imp_right fun heq => ⟨heq, hbehind⟩

/-- **Attached** means in time. -/
theorem attached_iff (hplain : (l.binary m).control = none) :
    l.Attached m ↔ l.Spare m ∧ l.Opened m ∧ l.InTime m := by
  rw [← ctrlIn_iff hk hbehind hplain]
  refine ⟨And.left, fun hctrl => ⟨hctrl, ?_⟩⟩
  obtain ⟨round, i, hfollows⟩ := l.follows
  obtain ⟨t', ht'⟩ := l.complete hk
  have hat := hfollows.plain m part hk ((control_of_part hk).trans hplain)
  obtain ⟨-, y, hy, hmade, heq⟩ := hat.sound.attached (hat.memOk t' ht') hctrl
  obtain rfl := Option.some.inj ((feeder_deploy l.returned l.auto hbehind hk).symm.trans hy)
  obtain ⟨hw, hhw⟩ := Option.ne_none_iff_exists'.mp hmade
  obtain ⟨n, rfl⟩ := hfollows.queues _ hw hhw
  have hlt : m < l.waveform.modules.length := by
    rw [← length_deploy l.waveform l.binary]
    exact (List.getElem?_eq_some_iff.mp hk).1
  obtain ⟨houtput, hinput, hlast⟩ := control_port l.returned l.auto hbehind hlt
  refine ⟨_, _, n, houtput, ⟨by rw [hinput]; rfl, hlast⟩, ?_, hhw⟩
  rw [← hhw, ← heq, Module.ctrlPort, length_inputs l.returned l.auto hbehind hk, Nat.add_sub_cancel]

end

/-! ### The output -/

lemma Receives.exists_part (h : l.Receives m) : ∃ part, l.parts[m]? = some part := by
  have hlt : m < l.parts.length := by
    rw [parts, length_deploy]
    exact h.addressed.lt_length
  exact ⟨_, getElem?_eq_getElem hlt⟩

lemma Receives.opened (h : l.Receives m) (hconfigured : l.Configured) : l.Opened m := by
  obtain ⟨part, hk⟩ := h.exists_part
  obtain ⟨part', hc⟩ := l.exists_ctrl hk h.behind
  obtain ⟨t, ht⟩ := l.complete hc
  obtain ⟨round, i, hfollows⟩ := l.follows
  have hat := hfollows.control l.ctrl part' l.lib hc ((control_of_part hc).trans l.control)
  have haddressed := h.addressed
  rw [hat.db t ht] at haddressed
  refine ⟨part', t, hc, ht, opensPort_iff.mpr ⟨?_, m, haddressed, ?_⟩⟩
  · obtain ⟨houtput, -⟩ := control_port l.returned l.auto h.behind h.addressed.lt_length
    rw [parts, deploy_getElem?] at hc
    obtain ⟨pm, hpm, rfl⟩ := Option.map_eq_some_iff.mp hc
    exact output_lt_length hpm houtput
  · have hbehind := h.behind
    rw [remotePort, module_deploy l.returned hc, hconfigured part' hc, portTo]
    omega

/-! ### The passes, where the other modules are plain -/

section Single

variable {t t1 t2 : ℕ}

lemma ready_of_pass {k : ℕ} (hk : l.parts[k]? = some part) (h : l.pass k = some t) :
    readyIn l.parts l.world t k (past t k l.pass) = true ∧
      ∀ t' < t, readyIn l.parts l.world t' k (past t' k l.pass) = false :=
  ready_of_start (S := initSchedule l.parts l.world) (List.getElem?_eq_some_iff.mp hk).1 h

/-- An output of the control module is there only after its pass. -/
lemma before_of_available {k : ℕ} {y : ℕ × ℕ} (h : l.pass l.ctrl = some t1)
    (hy : l.parts[y.1]? = some part) (heq : y.1 = l.ctrl)
    (havailable : available l.parts l.world t k (past t k l.pass) y = true) :
    Before t1 l.ctrl t k := by
  rw [available_control hy ((control_of_part hy).trans (heq ▸ l.control))] at havailable
  obtain ⟨t', ht, -⟩ := havailable
  obtain ⟨ht, hbefore⟩ := past_eq_some.mp ht
  rw [heq] at ht hbefore
  obtain rfl := Option.some.inj (h.symm.trans ht)
  exact hbefore

section

variable (hsingle : l.Single)
include hsingle

lemma available_other {f : Progress} {k : ℕ} {y : ℕ × ℕ}
    (hy : l.parts[y.1]? = some part) (hne : y.1 ≠ l.ctrl) :
    available l.parts l.world t k f y = true ↔ (y.2 < part.module.nofOutputItf ∧
      y.2 < part.module.outputs.length) ∧ (0 < t ∨ y.1 ≤ k) := by
  rw [available_plain hy ((control_of_part hy).trans (hsingle y.1 hne)), and_assoc]

lemma ready_ctrl_iff (hc : l.parts[l.ctrl]? = some part) (h : l.pass l.ctrl = some t1) (t : ℕ) :
    readyIn l.parts l.world t l.ctrl (past t l.ctrl l.pass) = true ↔ (l.lib.ctrlInit t).1 ≠ 0 ∧
        ∀ y, feeder l.modules (l.ctrl, 0) = some y → 0 < t ∨ y.1 ≤ l.ctrl := by
  have hcontrol := (control_of_part hc).trans l.control
  have hready := (readyIn_control hc hcontrol).mp (ready_of_pass hc h).1
  rw [readyIn_control hc hcontrol]
  refine and_congr_right fun _ => forall₂_congr fun y hy => ?_
  obtain ⟨part', hy'⟩ := CtrlSkeleton.exists_part hy
  have havailable := hready.2 y hy
  -- its own outputs were not there when it got done
  have hne : y.1 ≠ l.ctrl := by
    rintro heq
    exact Before.irrefl _ _ (before_of_available h hy' heq havailable)
  rw [available_other hsingle hy' hne] at havailable ⊢
  exact and_iff_right havailable.1

lemma pass_ctrl_iff (hc : l.parts[l.ctrl]? = some part) (h : l.pass l.ctrl = some t1) :
    (t1 = 0 ↔ l.Early) ∧ (t1 ≤ 1 ↔ l.Early ∨ (l.lib.ctrlInit 1).1 ≠ 0) := by
  obtain ⟨hready, hnot⟩ := ready_of_pass hc h
  have hfirst : readyIn l.parts l.world 0 l.ctrl (past 0 l.ctrl l.pass) = true ↔
      l.Early := by
    rw [ready_ctrl_iff hsingle hc h, Early]
    simp
  have hsecond : readyIn l.parts l.world 1 l.ctrl (past 1 l.ctrl l.pass) = true ↔
      (l.lib.ctrlInit 1).1 ≠ 0 := by
    rw [ready_ctrl_iff hsingle hc h]
    exact and_iff_left fun _ _ => .inl one_pos
  have hzero : t1 = 0 ↔ l.Early := by grind
  refine ⟨hzero, fun hle => ?_, ?_⟩
  · grind
  · grind

section

variable (hk : l.parts[m]? = some part) (hplain : (l.binary m).control = none)
  (h : l.pass l.ctrl = some t1) (h' : l.pass m = some t2)
include hk hplain h h'

lemma input_of_pass {p : ℕ} (hp : p < part.module.nofInputItf) :
    ∃ y, feeder l.modules (m, p) = some y ∧ ((y.1 = l.ctrl ∧ t1 ≤ t2) ∨
      (y.1 ≠ l.ctrl ∧ (0 < t2 ∨ y.1 ≤ m) ∧ ∀ t f, (0 < t ∨ y.1 ≤ m) →
        available l.parts l.world t m f y = true)) := by
  have hready := (readyIn_plain hk ((control_of_part hk).trans hplain)).mp (ready_of_pass hk h').1
  obtain ⟨y, hy, havailable⟩ := hready p hp
  obtain ⟨part', hy'⟩ := CtrlSkeleton.exists_part hy
  refine ⟨y, hy, ?_⟩
  by_cases heq : y.1 = l.ctrl
  · have hbefore := before_of_available h hy' heq havailable
    exact .inl ⟨heq, hbefore.elim Nat.le_of_lt fun hb => hb.1.le⟩
  · rw [available_other hsingle hy' heq] at havailable
    refine .inr ⟨heq, havailable.2, fun t f hlater => ?_⟩
    rw [available_other hsingle hy' heq]
    exact ⟨havailable.1, hlater⟩

lemma pass_iff_of_not_awaits (hnone : ¬ l.Awaits m (· = l.ctrl)) :
    t2 ≤ 1 ∧ (0 < t2 ↔ l.Awaits m (m < ·)) := by
  have hitf := nofInputItf_of_part hk
  have hinput : ∀ p < part.module.nofInputItf, ∃ y, feeder l.modules (m, p) = some y ∧
      (0 < t2 ∨ y.1 ≤ m) ∧ ∀ t f, (0 < t ∨ y.1 ≤ m) →
        available l.parts l.world t m f y = true := by
    intro p hp
    obtain ⟨y, hy, ⟨heq, -⟩ | ⟨-, hlater⟩⟩ := input_of_pass hsingle hk hplain h h' hp
    · exact absurd ⟨p, hitf ▸ hp, y, hy, heq⟩ hnone
    · exact ⟨y, hy, hlater⟩
  -- a pass that is not the last one is missed for an input from behind
  have hmissed : ∀ t < t2, ∃ p < part.module.nofInputItf, ∃ y,
      feeder l.modules (m, p) = some y ∧ ¬(0 < t ∨ y.1 ≤ m) := by
    intro t ht
    have hnot := (ready_of_pass hk h').2 t ht
    by_contra hall
    push Not at hall
    refine Bool.eq_false_iff.mp hnot ((readyIn_plain hk ((control_of_part hk).trans hplain)).mpr ?_)
    intro p hp
    obtain ⟨y, hy, -, hready⟩ := hinput p hp
    exact ⟨y, hy, hready t _ (hall p hp y hy)⟩
  refine ⟨Nat.le_of_not_lt fun hlt => ?_, fun hpos => ?_, ?_⟩
  · obtain ⟨p, -, y, -, hnot⟩ := hmissed 1 hlt
    exact hnot (.inl one_pos)
  · obtain ⟨p, hp, y, hy, hnot⟩ := hmissed 0 hpos
    exact ⟨p, hitf ▸ hp, y, hy, Nat.lt_of_not_le fun hle => hnot (.inr hle)⟩
  · rintro ⟨p, hp, y, hy, hlt⟩
    obtain ⟨y', hy', hlater, -⟩ := hinput p (hitf ▸ hp)
    obtain rfl := Option.some.inj (hy.symm.trans hy')
    exact hlater.resolve_right (Nat.not_le.mpr hlt)

end

/-- **Who is in time.** The module reads data from the control module; or that gets done in the
first pass; or in the second one, in which the module is still waiting for one behind it. -/
theorem inTime_iff (hk : l.parts[m]? = some part) (hbehind : l.ctrl < m)
    (hplain : (l.binary m).control = none) :
    l.InTime m ↔ l.Awaits m (· = l.ctrl) ∨ l.Early ∨
      ((l.lib.ctrlInit 1).1 ≠ 0 ∧ l.Awaits m (m < ·)) := by
  obtain ⟨part', hc⟩ := l.exists_ctrl hk hbehind
  obtain ⟨t1, h1⟩ := l.complete hc
  obtain ⟨t2, h2⟩ := l.complete hk
  have hinTime : l.InTime m ↔ t1 ≤ t2 := by
    simp [InTime, h1, h2]
  obtain ⟨hearly, hsecond⟩ := pass_ctrl_iff hsingle hc h1
  rw [hinTime]
  by_cases hawaits : l.Awaits m (· = l.ctrl)
  · refine iff_of_true ?_ (.inl hawaits)
    obtain ⟨p, hp, y, hy, heq⟩ := hawaits
    obtain ⟨y', hy', ⟨-, hle⟩ | ⟨hne, -⟩⟩ :=
      input_of_pass hsingle hk hplain h1 h2 (nofInputItf_of_part hk ▸ hp)
    · exact hle
    · obtain rfl := Option.some.inj (hy.symm.trans hy')
      exact absurd heq hne
  · obtain ⟨hle, hlater⟩ := pass_iff_of_not_awaits hsingle hk hplain h1 h2 hawaits
    rw [or_iff_right hawaits, ← hlater, ← hearly]
    have hwilling : t1 ≤ 1 ↔ t1 = 0 ∨ (l.lib.ctrlInit 1).1 ≠ 0 := by rw [hsecond, hearly]
    by_cases hw : (l.lib.ctrlInit 1).1 ≠ 0
    · have hone : t1 ≤ 1 := hwilling.mpr (.inr hw)
      omega
    · rw [or_iff_left hw] at hwilling
      omega

end

end Single

end Launch

/-- **Control inputs are attached exactly if the control module is done in time**, with the output
opened and an input to spare. The output is opened where `nof_output_data_itf` is right; among plain
modules, the graph and the answers of `ctrl_init` say who is in time. -/
theorem control_attached (l : Launch) (m : ℕ) :
    (l.Receives m → (l.Attached m ↔ l.Spare m ∧ l.Opened m ∧ l.InTime m)) ∧
      (l.Receives m → l.Configured → l.Opened m) ∧
      (l.Receives m → l.Single → (l.InTime m ↔ l.Awaits m (· = l.ctrl) ∨ l.Early ∨
        ((l.lib.ctrlInit 1).1 ≠ 0 ∧ l.Awaits m (m < ·)))) := by
  refine ⟨fun h => ?_, Launch.Receives.opened, fun h hsingle => ?_⟩
  · obtain ⟨part, hk⟩ := h.exists_part
    exact Launch.attached_iff hk h.behind h.plain
  · obtain ⟨part, hk⟩ := h.exists_part
    exact Launch.inTime_iff hsingle hk h.behind h.plain

/-! ## A model -/

/-- Control module `a` and plain modules `b` and `c`, with these data interfaces. -/
def launchModel (ends : List (String × String)) : Manager.Setting :=
  controlledModel ["a", "b", "c"] ends

def launchWaveform (ends : List (String × String)) : Manager.PWaveform :=
  (Manager.waveformParse (Manager.modelEnv (launchModel ends)) 1 true
    (Manager.newWaveform "ctrl".toList)).toOption.getD (Manager.newWaveform [])

/-- The control module is always willing and has a parameter for `b`. -/
def launchLib : Library := ⟨[], fun _ => (1, [⟨"b".toList, "x".toList, 4⟩]), 0⟩

def launchBinary (i : ℕ) : Binary :=
  ⟨true, 0, 1, 0, 0, fun _ => 0, ⟨0, maxModes_pos⟩, if i = 0 then some launchLib else none⟩

def launchParts (ends : List (String × String)) : List Part :=
  deploy (launchWaveform ends) launchBinary

def launchWorld (ends : List (String × String)) : World where
  state := Skeleton.loadedState
  vars := fun _ => [oneVariable "x"]
  memory := fun i => ⟨0, [], [], [], [], 0,
    (((launchParts ends)[i]?).map fun part => part.module.outputs).getD []⟩

def launchRun (ends : List (String × String)) : EStateM.Result Exit World Bool :=
  nodWaveformStatusInitThread ⟨fun _ => true, fun _ => true⟩ (launchParts ends) (launchWorld ends)

lemma launchWorld_loaded (ends : List (String × String)) :
    LoadedWorld (launchParts ends) (launchWorld ends) where
  state := {
    registered := fun m hm => by
      obtain ⟨part, hpart, rfl⟩ := mem_map.mp hm
      obtain ⟨i, hi⟩ := mem_iff_getElem?.mp hpart
      rw [launchParts, deploy_getElem?] at hi
      obtain ⟨pm, -, rfl⟩ := Option.map_eq_some_iff.mp hi
      rfl
    status := fun _ => rfl
    hwInput := fun _ _ => rfl
    hwOutput := fun _ _ => rfl
    inputs := fun _ _ => rfl
    outputs := fun _ _ => rfl
    memOk := fun _ => rfl
    checkOk := fun _ => rfl }
  calls := fun _ => rfl
  db := fun _ => rfl
  interfaces := fun i part hi => by
    change (((launchParts ends)[i]?).map fun part => part.module.outputs).getD [] = _
    rw [hi]
    rfl
  vars := fun i v hv => by cases hv

def launch (ends : List (String × String)) (final : World)
    (hparsed : Manager.waveformParse (Manager.modelEnv (launchModel ends)) 1 true
      (Manager.newWaveform "ctrl".toList) = .ok (launchWaveform ends))
    (hauto : (launchWaveform ends).autoCtrlModule = some 0)
    (hrun : launchRun ends = .ok true final) : Launch where
  env := Manager.modelEnv (launchModel ends)
  fuel := 1
  file := "ctrl".toList
  waveform := launchWaveform ends
  parsed := hparsed
  ctrl := 0
  auto := hauto
  binary := launchBinary
  lib := launchLib
  control := rfl
  runtime := ⟨fun _ => true, fun _ => true⟩
  world := launchWorld ends
  loaded := launchWorld_loaded ends
  final := final
  completes := hrun

/-- Whether a run succeeds with a parameter for `b`, and `ctrl_in` of `b` as it should be. -/
def launchEnds (ends : List (String × String)) (ctrlIn : Bool) : Bool :=
  match launchRun ends with
  | .ok b g => b && ((g.state.modules 1).ctrlIn == ctrlIn) &&
      (g.memory 0).remoteParamsDb.any fun p =>
        oesrGetModuleIdx (launchParts ends) p.moduleName = some 1
  | .error _ _ => false

lemma exists_launch (ends : List (String × String)) (ctrlIn : Bool)
    (hparsed : waveformParse (modelEnv (launchModel ends)) 1 true
      (newWaveform "ctrl".toList) = .ok (launchWaveform ends))
    (hauto : (launchWaveform ends).autoCtrlModule = some 0) (h : launchEnds ends ctrlIn = true) :
    ∃ final hrun, (launch ends final hparsed hauto hrun).Receives 1 ∧
      (final.state.modules 1).ctrlIn = ctrlIn := by
  obtain ⟨r, hrun⟩ : ∃ r, launchRun ends = r := ⟨_, rfl⟩
  rw [launchEnds, hrun] at h
  cases r with
  | error e g => cases h
  | ok b g =>
    simp only [Bool.and_eq_true, beq_iff_eq, any_eq_true, decide_eq_true_iff] at h
    obtain ⟨⟨rfl, hctrl⟩, p, hp, hname⟩ := h
    exact ⟨g, hrun, ⟨Nat.zero_lt_one, rfl, p, hp, hname⟩, hctrl⟩

theorem control_attached_b : ∃ l : Launch, l.Receives 1 ∧ l.Attached 1 := by
  obtain ⟨final, hrun, hreceives, -⟩ :=
    exists_launch [("b", "c")] true rfl rfl (by decide +kernel)
  refine ⟨_, hreceives, ?_⟩
  obtain ⟨hattached, hopened, hinTime⟩ :=
    control_attached (launch [("b", "c")] final rfl rfl hrun) 1
  refine (hattached hreceives).mpr ⟨Nat.zero_le _, hopened hreceives ?_,
    (hinTime hreceives fun k hk => if_neg hk).mpr (.inr (.inl ⟨one_ne_zero, ?_⟩))⟩
  · intro part hpart
    have hparam : ((launchParts [("b", "c")])[0]?).map (fun part =>
        (nofOutputDataItf (launchWorld [("b", "c")]) 0 part).toInt) = some 0 := by decide +kernel
    rw [show (launchParts [("b", "c")])[0]? = some part from hpart] at hparam
    exact Option.some.inj hparam
  · intro y hy
    have hfeeder : feeder ((launchParts [("b", "c")]).map Part.module) (0, 0) = none := by
      decide +kernel
    cases hfeeder.symm.trans hy

theorem control_unattached :
    ∃ l : Launch, l.waveform = launchWaveform [("c", "a")] ∧ l.Receives 1 ∧ ¬ l.Attached 1 := by
  obtain ⟨final, hrun, hreceives, hctrl⟩ :=
    exists_launch [("c", "a")] false rfl rfl (by decide +kernel)
  exact ⟨_, rfl, hreceives, fun hattached => by cases hctrl.symm.trans hattached.1⟩

end Aloe.Oesr.CtrlSkeleton
