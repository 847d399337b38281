import Mathlib.Data.Finset.Card
import Aloe.Manager.ParserRuns

/-!
# The connections of a parsed waveform

What the two port tables of a parsed model say to each other. The automatic control
connections and the final cut of the tables are followed on the views `output` and
`input`, which show a port only below its counter. `parse_reciprocal_iff` states when the
tables are reciprocal and point-to-point, in terms of the interface entries alone.
-/

namespace Aloe.Manager

open Lib List Finset Option Link

/-! ## Views of the tables -/

def view (table : Option (List Port)) (n p : ℕ) : Option (ℤ × ℤ) :=
  if p < n then (table.bind (·[p]?)).map Port.ref else none

/-- `modules[i].outputs[p]`, the module and the port it leads to. -/
def output (w : PWaveform) (i p : ℕ) : Option (ℤ × ℤ) :=
  (w.modules[i]?).bind fun m => view m.outputs m.nofOutputs p

/-- `modules[k].inputs[q]`, the module and the port that feed it. -/
def input (w : PWaveform) (k q : ℕ) : Option (ℤ × ℤ) :=
  (w.modules[k]?).bind fun m => view m.inputs m.nofInputs q

def idOf (w : PWaveform) (i : ℕ) : ℕ := ((w.modules[i]?).map PModule.id).getD 0

def nofOutputsOf (w : PWaveform) (i : ℕ) : ℕ := ((w.modules[i]?).map PModule.nofOutputs).getD 0

def nofInputsOf (w : PWaveform) (k : ℕ) : ℕ := ((w.modules[k]?).map PModule.nofInputs).getD 0

structure Reciprocal (w : PWaveform) : Prop where
  /-- Every entry between two modules stands in both tables, below their counters. -/
  entered : ∀ l ∈ w.links, ∀ i k, l.src = some i → l.dest = some k →
    output w i l.srcPort = some ((idOf w k : ℤ), (l.destPort : ℤ)) ∧
      input w k l.destPort = some ((idOf w i : ℤ), (l.srcPort : ℤ))
  mirrored : ∀ i k p q : ℕ, i < w.modules.length → k < w.modules.length →
    (output w i p = some ((idOf w k : ℤ), (q : ℤ)) ↔ input w k q = some ((idOf w i : ℤ), (p : ℤ)))
  /-- No two entries between modules share an output port or an input port. -/
  entries_once : w.links.Pairwise fun l l' => ∀ i i' k k', l.src = some i → l.dest = some k →
    l'.src = some i' → l'.dest = some k' →
    (i, l.srcPort) ≠ (i', l'.srcPort) ∧ (k, l.destPort) ≠ (k', l'.destPort)
  /-- No two output ports lead to one input port. -/
  outputs_once : ∀ i i' p p' k q : ℕ, i < w.modules.length → i' < w.modules.length →
    k < w.modules.length → output w i p = some ((idOf w k : ℤ), (q : ℤ)) →
    output w i' p' = some ((idOf w k : ℤ), (q : ℤ)) → i = i' ∧ p = p'
  /-- No two input ports are fed by one output port. -/
  inputs_once : ∀ k k' q q' i p : ℕ, k < w.modules.length → k' < w.modules.length →
    i < w.modules.length → input w k q = some ((idOf w i : ℤ), (p : ℤ)) →
    input w k' q' = some ((idOf w i : ℤ), (p : ℤ)) → k = k' ∧ q = q'

section Views

variable {ports : List Port} {n p : ℕ}

lemma view_push {port : Port} (hn : n < ports.length) : view (some (ports.set n port)) (n + 1) p =
      if p = n then some port.ref else view (some ports) n p := by
  unfold view
  rcases lt_trichotomy p n with hlt | rfl | hgt
  · rw [if_pos (Nat.lt_succ_of_lt hlt), if_neg (ne_of_lt hlt), if_pos hlt, bind_some,
      bind_some, getElem?_set_ne (ne_of_gt hlt)]
  · rw [if_pos (Nat.lt_succ_self p), if_pos rfl, bind_some, getElem?_set_self hn]
    rfl
  · rw [if_neg (by omega), if_neg (ne_of_gt hgt), if_neg (by omega)]

lemma closeTable_view {env : Env} {table table' : Option (List Port)} {first : ℕ}
    (h : closeTable env table n first = .ok table') :
    view table' n p = view table n p ∧ (p < n → (view table n p).isSome = true) := by
  unfold closeTable at h
  split at h
  · next hzero =>
    cases h
    exact ⟨rfl, fun hp => absurd hp (by omega)⟩
  · split at h
    · cases h
    · next ports =>
      split at h
      · cases h
      · next hlen =>
        cases h
        unfold view
        split
        · next hp =>
          have hlt : p < ports.length := by omega
          rw [bind_some, bind_some, reallocPorts,
            getElem?_append_left (by simp; omega), getElem?_take_of_lt hp,
            getElem?_mapIdx, getElem?_eq_getElem hlt]
          refine ⟨?_, fun _ => rfl⟩
          simp only [map_some, if_pos hp]
          rfl
        · exact ⟨rfl, fun hp => absurd hp ‹_›⟩

end Views

/-! ## The automatic control connections -/

section Ctrl

variable {w w' : PWaveform} {c i j k p q : ℕ} {m : PModule}

lemma output_setModule (hi : i < w.modules.length) : output (setModule w i m) j p =
      if i = j then view m.outputs m.nofOutputs p else output w j p := by
  unfold output
  rw [modules_setModule]
  split
  · next heq =>
    subst heq
    simp [hi]
  · rfl

lemma input_setModule (hi : i < w.modules.length) : input (setModule w i m) k q =
      if i = k then view m.inputs m.nofInputs q else input w k q := by
  unfold input
  rw [modules_setModule]
  split
  · next heq =>
    subst heq
    simp [hi]
  · rfl

lemma field_setModule (f : PModule → ℕ) (hi : i < w.modules.length) :
    (((setModule w i m).modules[j]?).map f).getD 0 =
      if i = j then f m else ((w.modules[j]?).map f).getD 0 := by
  rw [modules_setModule]
  split
  · next heq =>
    subst heq
    simp [hi]
  · rfl

structure Wired (c i : ℕ) (w w' : PWaveform) : Prop where
  frame : SameFrame w w'
  id_eq : ∀ j, idOf w' j = idOf w j
  nofOutputs : ∀ j, nofOutputsOf w' j = if j = c then nofOutputsOf w c + 1 else nofOutputsOf w j
  nofInputs : ∀ k, nofInputsOf w' k = if k = i then nofInputsOf w i + 1 else nofInputsOf w k
  output_eq : ∀ j p, output w' j p = if j = c ∧ p = nofOutputsOf w c then
    some ((idOf w i : ℤ), (nofInputsOf w i : ℤ)) else output w j p
  input_eq : ∀ k q, input w' k q = if k = i ∧ q = nofInputsOf w i then
    some ((idOf w c : ℤ), (nofOutputsOf w c : ℤ)) else input w k q

/-- **Step lemma.** -/
theorem connectCtrl_wired (hne : c ≠ i) (h : connectCtrl c w i = .ok w') : Wired c i w w' := by
  obtain ⟨ctrl, hctrl, h⟩ := bind_eq_ok.mp h
  obtain ⟨m, hm, h⟩ := bind_eq_ok.mp h
  obtain ⟨outPort, hout, h⟩ := bind_eq_ok.mp h
  obtain ⟨inPort, hin, h⟩ := bind_eq_ok.mp h
  obtain ⟨outs, houts, hout⟩ := portAt_ok.mp hout
  obtain ⟨ins, hins, hin⟩ := portAt_ok.mp hin
  rw [moduleAt_ok] at hctrl hm
  cases h
  have hc := (List.getElem?_eq_some_iff.mp hctrl).1
  have hi := (List.getElem?_eq_some_iff.mp hm).1
  have hi' : ∀ m, i < (setModule w c m).modules.length := fun m => by simpa [setModule] using hi
  have hnofOut : nofOutputsOf w c = ctrl.nofOutputs := by simp [nofOutputsOf, hctrl]
  have hnofIn : nofInputsOf w i = m.nofInputs := by simp [nofInputsOf, hm]
  have hidc : idOf w c = ctrl.id := by simp [idOf, hctrl]
  have hidi : idOf w i = m.id := by simp [idOf, hm]
  have hfield : ∀ (f : PModule → ℕ) j m1 m2,
      (((setModule (setModule w c m1) i m2).modules[j]?).map f).getD 0 =
        if i = j then f m2 else if c = j then f m1 else ((w.modules[j]?).map f).getD 0 := by
    intro f j m1 m2
    rw [field_setModule f (hi' _), field_setModule f hc]
  refine ⟨⟨rfl, rfl, by simp [setModule], rfl⟩, ?_, ?_, ?_, ?_, ?_⟩
  · intro j
    rw [idOf, hfield]
    rcases eq_or_ne i j with rfl | hij
    · simp [hidi]
    · rcases eq_or_ne c j with rfl | hcj
      · simp [hij, hidc]
      · simp [hij, hcj, idOf]
  · intro j
    rw [nofOutputsOf, hfield]
    rcases eq_or_ne i j with rfl | hij
    · simp [hne.symm, nofOutputsOf, hm]
    · rcases eq_or_ne c j with rfl | hcj
      · simp [hij, hnofOut]
      · simp [hij, hcj, hcj.symm, nofOutputsOf]
  · intro k
    rw [nofInputsOf, hfield]
    rcases eq_or_ne i k with rfl | hik
    · simp [hnofIn]
    · rcases eq_or_ne c k with rfl | hck
      · simp [hik, hne, nofInputsOf, hctrl]
      · simp [hik, hik.symm, hck, nofInputsOf]
  · intro j p
    rw [output_setModule (hi' _), output_setModule hc, hnofOut, hidi, hnofIn]
    rcases eq_or_ne i j with rfl | hij
    · simp [hne.symm, output, hm]
    · rcases eq_or_ne c j with rfl | hcj
      · have hlt := (List.getElem?_eq_some_iff.mp hout).1
        simp only [if_neg hij, if_true, houts, map_some, view_push hlt, true_and, output,
          hctrl, bind_some]
        rfl
      · simp [hij, hcj, hcj.symm]
  · intro k q
    rw [input_setModule (hi' _), input_setModule hc, hnofIn, hidc, hnofOut]
    rcases eq_or_ne i k with rfl | hik
    · have hlt := (List.getElem?_eq_some_iff.mp hin).1
      simp only [if_true, hins, map_some, view_push hlt, true_and, input, hm, bind_some]
      rfl
    · rcases eq_or_ne c k with rfl | hck
      · simp [hik, hne, input, hctrl]
      · simp [hik, hik.symm, hck]

/-- What the loop over the modules from `i` on does: one connection to each. -/
structure WiredAll (c i len : ℕ) (w w' : PWaveform) : Prop where
  frame : SameFrame w w'
  id_eq : ∀ j, idOf w' j = idOf w j
  nofOutputs_le : ∀ j, nofOutputsOf w j ≤ nofOutputsOf w' j
  nofInputs_le : ∀ k, nofInputsOf w k ≤ nofInputsOf w' k
  output_eq : ∀ j p, output w' j p =
    if j = c ∧ nofOutputsOf w c ≤ p ∧ p < nofOutputsOf w c + len then
      some ((idOf w (i + (p - nofOutputsOf w c)) : ℤ),
        (nofInputsOf w (i + (p - nofOutputsOf w c)) : ℤ))
    else output w j p
  input_eq : ∀ k q, input w' k q =
    if i ≤ k ∧ k < i + len ∧ q = nofInputsOf w k then
      some ((idOf w c : ℤ), ((nofOutputsOf w c + (k - i) : ℕ) : ℤ))
    else input w k q

/-- **Run lemma.** -/
theorem connectCtrl_wiredAll {len : ℕ} (hlt : c < i)
    (h : (List.range' i len).foldlM (connectCtrl c) w = .ok w') : WiredAll c i len w w' := by
  induction len generalizing i w with
  | zero =>
    cases h
    refine ⟨⟨rfl, rfl, rfl, rfl⟩, fun _ => rfl, fun _ => le_refl _, fun _ => le_refl _, ?_, ?_⟩
    · intro j p
      rw [if_neg (by omega)]
    · intro k q
      rw [if_neg (by omega)]
  | succ len ih =>
    obtain ⟨w1, hfirst, hrest⟩ := foldlM_cons_ok.mp h
    have hw := connectCtrl_wired (ne_of_lt hlt) hfirst
    have hall := ih (Nat.lt_succ_of_lt hlt) hrest
    have hcount : nofOutputsOf w1 c = nofOutputsOf w c + 1 := by rw [hw.nofOutputs, if_pos rfl]
    have hinputs : ∀ k, i < k → nofInputsOf w1 k = nofInputsOf w k := by
      intro k hk
      rw [hw.nofInputs, if_neg (ne_of_gt hk)]
    refine ⟨?_, fun j => (hall.id_eq j).trans (hw.id_eq j), ?_, ?_, ?_, ?_⟩
    · have h1 := hw.frame
      have h2 := hall.frame
      exact ⟨h2.parsed.trans h1.parsed, h2.links.trans h1.links, h2.length.trans h1.length,
        h2.ctrl.trans h1.ctrl⟩
    · intro j
      refine le_trans ?_ (hall.nofOutputs_le j)
      rw [hw.nofOutputs]
      split
      · next heq => exact heq ▸ Nat.le_succ _
      · exact le_refl _
    · intro k
      refine le_trans ?_ (hall.nofInputs_le k)
      rw [hw.nofInputs]
      split
      · next heq => exact heq ▸ Nat.le_succ _
      · exact le_refl _
    · intro j p
      rw [hall.output_eq, hw.output_eq, hcount]
      rcases lt_trichotomy p (nofOutputsOf w c) with hp | hp | hp
      · rw [if_neg (by omega), if_neg (by omega), if_neg (by omega)]
      · subst hp
        rw [if_neg (by omega), Nat.sub_self, Nat.add_zero]
        exact if_congr (by omega) rfl rfl
      · have hidx : i + 1 + (p - (nofOutputsOf w c + 1)) = i + (p - nofOutputsOf w c) := by omega
        rw [hidx, hw.id_eq, hinputs _ (by omega), if_neg (c := j = c ∧ p = _) (by omega)]
        exact if_congr (by omega) rfl rfl
    · intro k q
      rw [hall.input_eq, hw.input_eq, hcount, hw.id_eq]
      rcases lt_trichotomy k i with hk | rfl | hk
      · rw [if_neg (by omega), if_neg (by omega), if_neg (by omega)]
      · rw [if_neg (by omega), Nat.sub_self, Nat.add_zero]
        exact if_congr (by omega) rfl rfl
      · grind

end Ctrl

/-! ## The tables of the parsed model -/

section Final

variable {env : Env} {w w' : PWaveform} {i k p q : ℕ} {links : List Link}

/-- What the entries leave in an output port. Only the control module's table can be
extended past its first ports, by memory that nobody has written. -/
def entryOutput (ctrl : Option ℕ) (links : List Link) (junk : ℤ × ℤ) (i p : ℕ) :
    Option (ℤ × ℤ) :=
  if p < outCount links i then
    if p < itfPrealloc then some (outValue links i p)
    else if ctrl = some i then some junk else none
  else none

def entryInput (links : List Link) (k q : ℕ) : Option (ℤ × ℤ) :=
  if q < inCount links k ∧ q ≤ itfPrealloc then some (inValue links k q) else none

lemma Table.view_eq {size n : ℕ} {table : Option (List Port)} (h : Table links i size table n) :
    view table n p =
      if p < outCount links i ∧ p < size then some (outValue links i p) else none := by
  obtain ⟨ports, rfl, hlen, hvalue⟩ := h.ports
  rw [view, h.count_eq, bind_some]
  by_cases hp : p < ports.length
  · rw [getElem?_eq_getElem hp, map_some, hvalue p ports[p] (getElem?_eq_getElem hp)]
    exact if_congr (by omega) rfl rfl
  · rw [getElem?_eq_none (by omega), if_neg (c := _ ∧ _) (by omega)]
    exact ite_self _

lemma Parsed.exists_read (h : Parsed w) (hi : i < w.modules.length) :
    ∃ m, w.modules[i]? = some m ∧ Read w.links w.links i m :=
  ⟨_, getElem?_eq_getElem hi,
    h.tables.slots.read i _ (getElem?_eq_getElem hi) (h.all_read.symm ▸ hi)⟩

lemma Parsed.output_eq (h : Parsed w) (hi : i < w.modules.length) :
    output w i p = entryOutput none w.links (0, 0) i p := by
  obtain ⟨m, hm, hread⟩ := h.exists_read hi
  rw [output, hm, bind_some, hread.outputs.view_eq, entryOutput, ite_and]
  rfl

lemma Parsed.input_eq (h : Parsed w) (hk : k < w.modules.length) :
    input w k q = entryInput w.links k q := by
  obtain ⟨m, hm, hread⟩ := h.exists_read hk
  rw [input, hm, bind_some, hread.inputs.view_eq]
  exact if_congr (by rw [inCount, Nat.lt_succ_iff]) rfl rfl

structure Configured (w₀ w : PWaveform) (junk : ℤ × ℤ) : Prop where
  links_eq : w.links = w₀.links
  length_eq : w.modules.length = w₀.modules.length
  id_eq : ∀ i, i < w.modules.length → idOf w i = i + 1
  nofOutputs_le : ∀ i, i < w.modules.length → outCount w.links i ≤ nofOutputsOf w i
  nofInputs_le : ∀ k, k < w.modules.length → inCount w.links k ≤ nofInputsOf w k
  output_eq : ∀ i p, i < w.modules.length → output w i p =
    if w.autoCtrlModule = some i ∧ outCount w.links i ≤ p ∧
        p < outCount w.links i + (w.modules.length - (i + 1)) then
      some (((i + 1 + (p - outCount w.links i) + 1 : ℕ) : ℤ),
        (inCount w.links (i + 1 + (p - outCount w.links i)) : ℤ))
    else entryOutput w.autoCtrlModule w.links junk i p
  input_eq : ∀ k q, k < w.modules.length → input w k q =
    match w.autoCtrlModule with
    | some c => if c < k ∧ q = inCount w.links k then
        some (((c + 1 : ℕ) : ℤ), ((outCount w.links c + (k - (c + 1)) : ℕ) : ℤ))
      else entryInput w.links k q
    | none => entryInput w.links k q

section Configure

variable {w0 : PWaveform} {c : ℕ} {junk : ℤ × ℤ}

lemma Parsed.idOf_eq (h : Parsed w) (hi : i < w.modules.length) : idOf w i = i + 1 := by
  obtain ⟨m, hm, hread⟩ := h.exists_read hi
  simp [idOf, hm, hread.id_eq]

lemma Parsed.nofOutputsOf_eq (h : Parsed w) (hi : i < w.modules.length) :
    nofOutputsOf w i = outCount w.links i := by
  obtain ⟨m, hm, hread⟩ := h.exists_read hi
  simp [nofOutputsOf, hm, hread.outputs.count_eq]

lemma Parsed.nofInputsOf_eq (h : Parsed w) (hk : k < w.modules.length) :
    nofInputsOf w k = inCount w.links k := by
  obtain ⟨m, hm, hread⟩ := h.exists_read hk
  simp [nofInputsOf, hm, hread.inputs.count_eq, inCount]

lemma Parsed.configured (h : Parsed w0) (hm : w.modules = w0.modules)
    (hl : w.links = w0.links) (hc : w.autoCtrlModule = none) : Configured w0 w junk where
  links_eq := hl
  length_eq := by rw [hm]
  id_eq i hi := by
    rw [hm] at hi
    rw [idOf, hm]
    exact h.idOf_eq hi
  nofOutputs_le i hi := by
    rw [hm] at hi
    rw [nofOutputsOf, hm, hl]
    exact le_of_eq (h.nofOutputsOf_eq hi).symm
  nofInputs_le k hk := by
    rw [hm] at hk
    rw [nofInputsOf, hm, hl]
    exact le_of_eq (h.nofInputsOf_eq hk).symm
  output_eq i p hi := by
    rw [hm] at hi
    rw [hc, if_neg (by simp), output, hm, hl]
    exact h.output_eq hi
  input_eq k q hk := by
    rw [hm] at hk
    rw [hc, input, hm, hl]
    exact h.input_eq hk

lemma getElem?_room {ports rest : List Port} {port : Port} {n : ℕ} (hp : p < n) :
    (reallocPorts port ports n ++ rest)[p]? =
      if p < ports.length then ports[p]? else some port := by
  have hlen : (reallocPorts port ports n).length = min n ports.length + (n - ports.length) := by
    simp [reallocPorts]
  rw [getElem?_append_left (by omega), reallocPorts]
  split
  · rw [getElem?_append_left (by rw [length_take]; omega), getElem?_take_of_lt hp]
  · rw [getElem?_append_right (by rw [length_take]; omega), getElem?_replicate,
      if_pos (by rw [length_take]; omega)]

lemma Parsed.output_room (h : Parsed w) {m : PModule} {ports rest : List Port}
    (hm : w.modules[c]? = some m) (hports : m.outputs = some ports) :
    view (some (reallocPorts env.junk ports m.nofOutputs ++ rest)) m.nofOutputs p =
      entryOutput (some c) w.links env.junk.ref c p := by
  have hc := (List.getElem?_eq_some_iff.mp hm).1
  have hread := h.tables.slots.read c m hm (h.all_read.symm ▸ hc)
  obtain ⟨_, htable, hlen, hvalue⟩ := hread.outputs.ports
  rw [hports] at htable
  cases htable
  rw [view, entryOutput, hread.outputs.count_eq]
  split
  · next hp =>
    rw [bind_some, getElem?_room hp, if_pos rfl, hlen]
    split
    · grind
    · rfl
  · rfl

lemma field_setModule_same (f : PModule → ℕ) {m m' : PModule} (hm : w.modules[c]? = some m)
    (hf : f m' = f m) (j : ℕ) :
    (((setModule w c m').modules[j]?).map f).getD 0 = ((w.modules[j]?).map f).getD 0 := by
  rw [field_setModule f (List.getElem?_eq_some_iff.mp hm).1]
  split
  · next heq =>
    subst heq
    simp [hm, hf]
  · rfl

structure Extended (c : ℕ) (junk : ℤ × ℤ) (w₀ w : PWaveform) : Prop where
  links_eq : w.links = w₀.links
  length_eq : w.modules.length = w₀.modules.length
  ctrl_eq : w.autoCtrlModule = some c
  id_eq : ∀ j, idOf w j = idOf w₀ j
  nofOutputs_eq : ∀ j, nofOutputsOf w j = nofOutputsOf w₀ j
  nofInputs_eq : ∀ j, nofInputsOf w j = nofInputsOf w₀ j
  output_eq : ∀ j p, output w j p =
    if c = j then entryOutput (some c) w₀.links junk c p else output w₀ j p
  input_eq : ∀ k q, input w k q = input w₀ k q

section

variable (h : Parsed w0) (hm : w.modules = w0.modules) (hl : w.links = w0.links)
  (hc : w.autoCtrlModule = some c) (hok : connectAutoCtrl env w c = .ok w')
include h hm hl hc hok

lemma connectAutoCtrl_ok : c < w0.modules.length ∧ ∃ w1, Extended c env.junk.ref w0 w1 ∧
      WiredAll c (c + 1) (w1.modules.length - (c + 1)) w1 w' := by
  obtain ⟨m, hmod, hok⟩ := bind_eq_ok.mp hok
  have hmod := moduleAt_ok.mp hmod
  have hmod0 : w0.modules[c]? = some m := hm ▸ hmod
  have hclt := (List.getElem?_eq_some_iff.mp hmod).1
  have hclt0 := (List.getElem?_eq_some_iff.mp hmod0).1
  have hindex := (h.tables.slots.read c m hmod0 (h.all_read.symm ▸ hclt0)).index_eq
  split at hok
  · cases hok
  · next ports hports =>
    have hall := connectCtrl_wiredAll (hindex ▸ Nat.lt_succ_self c) hok
    rw [show m.index + 1 = c + 1 by rw [hindex]] at hall
    refine ⟨hclt0, _, ?_, hall⟩
    refine ⟨hl, by simp [setModule, hm], hc, ?_, ?_, ?_, ?_, ?_⟩
    · intro j
      rw [idOf, idOf, ← hm]
      refine field_setModule_same PModule.id hmod ?_ j
      rfl
    · intro j
      rw [nofOutputsOf, nofOutputsOf, ← hm]
      refine field_setModule_same PModule.nofOutputs hmod ?_ j
      rfl
    · intro j
      rw [nofInputsOf, nofInputsOf, ← hm]
      refine field_setModule_same PModule.nofInputs hmod ?_ j
      rfl
    · intro j p
      rw [output_setModule hclt]
      refine if_congr Iff.rfl (h.output_room hmod0 hports) ?_
      rw [output, output, hm]
    · intro k q
      rw [input_setModule hclt, input, input, ← hm]
      split
      · next heq =>
        subst heq
        rw [hmod]
        rfl
      · rfl

lemma connectAutoCtrl_configured : Configured w0 w' env.junk.ref := by
  obtain ⟨hclt, w1, hext, hall⟩ := connectAutoCtrl_ok h hm hl hc hok
  have hlinks : w'.links = w0.links := hall.frame.links.trans hext.links_eq
  have hlen : w'.modules.length = w0.modules.length := hall.frame.length.trans hext.length_eq
  have hctrl : w'.autoCtrlModule = some c := hall.frame.ctrl.trans hext.ctrl_eq
  have hn : nofOutputsOf w1 c = outCount w0.links c :=
    (hext.nofOutputs_eq c).trans (h.nofOutputsOf_eq hclt)
  refine ⟨hlinks, hlen, ?_, ?_, ?_, ?_, ?_⟩
  · intro i hi
    rw [hall.id_eq, hext.id_eq]
    exact h.idOf_eq (hlen ▸ hi)
  · intro i hi
    rw [hlinks, ← h.nofOutputsOf_eq (hlen ▸ hi), ← hext.nofOutputs_eq]
    exact hall.nofOutputs_le i
  · intro k hk
    rw [hlinks, ← h.nofInputsOf_eq (hlen ▸ hk), ← hext.nofInputs_eq]
    exact hall.nofInputs_le k
  · intro i p hi
    rw [hlen] at hi
    rw [hall.output_eq, hctrl, hlinks, hlen, hn, hext.length_eq, hext.output_eq]
    by_cases heq : i = c
    · subst heq
      rw [if_pos (c := i = i) rfl]
      by_cases hrange : outCount w0.links i ≤ p ∧
          p < outCount w0.links i + (w0.modules.length - (i + 1))
      · have hlt : i + 1 + (p - outCount w0.links i) < w0.modules.length := by omega
        rw [if_pos ⟨rfl, hrange⟩, if_pos ⟨rfl, hrange⟩, hext.id_eq, hext.nofInputs_eq,
          h.idOf_eq hlt, h.nofInputsOf_eq hlt]
      · rw [if_neg fun hr => hrange hr.2, if_neg fun hr => hrange hr.2]
    · have hne : (some c : Option ℕ) ≠ some i := fun hsome => heq (some.inj hsome).symm
      rw [if_neg fun hr => heq hr.1, if_neg (Ne.symm heq), if_neg fun hr => hne hr.1,
        h.output_eq hi, entryOutput, entryOutput, if_neg hne]
      rfl
  · intro k q hk
    rw [hlen] at hk
    rw [hall.input_eq, hctrl, hlinks, hn, hext.length_eq, hext.input_eq, hext.nofInputs_eq,
      hext.id_eq, h.nofInputsOf_eq hk, h.idOf_eq hclt, h.input_eq hk]
    exact if_congr (by omega) rfl rfl

end

lemma waveformMainConfig_configured {cfg : Option Setting} (h : Parsed w0)
    (hok : waveformMainConfig env w0 cfg = .ok w) : Configured w0 w env.junk.ref := by
  unfold waveformMainConfig at hok
  cases cfg with
  | none =>
    cases hok
    exact h.configured rfl rfl h.no_ctrl
  | some cfg =>
    simp only at hok
    split at hok
    · cases hok
      exact h.configured rfl rfl rfl
    · split at hok
      · cases hok
      · refine connectAutoCtrl_configured h ?_ ?_ ?_ hok <;> rfl

end Configure

/-- What port `p` of module `i` holds: what an entry has left, or a connection of the control
module. -/
abbrev OutputHolds (w : PWaveform) (junk : ℤ × ℤ) (i p : ℕ) (v : ℤ × ℤ) : Prop :=
  (p < outCount w.links i ∧ v = if p < itfPrealloc then outValue w.links i p else junk) ∨
    ∃ k, w.autoCtrlModule = some i ∧ i < k ∧ k < w.modules.length ∧
      p = outCount w.links i + (k - (i + 1)) ∧ v = (((k + 1 : ℕ) : ℤ), (inCount w.links k : ℤ))

abbrev InputHolds (w : PWaveform) (k q : ℕ) (v : ℤ × ℤ) : Prop :=
  (q < inCount w.links k ∧ v = inValue w.links k q) ∨
    ∃ c, w.autoCtrlModule = some c ∧ c < k ∧ q = inCount w.links k ∧
      v = (((c + 1 : ℕ) : ℤ), ((outCount w.links c + (k - (c + 1)) : ℕ) : ℤ))

/-- The waveform as the parser returns it: the control module's own connections, and for
the rest what the entries have left. -/
structure Returned (w : PWaveform) (junk : ℤ × ℤ) : Prop where
  id_eq : ∀ i, i < w.modules.length → idOf w i = i + 1
  src_lt : ∀ l ∈ w.links, ∀ i, l.src = some i → i < w.modules.length ∧ l.srcPort < itfPrealloc
  dest_lt : ∀ l ∈ w.links, ∀ k, l.dest = some k → k < w.modules.length
  fed_once : w.links.Pairwise fun later earlier => ∀ k, earlier.src.isSome = true →
    earlier.dest = some k → ¬ later.flip.isFrom k earlier.destPort = true
  output_iff : ∀ i p v, i < w.modules.length → (output w i p = some v ↔ OutputHolds w junk i p v)
  input_iff : ∀ k q v, k < w.modules.length → (input w k q = some v ↔ InputHolds w k q v)

lemma closeInterfaces_views (w' : PWaveform) {modules : List PModule}
    (hok : w.modules.mapM (closeInterfaces env) = .ok modules) (hm : w'.modules = modules) :
    w'.modules.length = w.modules.length ∧ (∀ i, idOf w' i = idOf w i) ∧
      (∀ i p, output w' i p = output w i p ∧
        (p < nofOutputsOf w i → (output w i p).isSome = true)) ∧
      ∀ k q, input w' k q = input w k q ∧ (q < nofInputsOf w k → (input w k q).isSome = true) := by
  subst hm
  obtain ⟨hlen, hall⟩ := mapM_ok hok
  have hmodule : ∀ i : ℕ, (w.modules[i]? = none ∧ w'.modules[i]? = none) ∨
      ∃ m m', w.modules[i]? = some m ∧ w'.modules[i]? = some m' ∧
        closeInterfaces env m = .ok m' := by grind
  refine ⟨hlen, fun i => ?_, fun i p => ?_, fun k q => ?_⟩
  · rcases hmodule i with ⟨h, h'⟩ | ⟨m, m', h, h', hclose⟩
    · rw [idOf, idOf, h, h']
    · obtain ⟨ins, -, hclose⟩ := bind_eq_ok.mp hclose
      obtain ⟨outs, -, hclose⟩ := bind_eq_ok.mp hclose
      cases hclose
      rw [idOf, idOf, h, h']
      rfl
  · rcases hmodule i with ⟨h, h'⟩ | ⟨m, m', h, h', hclose⟩
    · simp [output, nofOutputsOf, h, h']
    · obtain ⟨ins, -, hclose⟩ := bind_eq_ok.mp hclose
      obtain ⟨outs, houts, hclose⟩ := bind_eq_ok.mp hclose
      cases hclose
      simp only [output, nofOutputsOf, h, h', bind_some, map_some, getD_some]
      exact closeTable_view houts
  · rcases hmodule k with ⟨h, h'⟩ | ⟨m, m', h, h', hclose⟩
    · simp [input, nofInputsOf, h, h']
    · obtain ⟨ins, hins, hclose⟩ := bind_eq_ok.mp hclose
      obtain ⟨outs, -, hclose⟩ := bind_eq_ok.mp hclose
      cases hclose
      simp only [input, nofInputsOf, h, h', bind_some, map_some, getD_some]
      exact closeTable_view hins

lemma entryOutput_iff {ctrl : Option ℕ} {junk v : ℤ × ℤ}
    (hdefined : p < outCount links i → (entryOutput ctrl links junk i p).isSome = true) :
    entryOutput ctrl links junk i p = some v ↔
      p < outCount links i ∧ v = if p < itfPrealloc then outValue links i p else junk := by
  unfold entryOutput at hdefined ⊢
  by_cases hp : p < outCount links i
  · grind
  · simp [hp]

lemma entryInput_iff {v : ℤ × ℤ}
    (hdefined : q < inCount links k → (entryInput links k q).isSome = true) :
    entryInput links k q = some v ↔ q < inCount links k ∧ v = inValue links k q := by
  unfold entryInput at hdefined ⊢
  by_cases hq : q < inCount links k
  · grind
  · simp [hq]

namespace Configured

variable {w0 : PWaveform} {junk v : ℤ × ℤ}

lemma output_iff (h : Configured w0 w junk) (hi : i < w.modules.length)
    (hdefined : p < nofOutputsOf w i → (output w i p).isSome = true) :
    output w i p = some v ↔ OutputHolds w junk i p v := by
  have hdefined := fun hp => hdefined (lt_of_lt_of_le hp (h.nofOutputs_le i hi))
  rw [h.output_eq i p hi] at hdefined ⊢
  split
  · next hctrl =>
    obtain ⟨hctrl, hle, hlt⟩ := hctrl
    constructor
    · intro hv
      refine .inr ⟨i + 1 + (p - outCount w.links i), hctrl, by omega, by omega, by omega, ?_⟩
      exact (some.inj hv).symm
    · grind
  · next hctrl =>
    rw [if_neg hctrl] at hdefined
    rw [entryOutput_iff hdefined]
    constructor
    · exact .inl
    · grind

lemma input_iff (h : Configured w0 w junk) (hk : k < w.modules.length)
    (hdefined : q < nofInputsOf w k → (input w k q).isSome = true) :
    input w k q = some v ↔ InputHolds w k q v := by
  have hdefined := fun hq => hdefined (lt_of_lt_of_le hq (h.nofInputs_le k hk))
  rw [h.input_eq k q hk] at hdefined ⊢
  split
  · next c hc =>
    simp only [hc] at hdefined
    split
    · grind
    · next hctrl =>
      rw [if_neg hctrl] at hdefined
      rw [entryInput_iff hdefined]
      constructor
      · exact .inl
      · grind
  · next hnone =>
    simp only [hnone] at hdefined
    rw [entryInput_iff hdefined]
    constructor
    · exact .inl
    · rintro (hentry | ⟨c, hc, -⟩)
      · exact hentry
      · rw [hnone] at hc
        cases hc

end Configured

/-- **Run lemma.** What the parser returns for the main model. -/
theorem waveformParse_returned {fuel : ℕ} {file : CStr}
    (h : waveformParse env fuel true (newWaveform file) = .ok w') :
    Returned w' env.junk.ref := by
  obtain ⟨root, w0, hparsed, hok⟩ := waveformParse_main h
  obtain ⟨w, hmain, hok⟩ := bind_eq_ok.mp hok
  obtain ⟨modules, hclose, hok⟩ := bind_eq_ok.mp hok
  have hw := waveformMainConfig_configured hparsed hmain
  have hread : w0.nofParsedModules = w.modules.length := hparsed.all_read.trans hw.length_eq.symm
  cases hok
  obtain ⟨hlen, hid, houtput, hinput⟩ :=
    closeInterfaces_views { w with modules := modules, id := env.waveformId } hclose rfl
  refine ⟨?_, ?_, ?_, ?_, ?_, ?_⟩
  · intro i hi
    rw [hid]
    exact hw.id_eq i (hlen ▸ hi)
  · intro l hl i hi
    rw [hlen, ← hread]
    exact hparsed.tables.src_lt l (hw.links_eq ▸ hl) i hi
  · intro l hl k hk
    rw [hlen, ← hread]
    exact (hparsed.tables.dest_lt l (hw.links_eq ▸ hl) k hk).1
  · show w.links.Pairwise _
    rw [hw.links_eq]
    exact hparsed.tables.fed_once
  · intro i p v hi
    rw [(houtput i p).1, OutputHolds, hlen]
    exact hw.output_iff (hlen ▸ hi) (houtput i p).2
  · intro k q v hk
    rw [(hinput k q).1]
    exact hw.input_iff (hlen ▸ hk) (hinput k q).2

end Final

/-! ## When the tables are reciprocal -/

/-- The entry keeps its output port to itself, and both its ports lie below the numbers of
entries that count for their modules. -/
def Regular (links later : List Link) (l : Link) (i k : ℕ) : Prop :=
  (∀ l' ∈ later, ¬ l'.isFrom i l.srcPort = true) ∧ l.srcPort < outCount links i ∧
    l.destPort < inCount links k

def Coincident (ctrl : Option ℕ) (links : List Link) (l : Link) (i k : ℕ) : Prop :=
  ctrl = some i ∧ i < k ∧ l.srcPort = outCount links i + (k - (i + 1)) ∧
    l.destPort = inCount links k

def EntriesFit (ctrl : Option ℕ) (links : List Link) : Prop :=
  ∀ later l earlier i k, links = later ++ l :: earlier → l.src = some i → l.dest = some k →
    Regular links later l i k ∨ Coincident ctrl links l i k

section Entries

variable {links later earlier : List Link} {l : Link} {i k p q : ℕ}

lemma outValue_latest (hl : l.src = some i)
    (hlater : ∀ l' ∈ later, ¬ l'.isFrom i l.srcPort = true) :
    outValue (later ++ l :: earlier) i l.srcPort = l.farEnd := by
  have hfrom : l.isFrom i l.srcPort = true := isFrom_iff.mpr ⟨hl, rfl⟩
  have hnone : (later.find? fun l' => l'.isFrom i l.srcPort) = none := find?_eq_none.mpr hlater
  simp [outValue, find?_append, hnone, hfrom]

lemma find?_isFrom (h : (links.find? fun l' => l'.isFrom i p) = some l) :
    l ∈ links ∧ l.isFrom i p = true :=
  ⟨mem_of_find?_eq_some h, find?_some (p := fun l' : Link => l'.isFrom i p) h⟩

lemma outValue_hidden (earlier : List Link) (hlater : ∃ l' ∈ later, l'.isFrom i p = true) :
    ∃ l' ∈ later, l'.isFrom i p = true ∧ outValue (later ++ earlier) i p = l'.farEnd := by
  obtain ⟨l', hmem, hfrom⟩ := hlater
  cases hfind : later.find? fun l' => l'.isFrom i p with
  | none => exact absurd hfrom (find?_eq_none.mp hfind l' hmem)
  | some l'' =>
    obtain ⟨hmem', hfrom'⟩ := find?_isFrom hfind
    exact ⟨l'', hmem', hfrom', by simp [outValue, find?_append, hfind]⟩

lemma exists_of_outValue (h : outValue links i p = (((k + 1 : ℕ) : ℤ), (q : ℤ))) :
    ∃ l ∈ links, l.src = some i ∧ l.srcPort = p ∧ l.dest = some k ∧ l.destPort = q := by
  unfold outValue at h
  split at h
  · exact absurd (congrArg Prod.fst h) (by simp; omega)
  · next l hfind =>
    obtain ⟨hmem, hfrom⟩ := find?_isFrom hfind
    obtain ⟨hsrc, hport⟩ := isFrom_iff.mp hfrom
    obtain ⟨hdest, hport'⟩ := (farEnd_eq_iff (k := k) (q := q)).mp (h.trans (by simp))
    exact ⟨l, hmem, hsrc, hport, hdest, hport'⟩

def usedPorts (links : List Link) (i : ℕ) : Finset ℕ :=
  ((links.filter fun l => l.src = some i).map Link.srcPort).toFinset

lemma mem_usedPorts : p ∈ usedPorts links i ↔ ∃ l ∈ links, l.isFrom i p = true := by
  simp [usedPorts, isFrom_iff, and_assoc]

lemma outCount_le_card (hkeep : ∀ later l earlier, links = later ++ l :: earlier → l.src = some i →
      l.dest.isSome = true → ∀ l' ∈ later, ¬ l'.isFrom i l.srcPort = true) :
    outCount links i ≤ (usedPorts links i).card := by
  induction links with
  | nil => exact Nat.zero_le _
  | cons l links ih =>
    have hsub : usedPorts links i ⊆ usedPorts (l :: links) i := by
      intro p hp
      obtain ⟨l', hmem, hfrom⟩ := mem_usedPorts.mp hp
      exact mem_usedPorts.mpr ⟨l', mem_cons_of_mem l hmem, hfrom⟩
    have hrest := ih fun later l' earlier heq hsrc hdest l'' hl'' =>
      hkeep (l :: later) l' earlier (by rw [heq]; rfl) hsrc hdest l''
        (mem_cons_of_mem l hl'')
    rw [outCount]
    split
    · next hcounts =>
      obtain ⟨hsrc, hopen⟩ := hcounts
      have hself : l.isFrom i l.srcPort = true := isFrom_iff.mpr ⟨hsrc, rfl⟩
      have hnew : l.srcPort ∉ usedPorts links i := by
        intro hused
        obtain ⟨l', hmem, hfrom⟩ := mem_usedPorts.mp hused
        unfold outOpen at hopen
        split at hopen
        · next hnone => exact absurd hfrom (find?_eq_none.mp hnone l' hmem)
        · next l'' hfind =>
          obtain ⟨hmem', hfrom'⟩ := find?_isFrom hfind
          obtain ⟨later, earlier, heq⟩ := append_of_mem hmem'
          obtain ⟨hsrc', hport'⟩ := isFrom_iff.mp hfrom'
          refine hkeep (l :: later) l'' earlier (by rw [heq]; rfl) hsrc' hopen l
            mem_cons_self ?_
          rw [hport']
          exact hself
      have hgrow : insert l.srcPort (usedPorts links i) ⊆ usedPorts (l :: links) i :=
        insert_subset (mem_usedPorts.mpr ⟨l, mem_cons_self, hself⟩) hsub
      have hcard := card_le_card hgrow
      rw [card_insert_of_notMem hnew] at hcard
      omega
    · exact le_trans hrest (card_le_card hsub)

lemma EntriesFit.outCount_le {ctrl : Option ℕ} (h : EntriesFit ctrl links)
    (hsrc : ∀ l ∈ links, ∀ i, l.src = some i → l.srcPort < itfPrealloc) :
    outCount links i ≤ itfPrealloc := by
  by_cases hctrl : ∃ l ∈ links, ∃ k, l.src = some i ∧ Coincident ctrl links l i k
  · obtain ⟨l, hl, k, hli, -, -, hport, -⟩ := hctrl
    have := hsrc l hl i hli
    omega
  · have hcard : outCount links i ≤ (usedPorts links i).card := by
      refine outCount_le_card fun later l earlier heq hli hdest => ?_
      obtain ⟨k, hk⟩ := isSome_iff_exists.mp hdest
      rcases h later l earlier i k heq hli hk with hregular | hcoincident
      · exact hregular.1
      · have hmem : l ∈ links := heq ▸ mem_append_right later mem_cons_self
        exact absurd ⟨l, hmem, k, hli, hcoincident⟩ hctrl
    have hrange : usedPorts links i ⊆ range itfPrealloc := by
      intro p hp
      obtain ⟨l, hl, hfrom⟩ := mem_usedPorts.mp hp
      obtain ⟨hli, rfl⟩ := isFrom_iff.mp hfrom
      exact Finset.mem_range.mpr (hsrc l hl i hli)
    have hall := card_le_card hrange
    rw [card_range] at hall
    omega

end Entries

namespace Returned

variable {w : PWaveform} {junk : ℤ × ℤ} {later earlier : List Link} {l : Link} {i k p q : ℕ}

lemma not_refed (h : Returned w junk) (hl : w.links = later ++ l :: earlier)
    (hsrc : l.src = some i) (hdest : l.dest = some k) :
    ∀ l' ∈ later, ¬ (l'.dest = some k ∧ l'.destPort = l.destPort) := by
  intro l' hl' hto
  have honce := h.fed_once
  rw [hl, pairwise_append] at honce
  have hlater := honce.2.2 l' hl' l mem_cons_self k (by simp [hsrc]) hdest
  exact hlater (isFrom_iff.mpr hto)

lemma fits_of_reciprocal (h : Returned w junk) (hr : Reciprocal w) :
    EntriesFit w.autoCtrlModule w.links := by
  intro later l earlier i k hl hsrc hdest
  have hmem : l ∈ w.links := hl ▸ mem_append_right later mem_cons_self
  obtain ⟨hi, hport⟩ := h.src_lt l hmem i hsrc
  have hk := h.dest_lt l hmem k hdest
  obtain ⟨hout, hin⟩ := hr.entered l hmem i k hsrc hdest
  rw [h.id_eq k hk, h.output_iff i _ _ hi, OutputHolds, if_pos hport] at hout
  rw [h.id_eq i hi, h.input_iff k _ _ hk] at hin
  rcases hout with ⟨hp, hvalue⟩ | ⟨k', hctrl, hik, hk', hp, hvalue⟩
  · rcases hin with ⟨hq, -⟩ | ⟨c, -, hck, -, hvalue'⟩
    · refine .inl ⟨?_, hp, hq⟩
      -- a later entry on the port would have to lead where this one leads
      by_contra hused
      push Not at hused
      obtain ⟨l', hl', hfrom, heq⟩ := outValue_hidden (l :: earlier) hused
      rw [← hl, ← hvalue] at heq
      exact h.not_refed hl hsrc hdest l' hl' (farEnd_eq_iff.mp (heq.symm.trans (by simp)))
    · -- the control connections lie above the counter
      simp only [Prod.mk.injEq, Nat.cast_inj] at hvalue'
      obtain ⟨hci, hport'⟩ := hvalue'
      have : c = i := by omega
      subst this
      omega
  · simp only [Prod.mk.injEq, Nat.cast_inj] at hvalue
    obtain ⟨hkk, hq⟩ := hvalue
    have : k' = k := by omega
    subst this
    exact .inr ⟨hctrl, hik, hp, hq⟩

section

variable (h : Returned w junk) (hfit : EntriesFit w.autoCtrlModule w.links)
include h hfit

lemma entered_of_fits (hmem : l ∈ w.links) (hsrc : l.src = some i) (hdest : l.dest = some k) :
    output w i l.srcPort = some ((idOf w k : ℤ), (l.destPort : ℤ)) ∧
      input w k l.destPort = some ((idOf w i : ℤ), (l.srcPort : ℤ)) := by
  obtain ⟨later, earlier, hl⟩ := append_of_mem hmem
  obtain ⟨hi, hport⟩ := h.src_lt l hmem i hsrc
  have hk := h.dest_lt l hmem k hdest
  rw [h.id_eq k hk, h.id_eq i hi, h.output_iff i _ _ hi, h.input_iff k _ _ hk, OutputHolds,
    if_pos hport]
  rcases hfit later l earlier i k hl hsrc hdest with ⟨hlater, hp, hq⟩ | ⟨hctrl, hik, hp, hq⟩
  · refine ⟨.inl ⟨hp, ?_⟩, .inl ⟨hq, ?_⟩⟩
    · rw [hl, outValue_latest hsrc hlater, farEnd_of_dest hdest]
      simp
    · rw [inValue_of_fed h.fed_once hmem (by simp [hsrc]) hdest, farEnd_of_dest (l := l.flip) hsrc]
      simp
  · exact ⟨.inr ⟨k, hctrl, hik, hk, hp, by rw [hq]⟩, .inr ⟨i, hctrl, hik, hq, by rw [hp]⟩⟩

lemma mirrored_of_fits (hi : i < w.modules.length) (hk : k < w.modules.length) :
    output w i p = some ((idOf w k : ℤ), (q : ℤ)) ↔
      input w k q = some ((idOf w i : ℤ), (p : ℤ)) := by
  have hcount := hfit.outCount_le (i := i) fun l hl i hli => (h.src_lt l hl i hli).2
  constructor
  · intro hout
    rw [h.id_eq k hk, h.output_iff i p _ hi] at hout
    rcases hout with ⟨hp, hvalue⟩ | ⟨k', hctrl, hik, hk', hp, hvalue⟩
    · rw [if_pos (by omega)] at hvalue
      obtain ⟨l, hl, hsrc, rfl, hdest, rfl⟩ := exists_of_outValue hvalue.symm
      exact (h.entered_of_fits hfit hl hsrc hdest).2
    · simp only [Prod.mk.injEq, Nat.cast_inj] at hvalue
      obtain ⟨hkk, hq⟩ := hvalue
      have : k' = k := by omega
      subst this
      rw [h.id_eq i hi, h.input_iff k' q _ hk]
      exact .inr ⟨i, hctrl, hik, hq, by rw [hp]⟩
  · intro hin
    rw [h.id_eq i hi, h.input_iff k q _ hk] at hin
    rcases hin with ⟨hq, hvalue⟩ | ⟨c, hctrl, hck, hq, hvalue⟩
    · obtain ⟨l', hl', hdest, rfl, hsrc, rfl⟩ := exists_of_outValue hvalue.symm
      obtain ⟨l, hl, rfl⟩ := mem_map.mp hl'
      exact (h.entered_of_fits hfit hl hsrc hdest).1
    · simp only [Prod.mk.injEq, Nat.cast_inj] at hvalue
      obtain ⟨hci, hp⟩ := hvalue
      have : c = i := by omega
      subst this
      rw [h.id_eq k hk, h.output_iff c p _ hi]
      exact .inr ⟨k, hctrl, hck, hk, hp, by rw [hq]⟩

lemma reciprocal_of_fits : Reciprocal w where
  entered _ hl _ _ hsrc hdest := h.entered_of_fits hfit hl hsrc hdest
  mirrored _ _ _ _ hi hk := h.mirrored_of_fits hfit hi hk
  entries_once := by
    refine (pairwise_iff_forall_sublist.mpr ?_)
    intro l l' hsub i i' k k' hsrc hdest hsrc' hdest'
    have hfed := pairwise_iff_forall_sublist.mp h.fed_once hsub k' (by simp [hsrc']) hdest'
    have hmem : l ∈ w.links := hsub.subset (by simp)
    have hmem' : l' ∈ w.links := hsub.subset (by simp)
    have hdistinct : (k, l.destPort) ≠ (k', l'.destPort) := by
      intro heq
      simp only [Prod.mk.injEq] at heq
      exact hfed (isFrom_iff.mpr ⟨heq.1 ▸ hdest, heq.2⟩)
    refine ⟨fun heq => hdistinct ?_, hdistinct⟩
    -- one output port cannot name both destinations
    simp only [Prod.mk.injEq] at heq
    obtain ⟨rfl, hport⟩ := heq
    have hout := (h.entered_of_fits hfit hmem hsrc hdest).1
    have hout' := (h.entered_of_fits hfit hmem' hsrc' hdest').1
    rw [hport, hout', h.id_eq k (h.dest_lt l hmem k hdest),
      h.id_eq k' (h.dest_lt l' hmem' k' hdest')] at hout
    simp only [some.injEq, Prod.mk.injEq, Nat.cast_inj, Nat.add_right_cancel_iff] at hout
    rw [hout.1, hout.2]
  outputs_once i i' p p' k q hi hi' hk hout hout' := by
    rw [h.mirrored_of_fits hfit hi hk, h.id_eq i hi] at hout
    rw [h.mirrored_of_fits hfit hi' hk, hout, h.id_eq i' hi'] at hout'
    simpa using hout'
  inputs_once k k' q q' i p hk hk' hi hin hin' := by
    rw [← h.mirrored_of_fits hfit hi hk, h.id_eq k hk] at hin
    rw [← h.mirrored_of_fits hfit hi hk', hin, h.id_eq k' hk'] at hin'
    simpa using hin'

end

end Returned

/-- **The connection tables of a parsed model are reciprocal and point-to-point exactly
when its entries fit.** -/
theorem parse_reciprocal_iff {env : Env} {fuel : ℕ} {file : CStr} {w : PWaveform}
    (h : waveformParse env fuel true (newWaveform file) = .ok w) :
    Reciprocal w ↔ EntriesFit w.autoCtrlModule w.links :=
  ⟨(waveformParse_returned h).fits_of_reciprocal, (waveformParse_returned h).reciprocal_of_fits⟩

def threeModules (ends : List (String × String)) : Setting :=
  .model (["a", "b", "c"].map (·, "binary", "module")) ends []

def modelEnv (model : Setting) : Env := ⟨fun _ => some model, 1, Port.zero⟩

theorem parse_reciprocal_chain :
    ∃ w, waveformParse (modelEnv (threeModules [("a", "b"), ("b", "c")])) 1 true
      (newWaveform "chain".toList) = .ok w ∧ Reciprocal w := by
  obtain ⟨w, hw, hlinks⟩ : ∃ w, waveformParse (modelEnv (threeModules [("a", "b"), ("b", "c")])) 1
      true (newWaveform "chain".toList) = .ok w ∧
      w.links = [⟨some 1, 0, some 2, 0⟩, ⟨some 0, 0, some 1, 0⟩] := ⟨_, rfl, rfl⟩
  refine ⟨w, hw, (parse_reciprocal_iff hw).mpr ?_⟩
  rw [hlinks]
  intro later l earlier i k hl hsrc hdest
  left
  rcases later with _ | ⟨l₁, _ | ⟨l₂, later⟩⟩
  · simp only [nil_append, List.cons.injEq] at hl
    obtain ⟨rfl, rfl⟩ := hl
    cases hsrc
    cases hdest
    exact ⟨by simp, by decide, by decide⟩
  · simp only [cons_append, nil_append, List.cons.injEq] at hl
    obtain ⟨rfl, rfl, rfl⟩ := hl
    cases hsrc
    cases hdest
    exact ⟨by decide, by decide, by decide⟩
  · simp at hl

theorem parse_not_reciprocal_fork :
    ∃ w, waveformParse (modelEnv (threeModules [("a", "b"), ("a", "c")])) 1 true
      (newWaveform "fork".toList) = .ok w ∧ ¬ Reciprocal w := by
  refine ⟨_, rfl, fun h => ?_⟩
  have hentry := (h.entered ⟨some 0, 0, some 1, 0⟩ (by decide) 0 1 rfl rfl).1
  revert hentry
  decide

end Aloe.Manager
