import Mathlib.Algebra.Order.Ring.Rat

/-!
# The trellis

Model of `tw_mapping` in `oesr/src/crm/trellis12345_sortU.c`, for the windows 1 to 5 that `mapper.h`
documents, with `cost_compU.c`, `cost_commU_mhop_AllArchs.c`, `update.c` and `resource_trans.c`.
Numbers are exact; a division by zero has an infinite cost. Tables that the source declares without
a value are partial: a cell is `none` until it is written, and a decision on such a cell is a fault,
as is an index that is no processor. Copying a row that was never written is no fault.
-/

namespace Aloe.Crm

/-- `Nmax`. -/
def maxProcessors : ℕ := 20

/-- `Mmax`. -/
def maxTasks : ℕ := 100

/-- `infinite`, the symbol for an infinite mapping cost. -/
def infinite : ℚ := 1000000

/-- `inf`, the symbol for an infinite resource. -/
def inf : ℚ := 100000000

def threshold : ℚ := 1 / 100000000

abbrev Row : Type := ℕ → ℚ

def quotient (x y : ℚ) : ℚ := if y = 0 then infinite else x / y

/-- What the cost functions read besides their arguments: the sizes, the demands and the
parameters that `mapper` has copied to its globals. -/
structure Problem where
  /-- `N`, `M`. -/
  processors : ℕ
  tasks : ℕ
  /-- `m`, `b`, `force_idx`. -/
  demand : ℕ → ℚ
  flow : ℕ → ℕ → ℚ
  force : ℕ → ℤ
  q1 : ℚ
  q2 : ℚ
  mhop : ℕ
  /-- `I`, which bandwidth resource two processors use. -/
  link : ℕ → ℕ → ℕ

def exceeds (x left : ℚ) : Prop := threshold < x - left

instance (x left : ℚ) : Decidable (exceeds x left) := inferInstanceAs (Decidable (_ < _))

def Row.take (row : Row) (r : ℕ) (x : ℚ) : Row := Function.update row r (row r - x)

/-- `cost_compU`: the cost of a task on processor `k`, and what it leaves. -/
def costCompU (q1 mx : ℚ) (left : Row) (force : ℤ) (k : ℕ) : ℚ × Row :=
  if 0 ≤ force ∧ force ≠ k then (infinite, left)
  else if exceeds mx (left k) then (infinite, left)
  else (quotient (q1 * mx) (left k), left.take k mx)

namespace Problem

variable (pb : Problem)

def update (bx : ℚ) (left : Row) (a z : ℕ) : Row := left.take (pb.link a z) bx

def direct (bx : ℚ) (left : Row) (a z : ℕ) : ℚ × Row :=
  if exceeds bx (left (pb.link a z)) then (infinite, left)
  else (quotient (pb.q2 * bx) (left (pb.link a z)), pb.update bx left a z)

structure Path where
  hops : List (ℕ × ℕ)
  cost : ℚ

def firstHops (bx : ℚ) (left : Row) (a : ℕ) : List ℕ :=
  (List.range pb.processors).filter fun x => x ≠ a ∧ ¬ exceeds bx (left (pb.link a x))

/-- A first hop to `x` and the way on to `z`. Each hop is checked on its own. -/
def secondHop (bx : ℚ) (left : Row) (a z x : ℕ) : Path :=
  let first := quotient (pb.q2 * bx) (left (pb.link a x))
  if x = z then ⟨[(a, x)], first⟩
  else if exceeds bx (left (pb.link x z)) then ⟨[(a, x)], infinite⟩
  else
    let second := quotient (pb.q2 * bx) (left (pb.link x z))
    ⟨[(a, x), (x, z)], first + if pb.mhop = 1 then second + 1000 else second⟩

def choosePath (paths : List Path) : ℚ × List (ℕ × ℕ) :=
  paths.foldl (fun best path =>
    if threshold < best.1 - path.cost then (path.cost, path.hops) else best) (infinite, [])

/-- A flow from `a` to `z` over one or two hops. -/
def routed (bx : ℚ) (left : Row) (a z : ℕ) : ℚ × Row :=
  let best := choosePath ((pb.firstHops bx left a).map (pb.secondHop bx left a z))
  if best.1 < infinite - 1 then
    (best.1, best.2.foldl (fun left hop => pb.update bx left hop.1 hop.2) left)
  else (best.1, left)

/-- `cost_commU` between a task on `a` and the current task on `z`: `bx1` is the flow to the
current task, `bx2` the one back, which is looked at only where there is none to it. -/
def costCommU (bx1 bx2 : ℚ) (left : Row) (a z : ℕ) : ℚ × Row :=
  let charge := if pb.mhop = 0 then pb.direct else pb.routed
  if 0 < bx1 then charge bx1 left a z
  else if 0 < bx2 then charge bx2 left z a
  else (0, left)

end Problem

/-! ## The bandwidth resources -/

/-- `enum commtype`. -/
inductive Arch where
  | fd
  | hd
  | bus
deriving DecidableEq, Repr

/-- What `resource_trans` fills: the next free resource, `I` and `B`. -/
structure Resources where
  count : ℕ
  link : ℕ → ℕ → ℕ
  left : Row

namespace Resources

def setLink (res : Resources) (i j r : ℕ) : Resources :=
  { res with link := Function.update res.link i (Function.update (res.link i) j r) }

def setLeft (res : Resources) (r : ℕ) (x : ℚ) : Resources :=
  { res with left := Function.update res.left r x }

def diagonal (res : Resources) (i : ℕ) : Resources := (res.setLink i i i).setLeft i inf

/-- A connection of its own for `i` and `j`. -/
def fullDuplex (bandwidth : ℕ → ℕ → ℚ) (res : Resources) (i j : ℕ) : Resources :=
  if i = j then res.diagonal i
  else
    let res := (res.setLink i j res.count).setLeft res.count (bandwidth i j)
    { res with count := res.count + 1 }

def halfDuplex (bandwidth : ℕ → ℕ → ℚ) (res : Resources) (i j : ℕ) : Resources :=
  if i = j then res.diagonal i
  else
    let res := ((res.setLink i j res.count).setLink j i res.count).setLeft res.count (bandwidth i j)
    { res with count := res.count + 1 }

def shared (res : Resources) (i j : ℕ) : Resources :=
  if i = j then res.diagonal i else res.setLink i j res.count

/-- The double loop over the processors, the inner one from `first i` on. -/
def forPairs (n : ℕ) (first : ℕ → ℕ) (step : Resources → ℕ → ℕ → Resources) (res : Resources) :
    Resources :=
  (List.range n).foldl (fun res i =>
    (List.range' (first i) (n - first i)).foldl (fun res j => step res i j) res) res

end Resources

/-- `resource_trans`; `left` is what `B` held before. -/
def resourceTrans (n : ℕ) (arch : Arch) (bandwidth : ℕ → ℕ → ℚ) (left : Row) : Resources :=
  let res : Resources := ⟨n, fun _ _ => 0, left⟩
  match arch with
  | .fd => res.forPairs n (fun _ => 0) (Resources.fullDuplex bandwidth)
  | .hd => res.forPairs n (fun i => i) (Resources.halfDuplex bandwidth)
  | .bus => (res.forPairs n (fun _ => 0) Resources.shared).setLeft n (bandwidth 0 1)

/-! ## The trellis -/

inductive Fault where
  | unwritten
  | bounds
deriving DecidableEq, Repr

def known {α : Type} : Option α → Except Fault α
  | some a => .ok a
  | none => .error .unwritten

def inBounds (i n : ℕ) : Except Fault Unit := if i < n then .ok () else .error .bounds

/-- `nodes[j][i]`, the number of the node of task `i` on processor `j`. -/
def node (n j i : ℕ) : ℕ := i * n + j

/-- The variables of the search through the window: `bTempL` holds `B_tempL2` to
`B_tempL5` by their level, `indxAux` the indices `indx1_aux` to `indx4_aux`. -/
structure Scratch where
  bTempL : ℕ → Option Row
  costwAux : ℕ → Option ℚ
  indxAux : List ℕ
  pRemL : ℕ → Option Row
  bRemL : ℕ → Option Row

/-- The variables of `tw_mapping`. `indxs` holds the entries of `indx1` to `indx4` for a
node, as many as the window needs. -/
structure Trellis where
  PP : ℕ → ℕ → ℕ → ℕ
  aPathsU : ℕ → ℕ → ℚ
  pTempGS : ℕ → Option Row
  pTempG : ℕ → Option Row
  bTempGS : ℕ → Option Row
  bTempG : ℕ → Option Row
  pTempL1 : ℕ → Option Row
  bTempL1 : ℕ → Option Row
  indx : ℕ → ℕ → Option ℕ
  costwAuxx : ℕ → Option ℚ
  indxs : ℕ → Option (List ℕ)
  pRemG : ℕ → Option Row
  bRemG : ℕ → Option Row
  scratch : Scratch

def set₂ {α : Type} (t : ℕ → ℕ → α) (i j : ℕ) (a : α) : ℕ → ℕ → α :=
  Function.update t i (Function.update (t i) j a)

namespace Problem

variable (pb : Problem)

/-- The charge for the flows between the current task `t`, on `k`, and task `s`, on `p`. -/
def comm (t k s p : ℕ) (left : Row) : Except Fault (ℚ × Row) := do
  inBounds p pb.processors
  inBounds s pb.tasks
  inBounds t pb.tasks
  return pb.costCommU (pb.flow s t) (pb.flow t s) left p k

/-- The loop over the tasks mapped before the window, with the processors `pre`. It is left once the
cost is infinite; the levels 4 and 5 then set it to `infinite`. -/
def commBefore (pre : ℕ → ℕ) (t k level : ℕ) : List ℕ → ℚ → Row → Except Fault (ℚ × Row)
  | [], cost, left => return (cost, left)
  | s :: rest, cost, left => do
      if pre s = k then commBefore pre t k level rest cost left
      else
        let (x, left) ← pb.comm t k s (pre s) left
        if infinite - 1 < cost + x then
          return (if 4 ≤ level then infinite else cost + x, left)
        else commBefore pre t k level rest (cost + x) left

def commWithin (t k : ℕ) : List (ℕ × ℕ) → ℚ → Row → Except Fault (ℚ × Row)
  | [], cost, left => return (cost, left)
  | (s, p) :: rest, cost, left => do
      if k = p then commWithin t k rest cost left
      else if cost < infinite - 1 then
        let (x, left) ← pb.comm t k s p left
        commWithin t k rest (cost + x) left
      else commWithin t k rest cost left

/-- The cost of one level: task `i + window.length` goes to processor `k`, after the tasks before
the window and those in it. The bandwidth left is computed only where the computation is feasible.
-/
def levelCost (pre : ℕ → ℕ) (i : ℕ) (window : List (ℕ × ℕ)) (k : ℕ) (costBefore : ℚ)
    (pLeft bLeft : Row) : Except Fault (ℚ × Row × Option Row) := do
  let t := i + window.length
  inBounds t pb.tasks
  let comp := costCompU pb.q1 (pb.demand t) pLeft (pb.force t) k
  if comp.1 < infinite - 1 then
    let (comm, bLeft) ← pb.commBefore pre t k (window.length + 1) (List.range i) 0 bLeft
    let (comm, bLeft) ← pb.commWithin t k window comm bLeft
    if comm < infinite - 1 then return (comp.1 + (costBefore + comm), comp.2, some bLeft)
    else return (infinite, comp.2, some bLeft)
  else return (comp.1, comp.2, none)

/-- The decision on a path through the window: its cost, at step `M - w` also its indices
and what it leaves. -/
def decideLocal (w i k1 : ℕ) (window : List (ℕ × ℕ)) (cost : ℚ) (pLeft : Row)
    (bLeft : Option Row) (sc : Scratch) : Except Fault Scratch := do
  let best ← known (sc.costwAux k1)
  if threshold < best - cost then
    let sc := { sc with costwAux := Function.update sc.costwAux k1 (some cost) }
    if i + w = pb.tasks then
      let ks := (window.drop 1).map (·.2)
      return { sc with
        indxAux := ks ++ sc.indxAux.drop ks.length
        pRemL := Function.update sc.pRemL k1 (some pLeft)
        bRemL := Function.update sc.bRemL k1 bLeft }
    else return sc
  else return sc

/-- The levels of the window from the second on; `left` of them are still to come after
this one. -/
def levels (w : ℕ) (pre : ℕ → ℕ) (i k1 : ℕ) : (left : ℕ) → (window : List (ℕ × ℕ)) →
    (costBefore : ℚ) → (pLeft bLeft : Row) → Scratch → Except Fault Scratch
  | left, window, costBefore, pLeft, bLeft, sc =>
    let level := window.length + 1
    (List.range pb.processors).foldlM (fun sc k => do
      let (cost, pLeft, bNew) ← pb.levelCost pre i window k costBefore pLeft bLeft
      let sc := match bNew with
        | some b => { sc with bTempL := Function.update sc.bTempL level (some b) }
        | none => sc
      let window := window ++ [(i + window.length, k)]
      match left with
      | 0 => pb.decideLocal w i k1 window cost pLeft (sc.bTempL level) sc
      | left + 1 =>
        if cost < infinite - 1 then
          let bLeft ← known (sc.bTempL level)
          levels w pre i k1 left window cost pLeft bLeft sc
        else pb.decideLocal w i k1 window cost pLeft (sc.bTempL level) sc) sc

/-- The decision on the path from node `(k1, i-1)` to node `(j, i)`, over the window. -/
def decideGlobal (w i j k1 : ℕ) (tr : Trellis) : Except Fault Trellis := do
  let best ← known (tr.costwAuxx j)
  let cost ← known (tr.scratch.costwAux k1)
  if threshold < best - cost then
    let tr := { tr with
      costwAuxx := Function.update tr.costwAuxx j (some cost)
      indx := set₂ tr.indx j i (some k1) }
    if i + w = pb.tasks then
      return { tr with
        indxs := Function.update tr.indxs j (some (tr.scratch.indxAux.take (w - 1)))
        pRemG := Function.update tr.pRemG j (tr.scratch.pRemL k1)
        bRemG := Function.update tr.bRemG j (tr.scratch.bRemL k1) }
    else return tr
  else return tr

def decideDirect (i j k1 : ℕ) (tr : Trellis) : Trellis :=
  let n := pb.processors
  let cost := tr.aPathsU k1 (node n j i)
  if threshold < tr.aPathsU n (node n j i) - cost then
    { tr with
      aPathsU := set₂ tr.aPathsU n (node n j i) cost
      indx := set₂ tr.indx j i (some k1) }
  else tr

def entered (i j k1 : ℕ) (tr : Trellis) (cost : ℚ) (pLeft : Row) (bNew : Option Row) : Trellis :=
  { tr with
    aPathsU := set₂ tr.aPathsU k1 (node pb.processors j i) cost
    pTempL1 := Function.update tr.pTempL1 k1 (some pLeft)
    bTempL1 := match bNew with
      | some b => Function.update tr.bTempL1 k1 (some b)
      | none => tr.bTempL1 }

def path (w i j : ℕ) (tr : Trellis) (k1 : ℕ) : Except Fault Trellis := do
  let n := pb.processors
  let costBefore := tr.aPathsU n (node n k1 (i - 1))
  if infinite - 1 < costBefore then
    return { tr with aPathsU := set₂ tr.aPathsU k1 (node n j i) infinite }
  else
    let pre := tr.PP k1 (i - 1)
    let pLeft ← known (tr.pTempGS k1)
    let bLeft ← known (tr.bTempGS k1)
    let (cost, pLeft, bNew) ← pb.levelCost pre i [] j costBefore pLeft bLeft
    let tr := pb.entered i j k1 tr cost pLeft bNew
    if w = 1 then return pb.decideDirect i j k1 tr
    else if cost < infinite - 1 then
      let sc := { tr.scratch with
        costwAux := Function.update tr.scratch.costwAux k1 (some infinite) }
      let bLeft ← known (tr.bTempL1 k1)
      let sc ← pb.levels w pre i k1 (w - 2) [(i, j)] cost pLeft bLeft sc
      pb.decideGlobal w i j k1 { tr with scratch := sc }
    else return tr

/-- What the chosen path `k1` makes of node `(j, i)`. -/
def settle (w i j k1 : ℕ) (tr : Trellis) : Trellis :=
  let n := pb.processors
  let tr := if w = 1 then tr else
    { tr with aPathsU := set₂ tr.aPathsU n (node n j i) (tr.aPathsU k1 (node n j i)) }
  let tr := if tr.aPathsU n (node n j i) < infinite - 1 then
      { tr with
        pTempG := Function.update tr.pTempG j (tr.pTempL1 k1)
        bTempG := Function.update tr.bTempG j (tr.bTempL1 k1) }
    else tr
  let pre := tr.PP k1 (i - 1)
  { tr with
    PP := set₂ tr.PP j i fun s => if s < i then pre s else if s = i then j else tr.PP j i s }

def opened (i j : ℕ) (tr : Trellis) : Trellis :=
  { tr with
    aPathsU := set₂ tr.aPathsU pb.processors (node pb.processors j i) infinite
    costwAuxx := Function.update tr.costwAuxx j (some infinite)
    indx := set₂ tr.indx j i (some 0)
    scratch := { tr.scratch with indxAux := [0, 0, 0, 0] } }

/-- Node `(j, i)`: all paths that arrive there, and the chosen one. -/
def visit (w i : ℕ) (tr : Trellis) (j : ℕ) : Except Fault Trellis := do
  let tr ← (List.range pb.processors).foldlM (pb.path w i j) (pb.opened i j tr)
  let k1 ← known (tr.indx j i)
  inBounds k1 pb.processors
  return pb.settle w i j k1 tr

def step (w : ℕ) (tr : Trellis) (i : ℕ) : Except Fault Trellis :=
  (List.range pb.processors).foldlM (pb.visit w i)
    { tr with pTempGS := tr.pTempG, bTempGS := tr.bTempG }

def start (pLeft bLeft : Row) : Trellis :=
  let n := pb.processors
  let first (j : ℕ) := costCompU pb.q1 (pb.demand 0) pLeft (pb.force 0) j
  { PP := fun j i s => if i = 0 ∧ s = 0 ∧ j < n then j else 0
    aPathsU := fun r x => if r = n ∧ x < n then (first x).1 else 0
    pTempGS := fun _ => none
    pTempG := fun j => if j < n then some (first j).2 else none
    bTempGS := fun _ => none
    bTempG := fun j => if j < n then some bLeft else none
    pTempL1 := fun _ => none
    bTempL1 := fun _ => none
    indx := fun _ _ => none
    costwAuxx := fun _ => none
    indxs := fun _ => none
    pRemG := fun _ => none
    bRemG := fun _ => none
    scratch := ⟨fun _ => none, fun _ => none, [], fun _ => none, fun _ => none⟩ }

end Problem

/-! ## The final mapping -/

/-- `cost_t`, `index` and `i1`, ..., `i4`. -/
structure Choice where
  cost : ℚ
  index : Option ℕ
  is : List ℕ

namespace Problem

variable (pb : Problem)

def chooseNode (w : ℕ) (tr : Trellis) (choice : Choice) (j : ℕ) : Except Fault Choice := do
  if w = 1 then
    let cost := tr.aPathsU pb.processors (node pb.processors j (pb.tasks - 1))
    return if threshold < choice.cost - cost then ⟨cost, some j, []⟩ else choice
  else
    let cost ← known (tr.costwAuxx j)
    if threshold < choice.cost - cost then
      let is ← known (tr.indxs j)
      return ⟨cost, some j, is⟩
    else return choice

/-- The loop that follows the selected edges back from task `i`, which is on `j`. -/
def trackBack (tr : Trellis) : (i : ℕ) → (j : ℕ) → (ℕ → ℤ) → Except Fault (ℕ → ℤ)
  | 0, _, map => return map
  | i + 1, j, map => do
      inBounds j pb.processors
      let k ← known (tr.indx j (i + 1))
      trackBack tr i k (Function.update map i (k : ℤ))

def finalMap (w : ℕ) (tr : Trellis) (index : ℕ) (is : List ℕ) (map : ℕ → ℤ) :
    Except Fault (ℕ → ℤ) :=
  let last := pb.tasks - w
  let map := fun t =>
    if t = last then (index : ℤ)
    else if last < t ∧ t < pb.tasks then ((is[t - (last + 1)]?).getD 0 : ℕ) else map t
  pb.trackBack tr last index map

/-- What `tw_mapping` leaves: its cost, `final_map`, and what is left of `P` and `B`. -/
structure Outcome where
  cost : ℚ
  map : ℕ → ℤ
  pLeft : Row
  bLeft : Row

/-- `tw_mapping`; a task that is not mapped is on processor -1. -/
def twMapping (w : ℕ) (pLeft bLeft : Row) : Except Fault Outcome := do
  let map : ℕ → ℤ := fun _ => -1
  inBounds 0 pb.tasks
  let tr ← (List.range' 1 (pb.tasks - w)).foldlM (pb.step w) (pb.start pLeft bLeft)
  let choice ← (List.range pb.processors).foldlM (pb.chooseNode w tr) ⟨infinite, none, [0, 0, 0, 0]⟩
  if choice.cost < infinite - 1 then
    let index ← known choice.index
    let map ← pb.finalMap w tr index choice.is map
    let pLeft ← known (if w = 1 then tr.pTempG index else tr.pRemG index)
    let bLeft ← known (if w = 1 then tr.bTempG index else tr.bRemG index)
    return ⟨choice.cost, map, pLeft, bLeft⟩
  else return ⟨choice.cost, map, pLeft, bLeft⟩

end Problem

end Aloe.Crm
