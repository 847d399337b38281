import Aloe.Lib.Placement
import Aloe.Modrep.Grid.Subframe
import Mathlib.Tactic.Ring

/-!
# Where the data channels write

`lte_ch_put_ref` and `lte_ch_cp_noref` write to a run of subcarriers: the first `off` get symbols of
the channel, and from there on every `iv`-th gets a zero, for the reference signal. `lte_ch_get_ref`
reads the same run, so both follow one placement, `runCells`.

From it come the placements that `lte_pdsch_put` and `lte_pbch_put` follow in a symbol, and
`lte_ch_put_sf` in a subframe, as do the functions that read.
-/

namespace Aloe.Modrep.Grid

open Lib Placement List

variable {α : Type}

/-- Which symbol belongs to subcarrier `c` of a run; `none` for a zero. -/
def runEntry (off iv c : ℕ) : Option ℕ :=
  if c < off then some c else if (c - off) % iv = 0 then none else some (c - (c - off) / iv - 1)

/-- Subcarrier `c` of the run from `op` on, for the symbols from `ip` on. -/
def runCell (op ip : ℤ) (off iv c : ℕ) : ℤ × Option ℤ :=
  (op + c, (runEntry off iv c).map fun e : ℕ => ip + e)

def runCells (op ip : ℤ) (off iv len : ℕ) : Placement ℤ ℤ :=
  (List.range len).map (runCell op ip off iv)

/-- The symbols from `ip` on to the `n` subcarriers from `op` on. -/
def copyCells (op ip : ℤ) (n : ℕ) : Placement ℤ ℤ :=
  (List.range n).map fun i : ℕ => (op + i, some (ip + i))

/-- The length of the run of `lte_ch_put_ref`. -/
def refLen (nofPrb off iv : ℕ) : ℕ :=
  off + iv * (nofReXOsymb / iv * nofPrb - 1) + if 0 < iv - off - 1 then iv - off else 0

lemma refLen_three {nofPrb : ℕ} (hprb : 0 < nofPrb) (off : ℕ) :
    refLen nofPrb off 3 = if off < 2 then 12 * nofPrb else 12 * nofPrb + off - 3 := by
  simp only [refLen, nofReXOsymb]
  split_ifs <;> omega

lemma refLen_six {nofPrb : ℕ} (hprb : 0 < nofPrb) (off : ℕ) :
    refLen nofPrb off 6 = if off < 5 then 12 * nofPrb else 12 * nofPrb + off - 6 := by
  simp only [refLen, nofReXOsymb]
  split_ifs <;> omega

section

variable (output : ℤ → α) (wp : ℤ) (input : ℤ → α) (rp : ℤ) (n : ℕ)

lemma memcpy_scatter [Zero α] :
    memcpy output wp input rp n = (copyCells wp rp n).scatter input output := by
  rw [copyCells, scatter, foldl_map]
  rfl

lemma memcpy_gather : memcpy output wp input rp n = (copyCells rp wp n).gather input output := by
  rw [copyCells, gather, foldl_map]
  rfl

end

/-! ## The shape of a run -/

lemma runCells_add (op ip : ℤ) (off iv a b : ℕ) : runCells op ip off iv (a + b) =
      runCells op ip off iv a ++ (List.range b).map fun c => runCell op ip off iv (a + c) := by
  rw [runCells, range_add, map_append, map_map]
  rfl

variable {off len iv c e : ℕ} {op ip : ℤ}

lemma runCells_of_le (op ip : ℤ) (iv : ℕ) (h : len ≤ off) :
    runCells op ip off iv len = copyCells op ip len := by
  refine map_congr_left fun c hc => ?_
  rw [mem_range] at hc
  rw [runCell, runEntry, if_pos (by omega)]
  rfl

def blockCells (op ip : ℤ) (n : ℕ) : Placement ℤ ℤ := (op, none) :: copyCells (op + 1) ip n

lemma runEntry_block {i j : ℕ} (hj : j + 1 < iv) :
    runEntry off iv (off + iv * i + (j + 1)) = some (off + (iv - 1) * i + j) := by
  have hsub : off + iv * i + (j + 1) - off = iv * i + (j + 1) := by omega
  have hmod : (iv * i + (j + 1)) % iv = j + 1 := by
    rw [Nat.mul_add_mod, Nat.mod_eq_of_lt hj]
  have hdiv : (iv * i + (j + 1)) / iv = i := by
    rw [Nat.mul_add_div (by omega), Nat.div_eq_of_lt hj, add_zero]
  rw [runEntry, if_neg (by omega), hsub, hmod, if_neg (by omega), hdiv, Nat.sub_one_mul]
  have : i ≤ iv * i := Nat.le_mul_of_pos_left i (by omega)
  congr 1
  omega

lemma runCells_block (op ip : ℤ) (off i : ℕ) {n : ℕ} (hn : n + 1 ≤ iv) :
    (List.range (n + 1)).map (fun c => runCell op ip off iv (off + iv * i + c)) =
      blockCells (op + ↑(iv * i + off)) (ip + ↑(off + (iv - 1) * i)) n := by
  rw [range_succ_eq_map, map_cons, map_map, blockCells, copyCells]
  congr 1
  · have hentry : runEntry off iv (off + iv * i + 0) = none := by
      rw [runEntry, if_neg (by omega), if_pos (by
        rw [Nat.add_zero, Nat.add_sub_cancel_left, Nat.mul_mod_right])]
    rw [runCell, hentry, add_zero, add_comm off]
    rfl
  · refine map_congr_left fun j hj => ?_
    rw [mem_range] at hj
    show runCell op ip off iv (off + iv * i + (j + 1)) = _
    rw [runCell, runEntry_block (by omega)]
    refine Prod.ext ?_ (congrArg some ?_) <;> dsimp only <;> push_cast <;> ring

lemma runCells_blocks (op ip : ℤ) (hiv : 0 < iv) (n : ℕ) :
    runCells op ip off iv (off + iv * n) = copyCells op ip off ++ (List.range n).flatMap fun i =>
        blockCells (op + ↑(iv * i + off)) (ip + ↑(off + (iv - 1) * i)) (iv - 1) := by
  induction n with
  | zero => simpa using runCells_of_le op ip iv le_rfl
  | succ n ih =>
    have hblock := runCells_block op ip off n (Nat.sub_add_cancel hiv).le
    rw [Nat.sub_add_cancel hiv] at hblock
    rw [Nat.mul_succ, ← add_assoc, runCells_add, hblock, ih, range_succ,
      flatMap_append, flatMap_singleton, append_assoc]

lemma runCells_refLen (op ip : ℤ) (hiv : 0 < iv) (nofPrb : ℕ) :
    runCells op ip off iv (refLen nofPrb off iv) = let n := nofReXOsymb / iv * nofPrb - 1
      (copyCells op ip off ++ (List.range n).flatMap fun i =>
        blockCells (op + ↑(iv * i + off)) (ip + ↑(off + (iv - 1) * i)) (iv - 1)) ++
      if 0 < iv - off - 1 then
        blockCells (op + ↑(iv * n + off)) (ip + ↑(off + (iv - 1) * n)) (iv - off - 1)
      else [] := by
  rw [refLen, runCells_add, runCells_blocks op ip hiv]
  congr 1
  by_cases hlast : 0 < iv - off - 1
  · rw [if_pos hlast, if_pos hlast, ← runCells_block op ip off _ (by omega),
      show iv - off - 1 + 1 = iv - off by omega]
  · rw [if_neg hlast, if_neg hlast]
    rfl

/-! ## The loops follow the run -/

lemma foldl_counter {β : Type} (f : β → ℕ → ℕ → β) (b : β) (r c n : ℕ) :
    (List.range n).foldl (fun (s : β × ℕ) i => (f s.1 s.2 i, s.2 + c)) (b, r) =
      ((List.range n).foldl (fun b i => f b (r + c * i) i) b, r + c * n) := by
  induction n with
  | zero => rfl
  | succ n ih =>
    rw [range_succ, foldl_append, foldl_append, ih, Nat.mul_succ, ← add_assoc]
    rfl

section

variable (input : ℤ → α) (ip : ℤ) (output : ℤ → α) (op : ℤ)

lemma lteChPutRefOne_scatter [Zero α]
    (n : ℕ) : lteChPutRefOne input ip output op n = (blockCells op ip n).scatter input output := by
  rw [lteChPutRefOne, memcpy_scatter]
  rfl

lemma lteChGetRefOne_gather (n : ℕ) :
    lteChGetRefOne input ip output op n = (blockCells ip op n).gather input output := by
  rw [lteChGetRefOne, memcpy_gather]
  rfl

lemma lteChPutRef_scatter [Zero α] (nofPrb off : ℕ) (hiv : 0 < iv) :
    lteChPutRef input ip output op nofPrb off iv =
      (runCells op ip off iv (refLen nofPrb off iv)).scatter input output := by
  rw [lteChPutRef, foldl_counter fun output r i =>
    lteChPutRefOne input (ip + r) output (op + ↑(iv * i + off)) (iv - 1)]
  simp only [lteChPutRefOne_scatter, memcpy_scatter, foldl_scatter]
  rw [runCells_refLen op ip hiv, scatter_append, scatter_append]
  split
  · rfl
  · rfl

lemma lteChGetRef_gather (nofPrb off : ℕ) (hiv : 0 < iv) :
    lteChGetRef input ip output op nofPrb off iv =
      (runCells ip op off iv (refLen nofPrb off iv)).gather input output := by
  rw [lteChGetRef, foldl_counter fun output r i =>
    lteChGetRefOne input (ip + ↑(iv * i + off)) output (op + r) (iv - 1)]
  simp only [lteChGetRefOne_gather, memcpy_gather, foldl_gather]
  rw [runCells_refLen ip op hiv, gather_append, gather_append]
  split
  · rfl
  · rfl

end

lemma runCells_noref (op ip : ℤ) (nofPrb : ℕ) (iv : ℕ) (h : 12 * nofPrb ≤ off) :
    runCells op ip off iv (12 * nofPrb) = (List.range nofPrb).flatMap fun i =>
      copyCells (op + ↑(i * nofReXOsymb)) (ip + ↑(i * nofReXOsymb)) nofReXOsymb := by
  induction nofPrb with
  | zero => rfl
  | succ n ih =>
    rw [Nat.mul_succ, runCells_add, ih (by omega), range_succ (n := n),
      flatMap_append, flatMap_singleton]
    congr 1
    refine map_congr_left fun c hc => ?_
    rw [mem_range] at hc
    rw [runCell, runEntry, if_pos (by omega), nofReXOsymb, mul_comm n]
    refine Prod.ext ?_ (congrArg some ?_) <;> dsimp only <;> push_cast <;> ring

section

variable (input : ℤ → α) (ip : ℤ) (output : ℤ → α) (op : ℤ) (nofPrb : ℕ) (iv : ℕ)
  (h : 12 * nofPrb ≤ off)
include h

lemma lteChCpNoref_scatter [Zero α] : lteChCpNoref input ip output op nofPrb =
      (runCells op ip off iv (12 * nofPrb)).scatter input output := by
  rw [lteChCpNoref, runCells_noref op ip nofPrb iv h, ← foldl_scatter]
  simp only [memcpy_scatter]

lemma lteChCpNoref_gather : lteChCpNoref input ip output op nofPrb =
      (runCells ip op off iv (12 * nofPrb)).gather input output := by
  rw [lteChCpNoref, runCells_noref ip op nofPrb iv h, ← foldl_gather]
  simp only [memcpy_gather]

end

/-! ## What is in a run -/

lemma mem_runCells {w : ℤ × Option ℤ} :
    w ∈ runCells op ip off iv len ↔ ∃ c < len, runCell op ip off iv c = w := by
  simp [runCells]

lemma cells_runCells (op ip : ℤ) (off iv len : ℕ) :
    (runCells op ip off iv len).cells = (List.range len).map fun c : ℕ => op + c := by
  rw [runCells, cells, map_map]
  rfl

lemma mem_cells_runCells {d : ℤ} :
    d ∈ (runCells op ip off iv len).cells ↔ op ≤ d ∧ d < op + len := by
  rw [cells_runCells, mem_map]
  constructor
  · rintro ⟨c, hc, rfl⟩
    rw [mem_range] at hc
    omega
  · intro h
    exact ⟨(d - op).toNat, mem_range.mpr (by omega), by omega⟩

lemma nodup_cells_runCells (op ip : ℤ) (off iv len : ℕ) :
    (runCells op ip off iv len).cells.Nodup := by
  rw [cells_runCells]
  exact nodup_range.map fun a b h => by simpa using h

/-! ## Homes in a run -/

lemma runEntry_of_lt (iv : ℕ) (h : c < off) : runEntry off iv c = some c := if_pos h

lemma runEntry_three (h : off ≤ e) : runEntry off 3 (e + (e - off) / 2 + 1) = some e := by
  rw [runEntry, if_neg (by omega), if_neg (by omega)]
  exact congrArg some (by omega)

lemma runEntry_six (h : off ≤ e) : runEntry off 6 (e + (e - off) / 5 + 1) = some e := by
  rw [runEntry, if_neg (by omega), if_neg (by omega)]
  exact congrArg some (by omega)

def RegularRun (off iv len : ℕ) : Prop := iv = 3 ∨ iv = 6 ∨ len ≤ off

lemma runEntry_lt {c' e' : ℕ} (hreg : RegularRun off iv len) (hlt : c < c')
    (hlen : c' < len) (he : runEntry off iv c = some e) (he' : runEntry off iv c' = some e') :
    e < e' := by
  unfold runEntry at he he'
  rcases hreg with rfl | rfl | hoff <;> grind

lemma mem_entries_runCells {s : ℤ} : s ∈ (runCells op ip off iv len).entries ↔
      ∃ c < len, ∃ e, runEntry off iv c = some e ∧ s = ip + e := by
  rw [mem_entries]
  constructor
  · rintro ⟨d, hd⟩
    obtain ⟨c, hc, hcell⟩ := mem_runCells.mp hd
    obtain ⟨e, he, hs⟩ := Option.map_eq_some_iff.mp (congrArg Prod.snd hcell)
    exact ⟨c, hc, e, he, hs.symm⟩
  · rintro ⟨c, hc, e, he, rfl⟩
    exact ⟨op + c, mem_runCells.mpr ⟨c, hc, by rw [runCell, he]; rfl⟩⟩

lemma home_runCells (op ip : ℤ) (hreg : RegularRun off iv len)
    (hc : c < len) (he : runEntry off iv c = some e) :
    (runCells op ip off iv len).Home (ip + e) (op + c) := by
  obtain ⟨m, rfl⟩ : ∃ m, len = c + (1 + m) := ⟨len - c - 1, by omega⟩
  refine ⟨runCells op ip off iv c,
    (List.range m).map fun j => runCell op ip off iv (c + (1 + j)), ?_, ?_, ?_⟩
  · have hhead : runCell op ip off iv (c + 0) = (op + c, some (ip + e)) := by
      rw [add_zero, runCell, he]
      rfl
    rw [runCells_add, range_add, map_append, map_map]
    simp only [range_one, map_cons, map_nil, hhead]
    rfl
  · intro hd
    obtain ⟨o, ho⟩ := mem_cells.mp hd
    obtain ⟨j, -, hj⟩ := mem_map.mp ho
    have := congrArg Prod.fst hj
    simp only [runCell] at this
    omega
  · intro hs
    obtain ⟨d, hd⟩ := mem_entries.mp hs
    obtain ⟨j, hj, hcell⟩ := mem_map.mp hd
    rw [mem_range] at hj
    obtain ⟨e', he', hs'⟩ := Option.map_eq_some_iff.mp (congrArg Prod.snd hcell)
    have := runEntry_lt hreg (by omega) (by omega) he he'
    omega

/-! ## One symbol -/

/-- The shape of a run: how many symbols come before the first zero, how far the zeros are apart,
and how many subcarriers there are. -/
structure RunShape where
  off : ℕ
  iv : ℕ
  len : ℕ
deriving DecidableEq, Repr

/-- The shape of a run over `nofPrb` PRBs with `nofRef` references in each, the first one at
`voffset`. -/
def runShape (nofRef voffset nofPrb : ℕ) : RunShape :=
  if nofRef ≠ 0 then
    ⟨voffset, nofReXOsymb / nofRef, refLen nofPrb voffset (nofReXOsymb / nofRef)⟩
  else ⟨12 * nofPrb, 1, 12 * nofPrb⟩

lemma runShape_zero (voffset nofPrb : ℕ) :
    runShape 0 voffset nofPrb = ⟨12 * nofPrb, 1, 12 * nofPrb⟩ := rfl

variable {nofPrb : ℕ} {chType : Phch}

lemma runShape_two (hprb : 0 < nofPrb) (voffset : ℕ) : runShape 2 voffset nofPrb =
      ⟨voffset, 6, if voffset < 5 then 12 * nofPrb else 12 * nofPrb + voffset - 6⟩ := by
  rw [← refLen_six hprb]
  rfl

lemma runShape_four (hprb : 0 < nofPrb) (voffset : ℕ) : runShape 4 voffset nofPrb =
      ⟨voffset, 3, if voffset < 2 then 12 * nofPrb else 12 * nofPrb + voffset - 3⟩ := by
  rw [← refLen_three hprb]
  rfl

/-- The shape of the runs over `nofPrb` PRBs in a symbol. -/
def symbolShape (config : LteGridConfig) (location : LteSymbol) (nofPrb : ℕ) : RunShape :=
  runShape (lteSymbolHasRefsigOrResv location config)
    (lteRefsigOrResvVoffset location.symbolId config) nofPrb

/-- The run of a given shape from `op` on. -/
def RunShape.cells (sh : RunShape) (op ip : ℤ) : Placement ℤ ℤ := runCells op ip sh.off sh.iv sh.len

def prbStep (config : LteGridConfig) (location : LteSymbol) : ℤ :=
  if lteSymbolHasRefsigOrResv location config ≠ 0 then
    nofReXOsymb - lteSymbolHasRefsigOrResv location config * config.nofPorts
  else nofReXOsymb

def visitCells (sh : RunShape) (step op : ℤ) : List ℕ → ℤ → Placement ℤ ℤ
  | [], _ => []
  | prb :: prbs, ip => sh.cells (op + ↑(nofReXOsymb * prb)) ip ++
      visitCells sh step op prbs (ip + step)

/-- What a PDSCH writes in a symbol whose subcarriers start at `op`. -/
def pdschCells (config : LteGridConfig) (channelIdx : ℕ) (location : LteSymbol) (op ip : ℤ) :
    Placement ℤ ℤ :=
  if lteSymbolHasCh location (config.phch .pdsch) then
    visitCells (symbolShape config location 1) (prbStep config location) op
      (visitedPrbs (config.pdsch channelIdx) config) ip
  else []

def pdschCount (config : LteGridConfig) (channelIdx : ℕ) (location : LteSymbol) : ℤ :=
  if lteSymbolHasCh location (config.phch .pdsch) then
    prbStep config location * (visitedPrbs (config.pdsch channelIdx) config).length
  else 0

def pbchStart (config : LteGridConfig) : ℕ := config.nofPrb * nofReXOsymb / 2 - 36

def pbchCells (config : LteGridConfig) (location : LteSymbol) (op ip : ℤ) : Placement ℤ ℤ :=
  if lteSymbolHasCh location (config.phch .pbch) then
    (symbolShape config location 6).cells (op + pbchStart config) ip
  else []

def pbchCount (config : LteGridConfig) (location : LteSymbol) : ℤ :=
  if lteSymbolHasCh location (config.phch .pbch) then
    6 * nofReXOsymb - lteSymbolHasRefsigOrResv location config * 6
  else 0

lemma hasRefsigOrResv_cases (config : LteGridConfig) (location : LteSymbol) :
    lteSymbolHasRefsigOrResv location config = 0 ∨ lteSymbolHasRefsigOrResv location config = 2 ∨
      lteSymbolHasRefsigOrResv location config = 4 := by
  unfold lteSymbolHasRefsigOrResv
  split_ifs <;> simp

/-- The walk over the visited PRBs, for a mapper or a demapper `act`: each round serves one PRB. -/
theorem foldl_visitCells {β : Type} {sh : RunShape} {step op ip : ℤ} (act : Placement ℤ ℤ → β → β)
    (hnil : ∀ b, act [] b = b) (happend : ∀ ws vs b, act (ws ++ vs) b = act vs (act ws b))
    {round : ℤ × β → ℕ → ℤ × β} (hround : ∀ s prb, round s prb =
      (s.1 + step, act (sh.cells (op + ↑(nofReXOsymb * prb)) (ip + s.1)) s.2))
    (prbs : List ℕ) (p : ℤ) (b : β) :
    prbs.foldl round (p, b) =
      (p + step * prbs.length, act (visitCells sh step op prbs (ip + p)) b) := by
  induction prbs generalizing p b with
  | nil => simp [visitCells, hnil]
  | cons prb prbs ih =>
    rw [foldl_cons, hround, ih, visitCells, happend, length_cons, Int.add_assoc ip]
    refine Prod.ext ?_ rfl
    push_cast
    ring

section Writing

variable [Zero α]

lemma put_scatter (config : LteGridConfig) (location : LteSymbol) (nofPrb : ℕ) (input : ℤ → α)
    (ip : ℤ) (output : ℤ → α) (op : ℤ) :
    (if lteSymbolHasRefsigOrResv location config ≠ 0 then
      lteChPutRef input ip output op nofPrb (lteRefsigOrResvVoffset location.symbolId config)
        (nofReXOsymb / lteSymbolHasRefsigOrResv location config)
    else lteChCpNoref input ip output op nofPrb) =
      ((symbolShape config location nofPrb).cells op ip).scatter input output := by
  rw [symbolShape, runShape]
  rcases hasRefsigOrResv_cases config location with h | h | h <;> rw [h]
  · exact lteChCpNoref_scatter input ip output op nofPrb 1 le_rfl
  · exact lteChPutRef_scatter input ip output op nofPrb _ (by decide)
  · exact lteChPutRef_scatter input ip output op nofPrb _ (by decide)

lemma pdschPutPrb_eq (pdsch : ℤ → α) (ip op : ℤ) (location : LteSymbol) (config : LteGridConfig)
    (s : ℤ × (ℤ → α)) (prb : ℕ) :
    pdschPutPrb pdsch ip op location config s prb = (s.1 + prbStep config location,
      ((symbolShape config location 1).cells (op + ↑(nofReXOsymb * prb)) (ip + s.1)).scatter
        pdsch s.2) := by
  rw [← put_scatter, pdschPutPrb, prbStep]
  split <;> rfl

lemma ltePdschPut_eq (pdsch : ℤ → α) (ip : ℤ) (output : ℤ → α) (op : ℤ) (channelIdx : ℕ)
    (location : LteSymbol) (config : LteGridConfig) :
    ltePdschPut pdsch ip output op channelIdx location config =
      (pdschCount config channelIdx location,
        (pdschCells config channelIdx location op ip).scatter pdsch output) := by
  have hloop := foldl_visitCells (fun ws g => ws.scatter pdsch g) (fun _ => rfl)
    (fun _ _ _ => scatter_append) (pdschPutPrb_eq pdsch ip op location config)
  rw [ltePdschPut, pdschCount, pdschCells]
  cases lteSymbolHasCh location (config.phch .pdsch) with
  | false => rfl
  | true => simpa using hloop (visitedPrbs (config.pdsch channelIdx) config) 0 output

lemma ltePbchPut_eq (pbch : ℤ → α) (ip : ℤ) (output : ℤ → α) (op : ℤ) (location : LteSymbol)
    (config : LteGridConfig) :
    ltePbchPut pbch ip output op location config = (pbchCount config location,
      (pbchCells config location op ip).scatter pbch output) := by
  rw [ltePbchPut, pbchCount, pbchCells]
  cases lteSymbolHasCh location (config.phch .pbch) with
  | false => rfl
  | true =>
    have hput := put_scatter config location 6 pbch ip output (op + pbchStart config)
    simp only [Bool.not_true, Bool.false_eq_true, if_false, if_true, ← hput]
    rcases hasRefsigOrResv_cases config location with h | h | h <;> simp [h, pbchStart]

end Writing

section Reading

lemma get_gather (config : LteGridConfig) (location : LteSymbol) (nofPrb : ℕ) (input : ℤ → α)
    (ip : ℤ) (output : ℤ → α) (op : ℤ) :
    (if lteSymbolHasRefsigOrResv location config ≠ 0 then
      lteChGetRef input ip output op nofPrb (lteRefsigOrResvVoffset location.symbolId config)
        (nofReXOsymb / lteSymbolHasRefsigOrResv location config)
    else lteChCpNoref input ip output op nofPrb) =
      ((symbolShape config location nofPrb).cells ip op).gather input output := by
  rw [symbolShape, runShape]
  rcases hasRefsigOrResv_cases config location with h | h | h <;> rw [h]
  · exact lteChCpNoref_gather input ip output op nofPrb 1 le_rfl
  · exact lteChGetRef_gather input ip output op nofPrb _ (by decide)
  · exact lteChGetRef_gather input ip output op nofPrb _ (by decide)

lemma pdschGetPrb_eq (input : ℤ → α) (ip op : ℤ) (location : LteSymbol) (config : LteGridConfig)
    (s : ℤ × (ℤ → α)) (prb : ℕ) :
    pdschGetPrb input ip op location config s prb = (s.1 + prbStep config location,
      ((symbolShape config location 1).cells (ip + ↑(nofReXOsymb * prb)) (op + s.1)).gather
        input s.2) := by
  rw [← get_gather, pdschGetPrb, prbStep]
  split <;> rfl

lemma ltePdschGet_eq (input : ℤ → α) (ip : ℤ) (pdsch : ℤ → α) (op : ℤ) (channelIdx : ℕ)
    (location : LteSymbol) (config : LteGridConfig) :
    ltePdschGet input ip pdsch op channelIdx location config =
      (pdschCount config channelIdx location,
        (pdschCells config channelIdx location ip op).gather input pdsch) := by
  have hloop := foldl_visitCells (fun ws b => ws.gather input b) (fun _ => rfl)
    (fun _ _ _ => gather_append) (pdschGetPrb_eq input ip op location config)
  rw [ltePdschGet, pdschCount, pdschCells]
  cases lteSymbolHasCh location (config.phch .pdsch) with
  | false => rfl
  | true => simpa using hloop (visitedPrbs (config.pdsch channelIdx) config) 0 pdsch

lemma ltePbchGet_eq (input : ℤ → α) (ip : ℤ) (pbch : ℤ → α) (op : ℤ) (location : LteSymbol)
    (config : LteGridConfig) :
    ltePbchGet input ip pbch op location config = (pbchCount config location,
      (pbchCells config location ip op).gather input pbch) := by
  rw [ltePbchGet, pbchCount, pbchCells]
  cases lteSymbolHasCh location (config.phch .pbch) with
  | false => rfl
  | true =>
    have hget := get_gather config location 6 input (ip + pbchStart config) pbch op
    simp only [Bool.not_true, Bool.false_eq_true, if_false, if_true, ← hget]
    rcases hasRefsigOrResv_cases config location with h | h | h <;> simp [h, pbchStart]

end Reading

/-! ## The PRBs of a symbol -/

section Visits

variable {sh : RunShape} {step op : ℤ} {prbs : List ℕ} {ip d s : ℤ}

lemma mem_visitCells {w : ℤ × Option ℤ} :
    w ∈ visitCells sh step op prbs ip ↔ ∃ v prb : ℕ, prbs[v]? = some prb ∧
      w ∈ sh.cells (op + ↑(nofReXOsymb * prb)) (ip + step * v) := by
  induction prbs generalizing ip with
  | nil => simp [visitCells]
  | cons prb prbs ih =>
    have hnext : ∀ v : ℕ, ip + step + step * v = ip + step * (v + 1 : ℕ) := by
      intro v
      push_cast
      ring
    rw [visitCells, mem_append, ih]
    constructor
    · rintro (h | ⟨v, prb', hv, h⟩)
      · exact ⟨0, prb, rfl, by simpa using h⟩
      · exact ⟨v + 1, prb', hv, hnext v ▸ h⟩
    · grind

lemma mem_visitCells_iff {o : Option ℤ} :
    (d, o) ∈ visitCells sh step op prbs ip ↔ ∃ v prb : ℕ, prbs[v]? = some prb ∧ ∃ c < sh.len,
      d = op + ↑(nofReXOsymb * prb) + c ∧
        o = (runEntry sh.off sh.iv c).map fun e : ℕ => ip + step * v + e := by
  simp only [mem_visitCells, RunShape.cells, mem_runCells, runCell, Prod.mk.injEq, eq_comm]

lemma mem_cells_visitCells : d ∈ (visitCells sh step op prbs ip).cells ↔
      ∃ prb ∈ prbs, op + ↑(nofReXOsymb * prb) ≤ d ∧ d < op + ↑(nofReXOsymb * prb) + sh.len := by
  induction prbs generalizing ip with
  | nil => simp [visitCells, cells]
  | cons prb prbs ih =>
    rw [visitCells, cells_append, mem_append, ih, RunShape.cells, mem_cells_runCells]
    simp

lemma cells_visitCells (prbs : List ℕ) (ip ip' : ℤ) :
    (visitCells sh step op prbs ip).cells = (visitCells sh step op prbs ip').cells := by
  induction prbs generalizing ip ip' with
  | nil => rfl
  | cons prb prbs ih =>
    rw [visitCells, visitCells, cells_append, cells_append, RunShape.cells, RunShape.cells,
      cells_runCells, cells_runCells, ih (ip + step) (ip' + step)]

lemma le_of_mem_entries_visitCells (hstep : 0 ≤ step)
    (hs : s ∈ (visitCells sh step op prbs ip).entries) : ip ≤ s := by
  induction prbs generalizing ip with
  | nil => simp [visitCells, entries] at hs
  | cons prb prbs ih =>
    rw [visitCells, entries_append, mem_append] at hs
    rcases hs with hs | hs
    · obtain ⟨c, -, e, -, rfl⟩ := mem_entries_runCells.mp hs
      omega
    · have := ih hs
      omega

/-- **Homes in a symbol.** Where the runs of later PRBs stay away from the PRBs before, each symbol
that a PDSCH goes on by has its home in a PRB, at a subcarrier `c` that carries data. -/
theorem home_visitCells (hreg : RegularRun sh.off sh.iv sh.len) (hstep : 0 ≤ step)
    (hpos : ∀ e : ℕ, (e : ℤ) < step → ∃ c < sh.len, c < 12 ∧ runEntry sh.off sh.iv c = some e)
    (hprbs : prbs.Pairwise fun a b => a < b ∨ sh.len ≤ 12 ∧ a ≠ b)
    (hlo : ip ≤ s) (hhi : s < ip + step * prbs.length) :
    ∃ prb ∈ prbs, ∃ c < 12, c < sh.len ∧ (runEntry sh.off sh.iv c).isSome ∧
      (visitCells sh step op prbs ip).Home s (op + ↑(nofReXOsymb * prb) + c) := by
  induction prbs generalizing ip with
  | nil => simp at hhi; omega
  | cons prb prbs ih =>
    obtain ⟨hfirst, hrest⟩ := pairwise_cons.mp hprbs
    rw [length_cons, Nat.cast_succ, Int.mul_add, Int.mul_one] at hhi
    rcases lt_or_ge s (ip + step) with hs | hs
    · obtain ⟨c, hc, hc12, he⟩ := hpos (s - ip).toNat (by omega)
      refine ⟨prb, mem_cons_self, c, hc12, hc, by rw [he]; rfl, ?_⟩
      have hhome := home_runCells (op + ↑(nofReXOsymb * prb)) ip hreg hc he
      rw [show ip + ((s - ip).toNat : ℤ) = s by omega] at hhome
      refine hhome.append_right ?_ ?_
      · intro hd
        obtain ⟨prb', hprb', hlo', hhi'⟩ := mem_cells_visitCells.mp hd
        have hne := hfirst prb' hprb'
        simp only [nofReXOsymb] at hlo' hhi'
        omega
      · intro hs'
        have := le_of_mem_entries_visitCells hstep hs'
        omega
    · obtain ⟨prb', hprb', c, hc12, hc, hdata, hhome⟩ := ih hrest hs (by omega)
      exact ⟨prb', mem_cons_of_mem _ hprb', c, hc12, hc, hdata, hhome.append_left⟩

end Visits

/-! ## A subframe -/

section Subframe

variable (cellsAt : ℕ → ℤ → Placement ℤ ℤ) (countAt : ℕ → ℤ)

/-- The placement of `symbolLoop`, for a channel that writes `cellsAt i rp` in symbol `i` and goes
on by `countAt i`. -/
def loopCells : List ℕ → ℤ → Placement ℤ ℤ
  | [], _ => []
  | i :: is, rp => cellsAt i rp ++ if countAt i < 0 then [] else loopCells is (rp + countAt i)

def loopCount : List ℕ → ℤ → ℤ
  | [], rp => rp
  | i :: is, rp => if countAt i < 0 then -1 else loopCount is (rp + countAt i)

variable {cellsAt countAt}

lemma symbolLoop_eq {turn : ℕ → ℤ → (ℤ → α) → Except Exit (ℤ × (ℤ → α))}
    {f : Placement ℤ ℤ → (ℤ → α) → ℤ → α} (hnil : ∀ mem, f [] mem = mem)
    (happend : ∀ ws vs mem, f (ws ++ vs) mem = f vs (f ws mem))
    (hturn : ∀ i rp mem, turn i rp mem = .ok (countAt i, f (cellsAt i rp) mem))
    (is : List ℕ) (rp : ℤ) (mem : ℤ → α) :
    symbolLoop turn is rp mem =
      .ok (loopCount countAt is rp, f (loopCells cellsAt countAt is rp) mem) := by
  induction is generalizing rp mem with
  | nil => rw [symbolLoop, loopCount, loopCells, hnil]
  | cons i is ih =>
    rw [symbolLoop, hturn, loopCount, loopCells, happend]
    by_cases hneg : countAt i < 0
    · simp only [hneg, if_true, hnil]
      show (if countAt i < 0 then _ else _) = _
      rw [if_pos hneg]
      rfl
    · simp only [hneg, if_false]
      show (if countAt i < 0 then _ else _) = _
      rw [if_neg hneg, ih]

variable {is : List ℕ} {rp : ℤ}

lemma mem_loopCells {w : ℤ × Option ℤ}
    (h : w ∈ loopCells cellsAt countAt is rp) : ∃ i ∈ is, ∃ rp', w ∈ cellsAt i rp' := by
  induction is generalizing rp with
  | nil => cases h
  | cons i is ih =>
    rw [loopCells, mem_append] at h
    rcases h with h | h
    · exact ⟨i, mem_cons_self, rp, h⟩
    · grind

lemma mem_cells_loopCells {d : ℤ} (hcount : ∀ i ∈ is, 0 ≤ countAt i)
    (hcells : ∀ i ∈ is, ∀ rp rp', (cellsAt i rp).cells = (cellsAt i rp').cells) :
    d ∈ (loopCells cellsAt countAt is rp).cells ↔ ∃ i ∈ is, d ∈ (cellsAt i 0).cells := by
  induction is generalizing rp with
  | nil => simp [loopCells, cells]
  | cons i is ih =>
    obtain ⟨hi, his⟩ := forall_mem_cons.mp hcount
    rw [loopCells, cells_append, mem_append, if_neg (by omega),
      ih his (fun j hj => hcells j (mem_cons_of_mem i hj)),
      hcells i mem_cons_self rp 0]
    simp

lemma loopCount_eq (hcount : ∀ i ∈ is, 0 ≤ countAt i) :
    loopCount countAt is rp = rp + (is.map countAt).sum := by
  induction is generalizing rp with
  | nil => simp [loopCount]
  | cons i is ih =>
    obtain ⟨hi, his⟩ := forall_mem_cons.mp hcount
    rw [loopCount, if_neg (by omega), ih his, map_cons, sum_cons, Int.add_assoc]

lemma loopCount_of_neg {i : ℕ} (hi : i ∈ is) (hneg : countAt i < 0) :
    loopCount countAt is rp = -1 := by
  induction is generalizing rp with
  | nil => cases hi
  | cons j is ih =>
    rw [loopCount]
    split_ifs with hj
    · rfl
    · rcases mem_cons.mp hi with rfl | hi
      · exact absurd hneg hj
      · exact ih hi

end Subframe

def channelCells (config : LteGridConfig) (chType : Phch) (channelIdx subframeId i : ℕ) (rp : ℤ) :
    Placement ℤ ℤ :=
  match chType with
  | .pdsch => pdschCells config channelIdx ⟨subframeId, i⟩ (i * config.fftSize + config.preGuard) rp
  | .pbch => pbchCells config ⟨subframeId, i⟩ (i * config.fftSize + config.preGuard) rp
  | _ => []

/-- How many symbols a data channel goes on by in symbol `i` of a subframe. -/
def channelCount (config : LteGridConfig) (chType : Phch) (channelIdx subframeId i : ℕ) : ℤ :=
  match chType with
  | .pdsch => pdschCount config channelIdx ⟨subframeId, i⟩
  | .pbch => pbchCount config ⟨subframeId, i⟩
  | _ => -1

def sfCells (config : LteGridConfig) (chType : Phch) (channelIdx subframeId : ℕ) :
    Placement ℤ ℤ :=
  loopCells (channelCells config chType channelIdx subframeId)
    (channelCount config chType channelIdx subframeId) (List.range config.nofOsymbXSubf) 0

/-- The number of symbols that `lte_ch_put_sf` and `lte_ch_get_sf` return. -/
def sfCount (config : LteGridConfig) (chType : Phch) (channelIdx subframeId : ℕ) : ℤ :=
  loopCount (channelCount config chType channelIdx subframeId) (List.range config.nofOsymbXSubf) 0

lemma lteChPutSf_eq [Zero α] (input output : ℤ → α)
    (hdata : chType = .pdsch ∨ chType = .pbch) (channelIdx subframeId : ℕ)
    (config : LteGridConfig) :
    lteChPutSf input output chType channelIdx subframeId config =
      .ok (sfCount config chType channelIdx subframeId,
        (sfCells config chType channelIdx subframeId).scatter input output) := by
  rw [lteChPutSf, if_pos hdata]
  refine symbolLoop_eq (f := fun ws mem => ws.scatter input mem) (fun _ => rfl)
    (fun _ _ _ => scatter_append) (fun i rp mem => ?_) _ _ _
  rcases hdata with rfl | rfl
  · exact congrArg Except.ok (ltePdschPut_eq ..)
  · exact congrArg Except.ok (ltePbchPut_eq ..)

lemma lteChGetSf_eq (input output : ℤ → α)
    (hdata : chType = .pdsch ∨ chType = .pbch) (channelIdx subframeId : ℕ)
    (config : LteGridConfig) :
    lteChGetSf input output chType channelIdx subframeId config =
      .ok (sfCount config chType channelIdx subframeId,
        (sfCells config chType channelIdx subframeId).gather input output) := by
  rw [lteChGetSf, if_pos hdata]
  refine symbolLoop_eq (f := fun ws mem => ws.gather input mem) (fun _ => rfl)
    (fun _ _ _ => gather_append) (fun i rp mem => ?_) _ _ _
  rcases hdata with rfl | rfl
  · exact congrArg Except.ok (ltePdschGet_eq ..)
  · exact congrArg Except.ok (ltePbchGet_eq ..)

end Aloe.Modrep.Grid
