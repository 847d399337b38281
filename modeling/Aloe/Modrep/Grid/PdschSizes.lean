import Mathlib.Algebra.BigOperators.Ring.Finset
import Mathlib.Algebra.Order.BigOperators.Group.Finset
import Aloe.Modrep.Grid.ResourceBlocks

/-!
# The sizes of a PDSCH

`lte_pdsch_get_re` is a formula with constants for the subframes; `lte_ch_put_sf` and
`lte_ch_get_sf` go through the symbols and PRBs and count. Both are products with the number of PRBs
visited, so two numbers per PRB are compared. The number of REs that hold data in the end is counted
as a set.
-/

namespace Aloe.Modrep.Grid

open Lib Placement List Int

/-! ## The statement -/

/-- The REs that `lte_ch_put_sf` writes symbols of the PDSCH to. -/
def dataRes (config : LteGridConfig) (channelIdx subframeId : ℕ) : Set ℤ :=
  { d | ∃ s : ℤ, ∀ (x output : ℤ → ComplexT) r,
    lteChPutSf x output .pdsch channelIdx subframeId config = .ok r → r.2 d = x s }

/-- The symbols that are consumed, those that are produced, the size that the mapper checks and the
number of REs with data are the same. -/
structure SizesAgree (config : LteGridConfig) (channelIdx subframeId : ℕ) : Prop where
  consumed : ∀ x output : ℤ → ComplexT, ∃ output',
    lteChPutSf x output .pdsch channelIdx subframeId config =
      .ok (ltePdschGetRe channelIdx subframeId config, output')
  produced : ∀ input buffer : ℤ → ComplexT, ∃ buffer',
    lteChGetSf input buffer .pdsch channelIdx subframeId config =
      .ok (ltePdschGetRe channelIdx subframeId config, buffer')
  distinct : ((dataRes config channelIdx subframeId).ncard : ℤ) =
    ltePdschGetRe channelIdx subframeId config

lemma dataRes_eq (config : LteGridConfig) (channelIdx subframeId : ℕ) :
    dataRes config channelIdx subframeId = { d | ∃ s, Carries (α := ComplexT)
      (sfCells config .pdsch channelIdx subframeId).scatter d s } := by
  ext d
  simp [dataRes, lteChPutSf_eq _ _ (.inl rfl), Carries]

lemma sizesAgree_iff (config : LteGridConfig) (channelIdx subframeId : ℕ) :
    SizesAgree config channelIdx subframeId ↔
      sfCount config .pdsch channelIdx subframeId = ltePdschGetRe channelIdx subframeId config ∧
      ((dataRes config channelIdx subframeId).ncard : ℤ) =
        ltePdschGetRe channelIdx subframeId config := by
  constructor
  · rintro ⟨hput, -, hcard⟩
    obtain ⟨output', h⟩ := hput (fun _ => 0) (fun _ => 0)
    rw [lteChPutSf_eq _ _ (.inl rfl)] at h
    exact ⟨congrArg Prod.fst (Except.ok.inj h), hcard⟩
  · rintro ⟨hcount, hcard⟩
    refine ⟨fun x output => ?_, fun input buffer => ?_, hcard⟩
    · rw [lteChPutSf_eq _ _ (.inl rfl), hcount]
      exact ⟨_, rfl⟩
    · rw [lteChGetSf_eq _ _ (.inl rfl), hcount]
      exact ⟨_, rfl⟩

/-! ## The count -/

section Count

variable {config : LteGridConfig} {subframeId : ℕ}

def prbCount (config : LteGridConfig) (subframeId : ℕ) : ℤ :=
  ((List.range config.nofOsymbXSubf).map fun i =>
    if lteSymbolHasCh ⟨subframeId, i⟩ (ltePdschInitSfs config) then
      prbStep config ⟨subframeId, i⟩ else 0).sum

def Forward (config : LteGridConfig) (subframeId : ℕ) : Prop :=
  ∀ i < config.nofOsymbXSubf, lteSymbolHasCh ⟨subframeId, i⟩ (ltePdschInitSfs config) →
    0 ≤ prbStep config ⟨subframeId, i⟩

section

variable (hphch : config.phch .pdsch = ltePdschInitSfs config)
include hphch

lemma channelCount_eq (i : ℕ) : channelCount config .pdsch channelIdx subframeId i =
      (if lteSymbolHasCh ⟨subframeId, i⟩ (ltePdschInitSfs config) then
        prbStep config ⟨subframeId, i⟩ else 0) *
        (config.prbs channelIdx).length := by
  rw [channelCount, pdschCount, hphch]
  split_ifs
  · rfl
  · rw [zero_mul]

lemma sfCount_of_forward (hforward : Forward config subframeId) :
    sfCount config .pdsch channelIdx subframeId =
      prbCount config subframeId * (config.prbs channelIdx).length := by
  rw [sfCount, loopCount_eq, Int.zero_add, prbCount, ← sum_map_mul_right]
  · exact congrArg List.sum (map_congr_left fun i _ => channelCount_eq hphch i)
  · intro i hi
    rw [channelCount_eq hphch]
    refine Int.mul_nonneg ?_ (Int.natCast_nonneg _)
    split_ifs with hhas
    · exact hforward i (mem_range.mp hi) hhas
    · exact le_rfl

lemma sfCount_of_not_forward (hnot : ¬ Forward config subframeId)
    (hne : config.prbs channelIdx ≠ []) :
    sfCount config .pdsch channelIdx subframeId = -1 := by
  obtain ⟨i, hi, hhas, hneg⟩ : ∃ i < config.nofOsymbXSubf,
      lteSymbolHasCh ⟨subframeId, i⟩ (ltePdschInitSfs config) ∧
        prbStep config ⟨subframeId, i⟩ < 0 := by
    simpa [Forward] using hnot
  refine loopCount_of_neg (mem_range.mpr hi) ?_
  rw [channelCount_eq hphch, if_pos hhas]
  exact Int.mul_neg_of_neg_of_pos hneg (Int.natCast_pos.mpr (length_pos_iff.mpr hne))

end

end Count

/-! ## The REs with data -/

section Data

variable {c i : ℕ}

def RunShape.cols (sh : RunShape) : Finset ℕ :=
  (Finset.range 12).filter fun c => c < sh.len ∧ (runEntry sh.off sh.iv c).isSome

def dataCols (config : LteGridConfig) (location : LteSymbol) : Finset ℕ :=
  (symbolShape config location 1).cols

def reAt (config : LteGridConfig) (re : (_ : ℕ) × ℕ × ℕ) : ℤ :=
  re.1 * config.fftSize + config.preGuard + 12 * re.2.1 + re.2.2

def dataSet (config : LteGridConfig) (channelIdx subframeId : ℕ) : Finset ((_ : ℕ) × ℕ × ℕ) :=
  ((Finset.range config.nofOsymbXSubf).filter fun i =>
      lteSymbolHasCh ⟨subframeId, i⟩ (config.phch .pdsch)).sigma fun i =>
    (visitedPrbs (config.pdsch channelIdx) config).toFinset ×ˢ dataCols config ⟨subframeId, i⟩

variable {config : LteGridConfig} {channelIdx subframeId : ℕ}

lemma mem_dataCols {location : LteSymbol} :
    c ∈ dataCols config location ↔ c < 12 ∧ c < (symbolShape config location 1).len ∧
      (runEntry (symbolShape config location 1).off (symbolShape config location 1).iv
      c).isSome := by
  rw [dataCols, RunShape.cols, Finset.mem_filter, Finset.mem_range]

lemma mem_dataSet {prb : ℕ} : ⟨i, prb, c⟩ ∈ dataSet config channelIdx subframeId ↔
      (i < config.nofOsymbXSubf ∧ lteSymbolHasCh ⟨subframeId, i⟩ (config.phch .pdsch)) ∧
      prb ∈ config.prbs channelIdx ∧ c ∈ dataCols config ⟨subframeId, i⟩ := by
  simp [dataSet]

lemma card_dataSet : (dataSet config channelIdx subframeId).card =
    (config.prbs channelIdx).toFinset.card *
      ∑ i ∈ (Finset.range config.nofOsymbXSubf).filter fun i =>
        lteSymbolHasCh ⟨subframeId, i⟩ (config.phch .pdsch),
        (dataCols config ⟨subframeId, i⟩).card := by
  rw [dataSet, Finset.card_sigma, Finset.mul_sum]
  simp

lemma spill_isSome (location : LteSymbol) (hc : c + 12 < (symbolShape config location 1).len) :
    c < 2 ∧ (runEntry (symbolShape config location 1).off (symbolShape config location 1).iv
      (c + 12)).isSome := by
  have hvo := voffset_lt config location.symbolId
  rw [symbolShape] at hc ⊢
  generalize lteRefsigOrResvVoffset location.symbolId config = off at *
  rcases hasRefsigOrResv_cases config location with h | h | h <;> rw [h] at hc ⊢
  · rw [runShape_zero] at hc
    dsimp only at hc
    omega
  · rw [runShape_two one_pos] at hc
    dsimp only at hc
    split at hc <;> omega
  · rw [runShape_four one_pos] at hc ⊢
    dsimp only at hc ⊢
    rw [runEntry, if_neg (by split at hc <;> omega), if_neg (by split at hc <;> omega)]
    exact ⟨by split at hc <;> omega, rfl⟩

lemma len_symbolShape (location : LteSymbol) : (symbolShape config location 1).len ≤ 14 := by
  by_contra hlen
  have hspill : 2 + 12 < (symbolShape config location 1).len := by omega
  have := (spill_isSome location hspill).1
  omega

lemma mem_sfCells {d : ℤ} {o : Option ℤ}
    (h : (d, o) ∈ sfCells config .pdsch channelIdx subframeId) :
    ∃ i prb c : ℕ, (i < config.nofOsymbXSubf ∧
        lteSymbolHasCh ⟨subframeId, i⟩ (config.phch .pdsch)) ∧
      prb ∈ config.prbs channelIdx ∧
      c < (symbolShape config ⟨subframeId, i⟩ 1).len ∧ d = reAt config ⟨i, prb, c⟩ ∧
      o.isSome = (runEntry (symbolShape config ⟨subframeId, i⟩ 1).off
        (symbolShape config ⟨subframeId, i⟩ 1).iv c).isSome := by
  obtain ⟨i, hi, rp, h⟩ := mem_loopCells h
  rw [mem_range] at hi
  simp only [channelCells, pdschCells] at h
  split_ifs at h with hhas
  · obtain ⟨v, prb, hv, c, hc, rfl, rfl⟩ := mem_visitCells_iff.mp h
    refine ⟨i, prb, c, ⟨hi, hhas⟩, mem_of_getElem? hv, hc, ?_, Option.isSome_map⟩
    simp only [reAt, nofReXOsymb]
    omega
  · cases h

lemma base_inj {F i' x x' : ℕ} (hx : x < F) (hx' : x' < F) (h : F * i + x = F * i' + x') :
    i = i' ∧ x = x' := by
  have hpos : 0 < F := by omega
  have hi : i = i' := by
    have := congrArg (· / F) h
    simpa [Nat.mul_add_div hpos, Nat.div_eq_of_lt hx, Nat.div_eq_of_lt hx'] using this
  subst hi
  exact ⟨rfl, by omega⟩

variable (hroom : config.preGuard + 12 * config.nofPrb + config.postGuard ≤ config.fftSize)
  (hpost : 14 ≤ config.postGuard)

include hroom hpost

lemma reAt_inj {i' prb prb' c' : ℕ} (hprb : prb < config.nofPrb)
    (hprb' : prb' < config.nofPrb) (hc : c < 14) (hc' : c' < 14)
    (h : reAt config ⟨i, prb, c⟩ = reAt config ⟨i', prb', c'⟩) :
    i = i' ∧ 12 * prb + c = 12 * prb' + c' := by
  simp only [reAt] at h
  have hnat : config.fftSize * i + (config.preGuard + 12 * prb + c) =
      config.fftSize * i' + (config.preGuard + 12 * prb' + c') := by
    rw [mul_comm _ i, mul_comm _ i']
    refine ofNat_inj.mp ?_
    omega
  obtain ⟨hi, hx⟩ := base_inj (by omega) (by omega) hnat
  exact ⟨hi, by omega⟩

section

variable (hprbs : ∀ prb ∈ config.prbs channelIdx, prb < config.nofPrb)
include hprbs

lemma reAt_injOn : Set.InjOn (reAt config) (dataSet config channelIdx subframeId) := by
  rintro ⟨i, prb, c⟩ h ⟨i', prb', c'⟩ h' heq
  obtain ⟨-, hprb, hc⟩ := mem_dataSet.mp h
  obtain ⟨-, hprb', hc'⟩ := mem_dataSet.mp h'
  have hc := (mem_dataCols.mp hc).1
  have hc' := (mem_dataCols.mp hc').1
  obtain ⟨rfl, hcol⟩ := reAt_inj hroom hpost (hprbs prb hprb) (hprbs prb' hprb') (by omega)
    (by omega) heq
  obtain ⟨rfl, rfl⟩ : prb = prb' ∧ c = c' := by omega
  rfl

lemma image_subset_dataRes
    (hcount : ∀ i < config.nofOsymbXSubf, 0 ≤ channelCount config .pdsch channelIdx subframeId i) :
    Set.image (reAt config) (dataSet config channelIdx subframeId) ⊆
      dataRes config channelIdx subframeId := by
  rintro _ ⟨⟨i, prb, c⟩, h, rfl⟩
  obtain ⟨⟨hi, hhas⟩, hprb, hcol⟩ := mem_dataSet.mp h
  obtain ⟨hc12, hc, hdata⟩ := mem_dataCols.mp hcol
  rw [dataRes_eq]
  refine exists_carries ?_ fun o ho => ?_
  · refine (mem_cells_loopCells (fun j hj => hcount j (mem_range.mp hj)) ?_).mpr
      ⟨i, mem_range.mpr hi, ?_⟩
    · intro j _ rp rp'
      simp only [channelCells, pdschCells]
      split_ifs
      · exact cells_visitCells ..
      · rfl
    · simp only [channelCells, pdschCells, if_pos hhas]
      refine mem_cells_visitCells.mpr ⟨prb, hprb, ?_, ?_⟩ <;>
        simp only [reAt, nofReXOsymb] <;> omega
  · obtain ⟨i', prb', c', -, hprb', hc', hd, ho⟩ := mem_sfCells ho
    have hlen : (symbolShape config ⟨subframeId, i'⟩ 1).len ≤ 14 := len_symbolShape _
    obtain ⟨rfl, heq⟩ := reAt_inj hroom hpost (hprbs prb hprb) (hprbs prb' hprb') (by omega)
      (by omega) hd
    rw [ho]
    rcases (show c' = c ∨ c' = c + 12 by omega) with rfl | rfl
    · exact hdata
    · exact (spill_isSome _ hc').2

end

omit hroom hpost in
lemma finite_dataRes : (dataRes config channelIdx subframeId).Finite := by
  refine (sfCells config .pdsch channelIdx subframeId).cells.toFinset.finite_toSet.subset ?_
  rw [dataRes_eq]
  rintro d ⟨s, hs⟩
  rw [coe_toFinset]
  exact mem_cells.mpr ⟨_, mem_of_carries hs⟩

section

variable (hprbs : ∀ prb ∈ config.prbs channelIdx, prb < config.nofPrb)
  (hcount : ∀ i < config.nofOsymbXSubf, 0 ≤ channelCount config .pdsch channelIdx subframeId i)
include hprbs hcount

lemma card_dataSet_le : (dataSet config channelIdx subframeId).card ≤
      (dataRes config channelIdx subframeId).ncard := by
  rw [← Set.ncard_coe_finset, ← (reAt_injOn hroom hpost hprbs).ncard_image]
  exact Set.ncard_le_ncard (image_subset_dataRes hroom hpost hprbs hcount) finite_dataRes

lemma ncard_dataRes
    (hlen : ∀ i < config.nofOsymbXSubf, lteSymbolHasCh ⟨subframeId, i⟩ (config.phch .pdsch) →
      (symbolShape config ⟨subframeId, i⟩ 1).len ≤ 12) :
    (dataRes config channelIdx subframeId).ncard = (dataSet config channelIdx subframeId).card := by
  refine le_antisymm ?_ (card_dataSet_le hroom hpost hprbs hcount)
  rw [← Set.ncard_coe_finset, ← (reAt_injOn hroom hpost hprbs).ncard_image]
  refine Set.ncard_le_ncard ?_ (Set.Finite.image _ (Finset.finite_toSet _))
  rw [dataRes_eq]
  rintro d ⟨s, hs⟩
  obtain ⟨i, prb, c, hi, hprb, hc, rfl, hdata⟩ := mem_sfCells (mem_of_carries hs)
  have := hlen i hi.1 hi.2
  exact ⟨_, mem_dataSet.mpr ⟨hi, hprb, mem_dataCols.mpr ⟨by omega, hc, hdata.symm⟩⟩, rfl⟩

end

end Data

/-! ## Data per PRB -/

section PerPrb

variable {config : LteGridConfig} {channelIdx subframeId : ℕ}

lemma card_cols : ∀ nofRef ∈ [0, 2, 4], ∀ voffset < 6, (runShape nofRef voffset 1).cols.card =
    12 - nofRef + if nofRef = 4 ∧ 3 ≤ voffset then 1 else 0 := by
  decide

lemma len_runShape : ∀ nofRef ∈ [0, 2, 4], ∀ voffset < 6, ¬ (nofRef = 4 ∧ 3 ≤ voffset) →
    (runShape nofRef voffset 1).len ≤ 12 := by
  decide

/-- By how much the subcarriers with data of a PRB exceed what a PDSCH goes on by: four for each
port after the first, and one where the run starts with data before its first interval. -/
def excess (config : LteGridConfig) (location : LteSymbol) : ℤ :=
  if lteSymbolHasRefsigOrResv location config = 4 then
    4 * (config.nofPorts - 1) + if 3 ≤ lteRefsigOrResvVoffset location.symbolId config then 1 else 0
  else 0

instance (config : LteGridConfig) (subframeId : ℕ) : Decidable (Forward config subframeId) :=
  inferInstanceAs (Decidable (∀ _, _))

lemma nofRef_mem (location : LteSymbol) : lteSymbolHasRefsigOrResv location config ∈ [0, 2, 4] := by
  simpa using hasRefsigOrResv_cases config location

lemma card_dataCols (location : LteSymbol) :
    ((dataCols config location).card : ℤ) = prbStep config location + excess config location := by
  rw [dataCols, symbolShape, card_cols _ (nofRef_mem location) _ (voffset_lt ..), prbStep, excess]
  simp only [nofReXOsymb]
  rcases hasRefsigOrResv_cases config location with h | h | h
  · simp [h]
  · simp [h, nofPorts_of_two h]
  · by_cases hoff : 3 ≤ lteRefsigOrResvVoffset location.symbolId config
    · simp [h, hoff]
      omega
    · simp [h, hoff]
      omega

lemma excess_nonneg (hports : 1 ≤ config.nofPorts) (location : LteSymbol) :
    0 ≤ excess config location := by
  unfold excess
  split_ifs <;> omega

lemma prbData_eq (hphch : config.phch .pdsch = ltePdschInitSfs config) :
    ((∑ i ∈ (Finset.range config.nofOsymbXSubf).filter fun i =>
      lteSymbolHasCh ⟨subframeId, i⟩ (config.phch .pdsch),
      (dataCols config ⟨subframeId, i⟩).card : ℕ) : ℤ) =
    prbCount config subframeId + ∑ i ∈ (Finset.range config.nofOsymbXSubf).filter fun i =>
      lteSymbolHasCh ⟨subframeId, i⟩ (config.phch .pdsch), excess config ⟨subframeId, i⟩ := by
  have hsum : prbCount config subframeId = ∑ i ∈ Finset.range config.nofOsymbXSubf,
      if lteSymbolHasCh ⟨subframeId, i⟩ (ltePdschInitSfs config) then
        prbStep config ⟨subframeId, i⟩ else 0 := rfl
  rw [Nat.cast_sum, hsum, ← Finset.sum_filter, hphch, ← Finset.sum_add_distrib]
  exact Finset.sum_congr rfl fun i _ => card_dataCols _

end PerPrb

/-! ## The two numbers per PRB -/

section Table

def sizeFrame (nofOsymb nofPorts nofControlSymbols nofPrb : ℕ) : LteGridConfig :=
  { frameOf nofPorts nofOsymb with nofControlSymbols := nofControlSymbols, nofPrb := nofPrb }

/-- Where the formula of `lte_pdsch_re_x_prb` is what a PRB is counted with. -/
def FormulaFits (nofOsymb nofPorts nofControlSymbols nofPrb subframeId : ℕ) : Prop :=
  nofPorts = 1 ∧ nofOsymb = 14 ∧ (nofPrb = 6 ∨ subframeId ≠ 0 ∧ subframeId ≠ 5) ∨
  (nofPorts = 1 ∨ nofPorts = 2) ∧ nofOsymb = 12 ∧ nofPrb = 6 ∧ subframeId = 0 ∧
    nofControlSymbols ≤ 3

instance (n ports ctrl prb sf : ℕ) : Decidable (FormulaFits n ports ctrl prb sf) :=
  inferInstanceAs (Decidable (_ ∨ _))

lemma formula_table : ∀ n ∈ [14, 12], ∀ ports ∈ [1, 2, 4], ∀ ctrl ∈ [1, 2, 3, 4],
    ∀ prb ∈ [6, 7], ∀ sf < 10, (Forward (sizeFrame n ports ctrl prb) sf ∧
        prbCount (sizeFrame n ports ctrl prb) sf = ltePdschReXPrb sf (sizeFrame n ports ctrl prb) ↔
      FormulaFits n ports ctrl prb sf) ∧
      ltePdschReXPrb sf (sizeFrame n ports ctrl prb) % 2 = 0 := by
  decide +kernel

lemma references_table : ∀ n ∈ [14, 12], ∀ ports ∈ [1, 2, 4], ∀ ctrl ∈ [1, 2, 3, 4],
    ∀ prb ∈ [6, 7], ∀ sf < 10,
    FormulaFits n ports ctrl prb sf → 0 < ltePdschReXPrb sf (sizeFrame n ports ctrl prb) ∧
      ∀ i < n, lteSymbolHasCh ⟨sf, i⟩ (ltePdschInitSfs (sizeFrame n ports ctrl prb)) ∧
        lteSymbolHasRefsigOrResv ⟨sf, i⟩ (sizeFrame n ports ctrl prb) = 4 ↔ n = 12 ∧ i = 3 := by
  decide +kernel

variable {config : LteGridConfig} {subframeId : ℕ}

lemma hasCh_sizeFrame (location : LteSymbol) {prb : ℕ} (hprb : config.nofPrb = 6 ↔ prb = 6) :
    lteSymbolHasCh location (ltePdschInitSfs config) = lteSymbolHasCh location (ltePdschInitSfs
        (sizeFrame config.nofOsymbXSubf config.nofPorts config.nofControlSymbols prb)) := by
  have hmask : pdschSymbolMask location.subframeId config = pdschSymbolMask location.subframeId
      (sizeFrame config.nofOsymbXSubf config.nofPorts config.nofControlSymbols prb) := by
    unfold pdschSymbolMask
    by_cases h : config.nofPrb = 6
    · rw [if_pos h, if_pos (show (sizeFrame _ _ _ prb).nofPrb = 6 from hprb.mp h)]
      rfl
    · rw [if_neg h, if_neg (show (sizeFrame _ _ _ prb).nofPrb ≠ 6 from fun h' => h (hprb.mpr h'))]
      rfl
  exact congrArg (fun mask => mask.getLsbD location.symbolId) hmask

lemma exists_framePrb (config : LteGridConfig) : ∃ prb ∈ [6, 7], (config.nofPrb = 6 ↔ prb = 6) := by
  by_cases h : config.nofPrb = 6
  · exact ⟨6, by simp, by simp [h]⟩
  · exact ⟨7, by simp, by simp [h]⟩

variable (hconfig : InRange config)
  (hctrl : 1 ≤ config.nofControlSymbols ∧ config.nofControlSymbols ≤ 4) (hsf : subframeId < 10)

include hconfig hctrl hsf

lemma formula_iff :
    (Forward config subframeId ∧ prbCount config subframeId = ltePdschReXPrb subframeId config ↔
    FormulaFits config.nofOsymbXSubf config.nofPorts config.nofControlSymbols config.nofPrb
      subframeId) ∧ ltePdschReXPrb subframeId config % 2 = 0 := by
  obtain ⟨prb, hmem, hprb⟩ := exists_framePrb config
  have htable := formula_table _ hconfig.osymb_mem _ hconfig.ports_mem config.nofControlSymbols
    (by simp; omega) prb hmem _ hsf
  have hforward : Forward config subframeId ↔ Forward (sizeFrame config.nofOsymbXSubf
      config.nofPorts config.nofControlSymbols prb) subframeId := by
    simp only [Forward, hasCh_sizeFrame _ hprb]
    rfl
  have hcount : prbCount config subframeId = prbCount (sizeFrame config.nofOsymbXSubf
      config.nofPorts config.nofControlSymbols prb) subframeId := by
    simp only [prbCount, hasCh_sizeFrame _ hprb]
    rfl
  refine ⟨?_, htable.2⟩
  rw [hforward, hcount, FormulaFits, hprb]
  exact htable.1

lemma references_iff (hfits : FormulaFits config.nofOsymbXSubf config.nofPorts
      config.nofControlSymbols config.nofPrb subframeId) :
    0 < ltePdschReXPrb subframeId config ∧ ∀ i < config.nofOsymbXSubf,
      lteSymbolHasCh ⟨subframeId, i⟩ (ltePdschInitSfs config) ∧
        lteSymbolHasRefsigOrResv ⟨subframeId, i⟩ config = 4 ↔
          config.nofOsymbXSubf = 12 ∧ i = 3 := by
  obtain ⟨prb, hmem, hprb⟩ := exists_framePrb config
  rw [FormulaFits, hprb] at hfits
  obtain ⟨hpos, htable⟩ := references_table _ hconfig.osymb_mem _ hconfig.ports_mem
    config.nofControlSymbols (by simp; omega) prb hmem _ hsf hfits
  refine ⟨hpos, fun i hi => ?_⟩
  rw [hasCh_sizeFrame _ hprb]
  exact htable i hi

end Table

/-! ## The PRBs of a channel -/

section Visited

variable {config : LteGridConfig} {ch ch' : LtePdsch}

lemma placePrb_lt {rbgMask : CInt} {place : ℕ × ℕ} (h : place ∈ rbgPlaces config rbgMask) :
    placePrb config place < config.nofPrb := by
  simp only [rbgPlaces, mem_flatMap, mem_map, mem_range] at h
  obtain ⟨i, hi, j, hj, rfl⟩ := h
  have hdiv := (mem_maskGroups.mp hi).1
  calc rbgSz config.nofPrb * i + j < rbgSz config.nofPrb * (i + 1) := by
        rw [Nat.mul_succ]
        omega
    _ ≤ rbgSz config.nofPrb * (config.nofPrb / rbgSz config.nofPrb) := Nat.mul_le_mul_left _ hdiv
    _ ≤ config.nofPrb := Nat.mul_div_le ..

section

variable (hblank : ∀ i j, ch.rbg i j = 0)
  (hfill : Filled config { ch with nofRbg := 0 } ch' (rbgPlaces config ch.rbgMask))
include hblank hfill

lemma mem_visitedPrbs_blank {prb : ℕ} (h : prb ∈ visitedPrbs ch' config) :
    prb = 0 ∨ prb ∈ (rbgPlaces config ch.rbgMask).map (placePrb config) := by
  obtain ⟨t, ht, j, -, rfl⟩ := mem_visitedPrbs.mp h
  rw [hfill.nofRbg] at ht
  rw [zero_add] at ht
  have hget := getElem?_eq_getElem ht
  have hset := hfill.set t _ hget
  have hkept := hfill.kept t _ hget j
  rw [zero_add] at hset hkept
  by_cases hj : j = ((rbgPlaces config ch.rbgMask)[t]).2
  · rw [hj, hset]
    exact .inr (mem_map_of_mem (getElem_mem ht))
  · exact .inl ((hkept hj).trans (hblank ..))

lemma card_visitedPrbs_le :
    (visitedPrbs ch' config).toFinset.card ≤ (rbgPlaces config ch.rbgMask).length + 1 := by
  have hsub : (visitedPrbs ch' config).toFinset ⊆
      insert 0 ((rbgPlaces config ch.rbgMask).map (placePrb config)).toFinset := by
    intro prb hprb
    simpa using mem_visitedPrbs_blank hblank hfill (mem_toFinset.mp hprb)
  refine (Finset.card_le_card hsub).trans ((Finset.card_insert_le ..).trans ?_)
  refine Nat.add_le_add_right ((toFinset_card_le _).trans ?_) 1
  rw [length_map]

end

lemma card_visitedPrbs_lt (hblank : ∀ i j, ch.rbg i j = 0)
    (hfill : Filled config { ch with nofRbg := 0 } ch' (rbgPlaces config ch.rbgMask))
    (hlarge : 10 ≤ config.nofPrb) (hgroups : maskGroups config ch.rbgMask ≠ []) :
    (visitedPrbs ch' config).toFinset.card < (visitedPrbs ch' config).length := by
  have hsz := two_le_rbgSz hlarge
  have hcard := card_visitedPrbs_le hblank hfill
  have hplaces : 2 ≤ (rbgPlaces config ch.rbgMask).length := by
    rw [length_rbgPlaces]
    exact hsz.trans (Nat.le_mul_of_pos_left _ (length_pos_iff.mpr hgroups))
  rw [length_visitedPrbs_filled hfill]
  have := Nat.mul_le_mul_left (rbgPlaces config ch.rbgMask).length hsz
  omega

end Visited

/-! ## The comparison -/

section Compare

variable {config : LteGridConfig} {ch : LtePdsch} {channelIdx subframeId : ℕ}

structure ChannelUp (config : LteGridConfig) (ch : LtePdsch) (channelIdx : ℕ) : Prop where
  inRange : InRange config
  ctrl : 1 ≤ config.nofControlSymbols ∧ config.nofControlSymbols ≤ 4
  room : config.preGuard + 12 * config.nofPrb + config.postGuard ≤ config.fftSize
  guard : 14 ≤ config.postGuard
  symbols : config.phch .pdsch = ltePdschInitSfs config
  index : channelIdx < config.nofPdsch
  blank : ∀ i j, ch.rbg i j = 0
  setup : ltePdschSetupRbgmask ch config = .ok (config.pdsch channelIdx)

namespace ChannelUp

variable (h : ChannelUp config ch channelIdx)

include h

lemma filled : Filled config { ch with nofRbg := 0 } (config.pdsch channelIdx)
    (rbgPlaces config ch.rbgMask) := (setup_filled h.setup).1

lemma prb_lt : ∀ prb ∈ config.prbs channelIdx, prb < config.nofPrb := by
  intro prb hprb
  rcases mem_visitedPrbs_blank h.blank h.filled hprb with rfl | hmem
  · have := h.inRange.prb
    omega
  · obtain ⟨place, hplace, rfl⟩ := mem_map.mp hmem
    exact placePrb_lt hplace

lemma visited_eq_nil : config.prbs channelIdx = [] ↔ maskGroups config ch.rbgMask = [] :=
  visitedPrbs_eq_nil_iff h.filled

lemma getRe_eq (hsf : subframeId < 10) : ltePdschGetRe channelIdx subframeId config =
    ltePdschReXPrb subframeId config * (config.prbs channelIdx).length := by
  have hidx := h.index
  have hprb : (config.nofPrb : ℤ) ≠ 0 := by
    have := h.inRange.prb
    omega
  obtain ⟨-, hnofRb, hnofRe⟩ := setup_filled h.setup
  rw [ltePdschGetRe, if_neg (by omega), if_neg (by simp only [nofSubframesXFrame]; omega), hnofRe,
    hnofRb, h.symbols, ltePdschInitSfs, mul_tdiv_cancel_left _ hprb, length_visitedPrbs,
    mul_comm, Nat.mul_comm]

lemma sizesAgree_of_empty (hsf : subframeId < 10) (hempty : config.prbs channelIdx = []) :
    SizesAgree config channelIdx subframeId := by
  have hdata : dataRes config channelIdx subframeId = ∅ := by
    rw [dataRes_eq]
    refine Set.eq_empty_of_forall_notMem fun d hd => ?_
    obtain ⟨s, hs⟩ := hd
    obtain ⟨i, prb, c, -, hprb, -⟩ := mem_sfCells (mem_of_carries hs)
    rw [hempty] at hprb
    cases hprb
  have hzero : channelCount config .pdsch channelIdx subframeId = fun _ => 0 := by
    funext i
    rw [channelCount_eq h.symbols, hempty, length_nil, Nat.cast_zero, Int.mul_zero]
  rw [sizesAgree_iff, h.getRe_eq hsf, hempty, hdata, Set.ncard_empty]
  refine ⟨?_, by simp⟩
  rw [sfCount, hzero, loopCount_eq (fun _ _ => le_rfl)]
  simp

lemma count_nonneg (hforward : Forward config subframeId) :
    ∀ i < config.nofOsymbXSubf, 0 ≤ channelCount config .pdsch channelIdx subframeId i := by
  intro i hi
  rw [channelCount_eq h.symbols]
  refine Int.mul_nonneg ?_ (Int.natCast_nonneg _)
  split_ifs with hhas
  · exact hforward i hi hhas
  · exact le_rfl

variable (hsf : subframeId < 10) (hne : config.prbs channelIdx ≠ [])

include hsf hne in
lemma sfCount_eq_getRe :
    sfCount config .pdsch channelIdx subframeId = ltePdschGetRe channelIdx subframeId config ↔
      FormulaFits config.nofOsymbXSubf config.nofPorts config.nofControlSymbols config.nofPrb
        subframeId := by
  obtain ⟨htable, heven⟩ := formula_iff h.inRange h.ctrl hsf
  have hpos : (0 : ℤ) < (config.prbs channelIdx).length :=
    natCast_pos.mpr (length_pos_iff.mpr hne)
  rw [← htable, h.getRe_eq hsf]
  by_cases hforward : Forward config subframeId
  · rw [sfCount_of_forward h.symbols hforward]
    exact ⟨fun heq => ⟨hforward, Int.eq_of_mul_eq_mul_right hpos.ne' heq⟩, fun heq => by rw [heq.2]⟩
  · rw [sfCount_of_not_forward h.symbols hforward hne]
    refine ⟨fun heq => ?_, fun heq => absurd heq.1 hforward⟩
    have := mul_emod (ltePdschReXPrb subframeId config)
      (config.prbs channelIdx).length 2
    rw [heven, zero_mul, ← heq] at this
    cases this

lemma ncard_of_exact (hforward : Forward config subframeId)
    (hexact : ∀ i < config.nofOsymbXSubf, lteSymbolHasCh ⟨subframeId, i⟩ (ltePdschInitSfs config) →
      excess config ⟨subframeId, i⟩ = 0) :
    ((dataRes config channelIdx subframeId).ncard : ℤ) =
      (config.prbs channelIdx).toFinset.card * prbCount config subframeId := by
  rw [ncard_dataRes h.room h.guard h.prb_lt (h.count_nonneg hforward), card_dataSet, Nat.cast_mul,
    prbData_eq h.symbols]
  · rw [Finset.sum_eq_zero, add_zero]
    intro i hi
    rw [Finset.mem_filter, Finset.mem_range, h.symbols] at hi
    exact hexact i hi.1 hi.2
  · intro i hi hhas
    rw [h.symbols] at hhas
    have hzero := hexact i hi hhas
    refine len_runShape _ (nofRef_mem _) _ (voffset_lt ..) ?_
    rintro ⟨hfour, hoff⟩
    rw [excess, if_pos hfour, if_pos hoff] at hzero
    omega

lemma ncard_of_excess (hforward : Forward config subframeId)
    (hne : config.prbs channelIdx ≠ []) {i : ℕ}
    (hi : i < config.nofOsymbXSubf) (hhas : lteSymbolHasCh ⟨subframeId, i⟩ (ltePdschInitSfs config))
    (hmore : 0 < excess config ⟨subframeId, i⟩) :
    (config.prbs channelIdx).toFinset.card * prbCount config subframeId <
      ((dataRes config channelIdx subframeId).ncard : ℤ) := by
  have hports : 1 ≤ config.nofPorts := by
    have := h.inRange.ports
    omega
  have hcard : (0 : ℤ) < (config.prbs channelIdx).toFinset.card := by
    rw [natCast_pos, Finset.card_pos, toFinset_nonempty_iff]
    exact hne
  refine lt_of_lt_of_le ?_ (Int.ofNat_le.mpr
    (card_dataSet_le h.room h.guard h.prb_lt (h.count_nonneg hforward)))
  rw [card_dataSet, Nat.cast_mul, prbData_eq h.symbols]
  refine Int.mul_lt_mul_of_pos_left (Int.lt_add_of_pos_right _ ?_) hcard
  refine Finset.sum_pos' (fun j _ => excess_nonneg hports _) ⟨i, ?_, hmore⟩
  rw [Finset.mem_filter, Finset.mem_range, h.symbols]
  exact ⟨hi, hhas⟩

include hsf hne in
/-- Where the formula fits, the REs with data are as many as it says for small groups, if the run in
symbol 3 of the extended prefix has its references in the first three subcarriers. -/
theorem ncard_eq_iff
    (hfits : FormulaFits config.nofOsymbXSubf config.nofPorts config.nofControlSymbols
      config.nofPrb subframeId) :
    ((dataRes config channelIdx subframeId).ncard : ℤ) =
      ltePdschGetRe channelIdx subframeId config ↔
    config.nofPrb < 10 ∧
      (config.nofOsymbXSubf = 14 ∨ config.nofPorts = 1 ∧ 3 ≤ config.cellId % 6) := by
  obtain ⟨hforward, hcount⟩ := (formula_iff h.inRange h.ctrl hsf).1.mpr hfits
  obtain ⟨hpos, hrefs⟩ := references_iff h.inRange h.ctrl hsf hfits
  rw [h.getRe_eq hsf, ← hcount]
  rw [← hcount] at hpos
  have hsmall : config.nofPrb < 10 → (visitedPrbs (config.pdsch channelIdx) config).toFinset.card =
        (visitedPrbs (config.pdsch channelIdx) config).length := by
    intro hlt
    rw [visitedPrbs_of_lt hlt h.filled]
    exact toFinset_card_of_nodup (nodup_maskGroups ..)
  by_cases hsymb : config.nofOsymbXSubf = 14
  · rw [h.ncard_of_exact hforward fun i hi hhas => if_neg fun hfour => by
      have := ((hrefs i hi).mp ⟨hhas, hfour⟩).1
      omega]
    constructor
    · intro heq
      refine ⟨?_, .inl hsymb⟩
      by_contra hlarge
      have hlt := card_visitedPrbs_lt h.blank h.filled (by omega)
        (fun hnil => hne (h.visited_eq_nil.mpr hnil))
      rw [mul_comm] at heq
      exact hlt.ne (Int.ofNat_inj.mp (Int.eq_of_mul_eq_mul_left hpos.ne' heq))
    · rintro ⟨hlt, -⟩
      rw [hsmall hlt, mul_comm]
  · obtain ⟨hports, htwelve, hprb, hzero, hctrl⟩ : (config.nofPorts = 1 ∨ config.nofPorts = 2) ∧
        config.nofOsymbXSubf = 12 ∧ config.nofPrb = 6 ∧ subframeId = 0 ∧
          config.nofControlSymbols ≤ 3 := hfits.resolve_left fun hfirst => hsymb hfirst.2.1
    obtain ⟨hhas, hfour⟩ := (hrefs 3 (by omega)).mpr ⟨htwelve, rfl⟩
    have hlt : config.nofPrb < 10 := by omega
    have hoff : config.nofPorts = 1 →
        lteRefsigOrResvVoffset 3 config = (config.cellId + 3) % 6 := fun hone => by
      rw [lteRefsigOrResvVoffset, if_pos ⟨hone, by rw [htwelve]; decide⟩]
    by_cases hexact : config.nofPorts = 1 ∧ 3 ≤ config.cellId % 6
    · refine iff_of_true ?_ ⟨hlt, .inr hexact⟩
      rw [h.ncard_of_exact hforward fun i hi hhas => ?_, hsmall hlt, mul_comm]
      rw [excess]
      split_ifs with hi4 hioff
      · obtain rfl := ((hrefs i hi).mp ⟨hhas, hi4⟩).2
        rw [hoff hexact.1] at hioff
        omega
      · rw [hexact.1]
        rfl
      · rfl
    · refine iff_of_false (fun heq => ?_) (fun hall => hexact (hall.2.resolve_left hsymb))
      have hmore : 0 < excess config ⟨subframeId, 3⟩ := by
        rw [excess, if_pos hfour]
        rcases hports with hone | htwo
        · rw [if_pos (by rw [hoff hone]; omega)]
          omega
        · rw [htwo]
          split_ifs <;> decide
      have := h.ncard_of_excess hforward hne (show 3 < config.nofOsymbXSubf by omega) hhas hmore
      rw [heq, hsmall hlt, mul_comm] at this
      exact lt_irrefl _ this

end ChannelUp

end Compare

/-! ## The result -/

/-- The parameters with which the sizes of a PDSCH agree in a subframe: no group is named, or groups
have one PRB, there is one port, and the constants for the subframe are those of the bandwidth and
prefix. -/
def SizesFit (p : GridParams) (rbgMask : CInt) (subframeId : ℕ) : Prop :=
  (∀ g < p.nofPrb / rbgSz p.nofPrb, rbgMask.getLsbD g = false) ∨
  p.nofPrb < 10 ∧ p.nofPorts = 1 ∧
    (p.nofOsymbXSubf = 14 ∧ (p.nofPrb = 6 ∨ subframeId ≠ 0 ∧ subframeId ≠ 5) ∨
      p.nofOsymbXSubf = 12 ∧ p.nofPrb = 6 ∧ subframeId = 0 ∧ p.cfi ≤ 2 ∧ 3 ≤ p.cellId % 6)

lemma Started.inRange {p : GridParams} (hp : p.InRange) {config : LteGridConfig}
    (h : Started p config) : InRange config where
  prb := by rw [h.nofPrb]; exact hp.prb
  osymb := by rw [h.nofOsymbXSubf]; exact hp.osymb
  ports := by rw [h.nofPorts]; exact hp.ports
  cell := by rw [h.cellId]; exact hp.cell

lemma Started.channelUp {p : GridParams} (hp : p.InRange) {config : LteGridConfig}
    (h : Started p config) {channelIdx : ℕ} (hidx : channelIdx < p.rbgMask.length) :
    ChannelUp config (p.config.pdsch channelIdx) channelIdx where
  inRange := h.inRange hp
  ctrl := by
    have := hp.cfi
    rw [h.nofControlSymbols, GridParams.nofControlSymbols]
    split_ifs <;> omega
  room := h.room.1
  guard := h.room.2
  symbols := h.pdsch fun hnil => by simp [hnil] at hidx
  index := by rw [h.nofPdsch]; exact hidx
  blank := fun _ _ => rfl
  setup := h.channel channelIdx hidx

/-- **PDSCH sizes.** `Started` is what is used of `lte_grid_init`; unlike a return of the function
it does not ask for room in the table of PHICH REGs. -/
theorem pdsch_size_agreement (p : GridParams) (hp : p.InRange) (config : LteGridConfig) :
    (lteGridInit p.config = .ok config → Started p config) ∧
    (Started p config → ∀ channelIdx < p.rbgMask.length, ∀ subframeId < 10,
      (SizesAgree config channelIdx subframeId ↔
        SizesFit p (p.rbgMask.getD channelIdx 0) subframeId)) := by
  refine ⟨lteGridInit_started hp, fun hstart channelIdx hidx subframeId hsf => ?_⟩
  have hup := hstart.channelUp hp hidx
  have hgroups : maskGroups config (p.config.pdsch channelIdx).rbgMask = [] ↔
      ∀ g < p.nofPrb / rbgSz p.nofPrb, (p.rbgMask.getD channelIdx 0).getLsbD g = false := by
    rw [eq_nil_iff_forall_not_mem]
    simp only [mem_maskGroups, hstart.nofPrb, not_and, Bool.not_eq_true]
    rfl
  rw [SizesFit, ← hgroups, ← hup.visited_eq_nil]
  by_cases hne : visitedPrbs (config.pdsch channelIdx) config = []
  · exact iff_of_true (hup.sizesAgree_of_empty hsf hne) (.inl hne)
  · rw [sizesAgree_iff, hup.sfCount_eq_getRe hsf hne]
    have hctrl : p.nofPrb = 6 → (config.nofControlSymbols ≤ 3 ↔ p.cfi ≤ 2) := by
      intro hsix
      rw [hstart.nofControlSymbols, GridParams.nofControlSymbols, if_pos (by omega)]
      omega
    constructor
    · rintro ⟨hfits, hcard⟩
      obtain ⟨hlt, hlast⟩ := (hup.ncard_eq_iff hsf hne hfits).mp hcard
      rw [hstart.nofPrb, hstart.nofPorts, hstart.nofOsymbXSubf] at hfits
      rw [hstart.nofPrb] at hlt
      rw [hstart.nofPorts, hstart.nofOsymbXSubf, hstart.cellId] at hlast
      refine .inr ⟨hlt, ?_⟩
      rcases hfits with ⟨hone, hrest⟩ | ⟨hports, htwelve, hsix, hzero, hc⟩
      · exact ⟨hone, .inl hrest⟩
      · have hlast := hlast.resolve_left (by omega)
        exact ⟨hlast.1, .inr ⟨htwelve, hsix, hzero, (hctrl hsix).mp hc, hlast.2⟩⟩
    · rintro (hnil | ⟨hlt, hone, hrest⟩)
      · exact absurd hnil hne
      · have hfits : FormulaFits config.nofOsymbXSubf config.nofPorts config.nofControlSymbols
            config.nofPrb subframeId := by
          rw [hstart.nofPrb, hstart.nofPorts, hstart.nofOsymbXSubf]
          rcases hrest with h | ⟨htwelve, hsix, hzero, hc, -⟩
          · exact .inl ⟨hone, h⟩
          · exact .inr ⟨.inl hone, htwelve, hsix, hzero, (hctrl hsix).mpr hc⟩
        refine ⟨hfits, (hup.ncard_eq_iff hsf hne hfits).mpr ⟨by rw [hstart.nofPrb]; exact hlt, ?_⟩⟩
        rw [hstart.nofPorts, hstart.nofOsymbXSubf, hstart.cellId]
        rcases hrest with h | ⟨-, -, -, -, hcell⟩
        · exact .inl h.1
        · exact .inr ⟨hone, hcell⟩

theorem pdsch_size_agreement_six : ∃ config,
    lteGridInit (GridParams.mk 6 14 1 1 0 [] [63#32]).config = .ok config ∧
      SizesAgree config 0 1 := by
  obtain ⟨config, hinit, -⟩ := exists_of_yields (fun _ => True)
    (show yields _ (lteGridInit (GridParams.mk 6 14 1 1 0 [] [63#32]).config) = true by
      decide +kernel)
  obtain ⟨hstarted, hsizes⟩ := pdsch_size_agreement (GridParams.mk 6 14 1 1 0 [] [63#32])
    ⟨by decide, by decide, by decide, by decide, by decide⟩ config
  exact ⟨config, hinit, (hsizes (hstarted hinit) 0 (by decide) 1 (by decide)).mpr
    (.inr ⟨by decide, rfl, .inl ⟨rfl, .inl rfl⟩⟩)⟩

theorem pdsch_size_differs : ∃ config,
    lteGridInit (GridParams.mk 6 14 2 1 0 [] [1#32]).config = .ok config ∧
      (∀ x output : ℤ → ComplexT, ∃ output',
        lteChPutSf x output .pdsch 0 1 config = .ok (120, output')) ∧
      ltePdschGetRe 0 1 config = 132 := by
  obtain ⟨config, hinit, hcount, hre⟩ := exists_of_yields
    (fun config => sfCount config .pdsch 0 1 = 120 ∧ ltePdschGetRe 0 1 config = 132)
    (show yields _ (lteGridInit (GridParams.mk 6 14 2 1 0 [] [1#32]).config) = true by
      decide +kernel)
  refine ⟨config, hinit, fun x output => ?_, hre⟩
  rw [lteChPutSf_eq _ _ (.inl rfl), hcount]
  exact ⟨_, rfl⟩

end Aloe.Modrep.Grid
