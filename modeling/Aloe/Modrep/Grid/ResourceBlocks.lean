import Aloe.Modrep.Grid.References

/-!
# The resource blocks of a PDSCH

`lte_pdsch_setup_rbgmask` makes the table of PRBs that `lte_pdsch_put` and `lte_pdsch_get` go
through. Its counter of groups goes on with each PRB, and not with each group. With groups of one
PRB this is the same, and the table holds the PRBs of the mask. With larger groups the table has as
many rows as the mask has PRBs, in each of which one entry is set, and the others are what they
were.
-/

namespace Aloe.Modrep.Grid

open Lib Placement Function List Nat

/-! ## The table -/

lemma rbgSz_pos (a : ℕ) : 0 < rbgSz a := by
  unfold rbgSz
  split_ifs <;> decide

variable {a : ℕ} {rbgMask : CInt} {location : LteSymbol}

lemma rbgSz_of_lt (h : a < 10) : rbgSz a = 1 := if_pos h

lemma two_le_rbgSz (h : 10 ≤ a) : 2 ≤ rbgSz a := by
  unfold rbgSz
  split_ifs <;> omega

/-- The turns of `lte_pdsch_setup_rbgmask`: the PRBs of the mask, group by group. -/
def rbgPlaces (config : LteGridConfig) (rbgMask : CInt) : List (ℕ × ℕ) :=
  (maskGroups config rbgMask).flatMap fun i =>
    (List.range (rbgSz config.nofPrb)).map fun j => (i, j)

def placePrb (config : LteGridConfig) (place : ℕ × ℕ) : ℕ := rbgSz config.nofPrb * place.1 + place.2

lemma length_rbgPlaces (config : LteGridConfig) (rbgMask : CInt) :
    (rbgPlaces config rbgMask).length =
      (maskGroups config rbgMask).length * rbgSz config.nofPrb := by
  rw [rbgPlaces, length_flatMap]
  simp

/-- After the turns for `places`, from row `ch.nofRbg` on each row has one entry set. -/
structure Filled (config : LteGridConfig) (ch ch' : LtePdsch) (places : List (ℕ × ℕ)) : Prop where
  nofRbg : ch'.nofRbg = ch.nofRbg + places.length
  rbgMask : ch'.rbgMask = ch.rbgMask
  set : ∀ t place, places[t]? = some place → ch'.rbg (ch.nofRbg + t) place.2 = placePrb config place
  kept : ∀ t place, places[t]? = some place → ∀ j, j ≠ place.2 →
    ch'.rbg (ch.nofRbg + t) j = ch.rbg (ch.nofRbg + t) j
  before : ∀ i < ch.nofRbg, ch'.rbg i = ch.rbg i
  after : ∀ i, ch'.nofRbg ≤ i → ch'.rbg i = ch.rbg i

variable {ch ch' : LtePdsch} {config : LteGridConfig} {g : ℕ}

lemma rbgTurn_ok (config : LteGridConfig) (place : ℕ × ℕ) (hroom : ch.nofRbg < maxRbg) :
    ∃ ch', rbgTurn config ch place = .ok ch' ∧ Filled config ch ch' [place] := by
  refine ⟨_, if_neg (by omega), rfl, rfl, fun t place' h => ?_, fun t place' h j hj => ?_,
    fun i hi => update_of_ne (by omega) .., fun i hi => update_of_ne ?_ ..⟩
  rotate_left
  rotate_left
  · dsimp only at hi
    omega
  all_goals
    obtain ⟨rfl, rfl⟩ : t = 0 ∧ place = place' := by
      cases t with
      | zero => simpa using h
      | succ t => cases h
    dsimp only
    rw [add_zero, update_self]
  · exact update_self ..
  · exact update_of_ne hj ..

lemma Filled.cons {ch1 : LtePdsch} {place : ℕ × ℕ}
    {places : List (ℕ × ℕ)} (hfirst : Filled config ch ch1 [place])
    (hrest : Filled config ch1 ch' places) : Filled config ch ch' (place :: places) := by
  have hnof : ch1.nofRbg = ch.nofRbg + 1 := hfirst.nofRbg
  have hshift : ∀ t, ch1.nofRbg + t = ch.nofRbg + (t + 1) := fun t => by omega
  constructor
  case nofRbg =>
    rw [hrest.nofRbg, hnof, length_cons]
    omega
  case rbgMask => exact hrest.rbgMask.trans hfirst.rbgMask
  case set =>
    intro t place' h
    cases t with
    | zero =>
      rw [add_zero, hrest.before _ (by omega)]
      exact hfirst.set 0 place' h
    | succ t =>
      rw [← hshift]
      exact hrest.set t place' h
  case kept =>
    intro t place' h j hj
    cases t with
    | zero =>
      rw [add_zero, hrest.before _ (by omega)]
      exact hfirst.kept 0 place' h j hj
    | succ t =>
      rw [← hshift, hrest.kept t place' h j hj, hshift]
      rw [hfirst.after _ (by omega)]
  case before =>
    intro i hi
    rw [hrest.before i (by omega), hfirst.before i hi]
  case after =>
    intro i hi
    have := hrest.nofRbg
    rw [hrest.after i hi, hfirst.after i (by omega)]

section

variable (config : LteGridConfig) (places : List (ℕ × ℕ)) (ch : LtePdsch)

lemma rbgTurns_ok (hroom : ch.nofRbg + places.length ≤ maxRbg) :
    ∃ ch', places.foldlM (rbgTurn config) ch = .ok ch' ∧ Filled config ch ch' places := by
  induction places generalizing ch with
  | nil =>
    exact ⟨ch, rfl, rfl, rfl, fun t place h => (by cases h), fun t place h => (by cases h),
      fun _ _ => rfl, fun _ _ => rfl⟩
  | cons place places ih =>
    rw [length_cons] at hroom
    obtain ⟨ch1, hturn, hfirst⟩ := rbgTurn_ok config place (show ch.nofRbg < maxRbg by omega)
    have hnof : ch1.nofRbg = ch.nofRbg + 1 := hfirst.nofRbg
    obtain ⟨ch', hok, hrest⟩ := ih ch1 (by omega)
    exact ⟨ch', foldlM_cons_ok.mpr ⟨ch1, hturn, hok⟩, hfirst.cons hrest⟩

lemma rbgTurns_error (hstart : ch.nofRbg ≤ maxRbg) (hfull : maxRbg < ch.nofRbg + places.length) :
    places.foldlM (rbgTurn config) ch = .error .rbgTable := by
  induction places generalizing ch with
  | nil => simp at hfull; omega
  | cons place places ih =>
    rw [foldlM_cons, rbgTurn]
    by_cases hroom : maxRbg ≤ ch.nofRbg
    · rw [if_pos hroom]
      rfl
    · rw [if_neg hroom, bind_ok_eq]
      rw [length_cons] at hfull
      refine ih _ ?_ ?_ <;> dsimp only <;> omega

end

lemma setup_ok (hroom : (rbgPlaces config ch.rbgMask).length ≤ maxRbg) :
    ∃ ch', ltePdschSetupRbgmask ch config = .ok ch' ∧
      Filled config { ch with nofRbg := 0 } ch' (rbgPlaces config ch.rbgMask) ∧
      ch'.nofRb = rbgSz config.nofPrb * ch'.nofRbg ∧
      ∀ i, ch'.nofRe i = ch'.nofRb * ((config.phch .pdsch).nofReXSf i).tdiv config.nofPrb := by
  obtain ⟨ch', hok, hfill⟩ := rbgTurns_ok config (rbgPlaces config ch.rbgMask)
    { ch with nofRbg := 0 } (by dsimp only; omega)
  exact ⟨_, bind_eq_ok.mpr ⟨ch', hok, rfl⟩, ⟨hfill.nofRbg, hfill.rbgMask, hfill.set, hfill.kept,
    hfill.before, hfill.after⟩, rfl, fun _ => rfl⟩

lemma setup_error (hfull : maxRbg < (rbgPlaces config ch.rbgMask).length) :
    ltePdschSetupRbgmask ch config = .error .rbgTable := by
  have := rbgTurns_error config (rbgPlaces config ch.rbgMask) { ch with nofRbg := 0 }
    (zero_le _) (by dsimp only; omega)
  show (rbgPlaces config ch.rbgMask).foldlM (rbgTurn config) { ch with nofRbg := 0 } >>= _ = _
  rw [this]
  rfl

lemma setup_filled (hok : ltePdschSetupRbgmask ch config = .ok ch') :
    Filled config { ch with nofRbg := 0 } ch' (rbgPlaces config ch.rbgMask) ∧
      ch'.nofRb = rbgSz config.nofPrb * ch'.nofRbg ∧
      ∀ i, ch'.nofRe i = ch'.nofRb * ((config.phch .pdsch).nofReXSf i).tdiv config.nofPrb := by
  rcases lt_or_ge maxRbg (rbgPlaces config ch.rbgMask).length with hfull | hroom
  · rw [setup_error hfull] at hok
    cases hok
  · obtain ⟨ch1, h1, hrest⟩ := setup_ok hroom
    rw [h1] at hok
    cases hok
    exact hrest

/-! ## The PRBs that are visited -/

lemma length_visitedPrbs (ch : LtePdsch) (config : LteGridConfig) :
    (visitedPrbs ch config).length = ch.nofRbg * rbgSz config.nofPrb := by
  rw [visitedPrbs, length_flatMap]
  simp

lemma mem_visitedPrbs {prb : ℕ} : prb ∈ visitedPrbs ch config ↔
      ∃ i < ch.nofRbg, ∃ j < rbgSz config.nofPrb, ch.rbg i j = prb := by
  simp [visitedPrbs]

lemma mem_maskGroups {i : ℕ} : i ∈ maskGroups config rbgMask ↔
      i < config.nofPrb / rbgSz config.nofPrb ∧ rbgMask.getLsbD i = true := by
  rw [maskGroups, mem_filter, mem_range]

lemma nodup_maskGroups (config : LteGridConfig) (rbgMask : CInt) :
    (maskGroups config rbgMask).Nodup :=
  nodup_range.filter _

lemma visitedPrbs_of_lt (hsmall : config.nofPrb < 10)
    (hfill : Filled config { ch with nofRbg := 0 } ch' (rbgPlaces config ch.rbgMask)) :
    visitedPrbs ch' config = maskGroups config ch.rbgMask := by
  have hsz := rbgSz_of_lt hsmall
  have hplaces : rbgPlaces config ch.rbgMask = (maskGroups config ch.rbgMask).map (·, 0) := by
    rw [rbgPlaces, hsz, map_eq_flatMap]
    rfl
  have hvisited : visitedPrbs ch' config = (List.range ch'.nofRbg).map fun i => ch'.rbg i 0 := by
    rw [visitedPrbs, hsz, map_eq_flatMap]
    rfl
  rw [hvisited]
  refine ext_getElem? fun t => ?_
  have hnof := hfill.nofRbg
  rw [hplaces, length_map] at hnof
  dsimp only at hnof
  rw [getElem?_map]
  rcases lt_or_ge t (maskGroups config ch.rbgMask).length with ht | ht
  · have hset := hfill.set t ((maskGroups config ch.rbgMask)[t], 0) (by
      rw [hplaces, getElem?_map, getElem?_eq_getElem ht]
      rfl)
    rw [zero_add] at hset
    rw [getElem?_range (by omega), getElem?_eq_getElem ht, Option.map_some, hset,
      placePrb, hsz, one_mul, add_zero]
  · rw [getElem?_eq_none (by rw [length_range]; omega), getElem?_eq_none ht]
    rfl

lemma length_visitedPrbs_filled
    (hfill : Filled config { ch with nofRbg := 0 } ch' (rbgPlaces config ch.rbgMask)) :
    (visitedPrbs ch' config).length =
      (rbgPlaces config ch.rbgMask).length * rbgSz config.nofPrb := by
  rw [length_visitedPrbs, hfill.nofRbg]
  rw [zero_add]

lemma visitedPrbs_eq_nil_iff
    (hfill : Filled config { ch with nofRbg := 0 } ch' (rbgPlaces config ch.rbgMask)) :
    visitedPrbs ch' config = [] ↔ maskGroups config ch.rbgMask = [] := by
  have hsz := rbgSz_pos config.nofPrb
  rw [← length_eq_zero_iff, length_visitedPrbs_filled hfill, length_rbgPlaces,
    ← length_eq_zero_iff]
  simp [hsz.ne']

def InMask (config : LteGridConfig) (rbgMask : CInt) (prb : ℕ) : Prop :=
  prb / rbgSz config.nofPrb ∈ maskGroups config rbgMask

lemma length_of_inMask {prbs : List ℕ}
    (hnodup : prbs.Nodup) (hmem : ∀ prb, prb ∈ prbs ↔ InMask config rbgMask prb) :
    prbs.length = (maskGroups config rbgMask).length * rbgSz config.nofPrb := by
  have hpos := rbgSz_pos config.nofPrb
  have hinj : ∀ p ∈ rbgPlaces config rbgMask, ∀ q ∈ rbgPlaces config rbgMask,
      placePrb config p = placePrb config q → p = q := by
    intro p hp q hq h
    simp only [rbgPlaces, mem_flatMap, mem_map, mem_range] at hp hq
    obtain ⟨i, -, j, hj, rfl⟩ := hp
    obtain ⟨i', -, j', hj', rfl⟩ := hq
    simp only [placePrb] at h
    have hi : i = i' := by
      have := congrArg (· / rbgSz config.nofPrb) h
      simpa [mul_add_div hpos, div_eq_of_lt hj, div_eq_of_lt hj'] using this
    rw [hi] at h ⊢
    rw [add_left_cancel h]
  have hplaces : (rbgPlaces config rbgMask).Nodup := by
    refine nodup_flatMap.mpr ⟨fun i _ => nodup_range.map fun a b h => by simpa using h,
      (nodup_maskGroups config rbgMask).imp fun hne => ?_⟩
    simp only [Function.onFun, disjoint_left, mem_map, mem_range]
    rintro _ ⟨j, -, rfl⟩ ⟨j', -, h⟩
    exact hne (congrArg Prod.fst h).symm
  have hperm : prbs.Perm ((rbgPlaces config rbgMask).map (placePrb config)) := by
    refine (perm_ext_iff_of_nodup hnodup ((nodup_map_iff_inj_on hplaces).mpr
      fun p hp q hq => hinj p hp q hq)).mpr fun prb => ?_
    rw [hmem, InMask, mem_map]
    constructor
    · intro h
      refine ⟨(prb / rbgSz config.nofPrb, prb % rbgSz config.nofPrb), ?_, div_add_mod ..⟩
      simp only [rbgPlaces, mem_flatMap, mem_map, mem_range]
      exact ⟨_, h, _, mod_lt _ hpos, rfl⟩
    · rintro ⟨p, hp, rfl⟩
      simp only [rbgPlaces, mem_flatMap, mem_map, mem_range] at hp
      obtain ⟨i, hi, j, hj, rfl⟩ := hp
      rw [placePrb, mul_add_div hpos, div_eq_of_lt hj, add_zero]
      exact hi
  rw [hperm.length_eq, length_map, length_rbgPlaces]

/-- After `lte_pdsch_setup_rbgmask`, within its table, the PRBs that are visited are those of the
groups that the mask names, each of them once, and `nof_rb` is their number. -/
def AllocatesMask (config : LteGridConfig) (ch : LtePdsch) : Prop :=
  ∃ ch', ltePdschSetupRbgmask ch config = .ok ch' ∧
    (∀ prb, prb ∈ visitedPrbs ch' config ↔ InMask config ch.rbgMask prb) ∧
    (visitedPrbs ch' config).Nodup ∧ ch'.nofRb = (visitedPrbs ch' config).length

lemma allocatesMask_iff (config : LteGridConfig) (ch : LtePdsch) :
    AllocatesMask config ch ↔ config.nofPrb < 10 ∨ maskGroups config ch.rbgMask = [] := by
  constructor
  · rintro ⟨ch', hsetup, hmem, hnodup, hnofRb⟩
    by_contra hnot
    rw [not_or, not_lt] at hnot
    obtain ⟨hlarge, hgroups⟩ := hnot
    have hsz := two_le_rbgSz hlarge
    have hfill := (setup_filled hsetup).1
    -- the counter goes on with each PRB, so there are as many rows as PRBs
    have hlength := length_of_inMask hnodup hmem
    rw [length_visitedPrbs_filled hfill, length_rbgPlaces] at hlength
    have hpos : 0 < (maskGroups config ch.rbgMask).length * rbgSz config.nofPrb :=
      mul_pos (length_pos_iff.mpr hgroups) (by omega)
    have := le_of_mul_le_mul_left (hlength.le.trans (mul_one _).ge) hpos
    omega
  · intro h
    have hroom : (rbgPlaces config ch.rbgMask).length ≤ maxRbg := by
      rw [length_rbgPlaces]
      rcases h with hsmall | hempty
      · have hle : (maskGroups config ch.rbgMask).length ≤ config.nofPrb := by
          refine (length_filter_le _ _).trans ?_
          rw [length_range]
          exact div_le_self _ _
        rw [rbgSz_of_lt hsmall, maxRbg]
        omega
      · simp [hempty]
    obtain ⟨ch', hok, hfill, hnofRb, -⟩ := setup_ok hroom
    have hnofRb : ch'.nofRb = (visitedPrbs ch' config).length := by
      rw [hnofRb, length_visitedPrbs, mul_comm]
    refine ⟨ch', hok, ?_⟩
    rcases h with hsmall | hempty
    · have hvisited := visitedPrbs_of_lt hsmall hfill
      refine ⟨fun prb => ?_, hvisited ▸ nodup_maskGroups config ch.rbgMask, hnofRb⟩
      rw [hvisited, InMask, rbgSz_of_lt hsmall, Nat.div_one]
    · have hvisited := (visitedPrbs_eq_nil_iff hfill).mpr hempty
      refine ⟨fun prb => ?_, by rw [hvisited]; exact nodup_nil, hnofRb⟩
      rw [hvisited, InMask, hempty]
      simp

/-! ## Two channels -/

def withChannels (config : LteGridConfig) (c₁ c₂ : LtePdsch) : LteGridConfig :=
  { config with pdsch := fun i => if i = 0 then c₁ else c₂ }

/-- The subcarriers that PDSCH `channelIdx` writes to in a symbol. -/
def PdschTouches (config : LteGridConfig) (channelIdx : ℕ) (location : LteSymbol) (k : ℤ) : Prop :=
  Touches (fun x output : ℤ → ComplexT => (ltePdschPut x 0 output 0 channelIdx location config).2) k

def WritesApart (config : LteGridConfig) (location : LteSymbol) : Prop :=
  ∀ k, ¬ (PdschTouches config 0 location k ∧ PdschTouches config 1 location k)

/-- A group of the second mask follows one of the first. -/
def Follows (config : LteGridConfig) (mask₁ mask₂ : CInt) : Prop :=
  ∃ g ∈ maskGroups config mask₁, g + 1 ∈ maskGroups config mask₂

lemma pdschTouches_iff {channelIdx : ℕ} {k : ℤ}
    (hhas : lteSymbolHasCh location (config.phch .pdsch)) :
    PdschTouches config channelIdx location k ↔
      ∃ prb ∈ visitedPrbs (config.pdsch channelIdx) config,
        ↑(12 * prb) ≤ k ∧ k < ↑(12 * prb + (symbolShape config location 1).len) := by
  have hput : (fun x output : ℤ → ComplexT =>
      (ltePdschPut x 0 output 0 channelIdx location config).2) =
      (pdschCells config channelIdx location 0 0).scatter := by
    funext x output
    rw [ltePdschPut_eq]
  rw [PdschTouches, hput, touches_scatter, pdschCells, if_pos hhas, mem_cells_visitCells]
  simp [nofReXOsymb]

lemma symbolShape_len (config : LteGridConfig) (location : LteSymbol) :
    0 < (symbolShape config location 1).len ∧ (symbolShape config location 1).len ≤ 24 ∧
      ((symbolShape config location 1).len ≤ 12 ↔ lteSymbolHasRefsigOrResv location config ≠ 4 ∨
        lteRefsigOrResvVoffset location.symbolId config ≤ 3) := by
  have hvo := voffset_lt config location.symbolId
  rw [symbolShape]
  rcases hasRefsigOrResv_cases config location with h | h | h <;> rw [h]
  · rw [runShape_zero]
    dsimp only
    omega
  · rw [runShape_two one_pos]
    dsimp only
    split <;> omega
  · rw [runShape_four one_pos]
    dsimp only
    split <;> omega

lemma zero_mem_visitedPrbs (hlarge : 10 ≤ config.nofPrb) (hblank : ∀ i j, ch.rbg i j = 0)
    (hok : ltePdschSetupRbgmask ch config = .ok ch') (hne : maskGroups config ch.rbgMask ≠ []) :
    0 ∈ visitedPrbs ch' config := by
  have hsz := two_le_rbgSz hlarge
  obtain ⟨hfill, -⟩ := setup_filled hok
  obtain ⟨g, groups, hgroups⟩ := exists_cons_of_ne_nil hne
  have hfirst : (rbgPlaces config ch.rbgMask)[0]? = some (g, 0) := by
    rw [rbgPlaces, hgroups, flatMap_cons, getElem?_append_left (by simp; omega), getElem?_map,
      getElem?_range (by omega)]
    rfl
  -- the first row has one PRB of the first group, and its other entries are as they were
  have hkept := hfill.kept 0 (g, 0) hfirst 1 one_ne_zero
  have hrows : 0 < ch'.nofRbg := by
    rw [hfill.nofRbg, Nat.zero_add]
    exact (List.getElem?_eq_some_iff.mp hfirst).1
  exact mem_visitedPrbs.mpr ⟨0, hrows, 1, by omega, hkept.trans (hblank ..)⟩

lemma writesApart_iff {ch1 ch2 c1 c2 : LtePdsch}
    (hhas : lteSymbolHasCh location (config.phch .pdsch))
    (h1 : ltePdschSetupRbgmask ch1 config = .ok c1) (h2 : ltePdschSetupRbgmask ch2 config = .ok c2)
    (hmasks : ch1.rbgMask &&& ch2.rbgMask = 0)
    (hblank : config.nofPrb < 10 ∨ ∀ i j, ch1.rbg i j = 0 ∧ ch2.rbg i j = 0) :
    WritesApart (withChannels config c1 c2) location ↔
      maskGroups config ch1.rbgMask = [] ∨ maskGroups config ch2.rbgMask = [] ∨
      config.nofPrb < 10 ∧ (lteSymbolHasRefsigOrResv location config ≠ 4 ∨
        lteRefsigOrResvVoffset location.symbolId config ≤ 3 ∨
        ¬ Follows config ch1.rbgMask ch2.rbgMask ∧ ¬ Follows config ch2.rbgMask ch1.rbgMask) := by
  obtain ⟨hlen, hlen24, hlen12⟩ := symbolShape_len config location
  have htouch : ∀ i k, PdschTouches (withChannels config c1 c2) i location k ↔
      ∃ prb ∈ visitedPrbs (if i = 0 then c1 else c2) config,
        ↑(12 * prb) ≤ k ∧ k < ↑(12 * prb + (symbolShape config location 1).len) :=
    fun i k => pdschTouches_iff hhas
  rw [← or_assoc (a := lteSymbolHasRefsigOrResv location config ≠ 4), ← hlen12]
  simp only [WritesApart, htouch, if_pos, if_neg one_ne_zero]
  have hfill1 := (setup_filled h1).1
  have hfill2 := (setup_filled h2).1
  constructor
  · intro hapart
    rcases lt_or_ge config.nofPrb 10 with hsmall | hlarge
    · rw [visitedPrbs_of_lt hsmall hfill1, visitedPrbs_of_lt hsmall hfill2] at hapart
      refine .inr (.inr ⟨hsmall, or_iff_not_imp_left.mpr fun hlong => ⟨?_, ?_⟩⟩)
      -- the run of the group goes on into the next one
      · rintro ⟨g, hg, hnext⟩
        exact hapart ↑(12 * (g + 1)) ⟨⟨g, hg, by omega⟩, ⟨g + 1, hnext, by omega⟩⟩
      · rintro ⟨g, hg, hnext⟩
        exact hapart ↑(12 * (g + 1)) ⟨⟨g + 1, hnext, by omega⟩, ⟨g, hg, by omega⟩⟩
    · have hzero := hblank.resolve_left (by omega)
      by_contra hnot
      rw [not_or, not_or] at hnot
      have hv1 := zero_mem_visitedPrbs hlarge (fun i j => (hzero i j).1) h1 hnot.1
      have hv2 := zero_mem_visitedPrbs hlarge (fun i j => (hzero i j).2) h2 hnot.2.1
      exact hapart 0 ⟨⟨0, hv1, by omega⟩, ⟨0, hv2, by omega⟩⟩
  · rintro h k ⟨⟨a, ha, hka⟩, ⟨b, hb, hkb⟩⟩
    rcases h with hempty | hempty | ⟨hsmall, h⟩
    · rw [(visitedPrbs_eq_nil_iff hfill1).mpr hempty] at ha
      cases ha
    · rw [(visitedPrbs_eq_nil_iff hfill2).mpr hempty] at hb
      cases hb
    · rw [visitedPrbs_of_lt hsmall hfill1] at ha
      rw [visitedPrbs_of_lt hsmall hfill2] at hb
      have hne : a ≠ b := by
        rintro rfl
        have hbit := congrArg (fun mask : CInt => mask.getLsbD a) hmasks
        simp [(mem_maskGroups.mp ha).2, (mem_maskGroups.mp hb).2] at hbit
      rcases h with hshort | ⟨h12, h21⟩
      · omega
      · rcases lt_or_gt_of_ne hne with hlt | hgt
        · obtain rfl : b = a + 1 := by omega
          exact h12 ⟨a, ha, hb⟩
        · obtain rfl : a = b + 1 := by omega
          exact h21 ⟨b, hb, ha⟩

/-! ## Result -/

/-- **Resource block allocation.** The PRBs of a mask are allocated exactly where groups have one
PRB, or no group is named. Two channels with disjoint masks write to different subcarriers of a
symbol exactly if one of them names no group, or groups have one PRB and no run of the symbol goes
on into a group of the other channel. -/
theorem resource_block_allocation (config : LteGridConfig) :
    (∀ ch, AllocatesMask config ch ↔ config.nofPrb < 10 ∨ maskGroups config ch.rbgMask = []) ∧
    ∀ location, lteSymbolHasCh location (config.phch .pdsch) → ∀ ch₁ ch₂ c₁ c₂ : LtePdsch,
      ltePdschSetupRbgmask ch₁ config = .ok c₁ → ltePdschSetupRbgmask ch₂ config = .ok c₂ →
      ch₁.rbgMask &&& ch₂.rbgMask = 0 →
      (config.nofPrb < 10 ∨ ∀ i j, ch₁.rbg i j = 0 ∧ ch₂.rbg i j = 0) →
      (WritesApart (withChannels config c₁ c₂) location ↔
        maskGroups config ch₁.rbgMask = [] ∨ maskGroups config ch₂.rbgMask = [] ∨
        config.nofPrb < 10 ∧ (lteSymbolHasRefsigOrResv location config ≠ 4 ∨
          lteRefsigOrResvVoffset location.symbolId config ≤ 3 ∨
          ¬ Follows config ch₁.rbgMask ch₂.rbgMask ∧ ¬ Follows config ch₂.rbgMask ch₁.rbgMask)) :=
  ⟨allocatesMask_iff config, fun _ hhas _ _ _ _ h1 h2 => writesApart_iff hhas h1 h2⟩

def exampleGrid (nofPrb : ℕ) : LteGridConfig :=
  let config := { (GridParams.mk nofPrb 14 1 1 0 [] []).config with nofControlSymbols := 2 }
  { config with phch := fun _ => ltePdschInitSfs config }

def blankChannel (rbgMask : CInt) : LtePdsch := ⟨rbgMask, fun _ => 0, 0, 0, fun _ _ => 0⟩

theorem resource_block_allocation_six : (∀ ch, AllocatesMask (exampleGrid 6) ch) ∧
    ∃ c₁ c₂, ltePdschSetupRbgmask (blankChannel 21) (exampleGrid 6) = .ok c₁ ∧
      ltePdschSetupRbgmask (blankChannel 42) (exampleGrid 6) = .ok c₂ ∧
      WritesApart (withChannels (exampleGrid 6) c₁ c₂) ⟨1, 4⟩ := by
  obtain ⟨hallocates, hwrites⟩ := resource_block_allocation (exampleGrid 6)
  refine ⟨fun ch => (hallocates ch).mpr (.inl (by decide)), _, _, rfl, rfl, ?_⟩
  exact (hwrites ⟨1, 4⟩ (by decide) (blankChannel 21) (blankChannel 42) _ _ rfl rfl (by decide)
    (.inl (by decide))).mpr (.inr (.inr ⟨by decide, .inl (by decide)⟩))

theorem group_misallocated : (ltePdschSetupRbgmask (blankChannel 2) (exampleGrid 12)).toOption.map
      (fun ch => (visitedPrbs ch (exampleGrid 12), ch.nofRb)) = some ([2, 0, 0, 3], 4) ∧
    ¬ AllocatesMask (exampleGrid 12) (blankChannel 2) :=
  ⟨by decide, fun h => by rcases (allocatesMask_iff _ _).mp h with h | h <;> revert h <;> decide⟩

end Aloe.Modrep.Grid
