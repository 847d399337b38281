import Aloe.Modrep.Grid.Places

/-!
# Where the reference signals are

The subcarriers that `lte_refsig_put` writes to. All ports of a cell have their references on the
subcarriers of one class modulo 3, which the offset of `lte_refsig_or_resv_voffset` belongs to; with
one port they are of its class modulo 6.
-/

namespace Aloe.Modrep.Grid

open Lib Placement

variable {α : Type}

structure InRange (config : LteGridConfig) : Prop where
  prb : 6 ≤ config.nofPrb ∧ config.nofPrb ≤ 100
  osymb : config.nofOsymbXSubf = 14 ∨ config.nofOsymbXSubf = 12
  ports : config.nofPorts = 1 ∨ config.nofPorts = 2 ∨ config.nofPorts = 4
  cell : config.cellId ≤ 503

/-! ## The subcarriers -/

def refClass (config : LteGridConfig) (portId : ℕ) (location : LteSymbol) : ℕ :=
  (lteRefsigV portId (lteGetNs location config)
    (refsigLp config (lteRefsigL location.symbolId config)) config + config.cellId % 6) % 6

/-- `lte_refsig_put` writes reference `m` of the port to subcarrier `6 m + refClass`. -/
def RefRe (config : LteGridConfig) (portId : ℕ) (location : LteSymbol) (k : ℤ) : Prop :=
  lteSymbolHasRefsig portId location.symbolId config ∧
    ∃ m < 2 * config.nofPrb, k = ↑(6 * m + refClass config portId location)

lemma lteRefsigL_lt (symbolId : ℕ) (config : LteGridConfig) : lteRefsigL symbolId config < 3 := by
  unfold lteRefsigL
  split_ifs <;> omega

variable {m l ns : ℕ}

lemma mem_crefPlaces {config : LteGridConfig} :
    (l, ns, m) ∈ crefPlaces config ↔ l < 3 ∧ ns < 20 ∧ m < 2 * config.nofPrb := by
  simp [crefPlaces]

lemma generateCrefK_k (refsignal : RefsignalT α) {config : LteGridConfig}
    (hprb : config.nofPrb ≤ 110) (hl : l < 3) (hns : ns < 20) (hm : m < 2 * config.nofPrb) :
    (generateCrefK refsignal config).k (crefEntry config (l, ns, m)) =
      crefK refsignal.portId config (l, ns, m) := by
  refine foldl_store_of_mem ?_ (mem_crefPlaces.mpr ⟨hl, hns, hm⟩)
  rintro ⟨l, ns, m⟩ - ⟨l', ns', m'⟩ - h
  simp only [crefEntry, lteRefsigMp, Prod.mk.injEq] at h ⊢
  omega

variable (refsignal : RefsignalT α) (config : LteGridConfig) (output : ℤ → α) (op : ℤ)
  (location : LteSymbol)

section

variable (hprb : config.nofPrb ≤ 110) (hns : lteGetNs location config < 20)
include hprb hns

lemma lteRefsigPut_eq (hhas : lteSymbolHasRefsig refsignal.portId location.symbolId config) :
    (lteRefsigPut (generateCrefK refsignal config) output op location config).2 =
      (List.range (2 * config.nofPrb)).foldl (fun output m => Function.update output
          (op + (config.preGuard + ↑(6 * m + refClass config refsignal.portId location)))
          (refsignal.signal (lteRefsigL location.symbolId config, lteGetNs location config,
            lteRefsigMp m config))) output := by
  have hhas' : lteSymbolHasRefsig (generateCrefK refsignal config).portId location.symbolId
      config := hhas
  rw [lteRefsigPut, if_neg (by simp [hhas'])]
  refine List.foldl_ext _ _ _ fun output m hm => ?_
  rw [List.mem_range] at hm
  have hk := generateCrefK_k refsignal hprb (lteRefsigL_lt location.symbolId config) hns hm
  simp only [crefEntry] at hk
  simp only [hk, crefK, lteRefsigK, refClass]
  congr 1
  omega

lemma lteRefsigPut_of_not
    {d : ℤ} (hd : ¬ RefRe config refsignal.portId location (d - op - config.preGuard)) :
    (lteRefsigPut (generateCrefK refsignal config) output op location config).2 d = output d := by
  by_cases hhas : lteSymbolHasRefsig refsignal.portId location.symbolId config
  · rw [lteRefsigPut_eq refsignal config output op location hprb hns hhas]
    refine foldl_store_of_ne fun m hm h => hd ⟨hhas, m, List.mem_range.mp hm, ?_⟩
    omega
  · have hhas' : ¬ lteSymbolHasRefsig (generateCrefK refsignal config).portId location.symbolId
        config := hhas
    rw [lteRefsigPut, if_pos (by simp [hhas'])]

end

/-! ## The classes -/

section Classes

lemma voffset_lt (symbolId : ℕ) : lteRefsigOrResvVoffset symbolId config < 6 := by
  unfold lteRefsigOrResvVoffset
  split_ifs <;> omega

lemma voffset_mod_three (symbolId : ℕ) :
    lteRefsigOrResvVoffset symbolId config % 3 = config.cellId % 3 := by
  unfold lteRefsigOrResvVoffset
  split_ifs <;> omega

lemma lteRefsigV_mod_three (portId ns symbolId : ℕ) :
    lteRefsigV portId ns symbolId config % 3 = 0 := by
  unfold lteRefsigV
  split <;> first | omega | (split_ifs <;> rfl)

lemma refClass_mod_three (portId : ℕ) :
    refClass config portId location % 3 = config.cellId % 3 := by
  have := lteRefsigV_mod_three config portId (lteGetNs location config)
    (refsigLp config (lteRefsigL location.symbolId config))
  unfold refClass
  omega

variable {config location}

def frameOf (nofPorts nofOsymb : ℕ) : LteGridConfig :=
  (GridParams.mk 6 nofOsymb nofPorts 1 0 [] []).config

lemma hasRefsig_one_port : ∀ n ∈ [14, 12], ∀ i < n, lteSymbolHasRefsig 0 i (frameOf 1 n) →
    i % (n / 2) = 0 ∧ (i = 0 ∨ i = n / 2) ∨
      i % (n / 2) ≠ 0 ∧ ¬ (i = 0 ∨ i = n / 2) ∧ (i = n / 2 - 3 ∨ i = n - 3) := by
  decide

lemma symbolmask_subset : ∀ ports ∈ [1, 2, 4], ∀ n ∈ [14, 12], ∀ port < ports, ∀ i < n,
    lteSymbolHasRefsig port i (frameOf ports n) →
      (lteRefsigSymbolmask (-1) (frameOf ports n)).getLsbD i = true := by
  decide

section

variable (hconfig : InRange config)
include hconfig

lemma InRange.ports_mem : config.nofPorts ∈ [1, 2, 4] := by
  simpa using hconfig.ports

lemma InRange.osymb_mem : config.nofOsymbXSubf ∈ [14, 12] := by
  simpa using hconfig.osymb

lemma refClass_eq_voffset (hports : config.nofPorts = 1)
    (hsymbol : location.symbolId < config.nofOsymbXSubf)
    (hhas : lteSymbolHasRefsig 0 location.symbolId config) :
    refClass config 0 location = lteRefsigOrResvVoffset location.symbolId config := by
  have hframe : lteSymbolHasRefsig 0 location.symbolId (frameOf 1 config.nofOsymbXSubf) := by
    rw [← hports]
    exact hhas
  have hlp : config.nofOsymbXSubf / 2 - 3 ≠ 0 ∧
      config.nofOsymbXSubf / 2 - 3 ≠ config.nofOsymbXSubf / 2 := by
    have := hconfig.osymb
    omega
  rcases hasRefsig_one_port _ hconfig.osymb_mem _ hsymbol hframe with
    ⟨hmod, hfirst⟩ | ⟨hmod, hfirst, hthird⟩
  · have hl : lteRefsigL location.symbolId config = 0 := if_pos hfirst
    rw [refClass, hl, lteRefsigOrResvVoffset, if_neg fun h => h.2 hmod]
    simp [refsigLp, lteRefsigV]
  · have hl : lteRefsigL location.symbolId config = 1 := by
      rw [lteRefsigL, if_neg hfirst, if_pos hthird]
    rw [refClass, hl, lteRefsigOrResvVoffset, if_pos ⟨hports, hmod⟩]
    simp only [refsigLp, lteRefsigV, hlp, or_self, if_false]
    omega

lemma hasRefsigOrResv_ne_zero {portId : ℕ}
    (hport : portId < config.nofPorts) (hsymbol : location.symbolId < config.nofOsymbXSubf)
    (hhas : lteSymbolHasRefsig portId location.symbolId config) :
    lteSymbolHasRefsigOrResv location config ≠ 0 := by
  have hany : (lteRefsigSymbolmask (-1) config).getLsbD location.symbolId = true :=
    symbolmask_subset _ hconfig.ports_mem _ hconfig.osymb_mem portId hport _ hsymbol hhas
  rw [lteSymbolHasRefsigOrResv, hany]
  split_ifs <;> simp_all

end

lemma nofPorts_of_two (h : lteSymbolHasRefsigOrResv location config = 2) : config.nofPorts = 1 := by
  rw [lteSymbolHasRefsigOrResv] at h
  by_cases hone : config.nofPorts = 1 ∧ 0 < location.symbolId
  · exact hone.1
  · rw [if_neg hone] at h
    split_ifs at h <;> cases h

lemma exists_refClass (hconfig : InRange config) (hports : config.nofPorts ≠ 1) {portId : ℕ}
    (hport : portId < config.nofPorts)
    (hhas : lteSymbolHasRefsig portId location.symbolId config) {r : ℕ} (hr : r < 6)
    (hclass : r % 3 = config.cellId % 3) :
    ∃ port < config.nofPorts, lteSymbolHasRefsig port location.symbolId config ∧
      refClass config port location = r := by
  -- ports come in pairs: the two ports of a pair have the same symbols, and classes 3 apart
  have hpair : ∀ q, q = 0 ∨ q = 2 → (portId = q ∨ portId = q + 1) →
      ∃ port, (port = q ∨ port = q + 1) ∧ lteSymbolHasRefsig port location.symbolId config ∧
        refClass config port location = r := by
    intro q hq hpq
    have hsame : ∀ port, (port = q ∨ port = q + 1) →
        lteSymbolHasRefsig port location.symbolId config := by
      intro port hpq'
      have hmask : lteRefsigSymbolmask port config = lteRefsigSymbolmask portId config := by
        have h2 : ((2 : ℤ) ≤ port ↔ (2 : ℤ) ≤ portId) := by omega
        have h1 : ((port : ℤ) = -1 ↔ (portId : ℤ) = -1) := by omega
        simp only [lteRefsigSymbolmask, h1, h2]
      rw [lteSymbolHasRefsig, hmask]
      exact hhas
    have hapart : (refClass config q location + 3) % 6 = refClass config (q + 1) location := by
      rcases hq with rfl | rfl
      · simp only [refClass, lteRefsigV]
        split_ifs <;> omega
      · simp only [refClass, lteRefsigV]
        omega
    have hq3 := refClass_mod_three config location q
    have hq6 : refClass config q location < 6 := Nat.mod_lt _ (by decide)
    by_cases heq : refClass config q location = r
    · exact ⟨q, .inl rfl, hsame q (.inl rfl), heq⟩
    · exact ⟨q + 1, .inr rfl, hsame (q + 1) (.inr rfl), by omega⟩
  have hfour := hconfig.ports
  rcases lt_or_ge portId 2 with hlow | hhigh
  · obtain ⟨port, hp, hrest⟩ := hpair 0 (.inl rfl) (by omega)
    exact ⟨port, by omega, hrest⟩
  · obtain ⟨port, hp, hrest⟩ := hpair 2 (.inr rfl) (by omega)
    exact ⟨port, by omega, hrest⟩

end Classes

/-! ## The runs of a symbol -/

section SymbolRuns

variable {config location} {nofPrb e n : ℕ}

lemma symbolShape_regular (config : LteGridConfig) (location : LteSymbol) (hprb : 0 < nofPrb) :
    RegularRun (symbolShape config location nofPrb).off (symbolShape config location nofPrb).iv
      (symbolShape config location nofPrb).len := by
  rw [symbolShape]
  rcases hasRefsigOrResv_cases config location with h | h | h <;> rw [h]
  · exact .inr (.inr le_rfl)
  · rw [runShape_two hprb]
    exact .inr (.inl rfl)
  · rw [runShape_four hprb]
    exact .inl rfl

lemma exists_runEntry (config : LteGridConfig) (location : LteSymbol)
    (he : e < (12 - lteSymbolHasRefsigOrResv location config) * n) :
    ∃ c < (symbolShape config location n).len, c < 12 * n ∧
      runEntry (symbolShape config location n).off (symbolShape config location n).iv c =
        some e := by
  have hprb : 0 < n := pos_of_ne_zero fun h => by simp [h] at he
  have hvo := voffset_lt config location.symbolId
  rw [symbolShape]
  generalize lteRefsigOrResvVoffset location.symbolId config = off at hvo ⊢
  rcases hasRefsigOrResv_cases config location with h | h | h <;> rw [h] at he ⊢
  · rw [runShape_zero]
    exact ⟨e, he, he, runEntry_of_lt 1 he⟩
  · rw [runShape_two hprb]
    dsimp only
    by_cases hoff : e < off
    · refine ⟨e, ?_, by omega, runEntry_of_lt 6 hoff⟩
      split <;> omega
    · refine ⟨e + (e - off) / 5 + 1, ?_, by omega, runEntry_six (by omega)⟩
      split <;> omega
  · rw [runShape_four hprb]
    dsimp only
    by_cases hoff : e < off
    · refine ⟨e, ?_, by omega, runEntry_of_lt 3 hoff⟩
      split <;> omega
    · refine ⟨e + (e - off) / 2 + 1, ?_, by omega, runEntry_three (by omega)⟩
      split <;> omega

/-- The runs of a symbol leave out the references: the offset is within the first interval, or one
interval later and nobody has references on the subcarrier written there. -/
def RunsClear (config : LteGridConfig) (location : LteSymbol) : Prop :=
  lteSymbolHasRefsigOrResv location config ≠ 4 ∨
  lteRefsigOrResvVoffset location.symbolId config < 3 ∨
  lteRefsigOrResvVoffset location.symbolId config = 3 ∧ (config.nofPorts = 1 ∨
    ∀ port < config.nofPorts, ¬ lteSymbolHasRefsig port location.symbolId config)

lemma RunsClear.len_le (hclear : RunsClear config location) (hprb : 0 < n) :
    (symbolShape config location n).len ≤ 12 * n := by
  have hvo := voffset_lt config location.symbolId
  rw [symbolShape]
  rw [RunsClear] at hclear
  rcases hasRefsigOrResv_cases config location with h | h | h <;> rw [h] at hclear ⊢
  · rw [runShape_zero]
  · rw [runShape_two hprb]
    dsimp only
    split <;> omega
  · rw [runShape_four hprb]
    dsimp only
    split <;> omega

lemma RunsClear.avoids (hclear : RunsClear config location) (hconfig : InRange config)
    (hsymbol : location.symbolId < config.nofOsymbXSubf) {c : ℕ} (hprb : 0 < nofPrb)
    (he : runEntry (symbolShape config location nofPrb).off (symbolShape config location nofPrb).iv
      c = some e) (start : ℕ) {portId : ℕ} (hport : portId < config.nofPorts) :
    ¬ RefRe config portId location ↑(6 * start + c) := by
  rintro ⟨hhas, m, -, hm⟩
  have hany := hasRefsigOrResv_ne_zero hconfig hport hsymbol hhas
  have hvo := voffset_lt config location.symbolId
  have hvo3 := voffset_mod_three config location.symbolId
  have hclass := refClass_mod_three config location portId
  have hone : config.nofPorts = 1 → refClass config portId location =
      lteRefsigOrResvVoffset location.symbolId config := by
    intro hports
    obtain rfl : portId = 0 := by omega
    exact refClass_eq_voffset hconfig hports hsymbol hhas
  rw [symbolShape] at he
  rcases hasRefsigOrResv_cases config location with h | h | h
  · exact hany h
  · have hclass := hone (nofPorts_of_two h)
    rw [h, runShape_two hprb, runEntry] at he
    dsimp only at he
    split_ifs at he <;> omega
  · rw [h, runShape_four hprb, runEntry] at he
    dsimp only at he
    rcases hclear with hclear | hclear | ⟨hthree, hports | hnone⟩
    · exact hclear h
    · split_ifs at he <;> omega
    · have hclass := hone hports
      split_ifs at he <;> omega
    · exact hnone portId hport hhas

end SymbolRuns

end Aloe.Modrep.Grid
