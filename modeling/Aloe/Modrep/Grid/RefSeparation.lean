import Aloe.Modrep.Grid.References

/-!
# Data and reference signals

Data are written to a symbol, the reference signals of all ports are put on it, and the data are
read again. They come back where the runs of the symbol leave out the references (`RunsClear`), no
PRB is visited twice, and the channel goes forward in its symbols. Each of these can fail: the
offset of the first reference is taken modulo 6 where references are on every third subcarrier, the
table of PRBs has entries that were never set, and with four ports the channel goes back by four
symbols with each PRB.
-/

namespace Aloe.Modrep.Grid

open Lib Placement List Option Int

/-! ## The statement -/

/-- `lte_refsig_put` for all ports, on the symbol at the start of `output`. -/
def putReferences (signals : ℕ → RefsignalT ComplexT) (output : ℤ → ComplexT)
    (location : LteSymbol) (config : LteGridConfig) : ℤ → ComplexT :=
  (List.range config.nofPorts).foldl (fun output port =>
    (lteRefsigPut (generateCrefK { signals port with portId := port } config) output 0 location
      config).2) output

/-- `lte_refsig_put` writes to `d` for a port. -/
def WritesReference (config : LteGridConfig) (portId : ℕ) (location : LteSymbol) (d : ℤ) : Prop :=
  ∃ (refsignal : RefsignalT ComplexT) (output : ℤ → ComplexT), refsignal.portId = portId ∧
    (lteRefsigPut (generateCrefK refsignal config) output 0 location config).2 d ≠ output d

/-- A channel written by `put` and read by `get` in a symbol: its data lie in `region` and apart
from the references of all ports, and the symbols it says it has written come back. -/
structure Separated (config : LteGridConfig) (location : LteSymbol)
    (put get : (ℤ → ComplexT) → (ℤ → ComplexT) → ℤ × (ℤ → ComplexT)) (region : ℤ → Prop) :
    Prop where
  inside : ∀ d s, Carries (fun x output => (put x output).2) d s → region d
  clear : ∀ d s, Carries (fun x output => (put x output).2) d s →
    ∀ port < config.nofPorts, ¬ WritesReference config port location d
  forward : ∀ x output, 0 ≤ (put x output).1
  readBack : ∀ x output signals buffer s, 0 ≤ s → s < (put x output).1 →
    (get (putReferences signals (put x output).2 location config) buffer).2 s = x s

def PdschSeparated (config : LteGridConfig) (channelIdx : ℕ) (location : LteSymbol) : Prop :=
  Separated config location
    (fun x output => ltePdschPut x 0 output config.preGuard channelIdx location config)
    (fun input buffer => ltePdschGet input config.preGuard buffer 0 channelIdx location config)
    fun d => ∃ prb ∈ visitedPrbs (config.pdsch channelIdx) config,
      ↑(config.preGuard + 12 * prb) ≤ d ∧ d < ↑(config.preGuard + 12 * prb + 12)

def PbchSeparated (config : LteGridConfig) (location : LteSymbol) : Prop :=
  Separated config location
    (fun x output => ltePbchPut x 0 output config.preGuard location config)
    (fun input buffer => ltePbchGet input config.preGuard buffer 0 location config)
    fun d => ↑(config.preGuard + pbchStart config) ≤ d ∧
      d < ↑(config.preGuard + pbchStart config + 72)

/-! ## References -/

section References

variable {config : LteGridConfig} {location : LteSymbol}

lemma lteGetNs_lt (hsf : location.subframeId < 10) : lteGetNs location config < 20 := by
  rw [lteGetNs]
  split_ifs <;> omega

lemma writesReference_iff (hconfig : InRange config) (hsf : location.subframeId < 10)
    {portId : ℕ} {d : ℤ} :
    WritesReference config portId location d ↔
      RefRe config portId location (d - config.preGuard) := by
  have hprb : config.nofPrb ≤ 110 := hconfig.prb.2.trans (by decide)
  have hns : lteGetNs location config < 20 := lteGetNs_lt hsf
  constructor
  · rintro ⟨refsignal, output, rfl, hne⟩
    by_contra hnot
    exact hne (lteRefsigPut_of_not refsignal config output 0 location hprb hns (by rwa [sub_zero]))
  · rintro ⟨hhas, m, hm, hd⟩
    obtain ⟨refsignal, hport, hone⟩ : ∃ refsignal : RefsignalT ComplexT,
        refsignal.portId = portId ∧ ∀ i, refsignal.signal i = ⟨1, 0⟩ :=
      ⟨⟨portId, fun _ => ⟨1, 0⟩, fun _ => 0⟩, rfl, fun _ => rfl⟩
    subst hport
    have hdm : d = 0 + (config.preGuard +
        ↑(6 * m + refClass config refsignal.portId location)) := by omega
    refine ⟨refsignal, fun _ => 0, rfl, ?_⟩
    simp only [lteRefsigPut_eq refsignal config _ 0 location hprb hns hhas, hone]
    rw [hdm, foldl_store_of_mem (fun a _ b _ h => by omega) (mem_range.mpr hm)]
    decide

lemma putReferences_of_not (hconfig : InRange config) (hsf : location.subframeId < 10) {d : ℤ}
    (hd : ∀ port < config.nofPorts, ¬ RefRe config port location (d - config.preGuard))
    (signals : ℕ → RefsignalT ComplexT) (output : ℤ → ComplexT) :
    putReferences signals output location config d = output d := by
  have hloop : ∀ n ≤ config.nofPorts, (List.range n).foldl (fun output port =>
      (lteRefsigPut (generateCrefK { signals port with portId := port } config) output 0 location
        config).2) output d = output d := by
    intro n
    induction n with
    | zero => exact fun _ => rfl
    | succ n ih =>
      intro hn
      rw [range_succ, foldl_append, foldl_cons, foldl_nil]
      rw [lteRefsigPut_of_not { signals n with portId := n } config _ 0 location
        (hconfig.prb.2.trans (by decide)) (lteGetNs_lt hsf)
        (by rw [sub_zero]; exact hd n (by omega))]
      exact ih (by omega)
  exact hloop _ le_rfl

lemma not_runsClear (h : ¬ RunsClear config location) :
    lteSymbolHasRefsigOrResv location config = 4 ∧
      (4 ≤ lteRefsigOrResvVoffset location.symbolId config ∨
        lteRefsigOrResvVoffset location.symbolId config = 3 ∧ config.nofPorts ≠ 1 ∧
          ∃ port < config.nofPorts, lteSymbolHasRefsig port location.symbolId config) := by
  rw [RunsClear, not_or, not_or, not_not] at h
  obtain ⟨hnref, hoff, hthree⟩ := h
  refine ⟨hnref, ?_⟩
  by_cases hv : lteRefsigOrResvVoffset location.symbolId config = 3
  · grind
  · exact .inl (by omega)

lemma spill (hnref : lteSymbolHasRefsigOrResv location config = 4)
    (hoff : 4 ≤ lteRefsigOrResvVoffset location.symbolId config) {n : ℕ} (hprb : 0 < n) :
    12 * n < (symbolShape config location n).len ∧
      (symbolShape config location n).len < 12 * n + 12 ∧
      (runEntry (symbolShape config location n).off (symbolShape config location n).iv
        (12 * n)).isSome := by
  have hvo := voffset_lt config location.symbolId
  rw [symbolShape, hnref, runShape_four hprb]
  dsimp only
  refine ⟨by split <;> omega, by split <;> omega, ?_⟩
  rw [runEntry, if_neg (by omega), if_neg (by omega)]
  rfl

lemma first_data (hnref : lteSymbolHasRefsigOrResv location config = 4)
    (hoff : lteRefsigOrResvVoffset location.symbolId config = 3) {n : ℕ} (hprb : 0 < n) :
    (symbolShape config location n).len = 12 * n ∧
      (runEntry (symbolShape config location n).off (symbolShape config location n).iv
        0).isSome := by
  rw [symbolShape, hnref, hoff, runShape_four hprb]
  exact ⟨rfl, rfl⟩

lemma exists_refRe (hconfig : InRange config)
    (hoff : lteRefsigOrResvVoffset location.symbolId config = 3) (hports : config.nofPorts ≠ 1)
    (hhas : ∃ port < config.nofPorts, lteSymbolHasRefsig port location.symbolId config) {m : ℕ}
    (hm : m < 2 * config.nofPrb) :
    ∃ port < config.nofPorts, RefRe config port location ↑(6 * m) := by
  have hvo3 := voffset_mod_three config location.symbolId
  obtain ⟨port, hport, hhas⟩ := hhas
  obtain ⟨port, hport, hhas, hclass⟩ :=
    exists_refClass hconfig hports hport hhas (r := 0) (by decide) (by omega)
  exact ⟨port, hport, hhas, m, hm, by rw [hclass, add_zero]⟩

end References

/-! ## Placements -/

section Placements

variable {config : LteGridConfig} {location : LteSymbol}
  {put get : (ℤ → ComplexT) → (ℤ → ComplexT) → ℤ × (ℤ → ComplexT)} {region : ℤ → Prop} {n m : ℤ}
  {ws : Placement ℤ ℤ}

lemma separated_of_homes (hconfig : InRange config) (hsf : location.subframeId < 10)
    (hput : ∀ x output, put x output = (n, ws.scatter x output))
    (hget : ∀ input buffer, get input buffer = (m, ws.gather input buffer))
    (hinside : ∀ d s, (d, some s) ∈ ws → region d) (hclear : ∀ d s, (d, some s) ∈ ws →
      ∀ port < config.nofPorts, ¬ RefRe config port location (d - config.preGuard))
    (hn : 0 ≤ n) (hhome : ∀ s, 0 ≤ s → s < n → ∃ d, ws.Home s d) :
    Separated config location put get region where
  inside := by
    intro d s hd
    simp only [hput] at hd
    exact hinside d s (mem_of_carries hd)
  clear := by
    intro d s hd port hport
    simp only [hput] at hd
    rw [writesReference_iff hconfig hsf]
    exact hclear d s (mem_of_carries hd) port hport
  forward := by
    intro x output
    rw [hput]
    exact hn
  readBack := by
    intro x output signals buffer s hs hsn
    rw [hput] at hsn ⊢
    obtain ⟨d, hd⟩ := hhome s hs hsn
    rw [hget]
    dsimp only
    rw [hd.gather_eq, putReferences_of_not hconfig hsf (hclear d s hd.mem), hd.scatter_eq]

lemma separated_idle (hput : ∀ x output, put x output = (0, output)) :
    Separated config location put get region := by
  have hnone : ∀ d s, ¬ Carries (fun x output => (put x output).2) d s := by
    intro d s hd
    obtain ⟨a, ha⟩ := exists_ne (0 : ComplexT)
    have hvalue := hd (fun _ => a) (fun _ => 0)
    simp only [hput] at hvalue
    exact ha hvalue.symm
  refine ⟨fun d s hd => absurd hd (hnone d s), fun d s hd => absurd hd (hnone d s), ?_, ?_⟩
  · intro x output
    rw [hput]
  · intro x output signals buffer s hs hsn
    rw [hput] at hsn
    exact absurd hsn hs.not_gt

lemma Separated.notMem_cells (h : Separated config location put get region)
    (hconfig : InRange config) (hsf : location.subframeId < 10)
    (hput : ∀ x output, put x output = (n, ws.scatter x output))
    (hget : ∀ input buffer, get input buffer = (m, ws.gather input buffer))
    {us vs : Placement ℤ ℤ} (hws : ws = us ++ vs) {d s : ℤ} (hs : 0 ≤ s) (hsn : s < n)
    (hhome : us.Home s d) (hlater : s ∉ vs.entries)
    (hclear : ∀ port < config.nofPorts, ¬ RefRe config port location (d - config.preGuard)) :
    d ∉ vs.cells := by
  subst hws
  have hcarry : Carries (α := ComplexT) (scatter (us ++ vs)) d s := by
    intro x output
    have hread := h.readBack x output (fun _ => ⟨0, fun _ => 0, fun _ => 0⟩) (fun _ => 0) s hs
      (by rw [hput]; exact hsn)
    rw [hget, hput] at hread
    dsimp only at hread
    rwa [gather_append, gather_of_notMem hlater, hhome.gather_eq,
      putReferences_of_not hconfig hsf hclear] at hread
  exact notMem_of_carries hcarry hlater

end Placements

/-! ## PDSCH -/

section Pdsch

variable {config : LteGridConfig} {location : LteSymbol} {channelIdx : ℕ}

lemma prbStep_of_four (hnref : lteSymbolHasRefsigOrResv location config ≠ 0)
    (hports : config.nofPorts = 4) : prbStep config location < 0 := by
  rw [prbStep, if_pos hnref]
  rcases hasRefsigOrResv_cases config location with h | h | h
  · exact absurd h hnref
  · have := nofPorts_of_two h
    omega
  · rw [h, hports]
    decide

lemma prbStep_bounds (hconfig : InRange config)
    (hports : lteSymbolHasRefsigOrResv location config = 0 ∨ config.nofPorts ≠ 4) :
    0 < prbStep config location ∧
      prbStep config location ≤ (12 - lteSymbolHasRefsigOrResv location config : ℕ) := by
  rw [prbStep]
  rcases hasRefsigOrResv_cases config location with h | h | h
  · rw [if_neg (by simp [h]), h]
    decide
  · rw [if_pos (by simp [h]), h, nofPorts_of_two h]
    decide
  · have h1 := hconfig.ports
    rw [if_pos (by simp [h]), h]
    simp only [nofReXOsymb]
    rcases hports with hports | hports <;> omega

lemma exists_carries_visitCells {sh : RunShape} (step op : ℤ) {prbs : List ℕ} (ip : ℤ) {a c : ℕ}
    (ha : a ∈ prbs) (hc : c < sh.len) (hdata : (runEntry sh.off sh.iv c).isSome)
    (honly : ∀ prb ∈ prbs, ∀ c' < sh.len, 12 * a + c = 12 * prb + c' → c' = c) :
    ∃ s, Carries (α := ComplexT) (visitCells sh step op prbs ip).scatter
      (op + ↑(nofReXOsymb * a) + c) s := by
  refine exists_carries (mem_cells_visitCells.mpr ⟨a, ha, by omega, by omega⟩) fun o ho => ?_
  obtain ⟨v, prb, hv, c', hc', hd, rfl⟩ := mem_visitCells_iff.mp ho
  simp only [nofReXOsymb] at hd
  rw [honly prb (mem_of_getElem? hv) c' hc' (by omega), isSome_map]
  exact hdata

lemma visitCells_append (sh : RunShape) (step op : ℤ) (prbs prbs' : List ℕ) (ip : ℤ) :
    visitCells sh step op (prbs ++ prbs') ip =
      visitCells sh step op prbs ip ++ visitCells sh step op prbs' (ip + step * prbs.length) := by
  induction prbs generalizing ip with
  | nil => simp [visitCells]
  | cons prb prbs ih =>
    rw [cons_append, visitCells, visitCells, ih, append_assoc, length_cons,
      Nat.cast_succ, show ip + step + step * prbs.length = ip + step * (prbs.length + 1) by ring]

lemma nodup_of_split {prbs : List ℕ} (h : ∀ l a m, prbs = l ++ a :: m → a ∉ m) : prbs.Nodup := by
  induction prbs with
  | nil => exact nodup_nil
  | cons b t ih =>
    exact nodup_cons.mpr
      ⟨h [] b t rfl, ih fun l a m heq => h (b :: l) a m (by rw [heq, cons_append])⟩

def PdschClear (config : LteGridConfig) (prbs : List ℕ) (location : LteSymbol) : Prop :=
  prbs.Nodup ∧ RunsClear config location ∧
    (lteSymbolHasRefsigOrResv location config = 0 ∨ config.nofPorts ≠ 4)

variable (hconfig : InRange config) (hsf : location.subframeId < 10)
  (hsymbol : location.symbolId < config.nofOsymbXSubf)

include hconfig hsf hsymbol

lemma pdschSeparated_of_clear (hclear : PdschClear config (config.prbs channelIdx) location)
    (hhas : lteSymbolHasCh location (config.phch .pdsch)) :
    PdschSeparated config channelIdx location := by
  obtain ⟨hnodup, hruns, hports⟩ := hclear
  obtain ⟨hstep, hroom⟩ := prbStep_bounds hconfig hports
  have hlen := hruns.len_le (n := 1) one_pos
  refine separated_of_homes hconfig hsf (fun x output => ltePdschPut_eq ..)
    (fun input buffer => ltePdschGet_eq ..) ?_ ?_ ?_ ?_ <;>
    simp [pdschCells, pdschCount, hhas]
  · intro d s hd
    obtain ⟨v, prb, hv, c, hc, rfl, -⟩ := mem_visitCells_iff.mp hd
    refine ⟨prb, mem_of_getElem? hv, ?_⟩
    simp only [nofReXOsymb]
    omega
  · intro d s hd port hport
    obtain ⟨v, prb, hv, c, hc, rfl, ho⟩ := mem_visitCells_iff.mp hd
    obtain ⟨e, he, -⟩ := map_eq_some_iff.mp ho.symm
    have havoid := hruns.avoids hconfig hsymbol one_pos he (2 * prb) hport
    rwa [show (config.preGuard : ℤ) + ↑(nofReXOsymb * prb) + c - config.preGuard =
      ↑(6 * (2 * prb) + c) by simp only [nofReXOsymb]; omega]
  · exact Int.mul_nonneg hstep.le (Int.natCast_nonneg _)
  · intro s hs hsn
    obtain ⟨prb, -, c, -, -, -, hhome⟩ := @home_visitCells (symbolShape config location 1)
      (prbStep config location) config.preGuard _ 0 s
      (symbolShape_regular config location one_pos) hstep.le
      (fun e he => by
        obtain ⟨c, hc, hc12, hentry⟩ := exists_runEntry config location (n := 1) (e := e) (by omega)
        exact ⟨c, hc, by omega, hentry⟩)
      (hnodup.imp fun hne => .inr ⟨by omega, hne⟩) hs (by rwa [zero_add])
    exact ⟨_, hhome⟩

variable (h : PdschSeparated config channelIdx location)
  (hhas : lteSymbolHasCh location (config.phch .pdsch))

include h hhas in
omit hsymbol in
/-- A PDSCH with an offset of 4 or 5 writes data behind its last PRB; with an offset of 3 and more
than one port it writes data on references. -/
theorem runsClear_of_pdschSeparated (hprbs : ∀ prb ∈ config.prbs channelIdx, prb < config.nofPrb)
    (hne : config.prbs channelIdx ≠ []) : RunsClear config location := by
  have hcells : pdschCells config channelIdx location config.preGuard 0 =
      visitCells (symbolShape config location 1) (prbStep config location) config.preGuard
        (config.prbs channelIdx) 0 := if_pos hhas
  by_contra hruns
  obtain ⟨hnref, hoff | ⟨hoff, hports, hrefs⟩⟩ := not_runsClear hruns
  · obtain ⟨hlen, hlen', hdata⟩ := spill hnref hoff one_pos
    obtain ⟨a, ha, hmax⟩ : ∃ a ∈ config.prbs channelIdx, ∀ b ∈ config.prbs channelIdx, b ≤ a :=
      ⟨_, max_mem hne, fun b hb => le_max_of_mem hb⟩
    obtain ⟨s, hs⟩ := exists_carries_visitCells (prbStep config location) config.preGuard 0 ha hlen
      hdata fun prb hprb c' hc' heq => by
        have := hmax prb hprb
        omega
    obtain ⟨prb, hprb, hlo, hhi⟩ := h.inside _ s (by simpa only [ltePdschPut_eq, hcells] using hs)
    have := hmax prb hprb
    simp only [nofReXOsymb] at hlo hhi
    omega
  · obtain ⟨hlen, hdata⟩ := first_data hnref hoff (n := 1) one_pos
    obtain ⟨a, ha⟩ := exists_mem_of_ne_nil _ hne
    have hlt := hprbs a ha
    obtain ⟨s, hs⟩ := exists_carries_visitCells (prbStep config location) config.preGuard 0 ha
      (by omega) hdata fun prb hprb c' hc' heq => by omega
    obtain ⟨port, hport, href⟩ := exists_refRe hconfig hoff hports hrefs (m := 2 * a) (by omega)
    refine h.clear _ s (by simpa only [ltePdschPut_eq, hcells] using hs) port hport
      ((writesReference_iff hconfig hsf).mpr ?_)
    rwa [show (config.preGuard : ℤ) + ↑(nofReXOsymb * a) + ((0 : ℕ) : ℤ) - config.preGuard =
      ↑(6 * (2 * a)) by simp only [nofReXOsymb]; omega]

include h hhas in
lemma nodup_of_pdschSeparated (hruns : RunsClear config location)
    (hports : lteSymbolHasRefsigOrResv location config = 0 ∨ config.nofPorts ≠ 4) :
    (visitedPrbs (config.pdsch channelIdx) config).Nodup := by
  obtain ⟨hstep, hroom⟩ := prbStep_bounds hconfig hports
  obtain ⟨c, hc, hc12, hentry⟩ := exists_runEntry config location (n := 1) (e := 0) (by omega)
  refine nodup_of_split fun l a m hsplit ha => ?_
  have hcells : pdschCells config channelIdx location config.preGuard 0 =
      (visitCells (symbolShape config location 1) (prbStep config location) config.preGuard l 0 ++
        (symbolShape config location 1).cells (config.preGuard + ↑(nofReXOsymb * a))
          (0 + prbStep config location * l.length)) ++
      visitCells (symbolShape config location 1) (prbStep config location) config.preGuard m
        (0 + prbStep config location * l.length + prbStep config location) := by
    rw [pdschCells, if_pos hhas, hsplit, visitCells_append, visitCells, append_assoc]
  have hhome := home_runCells (config.preGuard + ↑(nofReXOsymb * a))
    (0 + prbStep config location * l.length) (symbolShape_regular config location one_pos) hc hentry
  have hnonneg : 0 ≤ prbStep config location * l.length :=
    Int.mul_nonneg hstep.le (Int.natCast_nonneg _)
  have hnonneg' : 0 ≤ prbStep config location * m.length :=
    Int.mul_nonneg hstep.le (Int.natCast_nonneg _)
  refine Separated.notMem_cells h hconfig hsf (fun x output => ltePdschPut_eq ..)
    (fun input buffer => ltePdschGet_eq ..) hcells ?_ ?_ hhome.append_left ?_ ?_ ?_
  · omega
  · rw [pdschCount, if_pos hhas, hsplit, length_append, length_cons, Nat.cast_add,
      Nat.cast_succ, mul_add, mul_add, mul_one]
    omega
  · intro hs
    have := le_of_mem_entries_visitCells hstep.le hs
    omega
  · intro port hport
    have havoid := hruns.avoids hconfig hsymbol one_pos hentry (2 * a) hport
    rwa [show (config.preGuard : ℤ) + ↑(nofReXOsymb * a) + c - config.preGuard =
      ↑(6 * (2 * a) + c) by simp only [nofReXOsymb]; omega]
  · exact mem_cells_visitCells.mpr ⟨a, ha, by omega, by omega⟩

lemma pdschSeparated_iff
    (hprbs : ∀ prb ∈ visitedPrbs (config.pdsch channelIdx) config, prb < config.nofPrb) :
    PdschSeparated config channelIdx location ↔ (lteSymbolHasCh location (config.phch .pdsch) →
        visitedPrbs (config.pdsch channelIdx) config = [] ∨
          PdschClear config (visitedPrbs (config.pdsch channelIdx) config) location) := by
  constructor
  · intro h hhas
    refine or_iff_not_imp_left.mpr fun hne => ?_
    have hruns := runsClear_of_pdschSeparated hconfig hsf h hhas hprbs hne
    have hports : lteSymbolHasRefsigOrResv location config = 0 ∨ config.nofPorts ≠ 4 := by
      refine or_iff_not_imp_left.mpr fun hnref hfour => ?_
      have hforward := h.forward (fun _ => 0) (fun _ => 0)
      simp only [ltePdschPut_eq, pdschCount, if_pos hhas] at hforward
      have := Int.mul_neg_of_neg_of_pos (prbStep_of_four hnref hfour)
        (natCast_pos.mpr (length_pos_iff.mpr hne))
      omega
    exact ⟨nodup_of_pdschSeparated hconfig hsf hsymbol h hhas hruns hports, hruns, hports⟩
  · intro h
    have hidle : pdschCells config channelIdx location config.preGuard 0 = [] →
        pdschCount config channelIdx location = 0 → PdschSeparated config channelIdx location := by
      intro hcells hcount
      exact separated_idle fun x output => by rw [ltePdschPut_eq, hcells, hcount]; rfl
    by_cases hhas : lteSymbolHasCh location (config.phch .pdsch)
    · rcases h hhas with hnil | hclear
      · exact hidle (by rw [pdschCells, if_pos hhas, hnil, visitCells])
          (by rw [pdschCount, if_pos hhas, hnil]; simp)
      · exact pdschSeparated_of_clear hconfig hsf hsymbol hclear hhas
    · exact hidle (if_neg hhas) (if_neg hhas)

end Pdsch

/-! ## PBCH -/

section Pbch

variable {config : LteGridConfig} {location : LteSymbol} (hconfig : InRange config)
  (hsf : location.subframeId < 10) (hsymbol : location.symbolId < config.nofOsymbXSubf)

lemma pbchCount_eq (hhas : lteSymbolHasCh location (config.phch .pbch)) :
    pbchCount config location = ((12 - lteSymbolHasRefsigOrResv location config) * 6 : ℕ) := by
  rw [pbchCount, if_pos hhas]
  rcases hasRefsigOrResv_cases config location with h | h | h <;> rw [h] <;> rfl

include hconfig

lemma pbchStart_eq : pbchStart config = 6 * (config.nofPrb - 6) := by
  have := hconfig.prb
  simp only [pbchStart, nofReXOsymb]
  omega

include hsf

include hsymbol in
lemma pbchSeparated_of_clear (hruns : RunsClear config location)
    (hhas : lteSymbolHasCh location (config.phch .pbch)) : PbchSeparated config location := by
  have hlen := hruns.len_le (n := 6) (by decide)
  refine separated_of_homes hconfig hsf (fun x output => ltePbchPut_eq ..)
    (fun input buffer => ltePbchGet_eq ..) ?_ ?_ ?_ ?_
  · intro d s hd
    rw [pbchCells, if_pos hhas] at hd
    obtain ⟨c, hc, heq⟩ := mem_runCells.mp hd
    rw [runCell, Prod.mk.injEq] at heq
    omega
  · intro d s hd port hport
    rw [pbchCells, if_pos hhas] at hd
    obtain ⟨c, hc, heq⟩ := mem_runCells.mp hd
    rw [runCell, Prod.mk.injEq] at heq
    obtain ⟨rfl, ho⟩ := heq
    obtain ⟨e, he, -⟩ := map_eq_some_iff.mp ho
    have havoid := hruns.avoids hconfig hsymbol (by decide) he (config.nofPrb - 6) hport
    rwa [show (config.preGuard : ℤ) + pbchStart config + c - config.preGuard =
      ↑(6 * (config.nofPrb - 6) + c) by rw [pbchStart_eq hconfig]; omega]
  · rw [pbchCount_eq hhas]
    exact natCast_nonneg _
  · intro s hs hsn
    rw [pbchCount_eq hhas] at hsn
    obtain ⟨c, hc, -, he⟩ := exists_runEntry config location (n := 6) (e := s.toNat) (by omega)
    have hhome := home_runCells (config.preGuard + pbchStart config) 0
      (symbolShape_regular config location (by decide)) hc he
    rw [show (0 : ℤ) + s.toNat = s by omega] at hhome
    exact ⟨_, by rw [pbchCells, if_pos hhas]; exact hhome⟩

lemma runsClear_of_pbchSeparated (h : PbchSeparated config location)
    (hhas : lteSymbolHasCh location (config.phch .pbch)) : RunsClear config location := by
  have hprb := hconfig.prb
  have hcells : pbchCells config location config.preGuard 0 =
      (symbolShape config location 6).cells (config.preGuard + pbchStart config) 0 := if_pos hhas
  have hcarry : ∀ c < (symbolShape config location 6).len,
      (runEntry (symbolShape config location 6).off (symbolShape config location 6).iv c).isSome →
      ∃ s, Carries (fun x (output : ℤ → ComplexT) =>
        (ltePbchPut x 0 output config.preGuard location config).2)
          (config.preGuard + pbchStart config + c) s := by
    intro c hc hdata
    obtain ⟨e, he⟩ := isSome_iff_exists.mp hdata
    refine ⟨0 + e, ?_⟩
    simp only [ltePbchPut_eq, hcells]
    refine carries_of_nodup (nodup_cells_runCells ..) (mem_runCells.mpr ⟨c, hc, ?_⟩)
    rw [runCell, he, map_some]
  by_contra hruns
  obtain ⟨hnref, hoff | ⟨hoff, hports, hrefs⟩⟩ := not_runsClear hruns
  · obtain ⟨hlen, -, hdata⟩ := spill hnref hoff (n := 6) (by decide)
    obtain ⟨s, hs⟩ := hcarry _ hlen hdata
    have := (h.inside _ s hs).2
    omega
  · obtain ⟨hlen, hdata⟩ := first_data hnref hoff (n := 6) (by decide)
    obtain ⟨s, hs⟩ := hcarry 0 (by omega) hdata
    obtain ⟨port, hport, href⟩ := exists_refRe hconfig hoff hports hrefs (m := config.nofPrb - 6)
      (by omega)
    refine h.clear _ s hs port hport ((writesReference_iff hconfig hsf).mpr ?_)
    rwa [show (config.preGuard : ℤ) + pbchStart config + ((0 : ℕ) : ℤ) - config.preGuard =
      ↑(6 * (config.nofPrb - 6)) by rw [pbchStart_eq hconfig]; omega]

include hsymbol in
lemma pbchSeparated_iff : PbchSeparated config location ↔
    (lteSymbolHasCh location (config.phch .pbch) → RunsClear config location) := by
  refine ⟨fun h hhas => runsClear_of_pbchSeparated hconfig hsf h hhas, fun h => ?_⟩
  by_cases hhas : lteSymbolHasCh location (config.phch .pbch)
  · exact pbchSeparated_of_clear hconfig hsf hsymbol (h hhas) hhas
  · refine separated_idle fun x output => ?_
    rw [ltePbchPut_eq, pbchCount, pbchCells, if_neg hhas, if_neg hhas]
    rfl

end Pbch

/-! ## The result -/

/-- Data and references are separated where the runs of the symbol are clear of the references, the
PDSCH visits no PRB twice, and it does not have to count back. -/
theorem reference_signal_separation (config : LteGridConfig) (hconfig : InRange config)
    (channelIdx : ℕ)
    (hprbs : ∀ prb ∈ visitedPrbs (config.pdsch channelIdx) config, prb < config.nofPrb)
    (location : LteSymbol) (hsf : location.subframeId < 10)
    (hsymbol : location.symbolId < config.nofOsymbXSubf) :
    PdschSeparated config channelIdx location ∧ PbchSeparated config location ↔
      (lteSymbolHasCh location (config.phch .pdsch) →
        visitedPrbs (config.pdsch channelIdx) config = [] ∨
          PdschClear config (visitedPrbs (config.pdsch channelIdx) config) location) ∧
      (lteSymbolHasCh location (config.phch .pbch) → RunsClear config location) :=
  and_congr (pdschSeparated_iff hconfig hsf hsymbol hprbs) (pbchSeparated_iff hconfig hsf hsymbol)

def twoPrbGrid (nofPorts cellId : ℕ) : LteGridConfig :=
  let config :=
    { (GridParams.mk 6 14 nofPorts 1 cellId [] [3#32]).config with nofControlSymbols := 2 }
  { config with
    phch := fun ch => if ch = .pbch then ltePbchInit config else ltePdschInitSfs config
    pdsch := fun _ => ⟨3#32, fun _ => 0, 2, 2, fun i _ => i⟩ }

lemma inRange_twoPrbGrid {nofPorts cellId : ℕ}
    (hports : nofPorts = 1 ∨ nofPorts = 2 ∨ nofPorts = 4) (hcell : cellId ≤ 503) :
    InRange (twoPrbGrid nofPorts cellId) :=
  ⟨⟨le_refl 6, show 6 ≤ 100 by decide⟩, .inl rfl, hports, hcell⟩

theorem reference_signal_separation_two :
    PdschSeparated (twoPrbGrid 2 0) 0 ⟨1, 4⟩ ∧ PbchSeparated (twoPrbGrid 2 0) ⟨1, 4⟩ :=
  (reference_signal_separation (twoPrbGrid 2 0)
    (inRange_twoPrbGrid (.inr (.inl rfl)) (by decide)) 0 (by decide) ⟨1, 4⟩ (by decide)
    (by decide)).mpr
    ⟨fun _ => .inr ⟨by decide, .inr (.inl (by decide)), .inr (by decide)⟩,
      fun _ => .inr (.inl (by decide))⟩

/-- With two ports and cell 3 `lte_refsig_put` overwrites the first symbol of the PDSCH in symbol 4
with a reference of port 0. With cell 4 the PDSCH writes its symbol 13 behind its last PRB, and with
four ports it says that it has written -8 symbols. -/
theorem data_on_references : (Carries (fun x (output : ℤ → ComplexT) =>
      (ltePdschPut x 0 output 0 0 ⟨1, 4⟩ (twoPrbGrid 2 3)).2) 0 0 ∧
      WritesReference (twoPrbGrid 2 3) 0 ⟨1, 4⟩ 0) ∧
    Carries (fun x (output : ℤ → ComplexT) =>
      (ltePdschPut x 0 output 0 0 ⟨1, 4⟩ (twoPrbGrid 2 4)).2) 24 13 ∧
    (∀ x (output : ℤ → ComplexT), (ltePdschPut x 0 output 0 0 ⟨1, 4⟩ (twoPrbGrid 4 0)).1 = -8) ∧
    ¬ PdschSeparated (twoPrbGrid 2 3) 0 ⟨1, 4⟩ := by
  have hrange : InRange (twoPrbGrid 2 3) := inRange_twoPrbGrid (.inr (.inl rfl)) (by decide)
  have hcarry : Carries (fun x (output : ℤ → ComplexT) =>
      (ltePdschPut x 0 output 0 0 ⟨1, 4⟩ (twoPrbGrid 2 3)).2) 0 0 := fun x output => rfl
  have hwrites : WritesReference (twoPrbGrid 2 3) 0 ⟨1, 4⟩ 0 :=
    (writesReference_iff hrange (by decide)).mpr ⟨by decide, 0, by decide, by decide⟩
  refine ⟨⟨hcarry, hwrites⟩, fun x output => rfl, fun x output => rfl, fun h => ?_⟩
  exact h.clear 0 0 hcarry 0 (by decide) hwrites

end Aloe.Modrep.Grid
