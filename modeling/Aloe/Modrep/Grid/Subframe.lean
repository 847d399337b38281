import Aloe.Lib.Fallible
import Aloe.Modrep.Grid.Channels

/-!
# A subframe

Model of the rest of `base.c`, which starts the grid (`lte_grid_init`) and goes through the symbols
of a subframe for a channel. What a start leaves is described field by field, from the parameters
it started with.
-/

namespace Aloe.Modrep.Grid

/-! ## Starting the grid -/

/-- `lte_ch_init`, with the entry of the channel in `phch` set. -/
def lteChInit (code : Phch) (config : LteGridConfig) : Except Exit LteGridConfig := do
  let config := { config with
    phch := Function.update config.phch code { symbolMask := fun _ => 0, nofReXSf := fun _ => 0 } }
  let set := fun (ch : LtePhchConfig) (config : LteGridConfig) =>
    { config with phch := Function.update config.phch code ch }
  match code with
  | .pdsch => ltePdschInit config
  | .pdcch => let r ← ltePdcchInit config; return set r.1 r.2
  | .pcfich => let r ← ltePcfichInit config; return set r.1 r.2
  | .phich => let r ← ltePhichInit config; return set r.1 r.2
  | .pbch => return set (ltePbchInit config) config
  | .pss => return set (ltePssInit config) config
  | .sss => return set (lteSssInit config) config

def lteGridInitChannels (config : LteGridConfig) : Except Exit LteGridConfig :=
  [Phch.pbch, .pss, .sss, .pcfich, .phich, .pdcch, .pdsch].foldlM
    (fun config code => lteChInit code config) config

/-- `lte_grid_init`, up to its return of 0. -/
def lteGridInit (config : LteGridConfig) : Except Exit LteGridConfig :=
  let r := lteGridInitParams config
  match r.1 with
  | .failed => .error .refused
  | .noFft => .ok r.2
  | .ready => do
    let nofCtrlSymb := if r.2.cfi = -1 then 1 else r.2.nofControlSymbols
    let config ← lteGridInitReg r.2 nofCtrlSymb
    lteGridInitChannels config

/-- The parameters of a grid: what a module and its user set before `lte_grid_init`. -/
structure GridParams where
  nofPrb : ℕ
  nofOsymbXSubf : ℕ
  nofPorts : ℕ
  cfi : ℤ
  cellId : ℕ
  nofCce : List ℤ
  rbgMask : List CInt
deriving DecidableEq, Repr

/-- The static configuration with the parameters in it, before `lte_grid_init`. -/
def GridParams.config (p : GridParams) : LteGridConfig where
  fftSize := 0
  preGuard := 0
  postGuard := 0
  nofPrb := p.nofPrb
  nofOsymbXSubf := p.nofOsymbXSubf
  nofPorts := p.nofPorts
  cfi := p.cfi
  cellId := p.cellId
  phichDuration := 0
  phichNgroups := 0
  nofControlSymbols := 0
  nofPdcch := p.nofCce.length
  nofPdsch := p.rbgMask.length
  phch _ := { symbolMask := fun _ => 0, nofReXSf := fun _ => 0 }
  pdcch i := { nofCce := p.nofCce.getD i 0, nofRegs := 0, nofRe := 0, nofBits := 0,
               cce := fun _ _ => none }
  pdsch i := { rbgMask := p.rbgMask.getD i 0, nofRe := fun _ => 0, nofRbg := 0, nofRb := 0,
               rbg := fun _ _ => 0 }
  control := { pdcchNregs := 0, pcfichNregs := 0, pcfich := fun _ => none, phichNregs := 0,
               phich := fun _ => none, totalNregs := 0,
               regs := fun _ => ⟨[], 0, 0, [], 0, 0, 0⟩ }

/-! ## A channel in a subframe -/

section

variable {α : Type}

/-- `lte_ch_put_symbol`, of the symbols from `input[ip]` on, to the symbol at `output[op]`. -/
def lteChPutSymbol [Zero α] (input : ℤ → α) (ip : ℤ) (output : ℤ → α) (op : ℤ) (chType : Phch)
    (channelIdx : ℕ) (location : LteSymbol) (config : LteGridConfig) :
    Except Exit (ℤ × (ℤ → α)) :=
  match chType with
  | .pdsch => .ok (ltePdschPut input ip output (op + config.preGuard) channelIdx location config)
  | .pdcch => ltePdcchPut input output channelIdx config
  | .pcfich => ltePcfichPut input output config
  | .phich => ltePhichPut input output config
  | .pbch => .ok (ltePbchPut input ip output (op + config.preGuard) location config)
  | _ => .ok (-1, output)

/-- `lte_ch_get_symbol`, from the symbol at `input[ip]`, to the symbols from `output[op]` on. -/
def lteChGetSymbol (input : ℤ → α) (ip : ℤ) (output : ℤ → α) (op : ℤ) (chType : Phch)
    (channelIdx : ℕ) (location : LteSymbol) (config : LteGridConfig) :
    Except Exit (ℤ × (ℤ → α)) :=
  match chType with
  | .pdsch => .ok (ltePdschGet input (ip + config.preGuard) output op channelIdx location config)
  | .pdcch => ltePdcchGet input output channelIdx config
  | .pcfich => ltePcfichGet input output config
  | .phich => ltePhichGet input output config
  | .pbch => .ok (ltePbchGet input (ip + config.preGuard) output op location config)
  | _ => .ok (-1, output)

/-- The loop of `lte_ch_put_sf` and `lte_ch_get_sf` over the symbols that are left: `turn i rp mem`
handles symbol `i` from place `rp` of the channel's buffer on. It returns -1 where a turn does. -/
def symbolLoop (turn : ℕ → ℤ → (ℤ → α) → Except Exit (ℤ × (ℤ → α))) :
    List ℕ → ℤ → (ℤ → α) → Except Exit (ℤ × (ℤ → α))
  | [], rp, mem => .ok (rp, mem)
  | i :: is, rp, mem => do
    let r ← turn i rp mem
    if r.1 < 0 then return (-1, r.2) else symbolLoop turn is (rp + r.1) r.2

def lteChPutSf [Zero α] (input : ℤ → α) (output : ℤ → α) (chType : Phch) (channelIdx : ℕ)
    (subframeId : ℕ) (config : LteGridConfig) : Except Exit (ℤ × (ℤ → α)) :=
  if chType = .pdsch ∨ chType = .pbch then
    symbolLoop (fun i rp output => lteChPutSymbol input rp output (i * config.fftSize) chType
      channelIdx ⟨subframeId, i⟩ config) (List.range config.nofOsymbXSubf) 0 output
  else do
    let r ← lteChPutSymbol input 0 output 0 chType channelIdx ⟨subframeId, 0⟩ config
    return (0, r.2)

def lteChGetSf (input : ℤ → α) (output : ℤ → α) (chType : Phch) (channelIdx : ℕ)
    (subframeId : ℕ) (config : LteGridConfig) : Except Exit (ℤ × (ℤ → α)) :=
  if chType = .pdsch ∨ chType = .pbch then
    symbolLoop (fun i wp output => lteChGetSymbol input (i * config.fftSize) output wp chType
      channelIdx ⟨subframeId, i⟩ config) (List.range config.nofOsymbXSubf) 0 output
  else lteChGetSymbol input 0 output 0 chType channelIdx ⟨subframeId, 0⟩ config

end

open Lib Function

/-! ## The part that the control channels leave alone -/

structure Frame where
  fftSize : ℕ
  preGuard : ℕ
  postGuard : ℕ
  nofPrb : ℕ
  nofOsymbXSubf : ℕ
  nofPorts : ℕ
  cfi : ℤ
  cellId : ℕ
  nofControlSymbols : ℕ
  nofPdcch : ℕ
  nofPdsch : ℕ
  pdsch : ℕ → LtePdsch

def LteGridConfig.frame (config : LteGridConfig) : Frame where
  fftSize := config.fftSize
  preGuard := config.preGuard
  postGuard := config.postGuard
  nofPrb := config.nofPrb
  nofOsymbXSubf := config.nofOsymbXSubf
  nofPorts := config.nofPorts
  cfi := config.cfi
  cellId := config.cellId
  nofControlSymbols := config.nofControlSymbols
  nofPdcch := config.nofPdcch
  nofPdsch := config.nofPdsch
  pdsch := config.pdsch

def Kept (config config' : LteGridConfig) : Prop :=
  config'.frame = config.frame ∧ config'.phch = config.phch

variable {config config' : LteGridConfig}

lemma lteGridInitReg_kept {n : ℕ} (h : lteGridInitReg config n = .ok config') :
    Kept config config' := by
  obtain ⟨regs, -, hend⟩ := bind_eq_ok.mp h
  cases hend
  exact ⟨rfl, rfl⟩

lemma lteGridInitRegPcfich_kept (h : lteGridInitRegPcfich config = .ok config') :
    Kept config config' := by
  refine foldlM_inv (P := fun c => Kept config c) ?_ ?_ h
  · intro i _ c c' hc hround
    dsimp only at hround
    split at hround
    · cases hround
    · split_ifs at hround
      cases hround
      exact hc
  · exact ⟨rfl, rfl⟩

variable {ch : LtePhchConfig} {p : GridParams}

lemma ltePcfichInit_kept (h : ltePcfichInit config = .ok (ch, config')) : Kept config config' := by
  obtain ⟨c, hloop, hend⟩ := bind_eq_ok.mp h
  cases hend
  have hkept := lteGridInitRegPcfich_kept hloop
  exact hkept

lemma ltePhichInit_kept (h : ltePhichInit config = .ok (ch, config')) : Kept config config' := by
  obtain ⟨c, hphich, hend⟩ := bind_eq_ok.mp h
  cases hend
  obtain ⟨s, -, hend⟩ := bind_eq_ok.mp hphich
  cases hend
  exact ⟨rfl, rfl⟩

lemma ltePdcchInit_kept (h : ltePdcchInit config = .ok (ch, config')) : Kept config config' := by
  unfold ltePdcchInit at h
  split_ifs at h
  · cases h
    exact ⟨rfl, rfl⟩
  · obtain ⟨c, hloop, hend⟩ := bind_eq_ok.mp h
    cases hend
    refine foldlM_inv (P := fun c => Kept config c) ?_ ?_ hloop
    · intro i _ c c' hc hround
      obtain ⟨⟨ch, regs⟩, -, hend⟩ := bind_eq_ok.mp hround
      cases hend
      exact hc
    · exact ⟨rfl, rfl⟩

/-! ## The PDSCH -/

lemma ltePdschInit_ok (h : ltePdschInit config = .ok config') (hphch : config.nofPdsch ≠ 0) :
    config' = { config with
      phch := update config.phch .pdsch (ltePdschInitSfs config)
      pdsch := config'.pdsch } ∧
    ∀ i < config.nofPdsch,
      ltePdschSetupRbgmask (config.pdsch i) config' = .ok (config'.pdsch i) := by
  unfold ltePdschInit at h
  split_ifs at h
  have hloop := foldlM_range_inv (fun n c => c = { config with
      phch := update config.phch .pdsch (ltePdschInitSfs config)
      pdsch := c.pdsch } ∧ (∀ i < n,
      ltePdschSetupRbgmask (config.pdsch i) c = .ok (c.pdsch i)) ∧
      ∀ i, n ≤ i → c.pdsch i = config.pdsch i) ?_ ?_ h
  · exact ⟨hloop.1, hloop.2.1⟩
  · rintro n c c' hn ⟨hc, hset, hrest⟩ hround
    obtain ⟨ch, hch, hend⟩ := bind_eq_ok.mp hround
    cases hend
    refine ⟨?_, ?_, ?_⟩
    · rw [hc]
    · intro i hi
      -- the table of channels is not read by the set up
      show ltePdschSetupRbgmask (config.pdsch i) c = .ok (update c.pdsch n ch i)
      rcases Nat.lt_succ_iff_lt_or_eq.mp hi with hi | rfl
      · rw [update_of_ne (by omega)]
        exact hset i hi
      · rw [update_self, ← hrest i le_rfl]
        exact hch
    · intro i hi
      exact (update_of_ne (by omega) ..).trans (hrest i (by omega))
  · exact ⟨rfl, fun i hi => absurd hi (Nat.not_lt_zero i), fun i _ => rfl⟩

lemma lteChInit_frame {code : Phch} (hcode : code ≠ .pdsch)
    (h : lteChInit code config = .ok config') :
    config'.frame = config.frame ∧ ∀ c ≠ code, config'.phch c = config.phch c := by
  have hset : ∀ (ch : LtePhchConfig) (c : LteGridConfig), Kept { config with
        phch := update config.phch code { symbolMask := fun _ => 0, nofReXSf := fun _ => 0 } } c →
      c.frame = config.frame ∧ ∀ d ≠ code, update c.phch code ch d = config.phch d := by
    rintro ch c ⟨hframe, hphch⟩
    refine ⟨hframe, fun d hd => ?_⟩
    rw [update_of_ne hd, hphch]
    exact update_of_ne hd ..
  cases code with
  | pdsch => exact absurd rfl hcode
  | pbch => cases h; exact hset _ _ ⟨rfl, rfl⟩
  | pss => cases h; exact hset _ _ ⟨rfl, rfl⟩
  | sss => cases h; exact hset _ _ ⟨rfl, rfl⟩
  | pcfich =>
    obtain ⟨r, hr, hend⟩ := bind_eq_ok.mp h
    cases hend
    exact hset _ _ (ltePcfichInit_kept hr)
  | phich =>
    obtain ⟨r, hr, hend⟩ := bind_eq_ok.mp h
    cases hend
    exact hset _ _ (ltePhichInit_kept hr)
  | pdcch =>
    obtain ⟨r, hr, hend⟩ := bind_eq_ok.mp h
    cases hend
    exact hset _ _ (ltePdcchInit_kept hr)

/-! ## The whole start -/

def GridParams.nofControlSymbols (p : GridParams) : ℕ :=
  if p.nofPrb ≤ 10 then (p.cfi + 1).toNat else p.cfi.toNat

/-- What `lte_grid_init` leaves of the parameters `p`, apart from the control channels. -/
structure Started (p : GridParams) (config : LteGridConfig) : Prop where
  fftSize : Grid.fftSize p.nofPrb = some config.fftSize
  preGuard : config.preGuard = (config.fftSize - p.nofPrb * nofReXOsymb) / 2
  postGuard : config.postGuard = (config.fftSize - p.nofPrb * nofReXOsymb) / 2
  nofPrb : config.nofPrb = p.nofPrb
  nofOsymbXSubf : config.nofOsymbXSubf = p.nofOsymbXSubf
  nofPorts : config.nofPorts = p.nofPorts
  cellId : config.cellId = p.cellId
  nofControlSymbols : config.nofControlSymbols = p.nofControlSymbols
  nofPdcch : config.nofPdcch = p.nofCce.length
  nofPdsch : config.nofPdsch = p.rbgMask.length
  pbch : config.phch .pbch = ltePbchInit config
  pss : config.phch .pss = ltePssInit config
  sss : config.phch .sss = lteSssInit config
  pdsch : p.rbgMask ≠ [] → config.phch .pdsch = ltePdschInitSfs config
  channel : ∀ i < p.rbgMask.length,
    ltePdschSetupRbgmask (p.config.pdsch i) config = .ok (config.pdsch i)

structure GridParams.InRange (p : GridParams) : Prop where
  prb : 6 ≤ p.nofPrb ∧ p.nofPrb ≤ 100
  osymb : p.nofOsymbXSubf = 14 ∨ p.nofOsymbXSubf = 12
  ports : p.nofPorts = 1 ∨ p.nofPorts = 2 ∨ p.nofPorts = 4
  cfi : 1 ≤ p.cfi ∧ p.cfi ≤ 3
  cell : p.cellId ≤ 503

def GridParams.withParams (p : GridParams) (size : ℕ) : LteGridConfig :=
  { p.config with
    fftSize := size
    preGuard := (size - p.nofPrb * nofReXOsymb) / 2
    postGuard := (size - p.nofPrb * nofReXOsymb) / 2
    nofControlSymbols := p.nofControlSymbols }

lemma lteGridInitParams_eq (hp : p.InRange) :
    ∃ size, fftSize p.nofPrb = some size ∧ 12 * p.nofPrb ≤ size ∧
      lteGridInitParams p.config = (.ready, p.withParams size) := by
  obtain ⟨hlo, hhi⟩ := hp.prb
  have hcfi : p.cfi ≠ -1 := by
    have := hp.cfi
    omega
  obtain ⟨size, hsize, hroom⟩ : ∃ size, fftSize p.nofPrb = some size ∧ 12 * p.nofPrb ≤ size := by
    unfold fftSize
    split_ifs <;> first | omega | exact ⟨_, rfl, by omega⟩
  refine ⟨size, hsize, hroom, ?_⟩
  have hconfig : fftSize p.config.nofPrb = some size := hsize
  unfold lteGridInitParams
  rw [hconfig]
  have hbounds : ¬ (p.nofPrb < 6 ∨ 110 < p.nofPrb) := by omega
  refine (if_neg hbounds).trans ((if_neg hcfi).trans ?_)
  rw [GridParams.withParams, GridParams.nofControlSymbols]
  by_cases hten : p.nofPrb ≤ 10
  · rw [if_pos hten]
    exact if_pos hten
  · rw [if_neg hten]
    exact if_neg hten

lemma lteGridInit_ok (hp : p.InRange) {config : LteGridConfig}
    (h : lteGridInit p.config = .ok config) :
    ∃ size c, fftSize p.nofPrb = some size ∧ 12 * p.nofPrb ≤ size ∧
      lteGridInitReg (p.withParams size) p.nofControlSymbols = .ok c ∧
      lteGridInitChannels c = .ok config := by
  obtain ⟨size, hsize, hroom, hparams⟩ := lteGridInitParams_eq hp
  have hcfi : p.cfi ≠ -1 := by
    have := hp.cfi
    omega
  rw [lteGridInit, hparams] at h
  obtain ⟨c, hreg, hchannels⟩ := bind_eq_ok.mp h
  refine ⟨size, c, hsize, hroom, ?_, hchannels⟩
  rwa [if_neg (show (p.withParams size).cfi ≠ -1 from hcfi)] at hreg

lemma ltePdschInitSfs_congr (h : config'.frame = { config.frame with pdsch := config'.pdsch }) :
    ltePdschInitSfs config' = ltePdschInitSfs config := by
  have hprb : config'.nofPrb = config.nofPrb := congrArg Frame.nofPrb h
  have hosymb : config'.nofOsymbXSubf = config.nofOsymbXSubf := congrArg Frame.nofOsymbXSubf h
  have hports : config'.nofPorts = config.nofPorts := congrArg Frame.nofPorts h
  have hctrl : config'.nofControlSymbols = config.nofControlSymbols :=
    congrArg Frame.nofControlSymbols h
  simp only [ltePdschInitSfs, pdschSymbolMask, ltePdschReXPrb, hprb, hosymb, hports, hctrl]

lemma ltePdschInit_zero (h : ltePdschInit config = .ok config') (hzero : config.nofPdsch = 0) :
    config' = config := by
  rw [ltePdschInit, if_neg (by omega), if_pos hzero] at h
  exact (Except.ok.inj h).symm

lemma lteChInit_pdsch (h : lteChInit .pdsch config = .ok config') :
    config'.frame = { config.frame with pdsch := config'.pdsch } ∧
    (∀ c ≠ .pdsch, config'.phch c = config.phch c) ∧
    (config.nofPdsch ≠ 0 → config'.phch .pdsch = ltePdschInitSfs config) ∧
    ∀ i < config.nofPdsch, ltePdschSetupRbgmask (config.pdsch i) config' =
      .ok (config'.pdsch i) := by
  have hinit : ltePdschInit { config with
      phch := update config.phch .pdsch
        { symbolMask := fun _ => 0, nofReXSf := fun _ => 0 } } = .ok config' := h
  by_cases hzero : config.nofPdsch = 0
  · rw [ltePdschInit_zero hinit hzero]
    exact ⟨rfl, fun c hc => update_of_ne hc .., fun hne => absurd hzero hne,
      fun i hi => absurd hi (by omega)⟩
  · obtain ⟨hconfig, hset⟩ := ltePdschInit_ok hinit hzero
    have hphch := congrArg LteGridConfig.phch hconfig
    refine ⟨by rw [hconfig]; rfl, fun c hc => ?_, fun _ => ?_, hset⟩
    · rw [hphch]
      exact (update_of_ne hc ..).trans (update_of_ne hc ..)
    · rw [hphch]
      dsimp only
      rfl

lemma lteGridInitChannels_ok {c : LteGridConfig} (h : lteGridInitChannels c = .ok config) :
    config.frame = { c.frame with pdsch := config.pdsch } ∧
    config.phch .pbch = ltePbchInit c ∧ config.phch .pss = ltePssInit c ∧
    config.phch .sss = lteSssInit c ∧
    (c.nofPdsch ≠ 0 → config.phch .pdsch = ltePdschInitSfs c) ∧
    ∀ i < c.nofPdsch, ltePdschSetupRbgmask (c.pdsch i) config = .ok (config.pdsch i) := by
  obtain ⟨c1, h1, h⟩ := foldlM_cons_ok.mp h
  obtain ⟨c2, h2, h⟩ := foldlM_cons_ok.mp h
  obtain ⟨c3, h3, h⟩ := foldlM_cons_ok.mp h
  obtain ⟨c4, h4, h⟩ := foldlM_cons_ok.mp h
  obtain ⟨c5, h5, h⟩ := foldlM_cons_ok.mp h
  obtain ⟨c6, h6, h⟩ := foldlM_cons_ok.mp h
  obtain ⟨c7, h7, h⟩ := foldlM_cons_ok.mp h
  cases h
  obtain ⟨hf1, hk1⟩ := lteChInit_frame (by decide) h1
  obtain ⟨hf2, hk2⟩ := lteChInit_frame (by decide) h2
  obtain ⟨hf3, hk3⟩ := lteChInit_frame (by decide) h3
  obtain ⟨hf4, hk4⟩ := lteChInit_frame (by decide) h4
  obtain ⟨hf5, hk5⟩ := lteChInit_frame (by decide) h5
  obtain ⟨hf6, hk6⟩ := lteChInit_frame (by decide) h6
  obtain ⟨hf7, hk7, hpdsch, hset⟩ := lteChInit_pdsch h7
  have hframe : c6.frame = c.frame := by rw [hf6, hf5, hf4, hf3, hf2, hf1]
  have hpss : c2.phch .pss = ltePssInit c1 := by
    cases h2
    dsimp only
    rfl
  have hsss : c3.phch .sss = lteSssInit c2 := by
    cases h3
    dsimp only
    rfl
  have hosymb1 : c1.nofOsymbXSubf = c.nofOsymbXSubf := congrArg Frame.nofOsymbXSubf hf1
  have hosymb2 : c2.nofOsymbXSubf = c.nofOsymbXSubf :=
    congrArg Frame.nofOsymbXSubf (hf2.trans hf1)
  have hnof : c6.nofPdsch = c.nofPdsch := congrArg Frame.nofPdsch hframe
  have hchannels : c6.pdsch = c.pdsch := congrArg Frame.pdsch hframe
  refine ⟨?_, ?_, ?_, ?_, ?_, ?_⟩
  · rw [hf7, hframe]
  · rw [hk7 _ (by decide), hk6 _ (by decide), hk5 _ (by decide), hk4 _ (by decide),
      hk3 _ (by decide), hk2 _ (by decide)]
    cases h1
    dsimp only
    rfl
  · rw [hk7 _ (by decide), hk6 _ (by decide), hk5 _ (by decide), hk4 _ (by decide),
      hk3 _ (by decide), hpss, ltePssInit, ltePssInit, hosymb1]
  · rw [hk7 _ (by decide), hk6 _ (by decide), hk5 _ (by decide), hk4 _ (by decide), hsss,
      lteSssInit, lteSssInit, hosymb2]
  · rw [← hnof, ← ltePdschInitSfs_congr (show c6.frame = { c.frame with pdsch := c6.pdsch } by
      rw [hchannels]; exact hframe)]
    exact hpdsch
  · rw [← hnof, ← hchannels]
    exact hset

/-- **What a start leaves.** -/
theorem lteGridInit_started (hp : p.InRange)
    (h : lteGridInit p.config = .ok config) : Started p config := by
  obtain ⟨size, c, hsize, hroom, hreg, hchannels⟩ := lteGridInit_ok hp h
  obtain ⟨hframe, -⟩ := lteGridInitReg_kept hreg
  obtain ⟨hframe', hpbch, hpss, hsss, hpdsch, hset⟩ := lteGridInitChannels_ok hchannels
  have hall : config.frame = { (p.withParams size).frame with pdsch := config.pdsch } := by
    rw [hframe', hframe]
  have hosymb : config.nofOsymbXSubf = c.nofOsymbXSubf := congrArg Frame.nofOsymbXSubf hframe'
  have hnof : c.nofPdsch = p.rbgMask.length := congrArg Frame.nofPdsch hframe
  have hblank : c.pdsch = p.config.pdsch := congrArg Frame.pdsch hframe
  have hsizeEq : config.fftSize = size := congrArg Frame.fftSize hall
  refine ⟨?_, ?_, ?_, ?_, ?_, ?_, ?_, ?_, ?_, ?_, ?_, ?_, ?_, ?_, ?_⟩
  · rw [hsizeEq, hsize]
  · rw [hsizeEq]
    exact congrArg Frame.preGuard hall
  · rw [hsizeEq]
    exact congrArg Frame.postGuard hall
  · exact congrArg Frame.nofPrb hall
  · exact congrArg Frame.nofOsymbXSubf hall
  · exact congrArg Frame.nofPorts hall
  · exact congrArg Frame.cellId hall
  · exact congrArg Frame.nofControlSymbols hall
  · exact congrArg Frame.nofPdcch hall
  · exact congrArg Frame.nofPdsch hall
  · rw [hpbch, ltePbchInit, ltePbchInit, hosymb]
  · rw [hpss, ltePssInit, ltePssInit, hosymb]
  · rw [hsss, lteSssInit, lteSssInit, hosymb]
  · intro hne
    rw [hpdsch (by rw [hnof]; exact fun h => hne (List.length_eq_zero_iff.mp h)),
      ltePdschInitSfs_congr hframe']
  · rw [← hnof, ← hblank]
    exact hset

lemma Started.room (h : Started p config) :
    config.preGuard + 12 * config.nofPrb + config.postGuard ≤ config.fftSize ∧
      14 ≤ config.postGuard := by
  have hsize := h.fftSize
  rw [h.preGuard, h.postGuard, h.nofPrb]
  simp only [nofReXOsymb]
  unfold Grid.fftSize at hsize
  split_ifs at hsize <;> rw [Option.some.injEq] at hsize <;> omega

end Aloe.Modrep.Grid
