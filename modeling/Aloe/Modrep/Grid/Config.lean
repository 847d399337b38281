import Aloe.Modrep.Pack

/-!
# The configuration of the resource grid

Model of the data of `lte_lib/grid`: the structures of `base.h`, `regs.h`, `pdcch.h` and `pdsch.h`,
`lte_grid_init_params`, and the questions that the channels ask about a symbol: which channels it
has (`lte_symbol_has_ch`) and which reference signals (`refsig.c`).

The grid of a subframe is a function of the index in the buffer, as is the buffer of a channel;
pointers into them are an index more. A table entry that has never been written is zero, since
the configuration is a static object.
-/

namespace Aloe.Modrep.Grid

/-- `complex_t`, by the bits of its two `float`s. -/
structure ComplexT where
  re : BitVec 32
  im : BitVec 32
deriving DecidableEq, Repr

instance : Zero ComplexT := ⟨⟨0, 0⟩⟩

instance : Nontrivial ComplexT := ⟨⟨0, ⟨1, 0⟩, by decide⟩⟩

def nofReXOsymb : ℕ := 12

def nofOsymbXSlotExt : ℕ := 12

def nofSubframesXFrame : ℕ := 10

def maxRbg : ℕ := 25

def maxCtrlSymb : ℕ := 4

def maxRegsXPrb : ℕ := 3

def nofReXReg : ℕ := 4

def nofRegsXCce : ℕ := 9

def maxCce : ℕ := 8

def maxPdcch : ℕ := 20

def maxPdsch : ℕ := 10

def pcfichReg : ℕ := 4

/-- `PHICH_REG_MAX`, with `PHICH_NG_MAX` 2 and `MAX_NPRB` 110. -/
def phichRegMax : ℕ := (2 * 110 - 1) / 8 + 1

def rbgSz (a : ℕ) : ℕ := if a < 10 then 1 else if a < 26 then 2 else if a < 63 then 3 else 4

inductive Phch
  | pbch | pss | sss | pcfich | phich | pdcch | pdsch
deriving DecidableEq, Repr

structure LtePhchConfig where
  symbolMask : ℕ → BitVec 16
  nofReXSf : ℕ → ℤ

structure LteSymbol where
  subframeId : ℕ
  symbolId : ℕ
deriving DecidableEq, Repr

/-- `struct lte_reg`: the subcarriers of its data, its first subcarrier and the one behind it,
the subcarriers of the references, `-1` where there is none. -/
structure LteReg where
  k : List ℕ
  k0 : ℕ
  k3 : ℕ
  kRef : List ℤ
  symbol : ℕ
  id : ℕ
  assigned : ℕ
deriving DecidableEq, Repr

/-- A `struct lte_reg *`, by its place in the table of REGs. -/
structure RegPtr where
  prb : ℕ
  symbol : ℕ
  idx : ℕ
deriving DecidableEq, Repr

/-- The table `regs`. -/
abbrev RegTable : Type := RegPtr → LteReg

structure LteGridRegs where
  pdcchNregs : ℤ
  pcfichNregs : ℕ
  pcfich : ℕ → Option RegPtr
  phichNregs : ℕ
  phich : ℕ → Option RegPtr
  totalNregs : ℕ
  regs : RegTable

/-- `struct lte_pdcch`; `cce i j` is `cce[i].regs[j]`. -/
structure LtePdcch where
  nofCce : ℤ
  nofRegs : ℤ
  nofRe : ℤ
  nofBits : ℤ
  cce : ℕ → ℕ → Option RegPtr

/-- `struct lte_pdsch`; `rbg i j` is `rbg[i].prb_idx[j]`. -/
structure LtePdsch where
  rbgMask : CInt
  nofRe : ℕ → ℤ
  nofRbg : ℕ
  nofRb : ℕ
  rbg : ℕ → ℕ → ℕ

structure LteGridConfig where
  fftSize : ℕ
  preGuard : ℕ
  postGuard : ℕ
  nofPrb : ℕ
  nofOsymbXSubf : ℕ
  nofPorts : ℕ
  cfi : ℤ
  cellId : ℕ
  phichDuration : ℕ
  phichNgroups : ℕ
  nofControlSymbols : ℕ
  nofPdcch : ℕ
  nofPdsch : ℕ
  phch : Phch → LtePhchConfig
  pdcch : ℕ → LtePdcch
  pdsch : ℕ → LtePdsch
  control : LteGridRegs

inductive Exit
  /-- It returns -1. -/
  | refused
  /-- It writes outside the table of REGs of the PHICH. -/
  | phichTable
  /-- It writes outside the table of CCEs of a PDCCH. -/
  | cceTable
  /-- It writes outside the table of resource block groups of a PDSCH. -/
  | rbgTable
  /-- It follows a pointer to a REG that was never set. -/
  | nullReg
  /-- Its search for a REG does not end. -/
  | endless
deriving DecidableEq, Repr

/-! ## Parameters -/

/-- `fft_size`; `none` for -1. -/
def fftSize (nofPrb : ℕ) : Option ℕ :=
  if nofPrb = 0 then none
  else if nofPrb ≤ 6 then some 128
  else if nofPrb ≤ 15 then some 256
  else if nofPrb ≤ 25 then some 512
  else if nofPrb ≤ 50 then some 1024
  else if nofPrb ≤ 75 then some 1536
  else if nofPrb ≤ 100 then some 2048
  else none

/-- What `lte_grid_init_params` returns, apart from the number of parameters it found. -/
inductive ParamsResult
  | failed | noFft | ready
deriving DecidableEq, Repr

/-- `lte_grid_init_params`, on a configuration that holds the parameters already. -/
def lteGridInitParams (config : LteGridConfig) : ParamsResult × LteGridConfig :=
  match fftSize config.nofPrb with
  | none => (.noFft, config)
  | some size =>
    let config := { config with
      fftSize := size
      preGuard := (size - config.nofPrb * nofReXOsymb) / 2
      postGuard := (size - config.nofPrb * nofReXOsymb) / 2 }
    if config.nofPrb < 6 ∨ 110 < config.nofPrb then (.failed, config)
    else if config.cfi = -1 then (.ready, { config with nofControlSymbols := 0 })
    else if config.nofPrb ≤ 10 then
      (.ready, { config with nofControlSymbols := (config.cfi + 1).toNat })
    else (.ready, { config with nofControlSymbols := config.cfi.toNat })

def lteGetNs (location : LteSymbol) (config : LteGridConfig) : ℕ :=
  location.subframeId * 2 + if location.symbolId < config.nofOsymbXSubf / 2 then 0 else 1

def lteSymbolHasCh (symbol : LteSymbol) (ch : LtePhchConfig) : Bool :=
  (ch.symbolMask symbol.subframeId).getLsbD symbol.symbolId

/-! ## Reference signals -/

/-- `lte_refsig_symbolmask`; port -1 is any port. -/
def lteRefsigSymbolmask (portId : ℤ) (config : LteGridConfig) : CInt :=
  let symbolMask : CInt :=
    if config.nofPorts = 4 ∧ 2 ≤ portId then 0x2#32
    else 0x1#32 ||| (0x1#32 <<< (config.nofOsymbXSubf / 2 - 3))
  let symbolMask := if config.nofPorts = 4 ∧ portId = -1 then symbolMask ||| 0x2#32 else symbolMask
  (symbolMask <<< (config.nofOsymbXSubf / 2)) ||| symbolMask

def lteRefsigOrResvVoffset (symbolId : ℕ) (config : LteGridConfig) : ℕ :=
  if config.nofPorts = 1 ∧ symbolId % (config.nofOsymbXSubf / 2) ≠ 0 then (config.cellId + 3) % 6
  else config.cellId % 6

/-- `lte_symbol_has_refsig_or_resv`: the number of references in a PRB. -/
def lteSymbolHasRefsigOrResv (symbol : LteSymbol) (config : LteGridConfig) : ℕ :=
  if symbol.subframeId = 0 ∧ (symbol.symbolId = config.nofOsymbXSubf / 2 ∨
      symbol.symbolId = config.nofOsymbXSubf / 2 + 1) then 4
  else if !(lteRefsigSymbolmask (-1) config).getLsbD symbol.symbolId then 0
  else if config.nofPorts = 1 ∧ 0 < symbol.symbolId then
    if config.nofOsymbXSubf = nofOsymbXSlotExt ∧
        symbol.symbolId = config.nofOsymbXSubf / 2 - 3 then 4 else 2
  else 4

def lteSymbolHasRefsig (portId symbolId : ℕ) (config : LteGridConfig) : Bool :=
  (lteRefsigSymbolmask portId config).getLsbD symbolId

def lteRefsigL (symbolId : ℕ) (config : LteGridConfig) : ℕ :=
  if symbolId = 0 ∨ symbolId = config.nofOsymbXSubf / 2 then 0
  else if symbolId = config.nofOsymbXSubf / 2 - 3 ∨ symbolId = config.nofOsymbXSubf - 3 then 1
  else 2

/-- `lte_refsig_v`; the ports beyond 3, where it returns -1, are not used. -/
def lteRefsigV (portId ns symbolId : ℕ) (config : LteGridConfig) : ℕ :=
  match portId with
  | 0 => if symbolId = 0 ∨ symbolId = config.nofOsymbXSubf / 2 then 0 else 3
  | 1 => if symbolId = 0 ∨ symbolId = config.nofOsymbXSubf / 2 then 3 else 0
  | 2 => 3 * (ns % 2)
  | _ => 3 + 3 * (ns % 2)

def lteRefsigK (m v : ℕ) (config : LteGridConfig) : ℕ := 6 * m + (v + config.cellId % 6) % 6

def lteRefsigMp (m : ℕ) (config : LteGridConfig) : ℕ := m + 110 - config.nofPrb

/-- `refsignal_t`; `k (l, ns, m)` is `k[l][ns][m]`. -/
structure RefsignalT (α : Type) where
  portId : ℕ
  signal : ℕ × ℕ × ℕ → α
  k : ℕ × ℕ × ℕ → ℤ

/-- The symbol `lp[l]` that stands for the reference symbols of kind `l`. -/
def refsigLp (config : LteGridConfig) (l : ℕ) : ℕ :=
  match l with
  | 0 => 0
  | 1 => config.nofOsymbXSubf / 2 - 3
  | _ => 1

section

variable {α : Type}

/-- The turns of the loops of `generate_cref_k`. -/
def crefPlaces (config : LteGridConfig) : List (ℕ × ℕ × ℕ) :=
  (List.range 3).flatMap fun l => (List.range 20).flatMap fun ns =>
    (List.range (2 * config.nofPrb)).map fun m => (l, ns, m)

/-- The subcarrier, with the guard, of reference `m` of kind `l` in slot `ns`. -/
def crefK (portId : ℕ) (config : LteGridConfig) (place : ℕ × ℕ × ℕ) : ℤ :=
  ↑(lteRefsigK place.2.2 (lteRefsigV portId place.2.1 (refsigLp config place.1) config) config) +
    config.preGuard

def crefEntry (config : LteGridConfig) (place : ℕ × ℕ × ℕ) : ℕ × ℕ × ℕ :=
  (place.1, place.2.1, lteRefsigMp place.2.2 config)

def generateCrefK (refsignal : RefsignalT α) (config : LteGridConfig) : RefsignalT α :=
  { refsignal with
    k := (crefPlaces config).foldl (fun k place =>
      Function.update k (crefEntry config place) (crefK refsignal.portId config place))
      refsignal.k }

def lteRefsigPut (refsignal : RefsignalT α) (output : ℤ → α) (op : ℤ) (location : LteSymbol)
    (config : LteGridConfig) : ℕ × (ℤ → α) :=
  if !lteSymbolHasRefsig refsignal.portId location.symbolId config then (0, output)
  else
    let l := lteRefsigL location.symbolId config
    let ns := lteGetNs location config
    (2 * config.nofPrb, (List.range (2 * config.nofPrb)).foldl (fun output m =>
      let mp := lteRefsigMp m config
      Function.update output (op + refsignal.k (l, ns, mp)) (refsignal.signal (l, ns, mp))) output)

end

end Aloe.Modrep.Grid
