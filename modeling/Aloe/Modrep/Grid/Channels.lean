import Aloe.Modrep.Grid.Config

/-!
# The channels and the signals

Model of `regs.c`, `pcfich.c`, `phich.c` and `pdcch.c`: the table of resource element groups (REGs)
of the control symbols, and the channels, each of which takes REGs that are still available. Then
`pdsch.c`, `pbch.c` and the symbols of `sync.c`: which symbols a channel has, which
PRBs belong to a PDSCH, and how symbols are written to the PRBs and read from them, with zeros where
the reference signals are.
-/

namespace Aloe.Modrep.Grid

open Function

def lteRegNum (symId : ℕ) (config : LteGridConfig) : ℕ :=
  if lteSymbolHasRefsigOrResv ⟨0, symId⟩ config ≠ 0 then 2 else 3

/-- `lte_reg_indices`; `none` where it returns -1. -/
def lteRegIndices (nreg kp maxreg vo : ℕ) (reg : LteReg) : Option LteReg :=
  match maxreg with
  | 2 =>
    let k0 := nreg * 6
    let k := (List.range vo).map fun i => kp + k0 + i
    let k := k ++ (List.range 2).map fun i => kp + k0 + i + vo + 1
    let k := k ++ (List.range (4 - k.length)).map fun i => kp + k0 + vo + 3 + i + 1
    if k.length ≠ 4 then none
    else some { reg with
      k := k
      kRef := [↑(kp + k0 + vo), ↑(kp + k0 + vo + 3)]
      k0 := kp + k0
      k3 := kp + k0 + 6 }
  | 3 =>
    let k0 := nreg * 4
    some { reg with
      k := (List.range 4).map fun i => kp + k0 + i
      kRef := [-1, -1]
      k0 := kp + k0
      k3 := kp + k0 + 4 }
  | _ => some reg

def symbolRegs (config : LteGridConfig) (i : ℕ) : List RegPtr :=
  (List.range config.nofPrb).flatMap fun p =>
    (List.range (lteRegNum i config)).map fun j => ⟨p, i, j⟩

def lteGridInitReg (config : LteGridConfig) (nofCtrlSymbols : ℕ) : Except Exit LteGridConfig := do
  let vo := config.cellId % 3
  let totalNregs := (List.range nofCtrlSymbols).foldl
    (fun total i => total + config.nofPrb * lteRegNum i config) 0
  let regs ← ((List.range nofCtrlSymbols).flatMap (symbolRegs config)).foldlM (fun regs ptr =>
    match lteRegIndices ptr.idx (ptr.prb * nofReXOsymb) (lteRegNum ptr.symbol config) vo
        (regs ptr) with
    | none => .error .refused
    | some reg => .ok (Function.update regs ptr
        { reg with symbol := ptr.symbol, id := ptr.idx, assigned := 1 })) config.control.regs
  return { config with
    control := { config.control with totalNregs := totalNregs, regs := regs } }

/-- `lte_reg_get_k`; `none` for `NULL`. There are at most four control symbols, so symbol 4, which
the test lets pass, is not asked for. -/
def lteRegGetK (k l : ℕ) (regs : RegTable) : Option RegPtr :=
  if maxCtrlSymb < l then none
  else ((List.range maxRegsXPrb).map fun i => ⟨k / nofReXOsymb, l, i⟩).find? fun ptr =>
    (regs ptr).k0 ≤ k ∧ k < (regs ptr).k3

/-- `reg->assigned = 2`. -/
def assign (regs : RegTable) (ptr : RegPtr) : RegTable :=
  fun q => if q = ptr then { regs q with assigned := 2 } else regs q

def lteRegPutSfPos (k : ℤ) (l : ℕ) (config : LteGridConfig) : ℤ :=
  l * config.fftSize + config.preGuard + k

section

variable {α : Type}

def lteRegPut [Zero α] (input : ℤ → α) (ip : ℤ) (output : ℤ → α) (reg : LteReg)
    (config : LteGridConfig) : ℤ → α :=
  let output := (List.range nofReXReg).foldl (fun output i =>
    Function.update output (lteRegPutSfPos (reg.k.getD i 0) reg.symbol config)
      (input (ip + i))) output
  (List.range 2).foldl (fun output i =>
    if 0 ≤ reg.kRef.getD i (-1) then
      Function.update output (lteRegPutSfPos (reg.kRef.getD i (-1)) reg.symbol config) 0
    else output) output

def lteRegGet (input : ℤ → α) (output : ℤ → α) (op : ℤ) (reg : LteReg) (config : LteGridConfig) :
    ℤ → α :=
  (List.range nofReXReg).foldl (fun output (i : ℕ) => Function.update output (op + i)
      (input (lteRegPutSfPos (reg.k.getD i 0) reg.symbol config))) output

end

/-! ## PCFICH -/

def lteGridInitRegPcfich (config : LteGridConfig) : Except Exit LteGridConfig :=
  let modulo := config.nofPrb * nofReXOsymb
  let kh := nofReXOsymb / 2 * (config.cellId % (2 * config.nofPrb))
  (List.range config.control.pcfichNregs).foldlM (fun config i =>
    let k := (kh + i * config.nofPrb / 2 * (nofReXOsymb / 2)) % modulo
    match lteRegGetK k 0 config.control.regs with
    | none => .error .refused
    | some reg =>
      if (config.control.regs reg).assigned ≠ 1 then .error .refused
      else .ok { config with
        control := { config.control with
          pcfich := update config.control.pcfich i (some reg)
          regs := assign config.control.regs reg } }) config

def ltePcfichInit (config : LteGridConfig) : Except Exit (LtePhchConfig × LteGridConfig) := do
  let config ← lteGridInitRegPcfich { config with
    control := { config.control with pcfichNregs := pcfichReg } }
  return ({ symbolMask := fun _ => 0x1
            nofReXSf := fun _ => config.control.pcfichNregs * nofReXReg }, config)

/-! ## PHICH -/

def lteGridInitRegPhichCountfree (symbolId : ℕ) (config : LteGridConfig) : ℕ :=
  ((List.range config.nofPrb).flatMap fun p =>
    (List.range maxRegsXPrb).map fun r => RegPtr.mk p symbolId r).foldl
    (fun n ptr => if (config.control.regs ptr).assigned = 1 then n + 1 else n) 0

/-- The loop of `lte_grid_init_reg_phich_ni` over the REGs that are left. -/
def phichNiLoop (regs : RegTable) (ni : ℕ) : List RegPtr → ℕ → Option RegPtr
  | [], _ => none
  | ptr :: ptrs, nip =>
    if (regs ptr).assigned = 1 then
      if ni = nip then some ptr else phichNiLoop regs ni ptrs (nip + 1)
    else phichNiLoop regs ni ptrs nip

def lteGridInitRegPhichNi (symbolId ni : ℕ) (config : LteGridConfig) : Option RegPtr :=
  phichNiLoop config.control.regs ni (symbolRegs config symbolId) 0

/-- The REG that `lte_grid_init_reg_phich` takes for part `i` of group `mi`. -/
def phichReg (config : LteGridConfig) (mi i : ℕ) : Option RegPtr :=
  let n := fun l => lteGridInitRegPhichCountfree l config
  let li := if 1 < config.phichDuration then i else 0
  let ni := (config.cellId * n li / n 0 + mi + i * n li / 3) % n li
  lteGridInitRegPhichNi li ni config

/-- One turn of the loops of `lte_grid_init_reg_phich`, on the table `phich` and the number `nreg`
of its entries. -/
def phichTurn (config : LteGridConfig) (s : (ℕ → Option RegPtr) × ℕ) (part : ℕ × ℕ) :
    Except Exit ((ℕ → Option RegPtr) × ℕ) :=
  if phichRegMax ≤ s.2 then .error .phichTable
  else match phichReg config part.1 part.2 with
    | none => .error .refused
    | some reg => .ok (update s.1 s.2 (some reg), s.2 + 1)

/-- `lte_grid_init_reg_phich`. The REGs are marked after the last one has been found. -/
def lteGridInitRegPhich (config : LteGridConfig) : Except Exit LteGridConfig := do
  let parts := (List.range config.phichNgroups).flatMap fun mi =>
    (List.range 3).map fun i => (mi, i)
  let s ← parts.foldlM (phichTurn config) (config.control.phich, 0)
  let regs := (List.range s.2).foldl (fun regs i => (s.1 i).elim regs (assign regs))
    config.control.regs
  return { config with control := { config.control with phich := s.1, regs := regs } }

/-- `lte_phich_init_params`. The number of groups is computed in `float`, where it is exact. -/
def ltePhichInitParams (config : LteGridConfig) : LteGridConfig :=
  { config with
    phichDuration := 1
    phichNgroups := if config.nofControlSymbols ≠ 0 then (config.nofPrb - 1) / 8 + 1 else 0 }

def ltePhichInit (config : LteGridConfig) : Except Exit (LtePhchConfig × LteGridConfig) := do
  let config := ltePhichInitParams config
  let config ← lteGridInitRegPhich { config with
    control := { config.control with phichNregs := config.phichNgroups * 3 } }
  return ({ symbolMask := fun _ =>
              if config.phichDuration = 1 then 0x1
              else if config.phichDuration = 3 then 0x3 else 0
            nofReXSf := fun _ => config.control.phichNregs * nofReXReg }, config)

/-! ## PDCCH -/

/-- The inner loop of `lte_grid_init_reg_pdcch`: the next REG that is available, from subcarrier
`k` of symbol `l` on, and where it was found; `none` where the function returns -1. -/
def nextReg (config : LteGridConfig) (regs : RegTable) :
    ℕ → ℕ → ℕ → Except Exit (Option (RegPtr × ℕ × ℕ))
  | 0, _, _ => .error .endless
  | fuel + 1, k, l =>
    match lteRegGetK k l regs with
    | none => .ok none
    | some reg =>
      if (regs reg).assigned ≠ 1 then
        if l + 1 = config.nofControlSymbols then
          if k + 1 = config.nofPrb * nofReXOsymb then .ok none
          else nextReg config regs fuel (k + 1) 0
        else nextReg config regs fuel k (l + 1)
      else .ok (some (reg, k, l))

/-- What `lte_grid_init_reg_pdcch` has in its hands: the table of REGs, the REGs of the channel
and the subcarrier and symbol of the search. -/
structure PdcchLoop where
  regs : RegTable
  cce : ℕ → ℕ → Option RegPtr
  k : ℕ
  l : ℕ

/-- One turn of the loops of `lte_grid_init_reg_pdcch`, for REG `j` of CCE `i`. The search meets
each subcarrier of each symbol at most once, and `NULL` behind symbol `MAX_CTRL_SYMB`. -/
def pdcchTurn (config : LteGridConfig) (s : PdcchLoop) (i j : ℕ) : Except Exit PdcchLoop := do
  match ← nextReg config s.regs (config.nofPrb * nofReXOsymb * (maxCtrlSymb + 1) + 1) s.k s.l with
  | none => .error .refused
  | some (reg, k, l) =>
    if maxCce ≤ i then .error .cceTable
    else .ok ⟨assign s.regs reg, update s.cce i (update (s.cce i) j (some reg)), k, l⟩

/-- The REGs of a PDCCH with `nofCce` CCEs, in the order they are taken. -/
def cceSlots (nofCce : ℕ) : List (ℕ × ℕ) :=
  (List.range nofCce).flatMap fun i => (List.range nofRegsXCce).map fun j => (i, j)

def lteGridInitRegPdcch (ch : LtePdcch) (config : LteGridConfig) :
    Except Exit (LtePdcch × RegTable) := do
  let nofRegs := nofRegsXCce * ch.nofCce
  let nofRe := nofReXReg * nofRegs
  let s ← (cceSlots ch.nofCce.toNat).foldlM (fun s slot => pdcchTurn config s slot.1 slot.2)
    ⟨config.control.regs, ch.cce, 0, 0⟩
  return ({ ch with nofRegs := nofRegs, nofRe := nofRe, nofBits := nofRe * 2, cce :=
    s.cce }, s.regs)

def ltePdcchInit (config : LteGridConfig) : Except Exit (LtePhchConfig × LteGridConfig) := do
  if maxPdcch < config.nofPdcch then .error .refused
  else if config.nofPdcch = 0 then
    return ({ symbolMask := fun _ => 0, nofReXSf := fun _ => 0 }, config)
  else
    let nregs : ℤ := config.control.totalNregs - config.control.pcfichNregs -
      config.control.phichNregs
    let config := { config with control := { config.control with pdcchNregs := nregs } }
    let config ← (List.range config.nofPdcch).foldlM (fun config i => do
      let (ch, regs) ← lteGridInitRegPdcch (config.pdcch i) config
      return { config with
        pdcch := update config.pdcch i ch
        control := { config.control with regs := regs } }) config
    return ({ symbolMask := fun _ =>
                (List.range config.nofControlSymbols).foldl (fun mask _ => mask <<< 1 ||| 0x1) 0
              nofReXSf := fun _ => nregs * nofReXReg }, config)

/-! ## Symbols of the control channels -/

section

variable {α : Type}

def regOf (config : LteGridConfig) (ptr : Option RegPtr) : Except Exit LteReg :=
  match ptr with
  | none => .error .nullReg
  | some ptr => .ok (config.control.regs ptr)

/-- The loop of `lte_pcfich_put` and `lte_phich_put` over `nregs` REGs. -/
def putRegs [Zero α] (nregs : ℕ) (ptrs : ℕ → Option RegPtr) (input : ℤ → α) (output : ℤ → α)
    (config : LteGridConfig) : Except Exit (ℤ × (ℤ → α)) := do
  let output ← (List.range nregs).foldlM (fun output (i : ℕ) => do
    let reg ← regOf config (ptrs i)
    return lteRegPut input (4 * i) output reg config) output
  return (nregs * nofReXReg, output)

/-- The loop of `lte_pcfich_get` and `lte_phich_get` over `nregs` REGs. -/
def getRegs (nregs : ℕ) (ptrs : ℕ → Option RegPtr) (input : ℤ → α) (output : ℤ → α)
    (config : LteGridConfig) : Except Exit (ℤ × (ℤ → α)) := do
  let output ← (List.range nregs).foldlM (fun output (i : ℕ) => do
    let reg ← regOf config (ptrs i)
    return lteRegGet input output (4 * i) reg config) output
  return (nregs * nofReXReg, output)

def ltePcfichPut [Zero α] (pcfich : ℤ → α) (output : ℤ → α) (config : LteGridConfig) :
    Except Exit (ℤ × (ℤ → α)) :=
  putRegs config.control.pcfichNregs config.control.pcfich pcfich output config

def ltePcfichGet (input : ℤ → α) (pcfich : ℤ → α) (config : LteGridConfig) :
    Except Exit (ℤ × (ℤ → α)) :=
  getRegs config.control.pcfichNregs config.control.pcfich input pcfich config

def ltePhichPut [Zero α] (phich : ℤ → α) (output : ℤ → α) (config : LteGridConfig) :
    Except Exit (ℤ × (ℤ → α)) :=
  putRegs config.control.phichNregs config.control.phich phich output config

def ltePhichGet (input : ℤ → α) (phich : ℤ → α) (config : LteGridConfig) :
    Except Exit (ℤ × (ℤ → α)) :=
  getRegs config.control.phichNregs config.control.phich input phich config

def ltePdcchPut [Zero α] (pdcch : ℤ → α) (output : ℤ → α) (channelIdx : ℕ)
    (config : LteGridConfig) : Except Exit (ℤ × (ℤ → α)) := do
  if config.nofPdcch < channelIdx then return (-1, output)
  else
    let ch := config.pdcch channelIdx
    let output ← (cceSlots ch.nofCce.toNat).foldlM (fun output slot => do
      let reg ← regOf config (ch.cce slot.1 slot.2)
      return lteRegPut pdcch (slot.1 * nofRegsXCce + 4 * slot.2 : ℕ) output reg config) output
    return (ch.nofBits, output)

def ltePdcchGet (input : ℤ → α) (pdcch : ℤ → α) (channelIdx : ℕ) (config : LteGridConfig) :
    Except Exit (ℤ × (ℤ → α)) := do
  if config.nofPdcch < channelIdx then return (-1, pdcch)
  else
    let ch := config.pdcch channelIdx
    let pdcch ← (cceSlots ch.nofCce.toNat).foldlM (fun pdcch slot => do
      let reg ← regOf config (ch.cce slot.1 slot.2)
      return lteRegGet input pdcch (slot.1 * nofRegsXCce + 4 * slot.2 : ℕ) reg config) pdcch
    return (ch.nofRe, pdcch)

end

/-! ## Around the reference signals -/

section

variable {α : Type}

def memcpy (output : ℤ → α) (wp : ℤ) (input : ℤ → α) (rp : ℤ) (n : ℕ) : ℤ → α :=
  (List.range n).foldl (fun output (i : ℕ) => update output (wp + i) (input (rp + i))) output

def lteChPutRefOne [Zero α] (input : ℤ → α) (ip : ℤ) (output : ℤ → α) (op : ℤ) (dataLen : ℕ) :
    ℤ → α :=
  memcpy (update output op 0) (op + 1) input ip dataLen

def lteChPutRef [Zero α] (input : ℤ → α) (ip : ℤ) (output : ℤ → α) (op : ℤ)
    (nofPrb offset refInterval : ℕ) : ℤ → α :=
  let output := memcpy output op input ip offset
  let n := nofReXOsymb / refInterval * nofPrb - 1
  let s := (List.range n).foldl (fun (s : (ℤ → α) × ℕ) i =>
    (lteChPutRefOne input (ip + s.2) s.1 (op + ↑(refInterval * i + offset)) (refInterval - 1),
      s.2 + (refInterval - 1))) (output, offset)
  if 0 < refInterval - offset - 1 then
    lteChPutRefOne input (ip + s.2) s.1 (op + ↑(refInterval * n + offset))
      (refInterval - offset - 1)
  else s.1

def lteChCpNoref (input : ℤ → α) (ip : ℤ) (output : ℤ → α) (op : ℤ) (nofPrb : ℕ) : ℤ → α :=
  (List.range nofPrb).foldl (fun output (i : ℕ) =>
    memcpy output (op + ↑(i * nofReXOsymb)) input (ip + ↑(i * nofReXOsymb)) nofReXOsymb) output

def lteChGetRefOne (input : ℤ → α) (ip : ℤ) (output : ℤ → α) (op : ℤ) (dataLen : ℕ) : ℤ → α :=
  memcpy output op input (ip + 1) dataLen

def lteChGetRef (input : ℤ → α) (ip : ℤ) (output : ℤ → α) (op : ℤ)
    (nofPrb offset refInterval : ℕ) : ℤ → α :=
  let output := memcpy output op input ip offset
  let n := nofReXOsymb / refInterval * nofPrb - 1
  let s := (List.range n).foldl (fun (s : (ℤ → α) × ℕ) i =>
    (lteChGetRefOne input (ip + ↑(refInterval * i + offset)) s.1 (op + s.2) (refInterval - 1),
      s.2 + (refInterval - 1))) (output, offset)
  if 0 < refInterval - offset - 1 then
    lteChGetRefOne input (ip + ↑(refInterval * n + offset)) s.1 (op + s.2)
      (refInterval - offset - 1)
  else s.1

end

/-! ## PDSCH -/

def pdschRefPrb : List (ℕ × ℕ) := [(4, 6), (8, 12), (4, 8), (4, 16)]

def pdschUsedSymbols : List ℕ := [6, 0, 0, 0, 0, 2, 0, 0, 0, 0]

def ltePdschReXPrb (subframeIdx : ℕ) (config : LteGridConfig) : ℤ :=
  let row := fun i : ℕ =>
    let refs := pdschRefPrb.getD i (0, 0)
    (nofReXOsymb * ((config.nofOsymbXSubf : ℤ) - config.nofControlSymbols -
      pdschUsedSymbols.getD subframeIdx 0) - if subframeIdx = 0 then refs.1 else refs.2 : ℤ)
  if config.nofPorts = 1 then row 0
  else if config.nofPorts = 2 then row 1
  else if config.nofPorts = 4 then row 2
  else -1

/-- The symbols that `lte_pdsch_init_sf` gives to the PDSCH in subframe `i`. -/
def pdschSymbolMask (i : ℕ) (config : LteGridConfig) : BitVec 16 :=
  let half := config.nofOsymbXSubf / 2
  -- transmit all symbols
  let mask := (1#16 <<< (config.nofOsymbXSubf + 1)) - 1#16
  -- except control symbols
  let mask := (List.range config.nofControlSymbols).foldl (fun mask j => mask ^^^ (1#16 <<< j)) mask
  if config.nofPrb = 6 then
    -- switch off in pbch
    let mask := if i = 0 then
        (List.range 4).foldl (fun mask j => mask ^^^ (1#16 <<< (half + j))) mask
      else mask
    -- and pss/sss
    if i = 0 ∨ i = 5 then mask ^^^ (1#16 <<< (half - 1)) ^^^ (1#16 <<< (half - 2)) else mask
  else mask

/-- `lte_pdsch_init_sf` for all subframes; that it returns -1 is not looked at. -/
def ltePdschInitSfs (config : LteGridConfig) : LtePhchConfig where
  symbolMask i := pdschSymbolMask i config
  nofReXSf i := config.nofPrb * ltePdschReXPrb i config

/-- One turn of the loops of `lte_pdsch_setup_rbgmask`, for PRB `j` of group `i`. -/
def rbgTurn (config : LteGridConfig) (ch : LtePdsch) (place : ℕ × ℕ) : Except Exit LtePdsch :=
  if maxRbg ≤ ch.nofRbg then .error .rbgTable
  else .ok { ch with
    rbg := update ch.rbg ch.nofRbg (update (ch.rbg ch.nofRbg) place.2
      (rbgSz config.nofPrb * place.1 + place.2))
    nofRbg := ch.nofRbg + 1 }

def maskGroups (config : LteGridConfig) (rbgMask : CInt) : List ℕ :=
  (List.range (config.nofPrb / rbgSz config.nofPrb)).filter fun i => rbgMask.getLsbD i

def ltePdschSetupRbgmask (ch : LtePdsch) (config : LteGridConfig) : Except Exit LtePdsch := do
  let places := (maskGroups config ch.rbgMask).flatMap fun i =>
    (List.range (rbgSz config.nofPrb)).map fun j => (i, j)
  let ch ← places.foldlM (rbgTurn config) { ch with nofRbg := 0 }
  let nofRb := rbgSz config.nofPrb * ch.nofRbg
  return { ch with
    nofRb := nofRb
    nofRe := fun i => nofRb * ((config.phch .pdsch).nofReXSf i).tdiv config.nofPrb }

def ltePdschInit (config : LteGridConfig) : Except Exit LteGridConfig :=
  if maxPdsch < config.nofPdsch then .error .refused
  else if config.nofPdsch = 0 then .ok config
  else
    let config := { config with
      phch := update config.phch .pdsch (ltePdschInitSfs config) }
    (List.range config.nofPdsch).foldlM (fun config i => do
      let ch ← ltePdschSetupRbgmask (config.pdsch i) config
      return { config with pdsch := update config.pdsch i ch }) config

def ltePdschGetRe (channelIdx subframeId : ℕ) (config : LteGridConfig) : ℤ :=
  if config.nofPdsch < channelIdx then -1
  else if nofSubframesXFrame < subframeId then -1
  else (config.pdsch channelIdx).nofRe subframeId

/-- The PRBs that `lte_pdsch_put` and `lte_pdsch_get` go through. -/
def visitedPrbs (ch : LtePdsch) (config : LteGridConfig) : List ℕ :=
  (List.range ch.nofRbg).flatMap fun i => (List.range (rbgSz config.nofPrb)).map fun j => ch.rbg i j

abbrev LteGridConfig.prbs (config : LteGridConfig) (channelIdx : ℕ) : List ℕ :=
  visitedPrbs (config.pdsch channelIdx) config

section

variable {α : Type}

/-- What `lte_pdsch_put` does in a PRB, with `rp` and the output so far in `s`. -/
def pdschPutPrb [Zero α] (pdsch : ℤ → α) (ip op : ℤ) (location : LteSymbol)
    (config : LteGridConfig) (s : ℤ × (ℤ → α)) (prb : ℕ) : ℤ × (ℤ → α) :=
  let nofRefXRb := lteSymbolHasRefsigOrResv location config
  let wp : ℕ := nofReXOsymb * prb
  if nofRefXRb ≠ 0 then
    (s.1 + (nofReXOsymb - nofRefXRb * config.nofPorts), lteChPutRef pdsch (ip + s.1) s.2 (op + wp) 1
        (lteRefsigOrResvVoffset location.symbolId config) (nofReXOsymb / nofRefXRb))
  else (s.1 + nofReXOsymb, lteChCpNoref pdsch (ip + s.1) s.2 (op + wp) 1)

/-- `lte_pdsch_put`, of the symbols from `pdsch[ip]` on, to the subcarriers from `output[op]` on. -/
def ltePdschPut [Zero α] (pdsch : ℤ → α) (ip : ℤ) (output : ℤ → α) (op : ℤ) (channelIdx : ℕ)
    (location : LteSymbol) (config : LteGridConfig) : ℤ × (ℤ → α) :=
  if !lteSymbolHasCh location (config.phch .pdsch) then (0, output)
  else (visitedPrbs (config.pdsch channelIdx) config).foldl
    (pdschPutPrb pdsch ip op location config) (0, output)

/-- What `lte_pdsch_get` does in a PRB, with `wp` and the symbols so far in `s`. -/
def pdschGetPrb (input : ℤ → α) (ip op : ℤ) (location : LteSymbol) (config : LteGridConfig)
    (s : ℤ × (ℤ → α)) (prb : ℕ) : ℤ × (ℤ → α) :=
  let nofRefXRb := lteSymbolHasRefsigOrResv location config
  let rp : ℕ := nofReXOsymb * prb
  if nofRefXRb ≠ 0 then
    (s.1 + (nofReXOsymb - nofRefXRb * config.nofPorts), lteChGetRef input (ip + rp) s.2 (op + s.1) 1
        (lteRefsigOrResvVoffset location.symbolId config) (nofReXOsymb / nofRefXRb))
  else (s.1 + nofReXOsymb, lteChCpNoref input (ip + rp) s.2 (op + s.1) 1)

/-- `lte_pdsch_get`, from the subcarriers from `input[ip]` on, to the symbols from `pdsch[op]` on.
-/
def ltePdschGet (input : ℤ → α) (ip : ℤ) (pdsch : ℤ → α) (op : ℤ) (channelIdx : ℕ)
    (location : LteSymbol) (config : LteGridConfig) : ℤ × (ℤ → α) :=
  if !lteSymbolHasCh location (config.phch .pdsch) then (0, pdsch)
  else (visitedPrbs (config.pdsch channelIdx) config).foldl
    (pdschGetPrb input ip op location config) (0, pdsch)

end

/-! ## PBCH -/

/-- `lte_pbch_init`, with `PBCH_RE`. -/
def ltePbchInit (config : LteGridConfig) : LtePhchConfig where
  symbolMask i := if i = 0 then 0xF#16 <<< (config.nofOsymbXSubf / 2) else 0
  nofReXSf i := if i = 0 then 4 * 6 * nofReXOsymb - 8 * 6 else 0

section

variable {α : Type}

/-- `lte_pbch_put`, of the symbols from `pbch[ip]` on, to the subcarriers from `output[op]` on. -/
def ltePbchPut [Zero α] (pbch : ℤ → α) (ip : ℤ) (output : ℤ → α) (op : ℤ) (location : LteSymbol)
    (config : LteGridConfig) : ℤ × (ℤ → α) :=
  if !lteSymbolHasCh location (config.phch .pbch) then (0, output)
  else
    let k : ℕ := config.nofPrb * nofReXOsymb / 2 - 36
    let nofRefXRb := lteSymbolHasRefsigOrResv location config
    if nofRefXRb ≠ 0 then
      (6 * nofReXOsymb - nofRefXRb * 6, lteChPutRef pbch ip output (op + k) 6
        (lteRefsigOrResvVoffset location.symbolId config) (nofReXOsymb / nofRefXRb))
    else (6 * nofReXOsymb, lteChCpNoref pbch ip output (op + k) 6)

/-- `lte_pbch_get`, from the subcarriers from `input[ip]` on, to the symbols from `pbch[op]` on. -/
def ltePbchGet (input : ℤ → α) (ip : ℤ) (pbch : ℤ → α) (op : ℤ) (location : LteSymbol)
    (config : LteGridConfig) : ℤ × (ℤ → α) :=
  if !lteSymbolHasCh location (config.phch .pbch) then (0, pbch)
  else
    let k : ℕ := config.nofPrb * nofReXOsymb / 2 - 36
    let nofRefXRb := lteSymbolHasRefsigOrResv location config
    if nofRefXRb ≠ 0 then
      (6 * nofReXOsymb - nofRefXRb * 6, lteChGetRef input (ip + k) pbch op 6
        (lteRefsigOrResvVoffset location.symbolId config) (nofReXOsymb / nofRefXRb))
    else (6 * nofReXOsymb, lteChCpNoref input (ip + k) pbch op 6)

end

/-! ## PSS and SSS -/

/-- What `lte_pss_init` and `lte_sss_init` set: one symbol of subframes 0 and 5. -/
def syncInit (symbolId : ℕ) : LtePhchConfig where
  symbolMask i := if i = 0 ∨ i = 5 then 1#16 <<< symbolId else 0
  nofReXSf i := if i = 0 ∨ i = 5 then 6 * nofReXOsymb else 0

def ltePssInit (config : LteGridConfig) : LtePhchConfig := syncInit (config.nofOsymbXSubf / 2 - 1)

def lteSssInit (config : LteGridConfig) : LtePhchConfig := syncInit (config.nofOsymbXSubf / 2 - 2)

end Aloe.Modrep.Grid
