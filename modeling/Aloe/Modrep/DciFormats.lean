import Aloe.Lib.Stream
import Aloe.Modrep.Pack

/-!
# Downlink control information, format 1

Model of `lte_dci_pack/src/dci_formats.c`. The packet is as long as it is: a bit that is read or
written behind its end, and an entry of the allocation mask behind the end of its array, is a
fault. Lengths and values of the descriptor are `int`s.

A descriptor is a list of fields (`fields`). `dci_format1_pack` writes them one after the other,
`dci_format1_unpack` reads them back, and stops before it reads a bit that is not there, as long as
the length it is told is no negative number.
-/

namespace Aloe.Modrep.DciFormats

open Lib

def maxRbgSet : ℕ := 25

inductive RaType where
  | na | type0 | type1
deriving DecidableEq, Repr

structure DciFormat1 where
  carrierIndicator : Char8
  carrierIndicatorLen : CInt
  raType : RaType
  rbgMask : Vector CInt maxRbgSet
  nofRbg : CInt
  mcs : CInt
  harqPnum : CInt
  harqPnumLen : CInt
  newData : CInt
  redundancyVersion : CInt
  tpcCommand : CInt
deriving DecidableEq, Repr

def ambiguousSizes : List ℕ := [12, 14, 16, 20, 24, 26, 32, 40, 44, 56]

variable {σ : Type}

def checkAmbiguousSize (nofBits : ℕ) : BitProg σ ℕ :=
  if nofBits ∈ ambiguousSizes then do
    pack 0 1
    return nofBits + 1
  else return nofBits

/-- `if (test) return -1`. -/
def returnIf (test : Prop) [Decidable test] : BitProg σ Unit :=
  if test then throw (.ret (-1)) else return ()

/-- `if (test) …`. -/
def onlyIf (test : Prop) [Decidable test] (p : BitProg σ Unit) : BitProg σ Unit :=
  if test then p else return ()

def checkLengths (data : DciFormat1) : BitProg σ Unit := do
  returnIf (data.carrierIndicatorLen.toInt < 0 ∨ 3 < data.carrierIndicatorLen.toInt)
  returnIf (data.harqPnumLen ≠ 3 ∧ data.harqPnumLen ≠ 4)

def maskEntry (data : DciFormat1) (i : ℕ) : BitProg σ CInt :=
  if h : i < maxRbgSet then return data.rbgMask.get ⟨i, h⟩ else throw .fault

def DciFormat1.rounds (data : DciFormat1) : ℕ := data.nofRbg.toInt.toNat

def dciFormat1Pack (data : DciFormat1) : BitProg σ ℕ := do
  checkLengths data
  onlyIf (data.carrierIndicatorLen ≠ 0) <|
    pack (data.carrierIndicator.signExtend 32) data.carrierIndicatorLen.toNat
  onlyIf (data.raType = .type0) <| pack 0 1
  onlyIf (data.raType = .type1) <| pack 1 1
  returnIf (data.raType ≠ .na ∧ data.raType ≠ .type0)
  (List.range data.rounds).forM fun i => do
    let bit ← maskEntry data i
    pack bit 1
  pack data.mcs 5
  pack data.harqPnum data.harqPnumLen.toNat
  pack data.newData 1
  pack data.redundancyVersion 2
  pack data.tpcCommand 2
  checkAmbiguousSize (← passed)

/-- `dci_packet_space`, where the pointer has passed `pos` bits: `abs` of an `int`. -/
def dciPacketSpace (pos : ℕ) (packetLen : CInt) : ℤ := (BitVec.ofNat 32 pos - packetLen).abs.toInt

/-- `if (dci_packet_space(packet,buffer,packet_len) < n) return -1`. -/
def needs (packetLen : CInt) (n : ℤ) : BitProg σ Unit := do
  returnIf (dciPacketSpace (← passed) packetLen < n)

def descriptor : BitProg DciFormat1 DciFormat1 := fun (b, data) => .ok data (b, data)

def unpackMaskEntry (i : ℕ) : BitProg DciFormat1 Unit :=
  if h : i < maxRbgSet then
    unpack 1 fun value data => { data with rbgMask := data.rbgMask.set i value h }
  else do
    unpack 1 fun _ data => data
    throw .fault

def unpackTail (packetLen : CInt) (data : DciFormat1) : BitProg DciFormat1 ℕ := do
  needs packetLen 5
  unpack 5 fun value data => { data with mcs := value }
  needs packetLen data.harqPnumLen.toInt
  unpack data.harqPnumLen.toNat fun value data => { data with harqPnum := value }
  needs packetLen 5
  unpack 1 fun value data => { data with newData := value }
  unpack 2 fun value data => { data with redundancyVersion := value }
  unpack 2 fun value data => { data with tpcCommand := value }
  checkAmbiguousSize (← passed)

/-- `dci_format1_unpack` behind the first checks; `data` is the descriptor it was given. -/
def unpackFields (packetLen : CInt) (data : DciFormat1) : BitProg DciFormat1 ℕ := do
  needs packetLen data.carrierIndicatorLen.toInt
  onlyIf (data.carrierIndicatorLen ≠ 0) <| unpack data.carrierIndicatorLen.toNat fun value data =>
    { data with carrierIndicator := value.setWidth 8 }
  needs packetLen 1
  onlyIf (data.raType ≠ .na) <| unpack 1 fun value data =>
    { data with raType := if value ≠ 0 then .type1 else .type0 }
  needs packetLen data.nofRbg.toInt
  let read ← descriptor
  returnIf (read.raType ≠ .na ∧ read.raType ≠ .type0)
  (List.range data.rounds).forM unpackMaskEntry
  unpackTail packetLen data

def dciFormat1Unpack (packetLen : CInt) : BitProg DciFormat1 ℕ := do
  let data ← descriptor
  checkLengths data
  unpackFields packetLen data

/-! ## The round trip -/

open BitVec Int DciFormat1

/-- A descriptor that `dci_format1_pack` accepts, with every field within its bits. -/
structure Accepted (data : DciFormat1) : Prop where
  carrierIndicatorLen : 0 ≤ data.carrierIndicatorLen.toInt ∧ data.carrierIndicatorLen.toInt ≤ 3
  harqPnumLen : data.harqPnumLen = 3 ∨ data.harqPnumLen = 4
  nofRbg : 0 ≤ data.nofRbg.toInt
  rbgMask : ∀ i, data.rbgMask.get i = 0 ∨ data.rbgMask.get i = 1
  raType : data.raType = .na ∨ data.raType = .type0
  carrierIndicator : data.carrierIndicator.toNat < 2 ^ data.carrierIndicatorLen.toNat
  mcs : data.mcs.toNat < 2 ^ 5
  harqPnum : data.harqPnum.toNat < 2 ^ data.harqPnumLen.toNat
  newData : data.newData.toNat < 2 ^ 1
  redundancyVersion : data.redundancyVersion.toNat < 2 ^ 2
  tpcCommand : data.tpcCommand.toNat < 2 ^ 2

structure SameConfiguration (data data' : DciFormat1) : Prop where
  carrierIndicatorLen : data'.carrierIndicatorLen = data.carrierIndicatorLen
  raType : data'.raType = data.raType
  nofRbg : data'.nofRbg = data.nofRbg
  harqPnumLen : data'.harqPnumLen = data.harqPnumLen

def DciFormat1.raBits (data : DciFormat1) : ℕ := if data.raType = .na then 0 else 1

def DciFormat1.maskAt (data : DciFormat1) (i : ℕ) : CInt :=
  if h : i < maxRbgSet then data.rbgMask.get ⟨i, h⟩ else 0

def maskFields (data : DciFormat1) (i n : ℕ) : List (CInt × ℕ) :=
  (List.range' i n).map fun j => (data.maskAt j, 1)

def tailFields (data : DciFormat1) : List (CInt × ℕ) :=
  [(data.mcs, 5), (data.harqPnum, data.harqPnumLen.toNat), (data.newData, 1),
    (data.redundancyVersion, 2), (data.tpcCommand, 2)]

def fields (data : DciFormat1) : List (CInt × ℕ) :=
  (data.carrierIndicator.signExtend 32, data.carrierIndicatorLen.toNat) :: (0, data.raBits) ::
    (maskFields data 0 data.rounds ++ tailFields data)

def informationBits (data : DciFormat1) : ℕ :=
  data.carrierIndicatorLen.toNat + data.raBits + data.rounds + 5 + data.harqPnumLen.toNat + 5

lemma DciFormat1.width_carrier (data : DciFormat1) :
    (if data.carrierIndicatorLen ≠ 0 then data.carrierIndicatorLen.toNat else 0) =
      data.carrierIndicatorLen.toNat := by
  split_ifs with hlen
  · rfl
  · rw [not_not.mp hlen]
    rfl

lemma DciFormat1.width_raType (data : DciFormat1) :
    (if data.raType ≠ .na then 1 else 0) = data.raBits := by
  rw [DciFormat1.raBits, ite_not]

lemma fieldBits_maskFields (data : DciFormat1) (i n : ℕ) : fieldBits (maskFields data i n) = n := by
  simp [fieldBits, maskFields, Function.comp_def]

lemma fieldBits_fields (data : DciFormat1) : fieldBits (fields data) = informationBits data := by
  simp only [fields, tailFields, informationBits, fieldBits_cons, fieldBits_append,
    fieldBits_maskFields, fieldBits_nil]
  omega

def packetBits (n : ℕ) : ℕ := if n ∈ ambiguousSizes then n + 1 else n

lemma le_packetBits (n : ℕ) : n ≤ packetBits n := by
  rw [packetBits]
  split <;> omega

section Programs

variable {σ : Type} {st : BitBuffer × σ} {test : Prop} [Decidable test] {p : BitProg σ Unit}
  {b : BitBuffer} {packetLen : CInt} {n : ℤ}

lemma returnIf_pos (h : test) : returnIf test st = .error (.ret (-1)) st := by
  rw [returnIf, if_pos h]
  rfl

lemma returnIf_neg (h : ¬ test) : returnIf test st = .ok () st := by
  rw [returnIf, if_neg h]
  rfl

lemma onlyIf_pos (h : test) : onlyIf test p = p := if_pos h

lemma onlyIf_neg (h : ¬ test) : onlyIf test p = pure () := if_neg h

variable {s : σ}

lemma needs_run :
    needs packetLen n (b, s) = returnIf (dciPacketSpace b.pos packetLen < n) (b, s) := rfl

lemma needs_short (h : dciPacketSpace b.pos packetLen < n) :
    needs packetLen n (b, s) = .error (.ret (-1)) (b, s) :=
  needs_run.trans (returnIf_pos h)

lemma needs_enough
    (h : ¬ dciPacketSpace b.pos packetLen < n) : needs packetLen n (b, s) = .ok () (b, s) :=
  needs_run.trans (returnIf_neg h)

lemma checkLengths_run {data : DciFormat1}
    (hcarrier : 0 ≤ data.carrierIndicatorLen.toInt ∧ data.carrierIndicatorLen.toInt ≤ 3)
    (hharq : data.harqPnumLen = 3 ∨ data.harqPnumLen = 4) : checkLengths data st = .ok () st := by
  rw [checkLengths, bind_of_ok (returnIf_neg (by omega)), returnIf_neg]
  rcases hharq with hlen | hlen <;> simp [hlen]

lemma pack_run (value : CInt) {n : ℕ} (hcap : b.pos + n ≤ b.cap) :
    ∃ cells, pack value n (b, s) = .ok () ({ b with cells := cells, pos := b.pos + n }, s) ∧
      Holds cells b.pos [(value, n)] ∧ ∀ j, j < b.pos → cells j = b.cells j := by
  obtain ⟨cells, hpack, hheld, hframe⟩ := packBits_spec value hcap
  exact ⟨cells, by rw [pack, hpack], hheld, hframe⟩

lemma checkAmbiguousSize_run (hcap : packetBits b.pos ≤ b.cap) :
    ∃ b', checkAmbiguousSize b.pos (b, s) = .ok (packetBits b.pos) (b', s) ∧
      ∀ j, j < b.pos → b'.cells j = b.cells j := by
  rw [checkAmbiguousSize, packetBits]
  rw [packetBits] at hcap
  split_ifs at hcap ⊢ with hmem
  · obtain ⟨cells, hpack, -, hframe⟩ := pack_run (s := s) 0 hcap
    exact ⟨_, by rw [bind_of_ok hpack]; rfl, hframe⟩
  · exact ⟨b, rfl, fun _ _ => rfl⟩

end Programs

/-! ## Packing -/

/-- A program that ends as `dci_format1_pack` does, and packs the fields before. -/
def Packs {σ : Type} (p : BitProg σ ℕ) (fs : List (CInt × ℕ)) : Prop :=
  ∀ b s, packetBits (b.pos + fieldBits fs) ≤ b.cap →
    ∃ b', p (b, s) = .ok (packetBits (b.pos + fieldBits fs)) (b', s) ∧ Holds b'.cells b.pos fs ∧
      ∀ j, j < b.pos → b'.cells j = b.cells j

namespace Packs

variable {σ : Type} {p : BitProg σ ℕ} {fs : List (CInt × ℕ)}

lemma done : Packs (σ := σ) (do checkAmbiguousSize (← passed)) [] := by
  intro b s hcap
  obtain ⟨b', hrun, hframe⟩ := checkAmbiguousSize_run (s := s) hcap
  exact ⟨b', hrun, trivial, hframe⟩

lemma field (value : CInt) (n : ℕ) (h : Packs p fs) :
    Packs (do pack value n; p) ((value, n) :: fs) := by
  intro b s hcap
  rw [fieldBits_cons, ← add_assoc] at hcap
  have hroom : b.pos + n ≤ b.cap := by
    have := (le_packetBits _).trans hcap
    omega
  obtain ⟨cells, hpack, hheld, hframe⟩ := pack_run (s := s) value hroom
  obtain ⟨b', hrun, hrest, hkept⟩ := h { b with cells := cells, pos := b.pos + n } s hcap
  refine ⟨b', ?_, ⟨?_, hrest⟩, fun j hj => ?_⟩
  · rw [bind_of_ok hpack, hrun, fieldBits_cons, ← add_assoc]
  · intro i hi
    rw [hkept _ (Nat.add_lt_add_left hi _)]
    exact hheld.1 i hi
  · exact (hkept j (Nat.lt_add_right n hj)).trans (hframe j hj)

lemma none (value : CInt) (h : Packs p fs) : Packs p ((value, 0) :: fs) := by
  intro b s hcap
  rw [fieldBits_cons, zero_add] at hcap ⊢
  obtain ⟨b', hrun, hheld, hframe⟩ := h b s hcap
  exact ⟨b', hrun, ⟨fun i hi => absurd hi (Nat.not_lt_zero i), hheld⟩, hframe⟩

lemma skip {q : BitProg σ Unit} (hq : ∀ st, q st = .ok () st) (h : Packs p fs) :
    Packs (do q; p) fs := by
  intro b s hcap
  rw [bind_of_ok (hq (b, s))]
  exact h b s hcap

lemma onlyIf {test : Prop} [Decidable test] {value : CInt} {n m : ℕ}
    (hm : (if test then n else 0) = m) (h : Packs p fs) :
    Packs (do onlyIf test (pack value n); p) ((value, m) :: fs) := by
  subst hm
  by_cases htest : test
  · rw [onlyIf_pos htest, if_pos htest]
    exact h.field value n
  · rw [onlyIf_neg htest, pure_bind, if_neg htest]
    exact h.none value

lemma mask {data : DciFormat1} {i n : ℕ} (hn : i + n ≤ maxRbgSet) (h : Packs p fs) :
    Packs (do (List.range' i n).forM fun i => do { let bit ← maskEntry data i; pack bit 1 }; p)
      (maskFields data i n ++ fs) := by
  induction n generalizing i with
  | zero => exact h
  | succ n ih =>
    have hentry : maskEntry (σ := σ) data i = pure (data.maskAt i) := by
      rw [maskEntry, maskAt, dif_pos (by omega), dif_pos (by omega)]
    rw [List.range'_succ, List.forM_eq_forM, List.forM_cons, bind_assoc, hentry, pure_bind,
      maskFields, List.range'_succ, List.map_cons, List.cons_append]
    exact (ih (by omega)).field _ _

end Packs

variable {data data' : DciFormat1} {packetLen : CInt} {n : ℕ}

/-- **Packing.** `dci_format1_pack` writes the fields of a descriptor whose mask fits its array. -/
theorem dciFormat1Pack_packs {σ : Type} (h : Accepted data)
    (hmask : data.rounds ≤ maxRbgSet) : Packs (σ := σ) (dciFormat1Pack data) (fields data) := by
  have htail : Packs (σ := σ) (do
      pack data.mcs 5
      pack data.harqPnum data.harqPnumLen.toNat
      pack data.newData 1
      pack data.redundancyVersion 2
      pack data.tpcCommand 2
      checkAmbiguousSize (← passed)) (tailFields data) :=
    ((((Packs.done.field _ _).field _ _).field _ _).field _ _).field _ _
  have hloop : Packs (σ := σ) _ (maskFields data 0 data.rounds ++ tailFields data) :=
    htail.mask (by omega)
  rw [← List.range_eq_range'] at hloop
  have hreturn : ¬(data.raType ≠ .na ∧ data.raType ≠ .type0) := by
    rcases h.raType with htype | htype <;> simp [htype]
  have htype : (if data.raType = .type0 then 1 else 0) = data.raBits := by
    rcases h.raType with htype | htype <;> simp [htype, raBits]
  have hnot : data.raType ≠ .type1 := by
    rcases h.raType with htype | htype <;> simp [htype]
  refine .skip (fun _ => checkLengths_run h.carrierIndicatorLen h.harqPnumLen)
    (.onlyIf data.width_carrier (.onlyIf htype ?_))
  refine .skip (fun _ => congrFun (onlyIf_neg hnot) _) ?_
  exact .skip (fun _ => returnIf_neg hreturn) hloop

/-! ## Unpacking -/

lemma dciPacketSpace_of_le {pos : ℕ} (h : (pos : ℤ) ≤ packetLen.toInt) :
    dciPacketSpace pos packetLen = packetLen.toInt - pos := by
  have hlt := toInt_lt (x := packetLen)
  have hpos : (BitVec.ofNat 32 pos).toInt = pos := by
    rw [toInt_ofNat', bmod_eq_of_le] <;> omega
  have hsub : (BitVec.ofNat 32 pos - packetLen).toInt = pos - packetLen.toInt := by
    rw [toInt_sub, hpos, bmod_eq_of_le] <;> omega
  rw [dciPacketSpace, abs_eq, msb_eq_toInt, hsub]
  by_cases hneg : (pos : ℤ) - packetLen.toInt < 0
  · rw [decide_eq_true hneg, if_pos rfl, toInt_neg, hsub, bmod_eq_of_le] <;> omega
  · rw [decide_eq_false hneg, if_neg Bool.false_ne_true, hsub]
    omega

/-- A program that ends as `dci_format1_unpack` does, and reads the fields before; `data` becomes
`data'`. -/
def Unpacks (packetLen : CInt) (p : BitProg DciFormat1 ℕ) (fs : List (CInt × ℕ))
    (data data' : DciFormat1) : Prop :=
  ∀ b, Holds b.cells b.pos fs → packetBits (b.pos + fieldBits fs) ≤ b.cap →
    ((b.pos + fieldBits fs : ℕ) : ℤ) ≤ packetLen.toInt →
    ∃ b', p (b, data) = .ok (packetBits (b.pos + fieldBits fs)) (b', data')

namespace Unpacks

variable {packetLen : CInt} {p : BitProg DciFormat1 ℕ} {fs : List (CInt × ℕ)}
  {data data' : DciFormat1} {store : CInt → DciFormat1 → DciFormat1}

lemma done : Unpacks packetLen (do checkAmbiguousSize (← passed)) [] data data := by
  intro b _ hcap _
  obtain ⟨b', hrun, -⟩ := checkAmbiguousSize_run (s := data) hcap
  exact ⟨b', hrun⟩

variable {value : CInt}

lemma field {n : ℕ} (hvalue : value.toNat < 2 ^ n)
    (h : Unpacks packetLen p fs (store value data) data') :
    Unpacks packetLen (do unpack n store; p) ((value, n) :: fs) data data' := by
  intro b hheld hcap hlen
  rw [fieldBits_cons, ← add_assoc] at hcap hlen ⊢
  have hroom : b.pos + n ≤ b.cap := by
    have := (le_packetBits _).trans hcap
    omega
  have hread : unpack n store (b, data) = .ok () ({ b with pos := b.pos + n },
    store value data) := by
    rw [unpack, unpackBits_of_holds ⟨hheld.1, trivial⟩ hvalue hroom]
  rw [bind_of_ok hread]
  exact h { b with pos := b.pos + n } hheld.2 hcap hlen

lemma skip {q : BitProg DciFormat1 Unit} (hq : ∀ st, q st = .ok () st)
    (h : Unpacks packetLen p fs data data') : Unpacks packetLen (do q; p) fs data data' := by
  intro b hheld hcap hlen
  rw [bind_of_ok (hq (b, data))]
  exact h b hheld hcap hlen

lemma needs {n : ℤ} (hn : n ≤ fieldBits fs) (h : Unpacks packetLen p fs data data') :
    Unpacks packetLen (do needs packetLen n; p) fs data data' := by
  intro b hheld hcap hlen
  have hspace : ¬ dciPacketSpace b.pos packetLen < n := by
    rw [dciPacketSpace_of_le (by omega)]
    omega
  rw [bind_of_ok (needs_enough hspace)]
  exact h b hheld hcap hlen

lemma descriptor {q : DciFormat1 → BitProg DciFormat1 ℕ}
    (h : Unpacks packetLen (q data) fs data data') :
    Unpacks packetLen (do let data ← descriptor; q data) fs data data' :=
  fun b hheld hcap hlen => h b hheld hcap hlen

lemma onlyIf {test : Prop} [Decidable test] {n m : ℕ}
    (hm : (if test then n else 0) = m) (hvalue : value.toNat < 2 ^ m)
    (h : Unpacks packetLen p fs (if test then store value data else data) data') :
    Unpacks packetLen (do onlyIf test (unpack n store); p) ((value, m) :: fs) data data' := by
  subst hm
  by_cases htest : test
  · rw [if_pos htest] at h hvalue
    rw [onlyIf_pos htest, if_pos htest]
    exact h.field hvalue
  · rw [if_neg htest] at h
    rw [onlyIf_neg htest, pure_bind, if_neg htest]
    intro b hheld hcap hlen
    rw [fieldBits_cons, zero_add] at hcap hlen ⊢
    exact h b hheld.2 hcap hlen

end Unpacks

def fillEntries (src : DciFormat1) (i n : ℕ) (mask : Vector CInt maxRbgSet) :
    Vector CInt maxRbgSet :=
  Vector.ofFn fun j => if i ≤ j.val ∧ j.val < i + n then src.maskAt j else mask.get j

def fillMask (src : DciFormat1) (i n : ℕ) (data : DciFormat1) : DciFormat1 :=
  { data with rbgMask := fillEntries src i n data.rbgMask }

lemma fillMask_zero (src : DciFormat1) (i : ℕ) (data : DciFormat1) :
    fillMask src i 0 data = data := by
  have hmask : fillEntries src i 0 data.rbgMask = data.rbgMask := by
    refine Vector.ext fun j hj => ?_
    rw [fillEntries, Vector.getElem_ofFn, if_neg (by dsimp only; omega)]
    rfl
  rw [fillMask, hmask]

variable {i : ℕ} {cur : DciFormat1}

lemma fillMask_succ (src : DciFormat1) (hi : i < maxRbgSet) (data : DciFormat1) :
    fillMask src (i + 1) n { data with rbgMask := data.rbgMask.set i (src.maskAt i) hi } =
      fillMask src i (n + 1) data := by
  have hmask : fillEntries src (i + 1) n (data.rbgMask.set i (src.maskAt i) hi) =
      fillEntries src i (n + 1) data.rbgMask := by
    refine Vector.ext fun j hj => ?_
    rw [fillEntries, fillEntries, Vector.getElem_ofFn, Vector.getElem_ofFn]
    dsimp only
    rw [show (data.rbgMask.set i (src.maskAt i) hi).get ⟨j, hj⟩ =
      (data.rbgMask.set i (src.maskAt i) hi)[j] from rfl, Vector.getElem_set]
    by_cases heq : i = j
    · rw [if_neg (by omega), if_pos heq, if_pos (by omega), heq]
    · rw [if_neg heq]
      exact if_congr (by omega) rfl rfl
  rw [fillMask, fillMask, hmask]

lemma Unpacks.mask {p : BitProg DciFormat1 ℕ} {fs : List (CInt × ℕ)}
    {src : DciFormat1} (hsrc : Accepted src) (hn : i + n ≤ maxRbgSet)
    (h : Unpacks packetLen p fs (fillMask src i n data) data') :
    Unpacks packetLen (do (List.range' i n).forM unpackMaskEntry; p)
      (maskFields src i n ++ fs) data data' := by
  induction n generalizing i data with
  | zero =>
    rw [fillMask_zero] at h
    exact h
  | succ n ih =>
    have hi : i < maxRbgSet := by omega
    have hbit : (src.maskAt i).toNat < 2 ^ 1 := by
      rw [maskAt, dif_pos hi]
      rcases hsrc.rbgMask ⟨i, hi⟩ with hzero | hone
      · rw [hzero]; decide
      · rw [hone]; decide
    rw [List.range'_succ, List.forM_eq_forM, List.forM_cons, bind_assoc, maskFields,
      List.range'_succ, List.map_cons, List.cons_append, unpackMaskEntry, dif_pos hi]
    refine Unpacks.field hbit (ih (by omega) ?_)
    rw [fillMask_succ]
    exact h

def restored (data data' : DciFormat1) : DciFormat1 :=
  { data' with
    carrierIndicator :=
      if data.carrierIndicatorLen ≠ 0 then data.carrierIndicator else data'.carrierIndicator
    raType := data.raType
    rbgMask := fillEntries data 0 data.rounds data'.rbgMask
    mcs := data.mcs
    harqPnum := data.harqPnum
    newData := data.newData
    redundancyVersion := data.redundancyVersion
    tpcCommand := data.tpcCommand }

lemma toInt_eq_toNat {n : CInt} (h : 0 ≤ n.toInt) : n.toInt = n.toNat := by
  rw [toInt_eq_toNat_cond] at h ⊢
  split_ifs at h ⊢ <;> omega

namespace Accepted

variable {data : DciFormat1}

section

variable (h : Accepted data)
include h

lemma rounds_eq : (data.rounds : ℤ) = data.nofRbg.toInt := toNat_of_nonneg h.nofRbg

lemma harqPnumLen_eq : data.harqPnumLen.toInt = data.harqPnumLen.toNat := by
  rcases h.harqPnumLen with hlen | hlen <;> rw [hlen] <;> rfl

lemma signExtend_carrier :
    data.carrierIndicator.signExtend 32 = data.carrierIndicator.setWidth 32 := by
  have hlen : data.carrierIndicatorLen.toNat ≤ 3 := by
    have := toInt_eq_toNat h.carrierIndicatorLen.1
    have := h.carrierIndicatorLen.2
    omega
  have hlt : data.carrierIndicator.toNat < 2 ^ 3 :=
    h.carrierIndicator.trans_le (Nat.pow_le_pow_right (by decide) hlen)
  apply signExtend_eq_setWidth_of_msb_false
  rw [msb_eq_decide]
  exact decide_eq_false (by omega)

lemma setWidth_carrier :
    (data.carrierIndicator.signExtend 32).setWidth 8 = data.carrierIndicator := by
  rw [h.signExtend_carrier, setWidth_setWidth_of_le _ (by decide), setWidth_eq]

lemma carrier_lt : (data.carrierIndicator.signExtend 32).toNat <
    2 ^ data.carrierIndicatorLen.toNat := by
  rw [h.signExtend_carrier, toNat_setWidth_of_le (by decide)]
  exact h.carrierIndicator

end

end Accepted

lemma checkLengths_same {σ : Type} (h : Accepted data) (hconf : SameConfiguration data data')
    (st : BitBuffer × σ) : checkLengths data' st = .ok () st :=
  checkLengths_run (hconf.carrierIndicatorLen ▸ h.carrierIndicatorLen)
    (hconf.harqPnumLen ▸ h.harqPnumLen)

lemma SameConfiguration.rounds (h : SameConfiguration data data') : data'.rounds = data.rounds := by
  rw [DciFormat1.rounds, h.nofRbg, DciFormat1.rounds]

lemma readType {type : RaType} (htype : type = .na ∨ type = .type0) (hcur : cur.raType = type) :
    (if type ≠ .na then { cur with raType := if (0 : CInt) ≠ 0 then .type1 else .type0 } else cur) =
      { cur with raType := type } := by
  rcases htype with rfl | rfl
  · rw [if_neg (not_not.mpr rfl), ← hcur]
  · rfl

lemma unpackFields_same (h : SameConfiguration data data') :
    unpackFields packetLen data' = unpackFields packetLen data := by
  rw [unpackFields, unpackFields, unpackTail, unpackTail, h.carrierIndicatorLen, h.nofRbg,
    h.harqPnumLen, h.raType, h.rounds]

lemma dciFormat1Unpack_run {b : BitBuffer}
    (h : Accepted data) (hconf : SameConfiguration data data') :
    dciFormat1Unpack packetLen (b, data') = unpackFields packetLen data (b, data') := by
  have hdescriptor : descriptor (b, data') = .ok data' (b, data') := rfl
  rw [dciFormat1Unpack, bind_of_ok hdescriptor, bind_of_ok (checkLengths_same h hconf _),
    unpackFields_same hconf]

lemma unpacks_tail (h : Accepted data) :
    Unpacks packetLen (unpackTail packetLen data) (tailFields data) cur { cur with
        mcs := data.mcs
        harqPnum := data.harqPnum
        newData := data.newData
        redundancyVersion := data.redundancyVersion
        tpcCommand := data.tpcCommand } := by
  have hlen := h.harqPnumLen_eq
  refine .needs ?_ (.field h.mcs (.needs ?_ (.field h.harqPnum (.needs ?_ (.field h.newData
    (.field h.redundancyVersion (.field h.tpcCommand .done)))))))
  all_goals simp only [tailFields, fieldBits_cons, fieldBits_nil]
  all_goals omega

/-- **Unpacking.** `dci_format1_unpack` reads back what the fields of a descriptor say, if the
packet is as long as they are. -/
theorem dciFormat1Unpack_unpacks (h : Accepted data)
    (hmask : data.rounds ≤ maxRbgSet) (hconf : SameConfiguration data data') :
    Unpacks packetLen (unpackFields packetLen data) (fields data) data' (restored data data') := by
  have hclen := toInt_eq_toNat h.carrierIndicatorLen.1
  have hbits := fieldBits_maskFields data 0 data.rounds
  have hnof := h.rounds_eq
  refine .needs ?_ (.onlyIf data.width_carrier h.carrier_lt (.needs ?_
    (.onlyIf data.width_raType (Nat.two_pow_pos _) ?_)))
  · rw [fieldBits_fields, informationBits]
    omega
  · simp only [fieldBits_cons, fieldBits_append, tailFields]
    omega
  · rw [readType h.raType (by split_ifs <;> exact hconf.raType)]
    refine .needs ?_ (.descriptor (.skip (fun _ => returnIf_neg ?_) ?_))
    · rw [fieldBits_append]
      omega
    · rcases h.raType with htype | htype <;> simp [htype]
    · rw [List.range_eq_range']
      refine .mask h (by omega) ?_
      have hcarrier := h.setWidth_carrier
      by_cases hlen : data.carrierIndicatorLen ≠ 0
      · rw [if_pos hlen, hcarrier, restored, if_pos hlen]
        exact unpacks_tail h
      · rw [if_neg hlen, restored, if_neg hlen]
        exact unpacks_tail h

/-! ## Packets that are too short -/

/-- With `r` bits left and fewer than `m`, the program returns -1. -/
def Refuses {α : Type} (packetLen : CInt) (r m : ℕ) (p : BitProg DciFormat1 α) : Prop :=
  ∀ b data, (b.cap : ℤ) = packetLen.toInt → b.pos + r ≤ b.cap → b.cap < b.pos + m →
    ∃ st, p (b, data) = .error (.ret (-1)) st

lemma unpack_run {b : BitBuffer} (hcap : b.pos + n ≤ b.cap)
    (store : CInt → DciFormat1 → DciFormat1) (data : DciFormat1) :
    ∃ data', unpack n store (b, data) = .ok () ({ b with pos := b.pos + n }, data') := by
  rw [unpack, unpackBits, if_pos fun i hi => by omega]
  exact ⟨_, rfl⟩

namespace Refuses

variable {α : Type} {packetLen : CInt} {r m n : ℕ} {p : BitProg DciFormat1 α}
  {store : CInt → DciFormat1 → DciFormat1}

lemma of_le (h : m ≤ r) : Refuses packetLen r m p := fun _ _ _ _ _ => absurd h (by omega)

lemma needs {k : ℤ} (hk : k = n) (h : Refuses packetLen n m p) :
    Refuses packetLen r m (do needs packetLen k; p) := by
  intro b data hlen hroom hshort
  by_cases hspace : dciPacketSpace b.pos packetLen < k
  · exact ⟨_, bind_of_error (needs_short hspace)⟩
  · rw [bind_of_ok (needs_enough hspace)]
    rw [dciPacketSpace_of_le (by omega)] at hspace
    exact h b data hlen (by omega) hshort

lemma field (hn : n ≤ r) (h : Refuses packetLen (r - n) m p) :
    Refuses packetLen r (n + m) (do unpack n store; p) := by
  intro b data hlen hroom hshort
  obtain ⟨data', hread⟩ := unpack_run (le_trans (Nat.add_le_add_left hn b.pos) hroom) store data
  rw [bind_of_ok hread]
  exact h { b with pos := b.pos + n } data' hlen (by dsimp only; omega) (by dsimp only; omega)

lemma onlyIf {test : Prop} [Decidable test] {k : ℕ} (hk : (if test then n else 0) = k)
    (hr : k ≤ r) (h : Refuses packetLen (r - k) m p) :
    Refuses packetLen r (k + m) (do onlyIf test (unpack n store); p) := by
  subst hk
  by_cases htest : test
  · rw [if_pos htest] at h hr ⊢
    rw [onlyIf_pos htest]
    exact h.field hr
  · rw [if_neg htest] at h ⊢
    rw [onlyIf_neg htest, pure_bind, zero_add]
    exact h

lemma returnIf {test : Prop} [Decidable test] (h : Refuses packetLen r m p) :
    Refuses packetLen r m (do returnIf test; p) := by
  intro b data hlen hroom hshort
  by_cases htest : test
  · exact ⟨_, bind_of_error (returnIf_pos htest)⟩
  · rw [bind_of_ok (returnIf_neg htest)]
    exact h b data hlen hroom hshort

lemma descriptor {q : DciFormat1 → BitProg DciFormat1 α}
    (h : ∀ data, Refuses packetLen r m (q data)) :
    Refuses packetLen r m (do let data ← descriptor; q data) :=
  fun b data hlen hroom hshort => h data b data hlen hroom hshort

lemma mask {i : ℕ} (hn : i + n ≤ maxRbgSet) (hr : n ≤ r) (h : Refuses packetLen (r - n) m p) :
    Refuses packetLen r (n + m) (do (List.range' i n).forM unpackMaskEntry; p) := by
  induction n generalizing i r with
  | zero =>
    rw [zero_add]
    exact h
  | succ n ih =>
    rw [List.range'_succ, List.forM_eq_forM, List.forM_cons, bind_assoc, unpackMaskEntry,
      dif_pos (by omega), show n + 1 + m = 1 + (n + m) by omega]
    refine Refuses.field (by omega) (ih (by omega) (by omega) ?_)
    rwa [Nat.sub_sub, add_comm 1 n]

end Refuses

/-- `dci_format1_unpack` returns -1, and reads no bit behind the `packet_len` first ones. -/
def Rejects (data : DciFormat1) (packetLen : CInt) : Prop :=
  ∀ cells, ∃ st, dciFormat1Unpack packetLen (⟨cells, packetLen.toInt.toNat, 0⟩, data) =
    .error (.ret (-1)) st

section Rejection

variable {packetLen : CInt} {data data' : DciFormat1}

lemma unpackFields_refuses (h : Accepted data) (hmask : data.rounds ≤ maxRbgSet) :
    Refuses packetLen 0 (informationBits data) (unpackFields packetLen data) := by
  have hone : data.raBits ≤ 1 := by rw [raBits]; split <;> omega
  have hbits : informationBits data = data.carrierIndicatorLen.toNat + (data.raBits +
      (data.rounds + (5 + (data.harqPnumLen.toNat + (1 + (2 + (2 + 0))))))) := by
    rw [informationBits]
    omega
  rw [hbits, unpackFields, List.range_eq_range']
  refine .needs (toInt_eq_toNat h.carrierIndicatorLen.1) (.onlyIf data.width_carrier le_rfl ?_)
  refine .needs rfl (.onlyIf data.width_raType hone (.needs h.rounds_eq.symm ?_))
  refine .descriptor fun _ => .returnIf (.mask (by omega) le_rfl (.needs rfl (.field le_rfl ?_)))
  refine .needs h.harqPnumLen_eq (.field le_rfl (.needs rfl ?_))
  exact .field (by decide) (.field (by decide) (.field (by decide) (.of_le (Nat.zero_le _))))

/-! A negative length leaves no bit that may be read, and its absolute value passes for space. -/

def Blocked (data : DciFormat1) (p : BitProg DciFormat1 ℕ) : Prop :=
  ∀ b, b.pos = 0 → b.cap = 0 → ∀ st, p (b, data) ≠ .error (.ret (-1)) st

/-- With no bit that may be read, the program returns -1 exactly if the space is below `w`. -/
def Asks (packetLen : CInt) (w : ℤ) (data : DciFormat1) (p : BitProg DciFormat1 ℕ) : Prop :=
  ∀ b, b.pos = 0 → b.cap = 0 → ((∃ st, p (b, data) = .error (.ret (-1)) st) ↔
    dciPacketSpace b.pos packetLen < w)

variable {w k : ℤ} {p : BitProg DciFormat1 ℕ}

lemma blocked_unpack {n : ℕ} (hn : n ≠ 0) (store : CInt → DciFormat1 → DciFormat1) :
    Blocked data (do unpack n store; p) := by
  intro b hpos hcap st hrun
  have hnone : ¬ ∀ i < n, b.pos + i < b.cap := fun h => by
    have := h 0 (Nat.pos_of_ne_zero hn)
    omega
  have hfault : unpack n store (b, data) = .error .fault (b, data) := by
    rw [unpack, unpackBits, if_neg hnone]
  rw [bind_of_error hfault] at hrun
  cases hrun

lemma Blocked.asks (h : Blocked data p) : Asks packetLen k data (do needs packetLen k; p) := by
  intro b hpos hcap
  by_cases hspace : dciPacketSpace b.pos packetLen < k
  · exact iff_of_true ⟨_, bind_of_error (needs_short hspace)⟩ hspace
  · refine iff_of_false ?_ hspace
    rintro ⟨st, hrun⟩
    rw [bind_of_ok (needs_enough hspace)] at hrun
    exact h b hpos hcap st hrun

lemma Asks.needs (h : Asks packetLen w data p) (hk : k ≤ w) :
    Asks packetLen w data (do needs packetLen k; p) := by
  intro b hpos hcap
  by_cases hspace : dciPacketSpace b.pos packetLen < k
  · exact iff_of_true ⟨_, bind_of_error (needs_short hspace)⟩ (by omega)
  · rw [bind_of_ok (needs_enough hspace)]
    exact h b hpos hcap

variable {q : BitProg DciFormat1 ℕ}

lemma Blocked.congr (h : Blocked data p)
    (hq : ∀ b, q (b, data) = p (b, data)) : Blocked data q := by
  intro b hpos hcap st
  rw [hq b]
  exact h b hpos hcap st

lemma Asks.congr (h : Asks packetLen w data p)
    (hq : ∀ b, q (b, data) = p (b, data)) : Asks packetLen w data q := by
  intro b hpos hcap
  rw [hq b]
  exact h b hpos hcap

lemma type_known (h : ¬(data.raType ≠ .na ∧ data.raType ≠ .type0)) (b : BitBuffer) : (do
      let read ← descriptor
      returnIf (read.raType ≠ RaType.na ∧ read.raType ≠ RaType.type0)
      p) (b, data) = p (b, data) := by
  have hdescriptor : descriptor (b, data) = .ok data (b, data) := rfl
  rw [bind_of_ok hdescriptor, bind_of_ok (returnIf_neg h)]

def firstBits (data : DciFormat1) : ℤ :=
  if data.carrierIndicatorLen ≠ 0 then data.carrierIndicatorLen.toInt
  else if data.raType ≠ .na then 1
  else if data.nofRbg ≠ 0 then data.nofRbg.toInt
  else 5

lemma unpackFields_asks (h : Accepted data) (hraType : data'.raType = data.raType) :
    Asks packetLen (firstBits data) data' (unpackFields packetLen data) := by
  rw [unpackFields, firstBits]
  by_cases hclen : data.carrierIndicatorLen ≠ 0
  · rw [if_pos hclen, onlyIf_pos hclen]
    refine (blocked_unpack (fun hzero => hclen ?_) _).asks
    exact eq_of_toNat_eq hzero
  rw [if_neg hclen, onlyIf_neg hclen, pure_bind, not_not.mp hclen]
  by_cases htype : data.raType ≠ .na
  · rw [if_pos htype, onlyIf_pos htype]
    exact ((blocked_unpack Nat.one_ne_zero _).asks).needs (by decide)
  rw [if_neg htype, onlyIf_neg htype, pure_bind]
  -- nothing was read yet, so the allocation type is the one the receiver was given
  have hknown : ¬(data'.raType ≠ .na ∧ data'.raType ≠ .type0) :=
    fun hnot => hnot.1 (hraType.trans (not_not.mp htype))
  by_cases hnof : data.nofRbg ≠ 0
  · rw [if_pos hnof]
    have hrounds : data.rounds ≠ 0 := fun hzero => hnof (eq_of_toInt_eq (by
      rw [← h.rounds_eq, hzero]
      rfl))
    obtain ⟨n, hn⟩ := Nat.exists_eq_succ_of_ne_zero hrounds
    rw [hn, List.range_eq_range', List.range'_succ, List.forM_eq_forM, List.forM_cons]
    have hblocked : Blocked data' (do
        unpackMaskEntry 0
        forM (List.range' (0 + 1) n) unpackMaskEntry
        unpackTail packetLen data) := by
      rw [unpackMaskEntry, dif_pos (by decide)]
      exact blocked_unpack Nat.one_ne_zero _
    rw [bind_assoc]
    have hpos := h.rounds_eq
    exact ((hblocked.congr (type_known hknown)).asks.needs (by omega)).needs
      (le_of_lt (by rw [← hpos, hn]; exact natCast_pos.mpr (Nat.succ_pos n)))
  · rw [if_neg hnof, not_not.mp hnof]
    have hrounds : data.rounds = 0 := by rw [rounds, not_not.mp hnof]; rfl
    rw [hrounds, List.range_zero]
    have htail : Asks packetLen 5 data' (do
        ([] : List ℕ).forM unpackMaskEntry
        unpackTail packetLen data) := (blocked_unpack (by decide) _).asks
    exact ((htail.congr (type_known hknown)).needs (by decide)).needs (by decide) |>.needs
      (by decide)

end Rejection

/-! ## The codec -/

def RoundTrip (data data' : DciFormat1) : Prop := ∀ cells cap, informationBits data < cap →
    ∃ len b b', dciFormat1Pack data (⟨cells, cap, 0⟩, ()) = .ok len (b, ()) ∧
      dciFormat1Unpack (BitVec.ofNat 32 len) (⟨b.cells, len, 0⟩, data') =
        .ok len (b', restored data data')

lemma Accepted.packetBits_lt (h : Accepted data)
    (hmask : data.rounds ≤ maxRbgSet) : packetBits (informationBits data) < 2 ^ 31 := by
  have hclen := toInt_eq_toNat h.carrierIndicatorLen.1
  have hcarrier := h.carrierIndicatorLen.2
  have hra : data.raBits ≤ 1 := by rw [raBits]; split <;> omega
  have hharq : data.harqPnumLen.toNat ≤ 4 := by
    rcases h.harqPnumLen with hlen | hlen <;> rw [hlen] <;> decide
  have hbits : informationBits data ≤ 100 := by
    rw [informationBits]
    rw [maxRbgSet] at hmask
    omega
  rw [packetBits]
  split <;> omega

lemma roundTrip_of_le (h : Accepted data)
    (hmask : data.rounds ≤ maxRbgSet) (hconf : SameConfiguration data data') :
    RoundTrip data data' := by
  intro cells cap hcap
  have hbits := fieldBits_fields data
  have hle := le_packetBits (informationBits data)
  have hcap' : packetBits (informationBits data) ≤ cap := by
    rw [packetBits]
    split <;> omega
  have hlt := h.packetBits_lt hmask
  obtain ⟨b, hpack, hheld, -⟩ := dciFormat1Pack_packs h hmask ⟨cells, cap, 0⟩ () (by
    rw [hbits, zero_add]
    exact hcap')
  rw [hbits, zero_add] at hpack
  have hlen : (BitVec.ofNat 32 (packetBits (informationBits data))).toInt =
      packetBits (informationBits data) := by
    rw [toInt_ofNat', bmod_eq_of_le] <;> omega
  obtain ⟨b', hunpack⟩ := dciFormat1Unpack_unpacks h hmask hconf
    ⟨b.cells, packetBits (informationBits data), 0⟩ hheld (by rw [hbits, zero_add]) (by
      rw [hlen, hbits, zero_add]
      exact ofNat_le.mpr hle)
  rw [hbits, zero_add] at hunpack
  exact ⟨_, b, b', hpack, (dciFormat1Unpack_run h hconf).trans hunpack⟩

lemma not_roundTrip (hmask : maxRbgSet < data.rounds) : ¬ RoundTrip data data' := by
  intro htrip
  obtain ⟨len, b, b', hpack, -⟩ := htrip (fun _ => 0) _ (Nat.lt_succ_self _)
  obtain ⟨_, _, -, hpack⟩ := bind_ok.mp hpack
  obtain ⟨_, _, -, hpack⟩ := bind_ok.mp hpack
  obtain ⟨_, _, -, hpack⟩ := bind_ok.mp hpack
  obtain ⟨_, _, -, hpack⟩ := bind_ok.mp hpack
  obtain ⟨_, _, -, hpack⟩ := bind_ok.mp hpack
  obtain ⟨_, _, hloop, -⟩ := bind_ok.mp hpack
  obtain ⟨_, _, hentry⟩ := forM_ok hloop (List.mem_range.mpr hmask)
  obtain ⟨_, _, hentry, -⟩ := bind_ok.mp hentry
  cases hentry

/-- **DCI format 1.** The descriptor survives the packet and a short packet is refused exactly if
the mask fits its array and the length is not negative; of negative lengths only those smaller in
absolute value than the first field are refused. -/
theorem dci_format1_codec {data data' : DciFormat1} (h : Accepted data)
    (hconf : SameConfiguration data data') {packetLen : CInt}
    (hshort : packetLen.toInt < informationBits data) :
    RoundTrip data data' ∧ Rejects data' packetLen ↔ data.nofRbg.toInt ≤ maxRbgSet ∧
        (0 ≤ packetLen.toInt ∨ dciPacketSpace 0 packetLen < firstBits data) := by
  have hrounds := h.rounds_eq
  by_cases hmask : data.rounds ≤ maxRbgSet
  · rw [and_iff_right (roundTrip_of_le h hmask hconf), and_iff_right (by omega)]
    by_cases hlen : 0 ≤ packetLen.toInt
    · refine iff_of_true (fun cells => ?_) (.inl hlen)
      rw [dciFormat1Unpack_run h hconf]
      exact unpackFields_refuses h hmask _ _ (toNat_of_nonneg hlen) (Nat.zero_le _)
        (by dsimp only; omega)
    · have hcap : packetLen.toInt.toNat = 0 := by omega
      have hasks : Asks packetLen (firstBits data) data' (unpackFields packetLen data) :=
        unpackFields_asks h hconf.raType
      rw [Rejects, hcap]
      constructor
      · intro hrejects
        obtain ⟨st, hrun⟩ := hrejects fun _ => 0
        rw [dciFormat1Unpack_run h hconf] at hrun
        exact .inr ((hasks ⟨_, 0, 0⟩ rfl rfl).mp ⟨st, hrun⟩)
      · rintro (hnot | hspace) cells
        · exact absurd hnot hlen
        · rw [dciFormat1Unpack_run h hconf]
          exact (hasks ⟨cells, 0, 0⟩ rfl rfl).mpr hspace
  · refine iff_of_false (fun htrip => not_roundTrip (not_le.mp hmask) htrip.1) fun hcond => ?_
    exact hmask (by omega)

def sentDescriptor (nofRbg : CInt) : DciFormat1 where
  carrierIndicator := 0
  carrierIndicatorLen := 2
  raType := .na
  rbgMask := Vector.replicate maxRbgSet 1
  nofRbg := nofRbg
  mcs := 9
  harqPnum := 0
  harqPnumLen := 3
  newData := 0
  redundancyVersion := 0
  tpcCommand := 0

lemma accepted_sentDescriptor : Accepted (sentDescriptor 4) where
  carrierIndicatorLen := by decide
  harqPnumLen := .inl rfl
  nofRbg := by decide
  rbgMask := fun i => .inr (Vector.getElem_replicate i.isLt)
  raType := .inl rfl
  carrierIndicator := by decide
  mcs := by decide
  harqPnum := by decide
  newData := by decide
  redundancyVersion := by decide
  tpcCommand := by decide

theorem dci_format1_codec_four : Accepted (sentDescriptor 4) ∧
    RoundTrip (sentDescriptor 4) (sentDescriptor 4) ∧ Rejects (sentDescriptor 4) 10 :=
  ⟨accepted_sentDescriptor, (dci_format1_codec accepted_sentDescriptor ⟨rfl, rfl, rfl, rfl⟩
    (by decide)).mpr ⟨by decide, .inl (by decide)⟩⟩

/-- Told that the packet has -100 bits, `dci_format1_unpack` reads the 19 bits of the descriptor;
and a mask of 26 groups is read behind the end of its array. -/
theorem dci_format1_misread :
    (∃ st, dciFormat1Unpack (-100) (⟨fun _ => 0, 19, 0⟩, sentDescriptor 4) = .ok 19 st) ∧
      ¬ Rejects (sentDescriptor 4) (-100) ∧
      ¬ RoundTrip (sentDescriptor 26) (sentDescriptor 26) := by
  refine ⟨⟨_, rfl⟩, fun h => ?_, not_roundTrip (by decide)⟩
  obtain ⟨st, hrun⟩ := h fun _ => 0
  cases hrun

end Aloe.Modrep.DciFormats
