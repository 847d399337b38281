import Aloe.Lib.Codec
import Aloe.Lib.Stream
import Mathlib.Algebra.Group.Int.Defs

/-!
# Control packets

Model of `oesr/src/common/packet.c`. A packet is a buffer of `size` bytes with a
write and a read cursor; the bytes below the write cursor are kept as a list, so
the write cursor is its length.

A function of the source that returns 0 or -1 is a program over the packet and
the object it fills. It either ends, or stops with `Fail.ret` (it returned -1) or
with `Fail.fault` (it left the memory it may touch); what it wrote before
stopping stays written.
-/

namespace Aloe.Oesr

open Lib List Int

/-- A C `int`, by its bits. -/
abbrev CInt : Type := BitVec 32

/-- The number of rounds of `for (i=0;i<n;i++)`. -/
def CInt.count (n : CInt) : ℕ := n.toInt.toNat

def sizeofInt : ℕ := 4

variable {n : ℕ} {bs : List UInt8} {len : ℤ}

lemma CInt.toInt_ofNat (h : n < 2 ^ 31) : (BitVec.ofNat 32 n : CInt).toInt = n := by
  rw [BitVec.toInt_eq_toNat_of_lt (by rw [BitVec.toNat_ofNat]; omega), BitVec.toNat_ofNat]
  omega

lemma CInt.count_ofNat (h : n < 2 ^ 31) : CInt.count (BitVec.ofNat 32 n) = n := by
  rw [CInt.count, CInt.toInt_ofNat h, toNat_natCast]

inductive PacketCommand where
  | load | set | get | connect | disconnect | hwinfo
deriving DecidableEq, Repr

/-- `packet_dest_t`; the destination node is not modelled. -/
structure PacketDest where
  waveformId : CInt
  moduleId : CInt
  variableId : CInt
deriving DecidableEq, Repr

/-- `packet_t`. The cursors stay ordered and inside an `int`-sized buffer. -/
structure Packet where
  cmd : PacketCommand
  dest : PacketDest
  ack : CInt
  size : ℕ
  data : List UInt8
  rPtr : ℕ
  size_lt : size < 2 ^ 31
  length_le : data.length ≤ size
  rPtr_le : rPtr ≤ data.length

variable {pkt : Packet}

def emptyPacket (size : ℕ) (h : size < 2 ^ 31) : Packet :=
  ⟨.load, ⟨0, 0, 0⟩, 0, size, [], 0, h, Nat.zero_le _, Nat.le_refl _⟩

inductive Fail where
  | ret
  | fault
deriving DecidableEq, Repr

/-- A program that returns 0 or -1, over a packet and an object of type `σ`. -/
abbrev Prog (σ : Type) (α : Type) : Type := EStateM Fail (Packet × σ) α

namespace Packet

def unread (pkt : Packet) : List UInt8 := pkt.data.drop pkt.rPtr

/-- The packet with `bs` appended, where they fit. -/
def append (pkt : Packet) (bs : List UInt8) (h : pkt.data.length + bs.length ≤ pkt.size) :
    Packet :=
  { pkt with
    data := pkt.data ++ bs
    length_le := by simpa using h
    rPtr_le := by
      have := pkt.rPtr_le
      simp only [length_append]
      omega }

/-- The packet with the next `n` bytes read, where there are as many. -/
def advance (pkt : Packet) (n : ℕ) (h : pkt.rPtr + n ≤ pkt.data.length) : Packet :=
  { pkt with rPtr := pkt.rPtr + n, rPtr_le := h }

lemma unread_advance (pkt : Packet) {n : ℕ} (h : pkt.rPtr + n ≤ pkt.data.length) :
    (pkt.advance n h).unread = pkt.unread.drop n := by
  simp [unread, advance, drop_drop]

lemma length_unread (pkt : Packet) : pkt.unread.length = pkt.data.length - pkt.rPtr := by
  simp [unread]

end Packet

/-! ## The operations -/

def packetClear (pkt : Packet) : Packet :=
  { pkt with
    dest := ⟨0, 0, 0⟩
    data := []
    rPtr := 0
    length_le := Nat.zero_le _
    rPtr_le := le_refl _ }

/-- A sum of two `int`s as the machine computes it. -/
def addInt (a b : ℤ) : ℤ := (a + b).bmod (2 ^ 32)

/-- `packet_add_data` of `len` bytes from the start of the block, `none` for the null pointer. The
bound is tested on a machine sum: one that wraps passes, and the copy then leaves the buffer. -/
def packetAddData {σ : Type} (data : Option (List UInt8)) (len : ℤ) : Prog σ Unit :=
  fun (pkt, s) =>
    match data with
    | none => .error .ret (pkt, s)
    | some bs =>
      if len < 0 then .error .ret (pkt, s)
      else if (pkt.size : ℤ) < addInt pkt.data.length len then .error .ret (pkt, s)
      else if bs.length < len.toNat then .error .fault (pkt, s)
      else if h : pkt.data.length + (bs.take len.toNat).length ≤ pkt.size then
        .ok () (pkt.append (bs.take len.toNat) h, s)
      else .error .fault (pkt, s)

/-- `packet_get_data`: the next `len` bytes. -/
def packetGetData {σ : Type} (len : ℤ) : Prog σ (List UInt8) :=
  fun (pkt, s) =>
    if len ≤ 0 then .error .ret (pkt, s)
    else if h : pkt.rPtr + len.toNat ≤ pkt.data.length then
      .ok (pkt.unread.take len.toNat) (pkt.advance len.toNat h, s)
    else .error .ret (pkt, s)

variable {σ α : Type}

def addObj (c : Codec α) (a : α) : Prog σ Unit := packetAddData (some (c.enc a)) c.size

def setObj (f : σ → σ) : Prog σ Unit := modify fun (pkt, s) => (pkt, f s)

def readObj (c : Codec α) : Prog σ α := do
  let bs ← packetGetData c.size
  return c.dec bs

def getObj (c : Codec α) (store : α → σ → σ) : Prog σ Unit := do
  let a ← readObj c
  setObj (store a)

def cint : Codec CInt := Codec.word 4

def addI (n : CInt) : Prog σ Unit := addObj cint n

/-- `get_i` into a field of the object. -/
def getI (store : CInt → σ → σ) : Prog σ Unit := getObj cint store

/-- `get_i` into a local variable. -/
def readI : Prog σ CInt := readObj cint

def retErr : Prog σ α := throw .ret

def fault : Prog σ α := throw .fault

def getThis : Prog σ σ := fun (pkt, s) => .ok s (pkt, s)

lemma getThis_run (pkt : Packet) (s : σ) : getThis (pkt, s) = .ok s (pkt, s) := rfl

/-! ## What the operations do -/

instance : Channel Packet where
  written := Packet.data
  unread := Packet.unread

variable {pkt' : Packet} {s s' : σ} {a b : ℤ} {c : Codec α}

lemma packetAddData_ok (h : packetAddData (some bs) len (pkt, s) = .ok () (pkt', s')) :
    0 ≤ len ∧ len.toNat ≤ bs.length ∧ pkt'.data = pkt.data ++ bs.take len.toNat ∧ s' = s := by
  simp only [packetAddData] at h
  split at h
  · cases h
  · rename_i hlen
    split at h
    · cases h
    · split at h
      · cases h
      · rename_i hblock
        split at h
        · cases h
          exact ⟨by omega, by omega, rfl, rfl⟩
        · cases h

lemma addInt_eq (ha : 0 ≤ a) (hb : 0 ≤ b) (h : a + b < 2 ^ 31) : addInt a b = a + b := by
  rw [addInt, bmod_eq_of_le] <;> omega

lemma addInt_wraps (h : 2 ^ 31 ≤ a + b) (hlt : a + b < 2 ^ 32) : addInt a b < 0 := by
  rw [addInt, bmod_def]
  split_ifs with hhalf <;> omega

lemma packetAddData_of_le (s : σ) (h : pkt.data.length + bs.length ≤ pkt.size) :
    packetAddData (some bs) bs.length (pkt, s) = .ok () (pkt.append bs h, s) := by
  have hlt := pkt.size_lt
  have htake : bs.take (bs.length : ℤ).toNat = bs := by rw [toNat_natCast, take_length]
  simp only [packetAddData, htake]
  rw [addInt_eq (by omega) (by omega) (by omega), if_neg (by omega), if_neg (by omega),
    if_neg (by omega), dif_pos h]

/-- How `packet_add_data` refuses to write up to byte `n`: the sum may wrap. -/
def refusal (n : ℕ) : Fail := if n < 2 ^ 31 then .ret else .fault

lemma packetAddData_of_lt (s : σ) (hbs : bs.length < 2 ^ 31)
    (h : pkt.size < pkt.data.length + bs.length) :
    packetAddData (some bs) bs.length (pkt, s) =
      .error (refusal (pkt.data.length + bs.length)) (pkt, s) := by
  have hlt := pkt.size_lt
  have hle := pkt.length_le
  have htake : bs.take (bs.length : ℤ).toNat = bs := by rw [toNat_natCast, take_length]
  simp only [packetAddData, htake, refusal]
  rw [if_neg (by omega)]
  by_cases hwrap : pkt.data.length + bs.length < 2 ^ 31
  · rw [if_pos hwrap, addInt_eq (by omega) (by omega) (by omega), if_pos (by omega)]
  · have hneg := addInt_wraps (a := pkt.data.length) (b := bs.length) (by omega) (by omega)
    rw [if_neg hwrap, if_neg (by omega), if_neg (by omega), dif_neg (by omega)]

lemma addObj_of_le (c : Codec α) (a : α) (s : σ)
    (h : pkt.data.length + (c.enc a).length ≤ pkt.size) :
    addObj c a (pkt, s) = .ok () (pkt.append (c.enc a) h, s) := by
  rw [addObj, ← c.length_enc a, packetAddData_of_le s h]

lemma addObj_of_lt (c : Codec α) (a : α) (s : σ) (hc : c.size < 2 ^ 31)
    (h : pkt.size < pkt.data.length + c.size) :
    addObj c a (pkt, s) = .error (refusal (pkt.data.length + c.size)) (pkt, s) := by
  rw [← c.length_enc a] at hc h ⊢
  rw [addObj, ← c.length_enc a, packetAddData_of_lt s hc h]

lemma readObj_of_append (hc : 0 < c.size) {a : α} {rest : List UInt8}
    (h : pkt.unread = c.enc a ++ rest) (s : σ) :
    ∃ pkt' : Packet, pkt'.unread = rest ∧ readObj c (pkt, s) = .ok a (pkt', s) := by
  have hlen := c.length_enc a
  have hroom : pkt.rPtr + (c.size : ℤ).toNat ≤ pkt.data.length := by
    have hunread := congrArg List.length h
    rw [pkt.length_unread, length_append] at hunread
    omega
  refine ⟨pkt.advance _ hroom, ?_, ?_⟩
  · rw [pkt.unread_advance, h, toNat_natCast, ← hlen, drop_left]
  · have hread : packetGetData c.size (pkt, s) = .ok (c.enc a) (pkt.advance _ hroom, s) := by
      have htake : pkt.unread.take (c.size : ℤ).toNat = c.enc a := by
        rw [h, toNat_natCast, ← hlen, take_left]
      simp only [packetGetData]
      rw [if_neg (by omega), dif_pos hroom, htake]
    refine (bind_of_ok hread).trans ?_
    rw [c.dec_enc]
    rfl

lemma readObj_of_lt (c : Codec α) (h : pkt.unread.length < c.size) (s : σ) :
    readObj c (pkt, s) = .error .ret (pkt, s) := by
  rw [pkt.length_unread] at h
  have hread : packetGetData c.size (pkt, s) = .error .ret (pkt, s) := by
    simp only [packetGetData]
    rw [if_neg (by omega), dif_neg (by omega)]
  exact bind_of_error hread

lemma readI_of_le (pkt : Packet) (h : pkt.rPtr + 4 ≤ pkt.data.length) (s : σ) :
    readI (pkt, s) = .ok (cint.dec (pkt.unread.take 4)) (pkt.advance 4 h, s) := by
  have hread : packetGetData cint.size (pkt, s) = .ok (pkt.unread.take 4) (pkt.advance 4 h, s) := by
    simp [packetGetData, cint, Codec.word, h]
  exact bind_of_ok hread

lemma readI_of_lt (pkt : Packet) (h : pkt.data.length < pkt.rPtr + 4) (s : σ) :
    readI (pkt, s) = .error .ret (pkt, s) := by
  refine bind_of_error ?_
  simp [packetGetData, cint, Codec.word, Nat.not_le_of_lt h]

lemma getI_of_le (pkt : Packet) (h : pkt.rPtr + 4 ≤ pkt.data.length)
    (store : CInt → σ → σ) (s : σ) :
    getI store (pkt, s) = .ok () (pkt.advance 4 h, store (cint.dec (pkt.unread.take 4)) s) :=
  bind_of_ok (readI_of_le pkt h s)

lemma getI_of_lt (pkt : Packet) (h : pkt.data.length < pkt.rPtr + 4)
    (store : CInt → σ → σ) (s : σ) : getI store (pkt, s) = .error .ret (pkt, s) :=
  bind_of_error (readI_of_lt pkt h s)

lemma consumes_data (hbs : bs ≠ []) (s : σ) :
    Consumes (packetGetData bs.length : Prog σ (List UInt8)) bs s bs s := by
  intro pkt rest h
  change pkt.unread = bs ++ rest at h
  have hroom : pkt.rPtr + bs.length ≤ pkt.data.length := by
    have hlen := congrArg List.length h
    rw [pkt.length_unread, length_append] at hlen
    have := length_pos_iff.mpr hbs
    omega
  refine ⟨pkt.advance bs.length hroom, ?_, ?_, rfl⟩
  · simp [packetGetData, hbs, hroom, h]
  · change (pkt.advance bs.length hroom).unread = rest
    rw [pkt.unread_advance, h, drop_left]

lemma mirrors_data (hlen : 0 < len) {t : α} : Mirrors (packetAddData (some bs) len : Prog σ Unit)
      (packetGetData len : Prog α (List UInt8)) t (bs.take len.toNat) t := by
  intro pkt s pkt' s' hw
  obtain ⟨-, hblock, hdata, -⟩ := packetAddData_ok hw
  have hlength : ((bs.take len.toNat).length : ℤ) = len := by
    rw [length_take, min_eq_left hblock]
    omega
  have hne : bs.take len.toNat ≠ [] := by
    intro hnil
    rw [hnil] at hlength
    simp only [length_nil] at hlength
    omega
  have hread := consumes_data hne t
  rw [hlength] at hread
  exact ⟨bs.take len.toNat, hdata, hread⟩

variable {τ : Type}

lemma mirrors_readObj (hc : 0 < c.size) (a : α) (t : τ) :
    Mirrors (addObj c a : Prog σ Unit) (readObj c) t a t := by
  refine (mirrors_data (by exact_mod_cast hc)).last fun q => ?_
  have himage : (c.enc a).take ((c.size : ℤ)).toNat = c.enc a := by
    rw [toNat_natCast, take_of_length_le (by simp)]
  rw [himage, c.dec_enc]
  rfl

lemma mirrors_obj (hc : 0 < c.size) (a : α) (store : α → τ → τ) (t : τ) :
    Mirrors (addObj c a : Prog σ Unit) (getObj c store) t () (store a t) :=
  (mirrors_readObj hc a t).last fun _ => rfl

lemma mirrors_readI (n : CInt) (t : τ) : Mirrors (addI n : Prog σ Unit) readI t n t :=
  mirrors_readObj (Nat.succ_pos 3) n t

lemma mirrors_i (n : CInt) (store : CInt → τ → τ) (t : τ) :
    Mirrors (addI n : Prog σ Unit) (getI store) t () (store n t) :=
  mirrors_obj (Nat.succ_pos 3) n store t

lemma grows_data {bs : Option (List UInt8)} :
    Grows (packetAddData bs len : Prog σ Unit) len.toNat := by
  intro pkt s pkt' s' hw
  cases bs with
  | none => cases hw
  | some bs =>
    obtain ⟨-, hblock, hdata, -⟩ := packetAddData_ok hw
    change pkt.data.length + _ ≤ pkt'.data.length
    rw [hdata, length_append, length_take, min_eq_left hblock]

lemma grows_obj (c : Codec α) (a : α) : Grows (addObj c a : Prog σ Unit) c.size := grows_data

lemma grows_i (n : CInt) : Grows (addI n : Prog σ Unit) 4 := grows_obj cint n

lemma length_lt_of_grows {w : Prog σ Unit} (hw : Grows w n)
    (h : w (pkt, s) = .ok () (pkt', s')) : n < 2 ^ 31 := by
  have hgrow : pkt.data.length + n ≤ pkt'.data.length := hw pkt s pkt' s' h
  have hcap := pkt'.length_le
  have hsize := pkt'.size_lt
  omega

end Aloe.Oesr
