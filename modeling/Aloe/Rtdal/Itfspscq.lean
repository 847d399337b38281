import Aloe.Lib.Cyclic
import Aloe.Lib.Memory

/-!
# The single-producer single-consumer queue

Model of `rtdal_lnx/src/rtdal_itfspscq.c`. A queue is a ring of `maxMsg` packet slots over one block
of memory; slot `i` owns the `maxMsgSz` bytes from `i * maxMsgSz`. A slot is taken or free by its
`valid` flag alone, so `read = write` both when the ring is empty and when it is full. A queue with
a negative delay is blocking. `spscqIsFull` and `spscqIsEmpty` answer `waits` when their loop
condition holds, and the caller takes the semaphore and asks again.

The abstract queue is the list of packets pushed and not yet released, oldest first. `Holds itf
pend` says that the ring stores exactly that list: the valid slots are the cyclic interval of
`pend.length` slots from `read`, and `write` is the slot after it. Each operation is then one list
operation.
-/

namespace Aloe.Rtdal.Itfspscq

open Lib Lib.Memory

/-! ## The data model -/

/-- `r_pkt_t`. `data` is the address of the slot's first byte. -/
structure Pkt where
  valid : ℤ
  tstamp : ℤ
  len : ℤ
  data : ℕ
deriving DecidableEq, Repr

/-- `rtdal_itfspscq_t`, with the parent's `delay`. A semaphore is its flag. -/
structure Itf where
  delay : ℤ
  maxMsg : ℕ
  maxMsgSz : ℕ
  read : ℕ
  write : ℕ
  semR : Bool
  semW : Bool
  packets : ℕ → Pkt
  data : Mem

/-- What a fullness or emptiness test answers: a truth value, or that the caller
has to take the semaphore and test again. -/
inductive Check where
  | ret (b : Bool)
  | waits
deriving DecidableEq, Repr

namespace Itf

def readPkt (itf : Itf) : Pkt := itf.packets itf.read

def writePkt (itf : Itf) : Pkt := itf.packets itf.write

end Itf

/-! ## The operations -/

/-- `rtdal_itfspscq_new`: zeroed memory, every slot free, both semaphores up
(`ring_buff_binary_sem_create` sets the flag). -/
def new (maxMsg msgSz : ℕ) (delay : ℤ) : Itf where
  delay := delay
  maxMsg := maxMsg
  maxMsgSz := msgSz
  read := 0
  write := 0
  semR := true
  semW := true
  packets := fun i => ⟨0, 0, 0, i * msgSz⟩
  data := fun _ => 0

def spscqIsEmpty (itf : Itf) (tstamp : ℤ) : Check :=
  if 0 ≤ itf.delay ∨ itf.delay = -2 then .ret (itf.readPkt.valid = 0)
  else if itf.readPkt.valid = 0 ∧ tstamp < itf.readPkt.tstamp then .waits
  else .ret false

def spscqIsFull (itf : Itf) : Check :=
  if 0 ≤ itf.delay then .ret (itf.writePkt.valid ≠ 0)
  else if itf.writePkt.valid ≠ 0 then .waits
  else .ret false

/-- `rtdal_itfspscq_request`: the return value and the slot's address. `none`
while the call waits on `sem_w`. -/
def request (itf : Itf) : Option (ℤ × Option ℕ) :=
  match spscqIsFull itf with
  | .waits => none
  | .ret true => some (0, none)
  | .ret false => some (1, some itf.writePkt.data)

/-- `rtdal_itfspscq_push` in time slot `now`. The `tstamp` argument of the source
is replaced by the system's time slot (`USE_SYSTEM_TSTAMP`). -/
def push (itf : Itf) (now len : ℤ) : Itf :=
  if len = 0 then itf
  else
    { itf with
      packets := Function.update itf.packets itf.write
        { itf.writePkt with tstamp := now + itf.delay, len := len, valid := 1 }
      write := Cyclic.next itf.maxMsg itf.write
      semR := if itf.delay < 0 then true else itf.semR }

/-- `rtdal_itfspscq_pop` in time slot `now`: the return value, the address and
the length. `none` while the call waits on `sem_r`. -/
def pop (itf : Itf) (now tstamp : ℤ) : Option (ℤ × Option ℕ × ℤ) :=
  match spscqIsEmpty itf tstamp with
  | .waits => none
  | .ret true => some (0, none, 0)
  | .ret false =>
    if 0 ≤ itf.delay ∧ now < itf.readPkt.tstamp then some (0, none, 0)
    else some (1, some itf.readPkt.data, itf.readPkt.len)

def release (itf : Itf) : Itf :=
  { itf with
    packets := Function.update itf.packets itf.read { itf.readPkt with valid := 0 }
    read := Cyclic.next itf.maxMsg itf.read
    semW := if itf.delay < 0 then true else itf.semW }

def send (itf : Itf) (now : ℤ) (buffer : List UInt8) : Option (ℤ × Itf) :=
  if itf.maxMsgSz < buffer.length then some (-1, itf)
  else
    match request itf with
    | none => none
    | some (n, none) => some (n, itf)
    | some (_, some ptr) =>
      some (1, push { itf with data := memcpy itf.data ptr buffer } now buffer.length)

/-- `rtdal_itfspscq_recv` into a buffer of `len` bytes: the return value, the
bytes copied and the queue afterwards. -/
def recv (itf : Itf) (now tstamp : ℤ) (len : ℕ) : Option (ℤ × List UInt8 × Itf) :=
  match pop itf now tstamp with
  | none => none
  | some (n, none, _) => some (n, [], itf)
  | some (_, some ptr, plen) =>
    let plen := if (len : ℤ) < plen then (len : ℤ) else plen
    some (plen, bytesAt itf.data ptr plen.toNat, release itf)

/-! ## The ring -/

open Lib.Cyclic List Nat

abbrev Packet : Type := List UInt8 × ℤ

def Itf.packetAt (itf : Itf) (i : ℕ) : Packet :=
  (bytesAt itf.data (itf.packets i).data (itf.packets i).len.toNat, (itf.packets i).len)

/-- The ring stores the packets `pend`, oldest first. -/
structure Holds (itf : Itf) (pend : List Packet) : Prop where
  read_lt : itf.read < itf.maxMsg
  length_le : pend.length ≤ itf.maxMsg
  write_eq : itf.write = slot itf.maxMsg itf.read pend.length
  valid_iff : ∀ i < itf.maxMsg,
    (itf.packets i).valid ≠ 0 ↔ Occupied itf.maxMsg itf.read pend.length i
  data_eq : ∀ i < itf.maxMsg, (itf.packets i).data = i * itf.maxMsgSz
  packet_eq : ∀ k (hk : k < pend.length), itf.packetAt (slot itf.maxMsg itf.read k) = pend[k]
  len_mem : ∀ k < pend.length, 0 < (itf.packets (slot itf.maxMsg itf.read k)).len ∧
      (itf.packets (slot itf.maxMsg itf.read k)).len ≤ itf.maxMsgSz

variable {itf : Itf} {pend : List Packet}

namespace Holds

lemma maxMsg_pos (h : Holds itf pend) : 0 < itf.maxMsg := lt_of_le_of_lt (zero_le _) h.read_lt

lemma write_lt (h : Holds itf pend) : itf.write < itf.maxMsg := by
  rw [h.write_eq]
  exact slot_lt h.maxMsg_pos

lemma write_valid_iff (h : Holds itf pend) : itf.writePkt.valid ≠ 0 ↔ pend.length = itf.maxMsg := by
  rw [Itf.writePkt, h.valid_iff _ h.write_lt, h.write_eq]
  constructor
  · intro hocc
    by_contra hne
    exact not_occupied_end (lt_of_le_of_ne h.length_le hne) hocc
  · intro hfull
    rw [hfull]
    exact occupied_lap h.read_lt (slot_lt h.maxMsg_pos)

lemma read_valid_iff (h : Holds itf pend) : itf.readPkt.valid ≠ 0 ↔ pend ≠ [] := by
  rw [Itf.readPkt, h.valid_iff _ h.read_lt]
  constructor
  · rintro ⟨k, hk, -⟩ rfl
    exact absurd hk (not_lt_zero k)
  · intro hne
    exact ⟨0, length_pos_iff.mpr hne, (slot_zero h.read_lt).symm⟩

lemma packetAt_read {p : Packet} (h : Holds itf (p :: pend)) : itf.packetAt itf.read = p := by
  have := h.packet_eq 0 (by simp)
  rwa [slot_zero h.read_lt] at this

lemma readPkt_len_pos {p : Packet} (h : Holds itf (p :: pend)) : 0 < itf.readPkt.len := by
  have := (h.len_mem 0 (by simp)).1
  rwa [slot_zero h.read_lt] at this

end Holds

/-! ## Slots do not share memory -/

lemma packetAt_memcpy_of_ne {bs : List UInt8} {i w : ℕ} (hne : i ≠ w)
    (hi : (itf.packets i).data = i * itf.maxMsgSz)
    (hlen : (itf.packets i).len ≤ itf.maxMsgSz) (hbs : bs.length ≤ itf.maxMsgSz) :
    Itf.packetAt { itf with data := memcpy itf.data (w * itf.maxMsgSz) bs } i = itf.packetAt i := by
  have hdisj : i * itf.maxMsgSz + (itf.packets i).len.toNat ≤ w * itf.maxMsgSz ∨
      w * itf.maxMsgSz + bs.length ≤ i * itf.maxMsgSz := by
    rcases lt_or_gt_of_ne hne with hlt | hgt
    · left
      have := mul_le_mul_right itf.maxMsgSz hlt
      rw [succ_mul] at this
      omega
    · right
      have := mul_le_mul_right itf.maxMsgSz hgt
      rw [succ_mul] at this
      omega
  simp only [Itf.packetAt, hi]
  rw [bytesAt_memcpy_of_disjoint hdisj]

/-! ## The operations on the stored list -/

lemma holds_new {maxMsg msgSz : ℕ} {delay : ℤ} (hcap : 0 < maxMsg) :
    Holds (new maxMsg msgSz delay) [] where
  read_lt := hcap
  length_le := zero_le _
  write_eq := (slot_zero hcap).symm
  valid_iff := by
    intro i _
    simp [new, Occupied]
  data_eq := fun _ _ => rfl
  packet_eq := by simp
  len_mem := by simp

lemma Holds.fill {bs : List UInt8} (h : Holds itf pend)
    (hfree : pend.length < itf.maxMsg) (hbs : bs.length ≤ itf.maxMsgSz) :
    Holds { itf with data := memcpy itf.data itf.writePkt.data bs } pend where
  read_lt := h.read_lt
  length_le := h.length_le
  write_eq := h.write_eq
  valid_iff := h.valid_iff
  data_eq := h.data_eq
  len_mem := h.len_mem
  packet_eq := by
    intro k hk
    have hne : slot itf.maxMsg itf.read k ≠ itf.write := by
      rw [h.write_eq]
      intro heq
      have := slot_inj (by omega) hfree heq
      omega
    rw [← h.packet_eq k hk, Itf.writePkt, h.data_eq _ h.write_lt]
    exact packetAt_memcpy_of_ne hne (h.data_eq _ (slot_lt h.maxMsg_pos)) (h.len_mem k hk).2 hbs

def pushed (itf : Itf) (len : ℤ) : Packet := (bytesAt itf.data itf.writePkt.data len.toNat, len)

lemma Holds.push {now len : ℤ} (h : Holds itf pend) (hfree : pend.length < itf.maxMsg)
    (hpos : 0 < len) (hle : len ≤ itf.maxMsgSz) :
    Holds (push itf now len) (pend ++ [pushed itf len]) := by
  have hslot : ∀ k < pend.length, slot itf.maxMsg itf.read k ≠ itf.write := by
    intro k hk heq
    rw [h.write_eq] at heq
    have := slot_inj (by omega) hfree heq
    omega
  simp only [Itfspscq.push, if_neg hpos.ne']
  refine ⟨h.read_lt, ?_, ?_, ?_, ?_, ?_, ?_⟩
  · simp only [length_append, length_singleton]
    exact hfree
  · simp only [length_append, length_singleton]
    rw [h.write_eq, next_slot h.maxMsg_pos]
  · intro i hi
    simp only [length_append, length_singleton]
    rw [occupied_succ, ← h.write_eq, ← h.valid_iff i hi]
    by_cases hw : i = itf.write
    · simp [hw]
    · simp [hw]
  · intro i hi
    by_cases hw : i = itf.write
    · subst hw
      simpa [Itf.writePkt] using h.data_eq _ hi
    · simpa [hw] using h.data_eq i hi
  · intro k hk
    simp only [length_append, length_singleton] at hk
    rcases Nat.lt_succ_iff_lt_or_eq.mp hk with hlt | rfl
    · rw [getElem_append_left hlt, ← h.packet_eq k hlt]
      simp [Itf.packetAt, hslot k hlt]
    · simp [Itf.packetAt, ← h.write_eq, pushed]
  · intro k hk
    simp only [length_append, length_singleton] at hk
    rcases Nat.lt_succ_iff_lt_or_eq.mp hk with hlt | rfl
    · simpa [hslot k hlt] using h.len_mem k hlt
    · simpa [← h.write_eq] using ⟨hpos, hle⟩

lemma Holds.release {p : Packet} (h : Holds itf (p :: pend)) : Holds (release itf) pend := by
  have hlen : pend.length < itf.maxMsg := h.length_le
  have hslot : ∀ k < pend.length, slot itf.maxMsg itf.read (k + 1) ≠ itf.read := by
    intro k hk heq
    have h0 : slot itf.maxMsg itf.read (k + 1) = slot itf.maxMsg itf.read 0 := by
      rw [heq, slot_zero h.read_lt]
    have := slot_inj (by omega) (by omega) h0
    omega
  refine ⟨next_lt h.read_lt, hlen.le, ?_, ?_, ?_, ?_, ?_⟩
  · simp only [Itfspscq.release]
    rw [slot_next h.read_lt, h.write_eq, length_cons]
  · intro i hi
    have hi' : i < itf.maxMsg := hi
    simp only [Itfspscq.release]
    rw [occupied_next h.read_lt hlen, ← length_cons (a := p), ← h.valid_iff i hi']
    by_cases hr : i = itf.read
    · simp [hr]
    · simp [hr]
  · intro i hi
    have hi' : i < itf.maxMsg := hi
    by_cases hr : i = itf.read
    · subst hr
      simpa [Itfspscq.release, Itf.readPkt] using h.data_eq _ hi'
    · simpa [Itfspscq.release, hr] using h.data_eq i hi'
  · intro k hk
    have hk' : k + 1 < (p :: pend).length := by simpa using hk
    have := h.packet_eq (k + 1) hk'
    simp only [getElem_cons_succ] at this
    rw [← this]
    simp only [Itfspscq.release]
    rw [slot_next h.read_lt]
    simp [Itf.packetAt, hslot k hk]
  · intro k hk
    simp only [Itfspscq.release]
    rw [slot_next h.read_lt]
    simpa [hslot k hk] using h.len_mem (k + 1) (by simpa using hk)

end Aloe.Rtdal.Itfspscq
