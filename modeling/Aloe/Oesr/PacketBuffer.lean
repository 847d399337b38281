import Aloe.Lib.Memory
import Aloe.Lib.Run
import Aloe.Oesr.Packet

/-!
# The buffer of a packet

`packet_clear`, `packet_add_data` and `packet_get_data` of
`oesr/src/common/packet.c` once more, on the memory and with the counters the source has: `int`s
whose sums wrap, an address that may be null, and copies that go wherever the counters point. As
long as no sum wraps they do to this memory what the programs of `Packet` do to a packet whose
cursors are in order by construction (`perform_refines`).
-/

namespace Aloe.Oesr.PacketBuffer

open Lib Lib.Memory List BitVec

/-- `packet_t`, but for the command and the ack word, and the memory its buffer is in. Address 0
is the null pointer. -/
structure RawPacket where
  dest : PacketDest
  wPtr : CInt
  rPtr : CInt
  size : CInt
  buffer : ℕ
  mem : Mem

/-- `&pkt->buffer[i]`. -/
def RawPacket.address (p : RawPacket) (i : CInt) : ℕ := (p.buffer + i.toInt).toNat

/-- `packet_init`, with the answer of `malloc`. The cursors are not touched. -/
def packetInit (p : RawPacket) (size : CInt) (malloc : ℕ) : ℤ × RawPacket :=
  if malloc = 0 then (-1, { p with buffer := malloc })
  else (0, { p with buffer := malloc, size := size })

def packetClear (p : RawPacket) : ℤ × RawPacket :=
  if p.buffer = 0 then (-1, p) else (0, { p with dest := ⟨0, 0, 0⟩, rPtr := 0, wPtr := 0 })

/-- `packet_add_data`; `none` is a null `data`. -/
def packetAddData (p : RawPacket) (data : Option Mem) (len : CInt) : ℤ × RawPacket :=
  if p.buffer = 0 then (-1, p)
  else
    match data with
    | none => (-1, p)
    | some src =>
      if len.toInt < 0 then (-1, p)
      else if p.size.toInt < (p.wPtr + len).toInt then (-1, p)
      else (0, { p with
        mem := memcpy p.mem (p.address p.wPtr) (bytesAt src 0 len.count)
        wPtr := p.wPtr + len })

/-- `packet_get_data`: what it returns, and the bytes it copies to `data`, which may be null. -/
def packetGetData (p : RawPacket) (data : Bool) (len : CInt) : ℤ × List UInt8 × RawPacket :=
  if p.buffer = 0 then (-1, [], p)
  else if data = false then (-1, [], p)
  else if len.toInt ≤ 0 then (-1, [], p)
  else if (p.wPtr - p.rPtr).toInt < len.toInt then (-1, [], p)
  else (0, bytesAt p.mem (p.address p.rPtr) len.count, { p with rPtr := p.rPtr + len })

/-! ## Calls and sessions -/

inductive Call where
  | clear
  | add (data : Option Mem) (len : CInt)
  | get (data : Bool) (len : CInt)

def Call.perform : Call → RawPacket → ℤ × List UInt8 × RawPacket
  | .clear, p => ((packetClear p).1, [], (packetClear p).2)
  | .add data len, p => ((packetAddData p data len).1, [], (packetAddData p data len).2)
  | .get data len, p => packetGetData p data len

def Call.bytes : Call → List UInt8
  | .add (some src) len => bytesAt src 0 len.count
  | _ => []

structure Session where
  pkt : RawPacket
  added : List UInt8
  got : List UInt8

def Session.step (s : Session) (c : Call) : Session :=
  let (ret, delivered, pkt) := c.perform s.pkt
  if ret ≠ 0 then { s with pkt := pkt }
  else
    match c with
    | .clear => ⟨pkt, [], []⟩
    | _ => ⟨pkt, s.added ++ c.bytes, s.got ++ delivered⟩

def next (c : Call) (s : Session) : Option Session := some (s.step c)

def start (p : RawPacket) (size : CInt) (malloc : ℕ) : Session :=
  ⟨(packetClear (packetInit p size malloc).2).2, [], []⟩

/-! ## The packet in memory -/

section Representation

variable {p p' : RawPacket} {pkt pkt' : Packet} {c : Call} {src : Mem} {len : CInt}

structure Represents (p : RawPacket) (pkt : Packet) : Prop where
  buffer : p.buffer ≠ 0
  wPtr : p.wPtr.toInt = pkt.data.length
  rPtr : p.rPtr.toInt = pkt.rPtr
  size : p.size.toInt = pkt.size
  dest : p.dest = pkt.dest
  data : bytesAt p.mem p.buffer pkt.data.length = pkt.data

/-- The sum of the counter and the length is no `int`. -/
def Wraps (p : RawPacket) : Call → Prop
  | .add (some _) len => 0 ≤ len.toInt ∧ 2 ^ 31 ≤ p.wPtr.toInt + len.toInt
  | _ => False

instance decidableWraps (p : RawPacket) : ∀ c, Decidable (Wraps p c)
  | .add (some _) len =>
    inferInstanceAs (Decidable (0 ≤ len.toInt ∧ 2 ^ 31 ≤ p.wPtr.toInt + len.toInt))
  | .add none _ | .clear | .get _ _ => isFalse fun h => h

def Call.program : Call → Prog Unit (List UInt8)
  | .clear => fun (pkt, s) => .ok [] (Oesr.packetClear pkt, s)
  | .add data len => do
      Oesr.packetAddData (data.map fun src => bytesAt src 0 len.count) len.toInt
      return []
  | .get true len => Oesr.packetGetData len.toInt
  | .get false _ => retErr

lemma toInt_add_of_lt {a b : CInt} (ha : 0 ≤ a.toInt) (hb : 0 ≤ b.toInt)
    (h : a.toInt + b.toInt < 2 ^ 31) : (a + b).toInt = a.toInt + b.toInt := by
  rw [toInt_add]
  exact addInt_eq ha hb h

lemma toInt_add_of_wraps {a b : CInt} (h : 2 ^ 31 ≤ a.toInt + b.toInt) : (a + b).toInt < 0 := by
  have ha := toInt_lt (x := a)
  have hb := toInt_lt (x := b)
  rw [toInt_add]
  exact addInt_wraps h (by omega)

lemma length_block (src : Mem) (h : 0 ≤ len.toInt) :
    ((bytesAt src 0 len.count).length : ℤ) = len.toInt := by
  rw [length_bytesAt, CInt.count, Int.toNat_of_nonneg h]

namespace Represents

section

variable (h : Represents p pkt)
include h

lemma address_wPtr : p.address p.wPtr = p.buffer + pkt.data.length := by
  rw [RawPacket.address, h.wPtr]
  omega

lemma address_rPtr : p.address p.rPtr = p.buffer + pkt.rPtr := by
  rw [RawPacket.address, h.rPtr]
  omega

lemma ordered : 0 ≤ p.rPtr.toInt ∧ p.rPtr.toInt ≤ p.wPtr.toInt ∧ p.wPtr.toInt ≤ p.size.toInt := by
  rw [h.rPtr, h.wPtr, h.size]
  exact ⟨by omega, Int.ofNat_le.mpr pkt.rPtr_le, Int.ofNat_le.mpr pkt.length_le⟩

lemma clear : ∃ p', packetClear p = (0, p') ∧ Represents p' (Oesr.packetClear pkt) :=
  ⟨_, if_neg h.buffer, h.buffer, rfl, rfl, h.size, rfl, rfl⟩

lemma add (hlen : 0 ≤ len.toInt)
    (hfits : pkt.data.length + (bytesAt src 0 len.count).length ≤ pkt.size) :
    ∃ p', packetAddData p (some src) len = (0, p') ∧
      Represents p' (pkt.append (bytesAt src 0 len.count) hfits) := by
  have hblock := length_block src hlen
  have hlt := pkt.size_lt
  have hsum : (p.wPtr + len).toInt = pkt.data.length + (bytesAt src 0 len.count).length := by
    rw [toInt_add_of_lt (by rw [h.wPtr]; omega) hlen (by rw [h.wPtr]; omega), h.wPtr, hblock]
  refine ⟨{ p with
    mem := memcpy p.mem (p.address p.wPtr) (bytesAt src 0 len.count)
    wPtr := p.wPtr + len }, ?_, h.buffer, ?_, h.rPtr, h.size, h.dest, ?_⟩
  · rw [packetAddData, if_neg h.buffer, if_neg (by omega), if_neg (by rw [hsum, h.size]; omega)]
  · dsimp only [Packet.append]
    rw [hsum, length_append, Int.natCast_add]
  · dsimp only [Packet.append]
    rw [length_append, bytesAt_add, h.address_wPtr, bytesAt_memcpy,
      bytesAt_memcpy_of_disjoint (.inl (le_refl _)), h.data]

lemma add_refused
    (hfull : p.size.toInt < p.wPtr.toInt + len.toInt) (hwraps : ¬ Wraps p (.add (some src) len)) :
    packetAddData p (some src) len = (-1, p) := by
  rw [packetAddData, if_neg h.buffer]
  by_cases hlen : len.toInt < 0
  · rw [if_pos hlen]
  · have hlt : p.wPtr.toInt + len.toInt < 2 ^ 31 := by
      by_contra hge
      exact hwraps ⟨by omega, by omega⟩
    rw [if_neg hlen, toInt_add_of_lt (by rw [h.wPtr]; omega) (by omega) hlt, if_pos hfull]

lemma toread : (p.wPtr - p.rPtr).toInt = pkt.data.length - pkt.rPtr := by
  have hlt := pkt.size_lt
  have hle := pkt.length_le
  have hread := pkt.rPtr_le
  rw [toInt_sub, h.wPtr, h.rPtr, Int.bmod_eq_of_le] <;> omega

lemma get (hlen : 0 < len.toInt) (hthere : pkt.rPtr + len.count ≤ pkt.data.length) :
    ∃ p', packetGetData p true len = (0, pkt.unread.take len.count, p') ∧
      Represents p' (pkt.advance len.count hthere) := by
  have hcount : (len.count : ℤ) = len.toInt := Int.toNat_of_nonneg (Int.le_of_lt hlen)
  have hlt := pkt.size_lt
  have hle := pkt.length_le
  have hsub := h.toread
  refine ⟨{ p with rPtr := p.rPtr + len }, ?_, h.buffer, h.wPtr, ?_, h.size, h.dest, h.data⟩
  · rw [packetGetData, if_neg h.buffer, if_neg (Ne.symm Bool.false_ne_true),
      if_neg (by omega), if_neg (by rw [hsub]; omega), h.address_rPtr, Packet.unread, ← h.data,
      take_drop_bytesAt hthere]
  · dsimp only [Packet.advance]
    rw [toInt_add_of_lt (by rw [h.rPtr]; omega) (Int.le_of_lt hlen) (by rw [h.rPtr]; omega), h.rPtr]
    omega

lemma get_refused {data : Bool}
    (hnot : data = false ∨ len.toInt ≤ 0 ∨ pkt.data.length < pkt.rPtr + len.count) :
    packetGetData p data len = (-1, [], p) := by
  rw [packetGetData, if_neg h.buffer]
  by_cases hdata : data = false
  · rw [if_pos hdata]
  by_cases hlen : len.toInt ≤ 0
  · rw [if_neg hdata, if_pos hlen]
  have hcount : (len.count : ℤ) = len.toInt := Int.toNat_of_nonneg (by omega)
  have hshort := (hnot.resolve_left hdata).resolve_left hlen
  rw [if_neg hdata, if_neg hlen, if_pos (by rw [h.toread]; omega)]

end

end Represents

/-- **Refinement.** On memory that holds a packet, a call whose sum does not wrap answers as its
program over the packet does, and leaves memory that holds what the program leaves. -/
theorem perform_refines (h : Represents p pkt) (hwraps : ¬ Wraps p c) :
    (∃ bs p' pkt', c.perform p = (0, bs, p') ∧ c.program (pkt, ()) = .ok bs (pkt', ()) ∧
      Represents p' pkt') ∨
    (c.perform p = (-1, [], p) ∧ c.program (pkt, ()) = .error .ret (pkt, ())) := by
  match c with
  | .clear =>
    obtain ⟨p', hclear, hp'⟩ := h.clear
    exact .inl ⟨[], p', _, by rw [Call.perform, hclear], rfl, hp'⟩
  | .add none len =>
    refine .inr ⟨?_, rfl⟩
    rw [Call.perform, packetAddData, if_neg h.buffer]
  | .add (some src) len =>
    by_cases hneg : len.toInt < 0
    · refine .inr ⟨?_, ?_⟩
      · rw [Call.perform, packetAddData, if_neg h.buffer, if_pos hneg]
      · exact bind_of_error (if_pos hneg)
    have hblock := length_block src (Int.not_lt.mp hneg)
    by_cases hfits : pkt.data.length + (bytesAt src 0 len.count).length ≤ pkt.size
    · obtain ⟨p', hadd, hp'⟩ := h.add (Int.not_lt.mp hneg) hfits
      refine .inl ⟨[], p', _, by rw [Call.perform, hadd], ?_, hp'⟩
      rw [Call.program, Option.map_some, ← hblock, bind_of_ok (packetAddData_of_le () hfits)]
      rfl
    · have hfull : p.size.toInt < p.wPtr.toInt + len.toInt := by
        rw [h.size, h.wPtr, ← hblock]
        omega
      have hsum : p.wPtr.toInt + len.toInt < 2 ^ 31 := by
        by_contra hge
        exact hwraps ⟨Int.not_lt.mp hneg, Int.not_lt.mp hge⟩
      rw [h.wPtr, ← hblock] at hsum
      refine .inr ⟨by rw [Call.perform, h.add_refused hfull hwraps], ?_⟩
      rw [Call.program, Option.map_some, ← hblock,
        bind_of_error (packetAddData_of_lt () (by omega) (by omega)), refusal, if_pos (by omega)]
  | .get false len => exact .inr ⟨h.get_refused (.inl rfl), rfl⟩
  | .get true len =>
    by_cases hpos : len.toInt ≤ 0
    · exact .inr ⟨h.get_refused (.inr (.inl hpos)), if_pos hpos⟩
    by_cases hthere : pkt.rPtr + len.count ≤ pkt.data.length
    · obtain ⟨p', hget, hp'⟩ := h.get (Int.not_le.mp hpos) hthere
      exact .inl ⟨_, p', _, hget, (if_neg hpos).trans (dif_pos hthere), hp'⟩
    · exact .inr ⟨h.get_refused (.inr (.inr (not_le.mp hthere))),
        (if_neg hpos).trans (dif_neg hthere)⟩

end Representation

/-! ## Sessions -/

structure Kept (s : Session) : Prop where
  ordered : 0 ≤ s.pkt.rPtr.toInt ∧ s.pkt.rPtr.toInt ≤ s.pkt.wPtr.toInt ∧
    s.pkt.wPtr.toInt ≤ s.pkt.size.toInt
  got : s.got <+: s.added

/-- What is to hold of a call: it keeps the packet in order, an addition succeeds exactly if the
bytes fit, and a call that fails leaves the packet alone. -/
structure Correct (c : Call) (s : Session) : Prop where
  before : Kept s
  add : ∀ src len, c = .add (some src) len → ((c.perform s.pkt).1 = 0 ↔
    0 ≤ len.toInt ∧ s.pkt.wPtr.toInt + len.toInt ≤ s.pkt.size.toInt)
  fails : (c.perform s.pkt).1 ≠ 0 → (c.perform s.pkt).2.2 = s.pkt
  after : Kept (s.step c)

def Tracks (s : Session) : Prop :=
  ∃ pkt, Represents s.pkt pkt ∧ s.added = pkt.data ∧ s.got = pkt.data.take pkt.rPtr

section Sessions

variable {s : Session} {p : RawPacket} {pkt : Packet} {c : Call}

lemma Tracks.kept : Tracks s → Kept s := by
  rintro ⟨pkt, hpkt, hadded, hgot⟩
  refine ⟨hpkt.ordered, ?_⟩
  rw [hadded, hgot]
  exact take_prefix _ _

lemma tracks_start (p : RawPacket) {size : CInt} {malloc : ℕ} (hsize : 0 ≤ size.toInt)
    (hmalloc : malloc ≠ 0) : Tracks (start p size malloc) := by
  have hlt := toInt_lt (x := size)
  refine ⟨emptyPacket size.count (by rw [CInt.count]; omega), ?_, rfl, rfl⟩
  rw [start, packetInit, if_neg hmalloc, packetClear, if_neg hmalloc]
  exact ⟨hmalloc, rfl, rfl, (Int.toNat_of_nonneg hsize).symm, rfl, rfl⟩

lemma step_of_failed (h : c.perform s.pkt = (-1, [], s.pkt)) : s.step c = s := by
  rw [Session.step, h]
  rfl

lemma program_add_ok {data : Option Mem} {len : CInt} {bs : List UInt8} {pkt' : Packet}
    (h : (Call.add data len).program (pkt, ()) = .ok bs (pkt', ())) :
    pkt'.data = pkt.data ++ (Call.add data len).bytes ∧ pkt'.rPtr = pkt.rPtr ∧ bs = [] := by
  cases data with
  | none => cases h
  | some src =>
    obtain ⟨_, q, hadd, hret⟩ := bind_ok.mp h
    cases hret
    have hcopy : (bytesAt src 0 len.count).take len.toInt.toNat = bytesAt src 0 len.count :=
      take_of_length_le (le_of_eq length_bytesAt)
    simp only [Oesr.packetAddData, Option.map_some, hcopy] at hadd
    split_ifs at hadd
    cases hadd
    exact ⟨rfl, rfl, rfl⟩

lemma program_get_ok {data : Bool} {len : CInt} {bs : List UInt8} {pkt' : Packet}
    (h : (Call.get data len).program (pkt, ()) = .ok bs (pkt', ())) :
    pkt'.data = pkt.data ∧ pkt'.data.take pkt'.rPtr = pkt.data.take pkt.rPtr ++ bs := by
  cases data with
  | false => cases h
  | true =>
    simp only [Call.program, Oesr.packetGetData] at h
    split_ifs at h with hpos hthere
    cases h
    exact ⟨rfl, take_add⟩

lemma Tracks.step (h : Tracks s) (hwraps : ¬ Wraps s.pkt c) : Tracks (s.step c) := by
  obtain ⟨pkt, hpkt, hadded, hgot⟩ := h
  obtain ⟨bs, p', pkt', hperform, hprogram, hp'⟩ | ⟨hperform, -⟩ := perform_refines hpkt hwraps
  · rw [Session.step, hperform]
    dsimp only
    rw [if_neg (not_not.mpr rfl)]
    cases c with
    | clear =>
      cases hprogram
      exact ⟨_, hp', rfl, rfl⟩
    | add data len =>
      obtain ⟨hdata, hread, rfl⟩ := program_add_ok hprogram
      refine ⟨pkt', hp', by rw [hadded, hdata], ?_⟩
      rw [append_nil, hgot, hread, hdata, take_append_of_le_length pkt.rPtr_le]
    | get data len =>
      obtain ⟨hdata, hread⟩ := program_get_ok hprogram
      exact ⟨pkt', hp', by rw [hadded, hdata]; exact append_nil _, by rw [hgot, hread]⟩
  · rw [step_of_failed hperform]
    exact ⟨pkt, hpkt, hadded, hgot⟩

/-- **One call.** In a session that was kept, a call is correct unless its sum wraps. -/
theorem Tracks.correct_iff (h : Tracks s) : Correct c s ↔ ¬ Wraps s.pkt c := by
  obtain ⟨pkt, hpkt, -⟩ := id h
  constructor
  · intro hcorrect hwraps
    match c, hwraps with
    | .add (some src) len, ⟨hlen, hsum⟩ =>
      have hlt := toInt_lt (x := s.pkt.size)
      have hnonneg : 0 ≤ s.pkt.size.toInt := by rw [hpkt.size]; omega
      have hneg := toInt_add_of_wraps hsum
      have hret : ((Call.add (some src) len).perform s.pkt).1 = 0 := by
        rw [Call.perform, packetAddData, if_neg hpkt.buffer, if_neg (by omega), if_neg (by omega)]
      have hfits := ((hcorrect.add src len rfl).mp hret).2
      omega
  · intro hwraps
    refine ⟨h.kept, ?_, ?_, (h.step hwraps).kept⟩
    · rintro src len rfl
      rw [Call.perform]
      by_cases hfits : s.pkt.wPtr.toInt + len.toInt ≤ s.pkt.size.toInt
      · by_cases hneg : len.toInt < 0
        · rw [packetAddData, if_neg hpkt.buffer, if_pos hneg]
          exact iff_of_false (by decide : (-1 : ℤ) ≠ 0) fun hlen => by omega
        · have hblock := length_block src (Int.not_lt.mp hneg)
          rw [hpkt.wPtr, hpkt.size, ← hblock] at hfits
          have hroom : pkt.data.length + (bytesAt src 0 len.count).length ≤ pkt.size := by omega
          obtain ⟨p', hadd, -⟩ := hpkt.add (Int.not_lt.mp hneg) hroom
          rw [hadd, hpkt.wPtr, hpkt.size, ← hblock]
          exact iff_of_true rfl ⟨by omega, hfits⟩
      · rw [hpkt.add_refused (Int.not_le.mp hfits) hwraps]
        exact iff_of_false (by decide : (-1 : ℤ) ≠ 0) fun hlen => hfits hlen.2
    · intro hret
      obtain ⟨bs, p', pkt', hperform, -⟩ | ⟨hperform, -⟩ := perform_refines hpkt hwraps
      · rw [hperform] at hret
        exact absurd rfl hret
      · rw [hperform]

end Sessions

/-- **Packet buffer.** Whatever the size of the buffer and the calls, all calls are correct
exactly if no call adds to the write cursor more than an `int` holds. -/
theorem packet_buffer (p : RawPacket) (size : CInt) (malloc : ℕ) (calls : List Call)
    (hsize : 0 ≤ size.toInt) (hmalloc : malloc ≠ 0) :
    Meets next Correct calls (start p size malloc) ↔
      Meets next (fun c s => ¬ Wraps s.pkt c) calls (start p size malloc) := by
  refine meets_congr Tracks ?_ (fun c s h => h.correct_iff) (tracks_start p hsize hmalloc)
  intro c s s' h hwraps hnext
  cases hnext
  exact h.step hwraps

def blankPacket : RawPacket := ⟨⟨0, 0, 0⟩, 0, 0, 0, 0, fun _ => 0⟩

theorem packet_buffer_four : 0 ≤ (4 : CInt).toInt ∧ (1000 : ℕ) ≠ 0 ∧
    Meets next Correct [.add (some fun _ => 7) 3, .get true 2] (start blankPacket 4 1000) := by
  refine ⟨by decide, by decide, (packet_buffer blankPacket 4 1000 _ (by decide) (by decide)).mpr ?_⟩
  decide +kernel

theorem packet_overrun : let s := (start blankPacket 4 1000).step (.add (some fun _ => 7) 1)
    let c := Call.add (some fun _ => 7) 2147483647
    (c.perform s.pkt).1 = 0 ∧ s.pkt.size.toInt < s.pkt.wPtr.toInt + (2147483647 : CInt).toInt ∧
      (s.step c).pkt.wPtr.toInt < 0 ∧ ¬ Correct c s := by
  refine ⟨by decide +kernel, by decide +kernel, by decide +kernel, fun h => ?_⟩
  obtain ⟨hread, hwrite, -⟩ := h.after.ordered
  exact absurd (Int.le_trans hread hwrite) (by decide +kernel)

end Aloe.Oesr.PacketBuffer
