import Aloe.Lib.Run
import Aloe.Rtdal.Itfspscq

/-!
# One producer, one consumer

The system is a queue, the time slot counter and the two parties, each between two calls or inside
one. Every call is one atomic action, a blocking call one per test and one per semaphore take, and
a run is any list of enabled actions. Three histories are kept beside the state: the packets whose
`send` or `push` returned 1, those the consumer obtained, and those it released.

With delay -1 `pop` waits only while the slot is free *and* its old time stamp is ahead of the
caller's, so the first `pop` of a fresh queue obtains a packet nobody sent. `PopGuard` excludes
this.
-/

namespace Aloe.Rtdal.Itfspscq

open Lib Lib.Memory List Option Cyclic

/-! ## The system -/

/-- The producer: between calls, in the wait loop of `request` (before the take,
or after it and about to test again), or holding the slot it was given. -/
inductive Producer where
  | idle
  | waiting
  | testing
  | requested (ptr : ℕ)
deriving DecidableEq, Repr

/-- The consumer: between calls, in the wait loop of `pop`, or holding the packet
it was given. -/
inductive Consumer where
  | idle
  | waiting (tstamp : ℤ)
  | testing (tstamp : ℤ)
  | holding (ptr : ℕ) (len : ℤ)
deriving DecidableEq, Repr

structure Sys where
  itf : Itf
  now : ℤ
  prod : Producer
  cons : Consumer
  sent : List Packet
  got : List Packet
  released : List Packet

inductive Act where
  | tick (slots : ℕ)
  | send (buffer : List UInt8)
  | request
  | takeW
  | retestW
  | fill (bytes : List UInt8)
  | push (len : ℤ)
  | recv (len : ℕ) (tstamp : ℤ)
  | pop (tstamp : ℤ)
  | takeR
  | retestR
  | release
deriving DecidableEq, Repr

def Sys.init (maxMsg msgSz : ℕ) (delay now : ℤ) : Sys where
  itf := new maxMsg msgSz delay
  now := now
  prod := .idle
  cons := .idle
  sent := []
  got := []
  released := []

/-- The producer after the test of `request`. -/
def afterRequest (s : Sys) : Sys :=
  match request s.itf with
  | none => { s with prod := .waiting }
  | some (_, none) => { s with prod := .idle }
  | some (_, some ptr) => { s with prod := .requested ptr }

/-- The consumer after the test of `pop`. A packet is obtained when `pop` returns
1: its bytes are those at the returned address. -/
def afterPop (s : Sys) (tstamp : ℤ) : Sys :=
  match pop s.itf s.now tstamp with
  | none => { s with cons := .waiting tstamp }
  | some (_, none, _) => { s with cons := .idle }
  | some (_, some ptr, len) =>
    { s with
      cons := .holding ptr len
      got := s.got ++ [(bytesAt s.itf.data ptr len.toNat, len)] }

/-- One atomic action. The producer pushes between 1 and `maxMsgSz` bytes of the slot it was given;
the consumer receives into a buffer that holds the packet, and releases what it popped before it
pops again. -/
def step : Act → Sys → Option Sys
  | .tick n, s => some { s with now := s.now + n }
  | .send buffer, s =>
    if s.prod = .idle then
      (send s.itf s.now buffer).map fun (r : ℤ × Itf) =>
        { s with
          itf := r.2
          sent := if r.1 = 1 ∧ buffer ≠ [] then s.sent ++ [(buffer, (buffer.length : ℤ))]
            else s.sent }
    else none
  | .request, s => if s.prod = .idle then some (afterRequest s) else none
  | .takeW, s =>
    if s.prod = .waiting ∧ s.itf.semW = true then
      some { s with itf := { s.itf with semW := false }, prod := .testing }
    else none
  | .retestW, s => if s.prod = .testing then some (afterRequest s) else none
  | .fill bytes, s =>
    match s.prod with
    | .requested ptr =>
      if bytes.length ≤ s.itf.maxMsgSz then
        some { s with itf := { s.itf with data := memcpy s.itf.data ptr bytes } }
      else none
    | _ => none
  | .push len, s =>
    match s.prod with
    | .requested ptr =>
      if 0 < len ∧ len ≤ s.itf.maxMsgSz then
        some { s with
          itf := push s.itf s.now len
          prod := .idle
          sent := s.sent ++ [(bytesAt s.itf.data ptr len.toNat, len)] }
      else none
    | _ => none
  | .recv len tstamp, s =>
    if s.cons = .idle ∧ s.itf.readPkt.len ≤ len then
      (recv s.itf s.now tstamp len).map fun (r : ℤ × List UInt8 × Itf) =>
        if r.1 = 0 then { s with itf := r.2.2 }
        else
          { s with
            itf := r.2.2
            got := s.got ++ [(r.2.1, r.1)]
            released := s.released ++ [(r.2.1, r.1)] }
    else none
  | .pop tstamp, s => if s.cons = .idle then some (afterPop s tstamp) else none
  | .takeR, s =>
    match s.cons with
    | .waiting tstamp =>
      if s.itf.semR = true then
        some { s with itf := { s.itf with semR := false }, cons := .testing tstamp }
      else none
    | _ => none
  | .retestR, s =>
    match s.cons with
    | .testing tstamp => some (afterPop s tstamp)
    | _ => none
  | .release, s =>
    match s.cons with
    | .holding ptr len => some { s with
        itf := release s.itf
        cons := .idle
        released := s.released ++ [(bytesAt s.itf.data ptr len.toNat, len)] }
    | _ => none

/-! ## What each call can answer -/

lemma request_cases (itf : Itf) : (request itf = none ∧ itf.delay < 0) ∨
    (request itf = some (0, none) ∧ itf.writePkt.valid ≠ 0) ∨
    (request itf = some (1, some itf.writePkt.data) ∧ itf.writePkt.valid = 0) := by
  by_cases hd : 0 ≤ itf.delay <;> by_cases hv : itf.writePkt.valid = 0
  · simp [request, spscqIsFull, hd, hv]
  · simp [request, spscqIsFull, hd, hv]
  · simp [request, spscqIsFull, hd, hv]
  · simp [request, spscqIsFull, hd, hv, not_le.mp hd]

/-- The call of `pop` does not run past an empty slot: the queue tests the flag
alone, or the slot is taken, or its old time stamp is ahead of the call's. -/
def PopGuard (itf : Itf) (tstamp : ℤ) : Prop :=
  0 ≤ itf.delay ∨ itf.delay = -2 ∨ itf.readPkt.valid ≠ 0 ∨ tstamp < itf.readPkt.tstamp

variable {itf : Itf} {tstamp len now : ℤ} {ptr : ℕ} {p : Packet} {t : Sys} {acts : List Act}

lemma pop_cases (now : ℤ) (hg : PopGuard itf tstamp) :
    (pop itf now tstamp = none ∧ tstamp < itf.readPkt.tstamp) ∨
    pop itf now tstamp = some (0, none, 0) ∨
    (pop itf now tstamp = some (1, some itf.readPkt.data, itf.readPkt.len) ∧
      itf.readPkt.valid ≠ 0) := by
  by_cases hflag : 0 ≤ itf.delay ∨ itf.delay = -2
  · by_cases hv : itf.readPkt.valid = 0
    · simp [pop, spscqIsEmpty, hflag, hv]
    · by_cases hnow : 0 ≤ itf.delay ∧ now < itf.readPkt.tstamp
      · simp [pop, spscqIsEmpty, hv, hnow]
      · simp [pop, spscqIsEmpty, hflag, hv, hnow]
  · have hd : ¬ 0 ≤ itf.delay := fun h => hflag (.inl h)
    by_cases hv : itf.readPkt.valid = 0
    · have ht : tstamp < itf.readPkt.tstamp := by
        rcases hg with h | h | h | h
        · exact absurd h hd
        · exact absurd (.inr h) hflag
        · exact absurd hv h
        · exact h
      simp [pop, spscqIsEmpty, hflag, hv, ht]
    · simp [pop, spscqIsEmpty, hv, hd]

/-! ## The invariant -/

/-- The slot the producer holds is the free one at `write`. -/
def ProducerInv (s : Sys) (pend : List Packet) : Prop :=
  match s.prod with
  | .requested ptr => pend.length < s.itf.maxMsg ∧ ptr = s.itf.write * s.itf.maxMsgSz
  | _ => True

/-- The consumer has released what it obtained, but for the packet it holds, the oldest one stored;
it waits only while the slot it is to read is taken or has a later time stamp. -/
def ConsumerInv (s : Sys) (pend : List Packet) : Prop :=
  match s.cons with
  | .idle => s.got = s.released
  | .waiting tstamp | .testing tstamp =>
    s.got = s.released ∧ (pend ≠ [] ∨ tstamp < s.itf.readPkt.tstamp)
  | .holding ptr len => ∃ p rest, pend = p :: rest ∧ s.got = s.released ++ [p] ∧
      ptr = s.itf.read * s.itf.maxMsgSz ∧ len = p.2

structure Inv (maxMsg msgSz : ℕ) (delay : ℤ) (s : Sys) (pend : List Packet) : Prop where
  maxMsg_eq : s.itf.maxMsg = maxMsg
  maxMsgSz_eq : s.itf.maxMsgSz = msgSz
  delay_eq : s.itf.delay = delay
  holds : Holds s.itf pend
  sent_eq : s.sent = s.released ++ pend
  producer : ProducerInv s pend
  consumer : ConsumerInv s pend

variable {maxMsg msgSz : ℕ} {delay : ℤ} {s : Sys} {pend : List Packet}

lemma inv_init (now : ℤ) (hcap : 0 < maxMsg) :
    Inv maxMsg msgSz delay (Sys.init maxMsg msgSz delay now) [] where
  maxMsg_eq := rfl
  maxMsgSz_eq := rfl
  delay_eq := rfl
  holds := holds_new hcap
  sent_eq := rfl
  producer := trivial
  consumer := rfl

section

variable (h : Holds itf pend)
include h

lemma Holds.writePkt_data : itf.writePkt.data = itf.write * itf.maxMsgSz := h.data_eq _ h.write_lt

lemma Holds.readPkt_data : itf.readPkt.data = itf.read * itf.maxMsgSz := h.data_eq _ h.read_lt

lemma Holds.length_lt (hv : itf.writePkt.valid = 0) : pend.length < itf.maxMsg := by
  refine lt_of_le_of_ne h.length_le fun hfull => ?_
  exact h.write_valid_iff.mpr hfull hv

lemma Holds.semW (b : Bool) : Holds { itf with semW := b } pend :=
  ⟨h.read_lt, h.length_le, h.write_eq, h.valid_iff, h.data_eq, h.packet_eq, h.len_mem⟩

lemma Holds.semR (b : Bool) : Holds { itf with semR := b } pend :=
  ⟨h.read_lt, h.length_le, h.write_eq, h.valid_iff, h.data_eq, h.packet_eq, h.len_mem⟩

end

variable (h : Inv maxMsg msgSz delay s pend)

include h in
lemma Inv.requested (hprod : s.prod = .requested ptr) :
    pend.length < s.itf.maxMsg ∧ ptr = s.itf.write * s.itf.maxMsgSz := by
  simpa only [ProducerInv, hprod] using h.producer

include h in
lemma Inv.holding (hcons : s.cons = .holding ptr len) :
    ∃ p rest, pend = p :: rest ∧ s.got = s.released ++ [p] ∧
      ptr = s.itf.read * s.itf.maxMsgSz ∧ len = p.2 := by
  simpa only [ConsumerInv, hcons] using h.consumer

/-! ### The producer's steps -/

section

variable (h : Inv maxMsg msgSz delay s pend)
include h

lemma Inv.afterRequest : Inv maxMsg msgSz delay (afterRequest s) pend := by
  rcases request_cases s.itf with ⟨hr, -⟩ | ⟨hr, -⟩ | ⟨hr, hv⟩
  · simp only [Itfspscq.afterRequest, hr]
    exact ⟨h.1, h.2, h.3, h.holds, h.sent_eq, trivial, h.consumer⟩
  · simp only [Itfspscq.afterRequest, hr]
    exact ⟨h.1, h.2, h.3, h.holds, h.sent_eq, trivial, h.consumer⟩
  · simp only [Itfspscq.afterRequest, hr]
    exact ⟨h.1, h.2, h.3, h.holds, h.sent_eq,
      ⟨h.holds.length_lt hv, h.holds.writePkt_data⟩, h.consumer⟩

lemma Inv.fill {bytes : List UInt8}
    (hfree : pend.length < s.itf.maxMsg) (hlen : bytes.length ≤ s.itf.maxMsgSz) :
    Inv maxMsg msgSz delay
      { s with itf := { s.itf with data := memcpy s.itf.data s.itf.writePkt.data bytes } }
      pend :=
  ⟨h.1, h.2, h.3, h.holds.fill hfree hlen, h.sent_eq, h.producer, h.consumer⟩

lemma Inv.push (hfree : pend.length < s.itf.maxMsg) (hpos : 0 < len) (hle : len ≤ s.itf.maxMsgSz) :
    Inv maxMsg msgSz delay { s with
        itf := push s.itf s.now len
        prod := .idle
        sent := s.sent ++ [pushed s.itf len] }
      (pend ++ [pushed s.itf len]) := by
  have hpush : Itfspscq.push s.itf s.now len = { s.itf with
      packets := Function.update s.itf.packets s.itf.write
        { s.itf.writePkt with tstamp := s.now + s.itf.delay, len := len, valid := 1 }
      write := next s.itf.maxMsg s.itf.write
      semR := if s.itf.delay < 0 then true else s.itf.semR } := by
    simp [Itfspscq.push, hpos.ne']
  refine ⟨?_, ?_, ?_, h.holds.push hfree hpos hle, ?_, trivial, ?_⟩
  · simpa [hpush] using h.maxMsg_eq
  · simpa [hpush] using h.maxMsgSz_eq
  · simpa [hpush] using h.delay_eq
  · simp [h.sent_eq]
  · have hc := h.consumer
    unfold ConsumerInv at hc ⊢
    cases hcons : s.cons with
    | idle =>
      simp only [hcons] at hc ⊢
      exact hc
    | waiting t | testing t =>
      simp only [hcons] at hc ⊢
      exact ⟨hc.1, .inl (by simp)⟩
    | holding ptr l => grind

lemma Inv.send {buffer : List UInt8} {r : ℤ × Itf} (hidle : s.prod = .idle)
    (hr : send s.itf s.now buffer = some r) :
    ∃ pend', Inv maxMsg msgSz delay { s with
        itf := r.2
        sent := if r.1 = 1 ∧ buffer ≠ [] then s.sent ++ [(buffer, (buffer.length : ℤ))]
          else s.sent } pend' := by
  unfold Itfspscq.send at hr
  by_cases hlong : s.itf.maxMsgSz < buffer.length
  · rw [if_pos hlong, some.injEq] at hr
    subst hr
    exact ⟨pend, by simpa using h⟩
  · rw [if_neg hlong] at hr
    rcases request_cases s.itf with ⟨hq, -⟩ | ⟨hq, -⟩ | ⟨hq, hv⟩
    · simp [hq] at hr
    · simp only [hq, some.injEq] at hr
      subst hr
      exact ⟨pend, by simpa using h⟩
    · simp only [hq, some.injEq] at hr
      subst hr
      have hfree := h.holds.length_lt hv
      have hfill := h.fill hfree (not_lt.mp hlong)
      by_cases hnil : buffer = []
      · subst hnil
        refine ⟨pend, ?_⟩
        simpa [Itfspscq.push, hidle] using hfill
      · have hpos : (0 : ℤ) < buffer.length := by
          exact_mod_cast length_pos_iff.mpr hnil
        have hpush := hfill.push hfree hpos (by simpa using hlong)
        refine ⟨pend ++ [(buffer, (buffer.length : ℤ))], ?_⟩
        have hpkt : pushed { s.itf with data := memcpy s.itf.data s.itf.writePkt.data buffer }
            buffer.length = (buffer, (buffer.length : ℤ)) := by
          simp [pushed, Itf.writePkt]
        simp only [hpkt, ← hidle] at hpush
        simpa [hnil] using hpush

end

/-! ### The consumer's steps -/

lemma Holds.bytesAt_head (h : Holds itf (p :: pend)) :
    (bytesAt itf.data (itf.read * itf.maxMsgSz) p.2.toNat, p.2) = p := by
  have hp := h.packetAt_read
  have hlen : (itf.packets itf.read).len = p.2 := by rw [← hp, Itf.packetAt]
  rw [Itf.packetAt, hlen, h.data_eq _ h.read_lt] at hp
  exact hp

lemma Holds.readPkt_len (h : Holds itf (p :: pend)) : itf.readPkt.len = p.2 := by
  rw [← h.packetAt_read, Itf.packetAt, Itf.readPkt]

include h in
lemma Inv.afterPop (hgot : s.got = s.released) (hguard : PopGuard s.itf tstamp) :
    Inv maxMsg msgSz delay (afterPop s tstamp) pend := by
  rcases pop_cases s.now hguard with ⟨hp, ht⟩ | hp | ⟨hp, hv⟩
  · simp only [Itfspscq.afterPop, hp]
    exact ⟨h.1, h.2, h.3, h.holds, h.sent_eq, h.producer, ⟨hgot, .inr ht⟩⟩
  · simp only [Itfspscq.afterPop, hp]
    exact ⟨h.1, h.2, h.3, h.holds, h.sent_eq, h.producer, hgot⟩
  · simp only [Itfspscq.afterPop, hp]
    obtain ⟨p, rest, rfl⟩ := exists_cons_of_ne_nil (h.holds.read_valid_iff.mp hv)
    have hhead := h.holds.bytesAt_head
    rw [h.holds.readPkt_len, h.holds.readPkt_data, hhead]
    exact ⟨h.1, h.2, h.3, h.holds, h.sent_eq, h.producer, ⟨p, rest, rfl, by rw [hgot], rfl, rfl⟩⟩

lemma Inv.release {got : List Packet}
    (h : Inv maxMsg msgSz delay s (p :: pend)) (hgot : got = s.released ++ [p]) :
    Inv maxMsg msgSz delay { s with
        itf := release s.itf
        cons := .idle
        got := got
        released := s.released ++ [p] } pend := by
  refine ⟨h.1, h.2, h.3, h.holds.release, ?_, ?_, hgot⟩
  · simp [h.sent_eq]
  · have hp := h.producer
    unfold ProducerInv at hp ⊢
    cases hprod : s.prod with
    | idle | waiting | testing => trivial
    | requested ptr =>
      simp only [hprod, length_cons] at hp ⊢
      exact ⟨Nat.lt_of_succ_lt hp.1, hp.2⟩

include h in
lemma Inv.recv {len : ℕ} {r : ℤ × List UInt8 × Itf} (hidle : s.cons = .idle)
    (hlen : s.itf.readPkt.len ≤ len) (hguard : PopGuard s.itf tstamp)
    (hr : recv s.itf s.now tstamp len = some r) :
    ∃ pend', Inv maxMsg msgSz delay (if r.1 = 0 then { s with itf := r.2.2 }
        else
          { s with
            itf := r.2.2
            got := s.got ++ [(r.2.1, r.1)]
            released := s.released ++ [(r.2.1, r.1)] }) pend' := by
  have hgot : s.got = s.released := by
    have hc := h.consumer
    simpa only [ConsumerInv, hidle] using hc
  unfold Itfspscq.recv at hr
  rcases pop_cases s.now hguard with ⟨hp, -⟩ | hp | ⟨hp, hv⟩
  · simp [hp] at hr
  · simp only [hp, some.injEq] at hr
    subst hr
    exact ⟨pend, by simpa using h⟩
  · simp only [hp, if_neg (not_lt.mpr hlen), some.injEq] at hr
    subst hr
    obtain ⟨p, rest, rfl⟩ := exists_cons_of_ne_nil (h.holds.read_valid_iff.mp hv)
    have hpos := h.holds.readPkt_len_pos
    refine ⟨rest, ?_⟩
    rw [if_neg hpos.ne', h.holds.readPkt_len, h.holds.readPkt_data, h.holds.bytesAt_head, hidle]
    exact h.release (by rw [hgot])

/-! ## Steps and runs -/

def StepGuard (a : Act) (s : Sys) : Prop :=
  match a with
  | .pop tstamp | .recv _ tstamp => PopGuard s.itf tstamp
  | _ => True

include h in
/-- **Step lemma.** Every guarded action keeps the invariant. -/
theorem step_inv {a : Act} (hguard : StepGuard a s) (hstep : step a s = some t) :
    ∃ pend', Inv maxMsg msgSz delay t pend' := by
  cases a with
  | tick n =>
    cases hstep
    exact ⟨pend, h.1, h.2, h.3, h.holds, h.sent_eq, h.producer, h.consumer⟩
  | send buffer =>
    simp only [step, ite_none_right_eq_some, map_eq_some_iff] at hstep
    obtain ⟨hidle, r, hr, rfl⟩ := hstep
    exact h.send hidle hr
  | request =>
    simp only [step, ite_none_right_eq_some, some.injEq] at hstep
    obtain ⟨-, rfl⟩ := hstep
    exact ⟨pend, h.afterRequest⟩
  | takeW =>
    simp only [step, ite_none_right_eq_some, some.injEq] at hstep
    obtain ⟨-, rfl⟩ := hstep
    exact ⟨pend, h.1, h.2, h.3, h.holds.semW false, h.sent_eq, trivial, h.consumer⟩
  | retestW =>
    simp only [step, ite_none_right_eq_some, some.injEq] at hstep
    obtain ⟨-, rfl⟩ := hstep
    exact ⟨pend, h.afterRequest⟩
  | fill bytes =>
    cases hprod : s.prod with
    | idle | waiting | testing => simp [step, hprod] at hstep
    | requested ptr =>
      simp only [step, hprod, ite_none_right_eq_some, some.injEq] at hstep
      obtain ⟨hlen, rfl⟩ := hstep
      obtain ⟨hfree, hptr⟩ := h.requested hprod
      have hfill := h.fill hfree hlen
      rw [h.holds.writePkt_data, ← hptr, hprod] at hfill
      exact ⟨pend, hfill⟩
  | push len =>
    cases hprod : s.prod with
    | idle | waiting | testing => simp [step, hprod] at hstep
    | requested ptr =>
      simp only [step, hprod, ite_none_right_eq_some, some.injEq] at hstep
      obtain ⟨⟨hpos, hle⟩, rfl⟩ := hstep
      obtain ⟨hfree, hptr⟩ := h.requested hprod
      rw [hptr, ← h.holds.writePkt_data]
      exact ⟨_, h.push hfree hpos hle⟩
  | recv len tstamp =>
    simp only [step, ite_none_right_eq_some, map_eq_some_iff] at hstep
    obtain ⟨⟨hidle, hlen⟩, r, hr, rfl⟩ := hstep
    exact h.recv hidle hlen hguard hr
  | pop tstamp =>
    simp only [step, ite_none_right_eq_some, some.injEq] at hstep
    obtain ⟨hidle, rfl⟩ := hstep
    have hgot : s.got = s.released := by
      simpa only [ConsumerInv, hidle] using h.consumer
    exact ⟨pend, h.afterPop hgot hguard⟩
  | takeR =>
    cases hcons : s.cons with
    | idle | testing _ | holding _ _ => simp [step, hcons] at hstep
    | waiting tstamp =>
      simp only [step, hcons, ite_none_right_eq_some, some.injEq] at hstep
      obtain ⟨-, rfl⟩ := hstep
      have hc : s.got = s.released ∧ (pend ≠ [] ∨ tstamp < s.itf.readPkt.tstamp) := by
        simpa only [ConsumerInv, hcons] using h.consumer
      exact ⟨pend, h.1, h.2, h.3, h.holds.semR false, h.sent_eq, h.producer, hc⟩
  | retestR =>
    cases hcons : s.cons with
    | idle | waiting _ | holding _ _ => simp [step, hcons] at hstep
    | testing tstamp =>
      simp only [step, hcons, some.injEq] at hstep
      subst hstep
      obtain ⟨hgot, hwait⟩ : s.got = s.released ∧ (pend ≠ [] ∨ tstamp < s.itf.readPkt.tstamp) := by
        simpa only [ConsumerInv, hcons] using h.consumer
      -- the slot the consumer waits for is written by a push only, which marks it
      have hg : PopGuard s.itf tstamp := .inr (.inr (hwait.imp_left h.holds.read_valid_iff.mpr))
      exact ⟨pend, h.afterPop hgot hg⟩
  | release =>
    cases hcons : s.cons with
    | idle | waiting _ | testing _ => simp [step, hcons] at hstep
    | holding ptr len =>
      simp only [step, hcons, some.injEq] at hstep
      subst hstep
      obtain ⟨p, rest, rfl, hgot, rfl, rfl⟩ := h.holding hcons
      rw [h.holds.bytesAt_head]
      exact ⟨rest, h.release hgot⟩

/-- **Run lemma.** The invariant holds at the end of every guarded run. -/
theorem run_inv (hcap : 0 < maxMsg)
    (hmeets : Meets step StepGuard acts (Sys.init maxMsg msgSz delay now))
    (hrun : run step acts (Sys.init maxMsg msgSz delay now) = some t) :
    ∃ pend, Inv maxMsg msgSz delay t pend :=
  run_invariant (fun s => ∃ pend, Inv maxMsg msgSz delay s pend)
    (fun _ _ _ ⟨_, h⟩ hg hs => step_inv h hg hs) ⟨[], inv_init now hcap⟩ hmeets hrun

lemma run_inv_of_nonneg (hcap : 0 < maxMsg)
    (hdelay : 0 ≤ delay) (hrun : run step acts (Sys.init maxMsg msgSz delay now) = some t) :
    ∃ pend, Inv maxMsg msgSz delay t pend := by
  refine run_invariant (fun s => ∃ pend, Inv maxMsg msgSz delay s pend) ?_
    ⟨[], inv_init now hcap⟩ (meets_of_forall (fun _ _ => trivial) _ _ :
      Meets step (fun _ _ => True) _ _) hrun
  rintro a s t ⟨pend, h⟩ - hs
  have hguard : StepGuard a s := by
    have hd : ∀ tstamp, PopGuard s.itf tstamp := fun _ => .inl (h.delay_eq ▸ hdelay)
    cases a <;> first | exact hd _ | trivial
  exact step_inv h hguard hs

/-! ## The non-blocking queue -/

def Sys.outstanding (s : Sys) : ℕ := s.sent.length - s.released.length

/-- The packets of the `n` slots from `read`, oldest first. -/
def stored (itf : Itf) (n : ℕ) : List Packet :=
  (List.range n).map fun k => itf.packetAt (Cyclic.slot itf.maxMsg itf.read k)

lemma Holds.stored_eq (h : Holds itf pend) : stored itf pend.length = pend := by
  apply ext_getElem
  · simp [stored]
  · intro k hk hk'
    simpa [stored] using h.packet_eq k hk'

section

variable (h : Inv maxMsg msgSz delay s pend)
include h

lemma Inv.outstanding_eq : s.outstanding = pend.length := by
  simp [Sys.outstanding, h.sent_eq]

lemma Inv.got_prefix_sent : s.got <+: s.sent := by
  have hc := h.consumer
  rw [h.sent_eq]
  unfold ConsumerInv at hc
  cases hcons : s.cons with
  | idle =>
    simp only [hcons] at hc
    exact hc ▸ prefix_append _ _
  | waiting t | testing t =>
    simp only [hcons] at hc
    exact hc.1 ▸ prefix_append _ _
  | holding ptr len =>
    obtain ⟨p, rest, rfl, hgot, -, -⟩ := h.holding hcons
    rw [hgot]
    exact ⟨rest, by simp⟩

lemma Inv.got_holding (hcons : s.cons = .holding ptr len) :
    s.got = s.released ++ [(bytesAt s.itf.data ptr len.toNat, len)] := by
  obtain ⟨p, rest, rfl, hgot, rfl, rfl⟩ := h.holding hcons
  rw [hgot, h.holds.bytesAt_head]

lemma Inv.request_iff (hdelay : 0 ≤ delay) :
    request s.itf ≠ none ∧ (request s.itf = some (0, none) ↔ pend.length = maxMsg) := by
  rcases request_cases s.itf with ⟨-, hneg⟩ | ⟨hr, hv⟩ | ⟨hr, hv⟩
  · rw [h.delay_eq] at hneg
    exact absurd hdelay (not_le.mpr hneg)
  · rw [h.holds.write_valid_iff, h.maxMsg_eq] at hv
    simp [hr, hv]
  · have hlt := h.holds.length_lt hv
    rw [h.maxMsg_eq] at hlt
    simp [hr, hlt.ne]

end

lemma Holds.read_eq_write_iff (h : Holds itf pend) :
    itf.read = itf.write ↔ pend.length = 0 ∨ pend.length = itf.maxMsg := by
  rw [h.write_eq]
  constructor
  · intro heq
    by_contra hne
    have h0 : slot itf.maxMsg itf.read 0 = slot itf.maxMsg itf.read pend.length := by
      rw [slot_zero h.read_lt, ← heq]
    have := slot_inj h.maxMsg_pos (lt_of_le_of_ne h.length_le fun e => hne (.inr e)) h0
    exact hne (.inl this.symm)
  · rintro (h0 | hfull)
    · rw [h0, slot_zero h.read_lt]
    · rw [hfull, slot_lap h.read_lt]

/-- **First in, first out.** In every run of one producer and one consumer over a queue with a
non-negative delay, the packets obtained are a prefix of those sent; what was sent is what was
released followed by what the ring stores; the packet held still has its bytes; `request` answers 0
exactly when `maxMsg` packets are outstanding; and the taken slots are the cyclic interval from
`read` up to `write`. -/
theorem spscq_first_in_first_out {now : ℤ} {acts : List Act} (hcap : 1 ≤ maxMsg)
    (hdelay : 0 ≤ delay) (hrun : run step acts (Sys.init maxMsg msgSz delay now) = some s) :
    s.got <+: s.sent ∧
    s.sent = s.released ++ stored s.itf s.outstanding ∧
    (∀ ptr len, s.cons = .holding ptr len →
      s.got = s.released ++ [(bytesAt s.itf.data ptr len.toNat, len)]) ∧
    request s.itf ≠ none ∧
    (request s.itf = some (0, none) ↔ s.outstanding = maxMsg) ∧
    s.itf.write = Cyclic.slot maxMsg s.itf.read s.outstanding ∧
    (∀ i < maxMsg, (s.itf.packets i).valid ≠ 0 ↔
      Cyclic.Occupied maxMsg s.itf.read s.outstanding i) ∧
    (s.itf.read = s.itf.write ↔ s.outstanding = 0 ∨ s.outstanding = maxMsg) := by
  obtain ⟨pend, h⟩ := run_inv_of_nonneg hcap hdelay hrun
  obtain ⟨hanswers, hfull⟩ := h.request_iff hdelay
  have hm := h.maxMsg_eq
  rw [h.outstanding_eq]
  refine ⟨h.got_prefix_sent, ?_, fun _ _ => h.got_holding, hanswers, hfull, ?_, ?_, ?_⟩
  · rw [h.holds.stored_eq]
    exact h.sent_eq
  · exact hm ▸ h.holds.write_eq
  · exact hm ▸ h.holds.valid_iff
  · exact hm ▸ h.holds.read_eq_write_iff

/-- A `send`, a zero-copy push, a `send` refused by a full ring of two slots, and
in the next time slot a `pop` with its `release` and a `recv`. -/
def twoSlotsActs : List Act :=
  [.send [1, 2], .request, .fill [3], .push 1, .send [9], .tick 1, .pop 0, .release, .recv 4 0]

theorem spscq_first_in_first_out_two_slots :
    ∃ s, run step twoSlotsActs (Sys.init 2 2 1 0) = some s ∧
      s.got = [([1, 2], 2), ([3], 1)] ∧ s.got <+: s.sent := by
  obtain ⟨s, hs⟩ : ∃ s, run step twoSlotsActs (Sys.init 2 2 1 0) = some s := ⟨_, rfl⟩
  have hgot : s.got = [([1, 2], 2), ([3], 1)] := by
    cases hs
    rfl
  exact ⟨s, hs, hgot, (spscq_first_in_first_out (by decide) (by decide) hs).1⟩

/-! ## The blocking queue -/

variable {maxMsg msgSz : ℕ} {delay : ℤ} {s : Sys} {pend : List Packet}

lemma pop_of_not_guard {itf : Itf} {tstamp : ℤ} (now : ℤ) (hg : ¬ PopGuard itf tstamp) :
    pop itf now tstamp = some (1, some itf.readPkt.data, itf.readPkt.len) ∧
      itf.readPkt.valid = 0 := by
  simp only [PopGuard, not_or, ne_eq, not_not] at hg
  obtain ⟨hd, h2, hv, ht⟩ := hg
  simp [pop, spscqIsEmpty, hd, h2, hv, ht]

lemma Inv.sent_get (h : Inv maxMsg msgSz delay s pend) :
    s.sent[s.released.length]? = some (s.itf.packetAt s.itf.read) ↔ pend ≠ [] := by
  rw [h.sent_eq, List.getElem?_append_right (le_refl _), Nat.sub_self]
  constructor
  · rintro hget rfl
    simp at hget
  · intro hne
    obtain ⟨p, rest, rfl⟩ := List.exists_cons_of_ne_nil hne
    simp [h.holds.packetAt_read]

/-- `pop` returns 1 only on a packet that was pushed and not yet released. -/
def PopSound (s : Sys) (tstamp : ℤ) : Prop :=
  ∀ ptr len, pop s.itf s.now tstamp = some (1, ptr, len) →
    s.itf.readPkt.valid ≠ 0 ∧ s.sent[s.released.length]? = some (s.itf.packetAt s.itf.read)

lemma Inv.popSound_iff (h : Inv maxMsg msgSz delay s pend) (tstamp : ℤ) :
    PopSound s tstamp ↔ PopGuard s.itf tstamp := by
  constructor
  · intro hsound
    by_contra hg
    obtain ⟨hpop, hv⟩ := pop_of_not_guard s.now hg
    exact (hsound _ _ hpop).1 hv
  · intro hg ptr len hpop
    rcases pop_cases s.now hg with ⟨hp, -⟩ | hp | ⟨-, hv⟩
    · simp [hp] at hpop
    · simp [hp] at hpop
    · exact ⟨hv, h.sent_get.mpr (h.holds.read_valid_iff.mp hv)⟩

/-- **The blocking queue under its guard.** In every run over a queue with delay -1 or -2 in which
each `pop` meets `PopGuard`, the packets obtained are a prefix of those pushed; a further `pop`
returns 1 only on a pushed packet not yet released if and only if it meets the guard; a `pop` that
waited is sound when it tests again. -/
theorem spscq_blocking_of_popGuard {now : ℤ} {acts : List Act} (hcap : 1 ≤ maxMsg)
    (hdelay : delay = -1 ∨ delay = -2)
    (hmeets : Meets step StepGuard acts (Sys.init maxMsg msgSz delay now))
    (hrun : run step acts (Sys.init maxMsg msgSz delay now) = some s) :
    s.got <+: s.sent ∧
    (∀ tstamp, PopSound s tstamp ↔
      (delay = -2 ∨ s.itf.readPkt.valid ≠ 0 ∨ tstamp < s.itf.readPkt.tstamp)) ∧
    (∀ tstamp, s.cons = .testing tstamp → PopSound s tstamp) := by
  obtain ⟨pend, h⟩ := run_inv hcap hmeets hrun
  have hneg : ¬ 0 ≤ delay := by rcases hdelay with rfl | rfl <;> decide
  refine ⟨h.got_prefix_sent, ?_, ?_⟩
  · intro tstamp
    rw [h.popSound_iff, PopGuard, h.delay_eq]
    simp [hneg]
  · intro tstamp hcons
    have hc : s.got = s.released ∧ (pend ≠ [] ∨ tstamp < s.itf.readPkt.tstamp) := by
      simpa only [ConsumerInv, hcons] using h.consumer
    rw [h.popSound_iff]
    exact .inr (.inr (hc.2.imp_left h.holds.read_valid_iff.mpr))

instance (itf : Itf) (tstamp : ℤ) : Decidable (PopGuard itf tstamp) :=
  inferInstanceAs (Decidable (_ ∨ _ ∨ _ ∨ _))

instance : ∀ (a : Act) (s : Sys), Decidable (StepGuard a s)
  | .pop tstamp, s | .recv _ tstamp, s => inferInstanceAs (Decidable (PopGuard s.itf tstamp))
  | .tick _, _ | .send _, _ | .request, _ | .takeW, _ | .retestW, _ | .fill _, _
  | .push _, _ | .takeR, _ | .retestR, _ | .release, _ => isTrue trivial

/-- One slot and delay -1: a packet of time slot 5 is popped and released, the
next `pop` asks for slot 3, waits, and gets the packet pushed meanwhile. -/
def oneSlotActs : List Act :=
  [.request, .fill [7], .push 1, .pop 5, .release, .pop 3, .takeR, .request, .fill [8],
    .push 1, .retestR]

theorem spscq_blocking_one_slot : ∃ s, Meets step StepGuard oneSlotActs (Sys.init 1 1 (-1) 5) ∧
      run step oneSlotActs (Sys.init 1 1 (-1) 5) = some s ∧
      s.got = [([7], 1), ([8], 1)] ∧ s.got <+: s.sent := by
  obtain ⟨s, hs⟩ : ∃ s, run step oneSlotActs (Sys.init 1 1 (-1) 5) = some s := ⟨_, rfl⟩
  have hmeets : Meets step StepGuard oneSlotActs (Sys.init 1 1 (-1) 5) := by
    decide
  have hgot : s.got = [([7], 1), ([8], 1)] := by
    cases hs
    rfl
  exact ⟨s, hmeets, hs, hgot, (spscq_blocking_of_popGuard (by decide) (by decide) hmeets hs).1⟩

theorem spscq_blocking_pops_unsent : ∃ s, run step [.pop 0] (Sys.init 64 4 (-1) 0) = some s ∧
      s.sent = [] ∧ s.got = [([], 0)] ∧ ¬ s.got <+: s.sent := by
  refine ⟨_, rfl, rfl, rfl, ?_⟩
  show ¬ ([([], 0)] : List Packet) <+: []
  simp

end Aloe.Rtdal.Itfspscq
