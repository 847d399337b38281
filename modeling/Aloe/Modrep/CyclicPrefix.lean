import Mathlib.Data.List.Basic

/-!
# Cyclic prefixes

Model of `work` of `modrep_osld/gen_cyclic` and `gen_remcyclic`, with `dft_size` and the two sizes
of prefixes given. Each symbol gets its last samples in front of it, the first one of every slot a
prefix of another size. The sender counts symbols, the receiver samples.
-/

namespace Aloe.Modrep.CyclicPrefix

open List

structure Params where
  dftSize : ℕ
  firstCyclicPrefixSz : ℕ
  cyclicPrefixSz : ℕ

def Params.Fits (p : Params) : Prop :=
  p.firstCyclicPrefixSz ≤ p.dftSize ∧ p.cyclicPrefixSz ≤ p.dftSize
deriving Decidable

def Params.nofOfdmSymbolsPerSlot (p : Params) : ℕ :=
  if p.firstCyclicPrefixSz = p.cyclicPrefixSz then 6 else 7

/-- `cpy` and the next `k`, for symbol `j`. -/
def Params.next (p : Params) (j k : ℕ) : ℕ × ℕ :=
  if j = k * p.nofOfdmSymbolsPerSlot then (p.firstCyclicPrefixSz, k + 1) else (p.cyclicPrefixSz, k)

variable {α : Type} (p : Params)

/-- The loop of `gen_cyclic`, with so many symbols left. -/
def addLoop : ℕ → ℕ → ℕ → List α → List α
  | 0, _, _, _ => []
  | n + 1, j, k, input =>
    let c := p.next j k
    (input.drop (p.dftSize - c.1)).take c.1 ++ input.take p.dftSize ++
      addLoop n (j + 1) c.2 (input.drop p.dftSize)

/-- `gen_cyclic`: the output, `none` where it returns -1. -/
def genCyclic (input : List α) : Option (List α) :=
  if p.dftSize = 0 then some []
  else if ¬ p.Fits ∨ input.length % p.dftSize ≠ 0 then none
  else some (addLoop p (input.length / p.dftSize) 0 0 input)

/-- The loop of `gen_remcyclic` over `rcv` samples: the output and `cnt`. Every round takes a
sample at least, so that `rcv` rounds suffice. -/
def removeLoop (rcv : ℕ) : ℕ → ℕ → ℕ → ℕ → List α → List α × ℕ
  | 0, _, _, cnt, _ => ([], cnt)
  | fuel + 1, j, k, cnt, input =>
    if cnt < rcv then
      let c := p.next j k
      let rest := removeLoop rcv fuel (j + 1) c.2 (cnt + (p.dftSize + c.1))
        (input.drop (p.dftSize + c.1))
      ((input.drop c.1).take p.dftSize ++ rest.1, rest.2)
    else ([], cnt)

/-- `gen_remcyclic`. -/
def genRemcyclic (input : List α) : Option (List α) :=
  if p.dftSize = 0 then some []
  else if ¬ p.Fits then none
  else
    let result := removeLoop p input.length input.length 0 0 0 input
    if input.length = result.2 then some result.1 else none

/-- How many samples `n` symbols take with their prefixes. -/
def samples : ℕ → ℕ → ℕ → ℕ
  | 0, _, _ => 0
  | n + 1, j, k => p.dftSize + (p.next j k).1 + samples n (j + 1) (p.next j k).2

variable {p} {n j k cnt rcv fuel : ℕ} {input : List α}

lemma next_le (h : p.Fits) : (p.next j k).1 ≤ p.dftSize := by
  unfold Params.next
  split
  · exact h.1
  · exact h.2

lemma length_addLoop (h : p.Fits) (hlen : input.length = n * p.dftSize) :
    (addLoop p n j k input).length = samples p n j k := by
  induction n generalizing j k input with
  | zero => rfl
  | succ n ih =>
    have hc : (p.next j k).1 ≤ p.dftSize := next_le h
    rw [Nat.succ_mul] at hlen
    simp only [addLoop, samples, length_append, length_take, length_drop]
    rw [ih (by rw [length_drop]; omega)]
    omega

/-- **Step by step, the receiver takes what the sender has put.** -/
theorem removeLoop_addLoop (h : p.Fits) (hpos : 0 < p.dftSize)
    (hlen : input.length = n * p.dftSize) (hfuel : samples p n j k ≤ fuel)
    (hrcv : rcv = cnt + samples p n j k) :
    (removeLoop p rcv fuel j k cnt (addLoop p n j k input)).1 = input := by
  induction n generalizing j k cnt fuel input with
  | zero =>
    have hnil : input = [] := by simpa using hlen
    have hdone : ¬ cnt < rcv := by simp [hrcv, samples]
    cases fuel <;> simp [removeLoop, hdone, hnil]
  | succ n ih =>
    rw [samples] at hfuel hrcv
    obtain ⟨fuel, rfl⟩ : ∃ m, fuel = m + 1 := ⟨fuel - 1, by omega⟩
    have hc : (p.next j k).1 ≤ p.dftSize := next_le h
    rw [Nat.succ_mul] at hlen
    -- what is put in front of a symbol is as long as what is skipped
    have hcpy : ((input.drop (p.dftSize - (p.next j k).1)).take (p.next j k).1).length =
        (p.next j k).1 := by
      rw [length_take, length_drop]
      omega
    have hsymbol : (input.take p.dftSize).length = p.dftSize := by
      rw [length_take]
      omega
    rw [removeLoop, if_pos (by omega)]
    simp only [addLoop, append_assoc]
    rw [drop_left' hcpy, take_left' hsymbol, Nat.add_comm p.dftSize, ← drop_drop, drop_left' hcpy,
      drop_left' hsymbol, ih (by rw [length_drop]; omega) (by omega) (by omega), take_append_drop]

/-- Whatever the samples are, the receiver stops at the end of a symbol. -/
lemma removeLoop_count (hpos : 0 < p.dftSize) (hfuel : rcv ≤ cnt + fuel) :
    rcv = (removeLoop p rcv fuel j k cnt input).2 ↔ ∃ n, rcv = cnt + samples p n j k := by
  have hdone {cnt j k : ℕ} (hle : rcv ≤ cnt) : rcv = cnt ↔ ∃ n, rcv = cnt + samples p n j k :=
    ⟨fun h => ⟨0, h⟩, fun ⟨n, h⟩ => by omega⟩
  induction fuel generalizing j k cnt input with
  | zero => exact hdone hfuel
  | succ fuel ih =>
    rw [removeLoop]
    split_ifs with hmore
    · refine (ih (by omega)).trans ⟨?_, ?_⟩
      · rintro ⟨n, h⟩
        exact ⟨n + 1, h.trans (Nat.add_assoc ..)⟩
      · rintro ⟨n | n, h⟩
        · exact absurd hmore (by simp [h, samples])
        · exact ⟨n, h.trans (Nat.add_assoc ..).symm⟩
    · exact hdone (by omega)

/-- **Round trip.** The receiver restores whole symbols, and it accepts the lengths that the sender
produces, and no others. -/
theorem cyclic_round_trip (p : Params) (input received : List α) :
    (genCyclic p input).bind (genRemcyclic p) = (if p.dftSize = 0 then some []
        else if p.Fits ∧ input.length % p.dftSize = 0 then some input else none) ∧
      ((genRemcyclic p received).isSome ↔
        p.dftSize = 0 ∨ p.Fits ∧ ∃ n, received.length = samples p n 0 0) := by
  by_cases hzero : p.dftSize = 0
  · simp [genCyclic, genRemcyclic, hzero]
  by_cases hfits : p.Fits
  · have hpos : 0 < p.dftSize := Nat.pos_of_ne_zero hzero
    have haccepts : ∀ l : List α, l.length = (removeLoop p l.length l.length 0 0 0 l).2 ↔
        ∃ n, l.length = samples p n 0 0 := fun l => by
      simpa using removeLoop_count hpos (show l.length ≤ 0 + l.length by omega)
    constructor
    · by_cases hmod : input.length % p.dftSize = 0
      · have hlen : input.length = input.length / p.dftSize * p.dftSize :=
          (Nat.div_mul_cancel (Nat.dvd_of_mod_eq_zero hmod)).symm
        have hout := length_addLoop (j := 0) (k := 0) hfits hlen
        have hback : (removeLoop p (samples p _ 0 0) (samples p _ 0 0) 0 0 0
            (addLoop p _ 0 0 input)).1 = input :=
          removeLoop_addLoop hfits hpos hlen (Nat.le_refl _) (Nat.zero_add _).symm
        simp only [genCyclic, hzero, hfits, hmod, if_false, not_true, ne_eq, or_self,
          Option.bind_some, genRemcyclic, if_pos ((haccepts _).mpr ⟨_, hout⟩), true_and, if_true]
        rw [hout, hback]
      · simp [genCyclic, hzero, hfits, hmod]
    · simp [genRemcyclic, hzero, hfits, haccepts, Option.isSome_iff_exists]
  · simp [genCyclic, genRemcyclic, hzero, hfits]

end Aloe.Modrep.CyclicPrefix
