import Mathlib.Algebra.Group.Nat.Defs
import Mathlib.Data.Nat.Basic
import Mathlib.Tactic.Common

/-!
# Fixed-size byte codecs

A codec is a fixed-size memory image of the values of a type: `dec` reads back
what `enc` wrote. Little-endian words are the base case; products and records
are built from them.
-/

namespace Aloe.Lib

structure Codec (α : Type) where
  size : ℕ
  enc : α → List UInt8
  dec : List UInt8 → α
  length_enc : ∀ a, (enc a).length = size
  dec_enc : ∀ a, dec (enc a) = a

namespace Codec

attribute [simp] length_enc dec_enc

/-! ## Little-endian words -/

/-- The `k` low bytes of `n`, lowest first. -/
def le : ℕ → ℕ → List UInt8
  | 0, _ => []
  | k + 1, n => UInt8.ofNat (n % 256) :: le k (n / 256)

def ofLe : List UInt8 → ℕ
  | [] => 0
  | b :: bs => b.toNat + 256 * ofLe bs

@[simp] lemma length_le (k n : ℕ) : (le k n).length = k := by
  induction k generalizing n with
  | zero => rfl
  | succ k ih => simp [le, ih]

lemma ofLe_le {k n : ℕ} (h : n < 256 ^ k) : ofLe (le k n) = n := by
  induction k generalizing n with
  | zero =>
    simp only [Nat.pow_zero, Nat.lt_one_iff] at h
    simp [le, ofLe, h]
  | succ k ih =>
    have hdiv : n / 256 < 256 ^ k := by
      rw [Nat.div_lt_iff_lt_mul (by decide)]
      simpa [Nat.pow_succ] using h
    simp only [le, ofLe, ih hdiv]
    have hbyte : (UInt8.ofNat (n % 256)).toNat = n % 256 := by
      simp [UInt8.toNat_ofNat']
    rw [hbyte]
    omega

/-- A word of `k` bytes, lowest byte first. -/
def word (k : ℕ) : Codec (BitVec (8 * k)) where
  size := k
  enc w := le k w.toNat
  dec bs := BitVec.ofNat (8 * k) (ofLe bs)
  length_enc w := length_le k w.toNat
  dec_enc w := by
    have hlt : w.toNat < 256 ^ k := by
      have := w.isLt
      rwa [Nat.pow_mul] at this
    rw [ofLe_le hlt]
    simp

/-! ## Blocks, pairs and records -/

/-- A block of `n` raw bytes. -/
def block (n : ℕ) : Codec { bs : List UInt8 // bs.length = n } where
  size := n
  enc b := b.1
  dec bs := if h : bs.length = n then ⟨bs, h⟩ else ⟨List.replicate n 0, by simp⟩
  length_enc b := b.2
  dec_enc b := by simp [b.2]

def pair {α β : Type} (c : Codec α) (d : Codec β) : Codec (α × β) where
  size := c.size + d.size
  enc p := c.enc p.1 ++ d.enc p.2
  dec bs := (c.dec (bs.take c.size), d.dec (bs.drop c.size))
  length_enc p := by simp
  dec_enc p := by
    have htake : (c.enc p.1 ++ d.enc p.2).take c.size = c.enc p.1 := by
      rw [List.take_left' (c.length_enc p.1)]
    have hdrop : (c.enc p.1 ++ d.enc p.2).drop c.size = d.enc p.2 := by
      rw [List.drop_left' (c.length_enc p.1)]
    rw [htake, hdrop, c.dec_enc, d.dec_enc]

def record {α β : Type} (c : Codec α) (fields : β → α) (mk : α → β)
    (h : ∀ b, mk (fields b) = b) : Codec β where
  size := c.size
  enc b := c.enc (fields b)
  dec bs := mk (c.dec bs)
  length_enc b := c.length_enc _
  dec_enc b := by rw [c.dec_enc, h]

end Codec

end Aloe.Lib
