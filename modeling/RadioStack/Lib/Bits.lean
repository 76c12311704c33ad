import Mathlib.Algebra.GroupWithZero.Nat
import Mathlib.Data.List.GetD
import Mathlib.Tactic.Common

/-!
# Bits of a byte sequence

A byte sequence read as a bit sequence, most significant bit first: bit `p` is in byte `p / 8`.
Two byte sequences of one length are equal when their bits are, so a packed format is determined
by what it says about each bit.
-/

namespace RadioStack.Bits

/-- Bit `p` of a byte sequence, most significant bit first. -/
def bitAt (buf : List (BitVec 8)) (p : Nat) : Bool :=
  (buf.getD (p / 8) 0).getLsbD (7 - p % 8)

theorem bitAt_set {buf : List (BitVec 8)} {i : Nat} (hi : i < buf.length) (b : BitVec 8)
    (p : Nat) :
    bitAt (buf.set i b) p = if p / 8 = i then b.getLsbD (7 - p % 8) else bitAt buf p := by
  unfold bitAt
  split
  · rename_i h
    rw [h, List.getD_eq_getElem?_getD, List.getElem?_set_self hi, Option.getD_some]
  · rename_i h
    rw [List.getD_eq_getElem?_getD, List.getElem?_set_ne (fun he => h he.symm),
      ← List.getD_eq_getElem?_getD]

theorem ext_bitAt {xs ys : List (BitVec 8)} (hlen : xs.length = ys.length)
    (h : ∀ p < 8 * xs.length, bitAt xs p = bitAt ys p) : xs = ys := by
  apply List.ext_getElem hlen
  intro k hx hy
  apply BitVec.eq_of_getLsbD_eq
  intro j hj
  have hp := h (8 * k + (7 - j)) (by omega)
  have hdiv : (8 * k + (7 - j)) / 8 = k := by omega
  have hmod : 7 - (8 * k + (7 - j)) % 8 = j := by omega
  rw [bitAt, bitAt, hdiv, hmod, List.getD_eq_getElem _ _ hx, List.getD_eq_getElem _ _ hy] at hp
  exact hp

theorem getLsbD_eq_false_of_toNat_lt {w n i : Nat} {v : BitVec w} (h : v.toNat < 2 ^ n)
    (hi : n ≤ i) : v.getLsbD i = false := by
  rw [BitVec.getLsbD, Nat.testBit_lt_two_pow]
  exact Nat.lt_of_lt_of_le h (Nat.pow_le_pow_right (by decide) hi)

end RadioStack.Bits
