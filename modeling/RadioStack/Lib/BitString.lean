import Mathlib.Data.List.Basic
import Mathlib.Data.Nat.Bitwise
import Mathlib.Tactic.IntervalCases
import Mathlib.Tactic.Ring

/-!
# Bit strings

Numbers as bit strings of a fixed length, most significant bit first, and the number a bit string
stands for. Concatenation of bit strings is `a * 2 ^ k + b` on numbers, so cutting a number into
fields is division and remainder by powers of two.
-/

namespace RadioStack.BitString

/-- The low `n` bits of `v`, most significant first. -/
def natBits : Nat → Nat → List Bool
  | 0, _ => []
  | n + 1, v => v.testBit n :: natBits n v

/-- The number a bit string stands for. -/
def ofBits : List Bool → Nat
  | [] => 0
  | b :: bits => b.toNat * 2 ^ bits.length + ofBits bits

def byteBits (b : UInt8) : List Bool := natBits 8 b.toNat

def bytesBits (bytes : List UInt8) : List Bool := bytes.flatMap byteBits

variable {n k v u : Nat} {bits bits' : List Bool}

@[simp] theorem length_natBits (n v : Nat) : (natBits n v).length = n := by
  induction n with
  | zero => rfl
  | succ n ih => exact congrArg (· + 1) ih

@[simp] theorem length_byteBits (b : UInt8) : (byteBits b).length = 8 := length_natBits 8 _

theorem bytesBits_cons (b : UInt8) (bytes : List UInt8) :
    bytesBits (b :: bytes) = byteBits b ++ bytesBits bytes := List.flatMap_cons

theorem bytesBits_append (xs ys : List UInt8) :
    bytesBits (xs ++ ys) = bytesBits xs ++ bytesBits ys := List.flatMap_append

@[simp] theorem length_bytesBits (bytes : List UInt8) :
    (bytesBits bytes).length = 8 * bytes.length := by
  induction bytes with
  | nil => rfl
  | cons b bytes ih =>
    rw [bytesBits_cons, List.length_append, ih, length_byteBits, List.length_cons, Nat.mul_succ,
      Nat.add_comm]

theorem ofBits_lt (bits : List Bool) : ofBits bits < 2 ^ bits.length := by
  induction bits with
  | nil => exact Nat.one_pos
  | cons b bits ih =>
    rw [ofBits, List.length_cons, Nat.pow_succ, Nat.mul_two]
    cases b
    · simp only [Bool.toNat_false, Nat.zero_mul, Nat.zero_add]
      exact Nat.lt_add_right _ ih
    · simp only [Bool.toNat_true, Nat.one_mul]
      exact Nat.add_lt_add_left ih _

theorem ofBits_append : ofBits (bits ++ bits') = ofBits bits * 2 ^ bits'.length + ofBits bits' := by
  induction bits with
  | nil => simp [ofBits]
  | cons b bits ih =>
    rw [List.cons_append, ofBits, ofBits, ih, List.length_append, Nat.pow_add]
    ring

theorem ofBits_natBits (n v : Nat) : ofBits (natBits n v) = v % 2 ^ n := by
  induction n with
  | zero => exact (Nat.mod_one v).symm
  | succ n ih =>
    rw [natBits, ofBits, ih, length_natBits, Nat.toNat_testBit, Nat.pow_succ, Nat.mod_mul,
      Nat.add_comm, Nat.mul_comm]

/-- Bit strings of one length are told apart by their numbers. -/
theorem ofBits_inj (hlen : bits.length = bits'.length) (h : ofBits bits = ofBits bits') :
    bits = bits' := by
  induction bits generalizing bits' with
  | nil => exact (List.length_eq_zero_iff.1 hlen.symm).symm
  | cons b bits ih =>
    obtain _ | ⟨b', bits'⟩ := bits'
    · cases hlen
    · have htail : bits.length = bits'.length := Nat.succ.inj hlen
      have hlt := ofBits_lt bits
      have hlt' := ofBits_lt bits'
      rw [ofBits, ofBits, ← htail] at h
      rw [← htail] at hlt'
      cases b <;> cases b' <;>
        simp only [Bool.toNat_false, Bool.toNat_true, Nat.zero_mul, Nat.one_mul, Nat.zero_add] at h
      · rw [ih htail h]
      · omega
      · omega
      · rw [ih htail (Nat.add_left_cancel h)]

theorem natBits_ofBits (bits : List Bool) : natBits bits.length (ofBits bits) = bits :=
  ofBits_inj (length_natBits _ _) (by rw [ofBits_natBits, Nat.mod_eq_of_lt (ofBits_lt bits)])

theorem natBits_congr (h : v % 2 ^ n = u % 2 ^ n) : natBits n v = natBits n u :=
  ofBits_inj (by rw [length_natBits, length_natBits]) (by rw [ofBits_natBits, ofBits_natBits, h])

theorem natBits_add (n k v : Nat) : natBits (n + k) v = natBits n (v / 2 ^ k) ++ natBits k v := by
  refine ofBits_inj (by simp) ?_
  rw [ofBits_append, ofBits_natBits, ofBits_natBits, ofBits_natBits, length_natBits,
    Nat.add_comm n k, Nat.pow_add, Nat.mod_mul, Nat.add_comm, Nat.mul_comm]

theorem natBits_mul_add (hu : u < 2 ^ k) :
    natBits (n + k) (v * 2 ^ k + u) = natBits n v ++ natBits k u := by
  rw [natBits_add, Nat.mul_comm, Nat.mul_add_div (Nat.two_pow_pos k), Nat.div_eq_of_lt hu,
    Nat.add_zero]
  congr 1
  exact natBits_congr (by rw [Nat.mul_add_mod])

theorem natBits_zero (n : Nat) : natBits n 0 = List.replicate n false := by
  induction n with
  | zero => rfl
  | succ n ih =>
    rw [natBits, ih, Nat.zero_testBit]
    rfl

end RadioStack.BitString
