import RadioStack.Lib.Bits

/-!
# The bit buffer

`bit_buffer` and `bit_buffer_reader` of `srsran/adt/bit_buffer.h`, on the span of bytes they
view. Bit positions count from the most significant bit of the first byte. A violated assertion
gives `none`.

`bitAt_insert` and `getLsbD_extract` say what the two operations do to each bit; the rest of the
development uses only these.
-/

namespace RadioStack.Ofh

open Bits

/-! ## Masks -/

/-- The `n` most significant bits clear, the others set. -/
def maskMsbZeros (w n : Nat) : BitVec w := BitVec.allOnes w >>> n

def maskLsbOnes (w n : Nat) : BitVec w := maskMsbZeros w (w - n)

def maskMsbOnes (w n : Nat) : BitVec w := ~~~ maskMsbZeros w n

@[simp] theorem getLsbD_maskMsbZeros (w n i : Nat) :
    (maskMsbZeros w n).getLsbD i = decide (n + i < w) := by
  simp [maskMsbZeros]

@[simp] theorem getLsbD_maskLsbOnes {w n i : Nat} (h : n ≤ w) :
    (maskLsbOnes w n).getLsbD i = decide (i < n) := by
  rw [maskLsbOnes, getLsbD_maskMsbZeros, decide_eq_decide]
  omega

@[simp] theorem getLsbD_maskMsbOnes (w n i : Nat) :
    (maskMsbOnes w n).getLsbD i = decide (i < w ∧ w ≤ n + i) := by
  rw [maskMsbOnes, BitVec.getLsbD_not, getLsbD_maskMsbZeros, ← decide_not, ← Bool.decide_and,
    decide_eq_decide]
  omega

/-! ## Writing -/

/-- `bit_buffer::insert`: the `count` least significant bits of `value`, from `startpos` on. -/
def insert (buffer : List (BitVec 8)) (value : BitVec 8) (startpos count : Nat) :
    Option (List (BitVec 8)) :=
  if count ≤ 8 ∧ value.toNat < 2 ^ count ∧ startpos + count ≤ 8 * buffer.length then
    let startWord := startpos / 8
    let startMod := startpos % 8
    let word := buffer.getD startWord 0
    if startMod = 0 then
      some (buffer.set startWord ((word &&& maskMsbZeros 8 count) ||| value <<< (8 - count)))
    else if startMod + count ≤ 8 then
      some (buffer.set startWord
        ((word &&& (maskMsbOnes 8 startMod ||| maskLsbOnes 8 (8 - startMod - count))) |||
          value <<< (8 - startMod - count)))
    else
      let next := buffer.getD (startWord + 1) 0
      some ((buffer.set startWord
          ((word &&& maskMsbOnes 8 startMod) ||| value >>> (startMod + count - 8))).set
        (startWord + 1)
          ((next &&& maskMsbZeros 8 (startMod + count - 8)) ||| value <<< (16 - startMod - count)))
  else none

/-- Bit `p` after an insertion. -/
def insertedBit (buffer : List (BitVec 8)) (value : BitVec 8) (startpos count p : Nat) : Bool :=
  if startpos ≤ p ∧ p < startpos + count then value.getLsbD (startpos + count - 1 - p)
  else bitAt buffer p

section

variable {buffer : List (BitVec 8)} {value : BitVec 8} {startpos count : Nat}

theorem bitAt_insert_inside (hvalue : value.toNat < 2 ^ count)
    (hsize : startpos + count ≤ 8 * buffer.length) (hpos : 0 < count)
    (hfit : startpos % 8 + count ≤ 8) (p : Nat) :
    bitAt (buffer.set (startpos / 8) ((buffer.getD (startpos / 8) 0 &&&
      (maskMsbOnes 8 (startpos % 8) ||| maskLsbOnes 8 (8 - startpos % 8 - count))) |||
        value <<< (8 - startpos % 8 - count))) p =
        insertedBit buffer value startpos count p := by
  rw [bitAt_set (by omega), insertedBit]
  by_cases hword : p / 8 = startpos / 8
  · rw [if_pos hword]
    simp only [BitVec.getLsbD_or, BitVec.getLsbD_and, getLsbD_maskMsbOnes,
      getLsbD_maskLsbOnes (by omega : 8 - startpos % 8 - count ≤ 8), BitVec.getLsbD_shiftLeft,
      decide_eq_true (by omega : 7 - p % 8 < 8)]
    by_cases hin : startpos ≤ p ∧ p < startpos + count
    · have hidx : 7 - p % 8 - (8 - startpos % 8 - count) = startpos + count - 1 - p := by omega
      rw [if_pos hin, hidx,
        decide_eq_false (by omega : ¬ (7 - p % 8 < 8 ∧ 8 ≤ startpos % 8 + (7 - p % 8))),
        decide_eq_false (by omega : ¬ 7 - p % 8 < 8 - startpos % 8 - count)]
      simp
    · rw [if_neg hin]
      by_cases hlow : p < startpos
      · -- the bits above the inserted ones are kept by the first mask
        have hzero := getLsbD_eq_false_of_toNat_lt (i := 7 - p % 8 - (8 - startpos % 8 - count))
          hvalue (by omega)
        rw [hzero, decide_eq_true (by omega : 7 - p % 8 < 8 ∧ 8 ≤ startpos % 8 + (7 - p % 8)),
          bitAt, hword]
        simp
      · rw [decide_eq_true (by omega : 7 - p % 8 < 8 - startpos % 8 - count), bitAt, hword]
        simp
  · rw [if_neg hword, if_neg (by omega)]

theorem bitAt_insert_crossing (hcount : count ≤ 8) (hvalue : value.toNat < 2 ^ count)
    (hsize : startpos + count ≤ 8 * buffer.length) (hcross : 8 < startpos % 8 + count) (p : Nat) :
    bitAt ((buffer.set (startpos / 8) ((buffer.getD (startpos / 8) 0 &&&
        maskMsbOnes 8 (startpos % 8)) ||| value >>> (startpos % 8 + count - 8))).set
      (startpos / 8 + 1) ((buffer.getD (startpos / 8 + 1) 0 &&&
        maskMsbZeros 8 (startpos % 8 + count - 8)) ||| value <<< (16 - startpos % 8 - count))) p =
        insertedBit buffer value startpos count p := by
  rw [bitAt_set (by rw [List.length_set]; omega), bitAt_set (by omega), insertedBit]
  by_cases hnext : p / 8 = startpos / 8 + 1
  · rw [if_pos hnext]
    simp only [BitVec.getLsbD_or, BitVec.getLsbD_and, getLsbD_maskMsbZeros,
      BitVec.getLsbD_shiftLeft, decide_eq_true (by omega : 7 - p % 8 < 8)]
    by_cases hin : p < startpos + count
    · have hidx : 7 - p % 8 - (16 - startpos % 8 - count) = startpos + count - 1 - p := by omega
      rw [if_pos ⟨by omega, hin⟩, hidx,
        decide_eq_false (by omega : ¬ startpos % 8 + count - 8 + (7 - p % 8) < 8),
        decide_eq_false (by omega : ¬ 7 - p % 8 < 16 - startpos % 8 - count)]
      simp
    · rw [if_neg (by omega),
        decide_eq_true (by omega : startpos % 8 + count - 8 + (7 - p % 8) < 8),
        decide_eq_true (by omega : 7 - p % 8 < 16 - startpos % 8 - count), bitAt, hnext]
      simp
  · rw [if_neg hnext]
    by_cases hword : p / 8 = startpos / 8
    · rw [if_pos hword]
      simp only [BitVec.getLsbD_or, BitVec.getLsbD_and, getLsbD_maskMsbOnes,
        BitVec.getLsbD_ushiftRight]
      by_cases hin : startpos ≤ p
      · have hidx : startpos % 8 + count - 8 + (7 - p % 8) = startpos + count - 1 - p := by omega
        rw [if_pos ⟨hin, by omega⟩, hidx,
          decide_eq_false (by omega : ¬ (7 - p % 8 < 8 ∧ 8 ≤ startpos % 8 + (7 - p % 8)))]
        simp
      · have hzero := getLsbD_eq_false_of_toNat_lt (i := startpos % 8 + count - 8 + (7 - p % 8))
          hvalue (by omega)
        rw [if_neg (by omega), hzero,
          decide_eq_true (by omega : 7 - p % 8 < 8 ∧ 8 ≤ startpos % 8 + (7 - p % 8)), bitAt, hword]
        simp
    · rw [if_neg hword, if_neg (by omega)]

/-- **An insertion writes its bits and no others.** -/
theorem bitAt_insert (buffer : List (BitVec 8)) (startpos : Nat) (hcount : count ≤ 8)
    (hpos : 0 < count) (hvalue : value.toNat < 2 ^ count)
    (hsize : startpos + count ≤ 8 * buffer.length) :
    ∃ out, insert buffer value startpos count = some out ∧ out.length = buffer.length ∧
      ∀ p, bitAt out p = insertedBit buffer value startpos count p := by
  rw [insert, if_pos ⟨hcount, hvalue, hsize⟩]
  by_cases haligned : startpos % 8 = 0
  · have hmask : maskMsbOnes 8 0 ||| maskLsbOnes 8 (8 - count) = maskMsbZeros 8 count := by
      simp [maskLsbOnes, maskMsbOnes, maskMsbZeros, Nat.sub_sub_self hcount]
    have hbits := bitAt_insert_inside hvalue hsize hpos (by omega)
    rw [haligned, Nat.sub_zero, hmask] at hbits
    exact ⟨_, if_pos haligned, by simp, hbits⟩
  · by_cases hfit : startpos % 8 + count ≤ 8
    · exact ⟨_, (if_neg haligned).trans (if_pos hfit), by simp,
        bitAt_insert_inside hvalue hsize hpos hfit⟩
    · exact ⟨_, (if_neg haligned).trans (if_neg hfit), by simp,
        bitAt_insert_crossing hcount hvalue hsize (by omega)⟩

end

/-! ## Reading -/

/-- `bit_buffer_reader::extract`: `count` bits from `startpos` on, as a byte. -/
def extract (buffer : List (BitVec 8)) (startpos count : Nat) : Option (BitVec 8) :=
  if count ≤ 8 ∧ startpos + count ≤ 8 * buffer.length then
    let startWord := startpos / 8
    let startMod := startpos % 8
    if startMod = 0 then some (buffer.getD startWord 0 >>> (8 - count))
    else if startMod + count ≤ 8 then
      some ((buffer.getD startWord 0 >>> (8 - startMod - count)) &&& maskLsbOnes 8 count)
    else
      let word := (buffer.getD startWord 0).setWidth 32 <<< 8 |||
        (buffer.getD (startWord + 1) 0).setWidth 32
      some (((word >>> (16 - startMod - count)) &&& maskLsbOnes 32 count).setWidth 8)
  else none

/-- **An extraction reads its bits**, the last one as the least significant. -/
theorem getLsbD_extract (buffer : List (BitVec 8)) (startpos : Nat) {count : Nat}
    (hcount : count ≤ 8) (hsize : startpos + count ≤ 8 * buffer.length) :
    ∃ value, extract buffer startpos count = some value ∧
      ∀ i, value.getLsbD i = (decide (i < count) && bitAt buffer (startpos + count - 1 - i)) := by
  rw [extract, if_pos ⟨hcount, hsize⟩]
  by_cases haligned : startpos % 8 = 0
  · refine ⟨_, if_pos haligned, fun i => ?_⟩
    by_cases hi : i < count
    · have hword : (startpos + count - 1 - i) / 8 = startpos / 8 := by omega
      have hbit : 7 - (startpos + count - 1 - i) % 8 = 8 - count + i := by omega
      rw [BitVec.getLsbD_ushiftRight, bitAt, hword, hbit, decide_eq_true hi, Bool.true_and]
    · rw [BitVec.getLsbD_ushiftRight, decide_eq_false hi, Bool.false_and]
      exact BitVec.getLsbD_of_ge _ _ (by omega)
  · by_cases hfit : startpos % 8 + count ≤ 8
    · refine ⟨_, (if_neg haligned).trans (if_pos hfit), fun i => ?_⟩
      rw [BitVec.getLsbD_and, getLsbD_maskLsbOnes hcount, BitVec.getLsbD_ushiftRight, Bool.and_comm]
      by_cases hi : i < count
      · have hword : (startpos + count - 1 - i) / 8 = startpos / 8 := by omega
        have hbit : 7 - (startpos + count - 1 - i) % 8 = 8 - startpos % 8 - count + i := by omega
        rw [bitAt, hword, hbit]
      · simp [hi]
    · refine ⟨_, (if_neg haligned).trans (if_neg hfit), fun i => ?_⟩
      by_cases hi : i < count
      · simp only [BitVec.getLsbD_setWidth, BitVec.getLsbD_and, BitVec.getLsbD_ushiftRight,
          getLsbD_maskLsbOnes (by omega : count ≤ 32), BitVec.getLsbD_or,
          BitVec.getLsbD_shiftLeft, hi, decide_eq_true (by omega : i < 8), decide_true,
          Bool.true_and, Bool.and_true]
        -- the bit lies in the first byte when it is at least eight bits from the end
        by_cases hfirst : 8 ≤ 16 - startpos % 8 - count + i
        · have hword : (startpos + count - 1 - i) / 8 = startpos / 8 := by omega
          have hbit : 7 - (startpos + count - 1 - i) % 8 = 16 - startpos % 8 - count + i - 8 := by
            omega
          have hnext := BitVec.getLsbD_of_ge (buffer.getD (startpos / 8 + 1) 0)
            (16 - startpos % 8 - count + i) hfirst
          rw [hnext, bitAt, hword, hbit, decide_eq_true (by omega), decide_eq_false (by omega),
            decide_eq_true (by omega)]
          simp
        · have hword : (startpos + count - 1 - i) / 8 = startpos / 8 + 1 := by omega
          have hbit : 7 - (startpos + count - 1 - i) % 8 = 16 - startpos % 8 - count + i := by
            omega
          rw [bitAt, hword, hbit, decide_eq_true (by omega), decide_eq_true (by omega)]
          simp
      · simp [hi, getLsbD_maskLsbOnes (by omega : count ≤ 32)]

end RadioStack.Ofh
