import RadioStack.Ofh.BitBuffer
import RadioStack.Lib.BitString

/-!
# Writing packed bits from the front

A bit buffer that is filled from its first bit on: `Ofh.insert` at the end of what has been written
adds the bits of its value (`firstBits_insert`), and `copy_offset` starts a buffer with bits that
stand at any position of a byte sequence (`firstBits_copyOffset`). -/

namespace RadioStack.Phy

open Bits BitString
open Ofh (insert maskLsbOnes maskMsbOnes getLsbD_maskLsbOnes getLsbD_maskMsbOnes)

/-- The first `n` bits of a byte sequence. -/
def firstBits (words : List (BitVec 8)) (n : Nat) : List Bool :=
  (List.range n).map (bitAt words)

@[simp] theorem length_firstBits (words : List (BitVec 8)) (n : Nat) :
    (firstBits words n).length = n := by
  rw [firstBits, List.length_map, List.length_range]

theorem firstBits_add (words : List (BitVec 8)) (n k : Nat) :
    firstBits words (n + k) =
      firstBits words n ++ (List.range k).map fun i => bitAt words (n + i) := by
  rw [firstBits, List.range_add, List.map_append, List.map_map]
  rfl

theorem natBits_eq_map (n v : Nat) :
    natBits n v = (List.range n).map fun i => v.testBit (n - 1 - i) := by
  refine List.ext_getElem (by simp) fun i hi hi' => ?_
  rw [List.getElem_map, List.getElem_range]
  clear hi'
  induction n generalizing i with
  | zero => exact absurd hi (Nat.not_lt_zero i)
  | succ n ih =>
    cases i with
    | zero => rfl
    | succ i =>
      have hi : i < (natBits n v).length := Nat.lt_of_succ_lt_succ hi
      have hidx : n + 1 - 1 - (i + 1) = n - 1 - i := by omega
      rw [hidx, ← ih i hi]
      rfl

theorem firstBits_insert {words : List (BitVec 8)} {value : BitVec 8} {n count : Nat}
    (hcount : count ≤ 8) (hpos : 0 < count) (hvalue : value.toNat < 2 ^ count)
    (hsize : n + count ≤ 8 * words.length) :
    ∃ out, insert words value n count = some out ∧ out.length = words.length ∧
      firstBits out (n + count) = firstBits words n ++ natBits count value.toNat := by
  obtain ⟨out, hok, hlen, hbits⟩ := Ofh.bitAt_insert words n hcount hpos hvalue hsize
  refine ⟨out, hok, hlen, ?_⟩
  rw [firstBits_add, natBits_eq_map]
  congr 1
  · refine List.map_congr_left fun p hp => ?_
    have hp := List.mem_range.1 hp
    rw [hbits, Ofh.insertedBit, if_neg (by omega)]
  · refine List.map_congr_left fun i hi => ?_
    have hi := List.mem_range.1 hi
    have hidx : n + count - 1 - (n + i) = count - 1 - i := by omega
    rw [hbits, Ofh.insertedBit, if_pos (by omega), hidx]
    rfl

/-! ## Copies from any bit position -/

/-- Eight bits from bit `shift` of two consecutive bytes on. -/
def joinWords (word next : BitVec 8) (shift : Nat) : BitVec 8 :=
  (((word.setWidth 32 <<< 8 ||| next.setWidth 32) >>> (8 - shift)) &&& maskLsbOnes 32 8).setWidth 8

/-- `copy_offset` of `n` bits from bit `start` of `input` on, into a buffer. Its last word is filled
up with zeros. Reading outside of the input gives `none`. -/
def copyOffset (buffer : List (BitVec 8)) (n : Nat) (input : List (BitVec 8)) (start : Nat) :
    Option (List (BitVec 8)) :=
  if start + n ≤ 8 * input.length then
    let startWord := start / 8
    let startMod := start % 8
    let full := n / 8
    let rem := n % 8
    let words := (List.range full).map fun i =>
      if startMod = 0 then input.getD (startWord + i) 0
      else joinWords (input.getD (startWord + i) 0) (input.getD (startWord + i + 1) 0) startMod
    let out := words ++ buffer.drop full
    if rem = 0 then some out
    else
      let next := if 8 < startMod + rem then input.getD (startWord + full + 1) 0 else 0
      some (out.set full
        (joinWords (input.getD (startWord + full) 0) next startMod &&& maskMsbOnes 8 rem))
  else none

theorem getLsbD_joinWords (word next : BitVec 8) {shift j : Nat} (hshift : shift < 8) (hj : j < 8) :
    (joinWords word next shift).getLsbD (7 - j) =
      if shift + j < 8 then word.getLsbD (7 - (shift + j))
      else next.getLsbD (15 - (shift + j)) := by
  simp only [joinWords, BitVec.getLsbD_setWidth, BitVec.getLsbD_and, BitVec.getLsbD_ushiftRight,
    getLsbD_maskLsbOnes (by omega : 8 ≤ 32), BitVec.getLsbD_or, BitVec.getLsbD_shiftLeft,
    decide_eq_true (by omega : 7 - j < 8), Bool.true_and, Bool.and_true]
  by_cases h : shift + j < 8
  · have hidx : 8 - shift + (7 - j) - 8 = 7 - (shift + j) := by omega
    rw [if_pos h, BitVec.getLsbD_of_ge next _ (by omega : 8 ≤ 8 - shift + (7 - j)), hidx,
      decide_eq_true (by omega : 8 - shift + (7 - j) < 32),
      decide_eq_false (by omega : ¬ 8 - shift + (7 - j) < 8),
      decide_eq_true (by omega : 7 - (shift + j) < 32)]
    simp
  · have hidx : 8 - shift + (7 - j) = 15 - (shift + j) := by omega
    rw [if_neg h, decide_eq_true (by omega : 8 - shift + (7 - j) < 8), hidx,
      decide_eq_true (by omega : 15 - (shift + j) < 32)]
    simp

/-- Two consecutive bytes joined show the bits of the sequence. -/
theorem getLsbD_joinWords_bitAt (input : List (BitVec 8)) {start i j : Nat} (hj : j < 8)
    {next : BitVec 8}
    (hnext : 8 ≤ start % 8 + j → next = input.getD (start / 8 + i + 1) 0) :
    (joinWords (input.getD (start / 8 + i) 0) next (start % 8)).getLsbD (7 - j) =
      bitAt input (start + (8 * i + j)) := by
  rw [getLsbD_joinWords _ _ (Nat.mod_lt _ (by decide)) hj, bitAt]
  by_cases h : start % 8 + j < 8
  · have hdiv : (start + (8 * i + j)) / 8 = start / 8 + i := by omega
    have hmod : (start + (8 * i + j)) % 8 = start % 8 + j := by omega
    rw [if_pos h, hdiv, hmod]
  · have hdiv : (start + (8 * i + j)) / 8 = start / 8 + i + 1 := by omega
    have hmod : (start + (8 * i + j)) % 8 = start % 8 + j - 8 := by omega
    have hidx : 15 - (start % 8 + j) = 7 - (start % 8 + j - 8) := by omega
    rw [if_neg h, hnext (by omega), hdiv, hmod, hidx]

theorem getLsbD_copyWord (input : List (BitVec 8)) (start i : Nat) {j : Nat} (hj : j < 8) :
    (if start % 8 = 0 then input.getD (start / 8 + i) 0
      else joinWords (input.getD (start / 8 + i) 0) (input.getD (start / 8 + i + 1) 0)
        (start % 8)).getLsbD (7 - j) = bitAt input (start + (8 * i + j)) := by
  split
  · next h =>
    have hdiv : (start + (8 * i + j)) / 8 = start / 8 + i := by omega
    have hmod : (start + (8 * i + j)) % 8 = j := by omega
    rw [bitAt, hdiv, hmod]
  · exact getLsbD_joinWords_bitAt input hj fun _ => rfl

theorem firstBits_copyOffset {buffer input : List (BitVec 8)} {n start : Nat}
    (hin : start + n ≤ 8 * input.length) (hout : n ≤ 8 * buffer.length) :
    ∃ out, copyOffset buffer n input start = some out ∧ out.length = buffer.length ∧
      firstBits out n = ((firstBits input (8 * input.length)).drop start).take n := by
  have htarget : ((firstBits input (8 * input.length)).drop start).take n =
      (List.range n).map fun p => bitAt input (start + p) := by
    refine List.ext_getElem (by simp; omega) fun p hp hp' => ?_
    simp [firstBits]
  rw [copyOffset, if_pos hin, htarget]
  simp only
  generalize hwords : (List.range (n / 8)).map (fun i => if start % 8 = 0 then
    input.getD (start / 8 + i) 0 else joinWords (input.getD (start / 8 + i) 0)
      (input.getD (start / 8 + i + 1) 0) (start % 8)) = words
  have hlenw : words.length = n / 8 := by
    rw [← hwords, List.length_map, List.length_range]
  have hlen : (words ++ buffer.drop (n / 8)).length = buffer.length := by
    rw [List.length_append, hlenw, List.length_drop]
    omega
  -- the bits of the full words
  have hfull : ∀ p < 8 * (n / 8), bitAt (words ++ buffer.drop (n / 8)) p =
      bitAt input (start + p) := by
    intro p hp
    have hsplit : start + p = start + (8 * (p / 8) + p % 8) := by omega
    rw [bitAt, List.getD_append _ _ _ _ (by omega), ← hwords,
      List.getD_eq_getElem _ _ (by rw [List.length_map, List.length_range]; omega),
      List.getElem_map, List.getElem_range,
      getLsbD_copyWord input start (p / 8) (Nat.mod_lt p (by decide)), hsplit]
  by_cases hrem : n % 8 = 0
  · rw [if_pos hrem]
    refine ⟨_, rfl, hlen, List.map_congr_left fun p hp => hfull p ?_⟩
    have := List.mem_range.1 hp
    omega
  · rw [if_neg hrem]
    refine ⟨_, rfl, by rw [List.length_set, hlen], List.map_congr_left fun p hp => ?_⟩
    have hp := List.mem_range.1 hp
    rw [bitAt_set (by rw [hlen]; omega)]
    split
    · next hlast =>
      have hsplit : start + p = start + (8 * (n / 8) + p % 8) := by omega
      rw [BitVec.getLsbD_and, getLsbD_maskMsbOnes, decide_eq_true (by omega), Bool.and_true, hsplit]
      refine getLsbD_joinWords_bitAt input (Nat.mod_lt p (by decide)) fun hge => ?_
      rw [if_pos (by omega)]
    · next hother => exact hfull p (by omega)

end RadioStack.Phy
