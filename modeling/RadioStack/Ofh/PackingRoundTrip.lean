import RadioStack.Ofh.Bfp

/-!
# Packing and unpacking samples of every configurable width

The configuration admits every width from 1 to 16. `pack_bytes` masks the sign bits of a sample only
in a pass that is followed by another one; the last pass inserts the low byte of the sample as it
is. For widths from 8 on that byte always fits the bits left. Below that, the sign bits of a
negative sample stand above the width and violate the precondition of `bit_buffer::insert`.

**Theorem (`packBytes_roundTrip_iff`).** Samples that fit in `w` signed bits are packed without a
violated precondition, are read back, and leave zeros behind them in the last byte, exactly if `w`
is at least 8 or no sample is negative. -/

namespace RadioStack.Ofh

open Bits

/-- What `bit_buffer::insert` asks of a sample that fits the width. -/
theorem packable_iff {w : Nat} {s : BitVec 16} (hlow : 1 ≤ w) (hfit : FitsWidth w s.toInt) :
    Packable w s ↔ 8 ≤ w ∨ 0 ≤ s.toInt := by
  rw [Packable]
  rcases Nat.lt_or_ge w 8 with hw | hw
  · have hbyte : (s &&& 0x00ff).toNat = s.toNat % 256 := by
      exact Nat.and_two_pow_sub_one_eq_mod _ 8
    have hint := BitVec.toInt_eq_toNat_cond s
    rw [FitsWidth] at hfit
    rw [hbyte]
    interval_cases w <;> norm_num at hfit ⊢ <;> split at hint <;> omega
  · simp only [hw, true_or]

theorem forall_packable_iff {w : Nat} {samples : List (BitVec 16)} (hlow : 1 ≤ w)
    (hfit : ∀ s ∈ samples, FitsWidth w s.toInt) :
    (∀ s ∈ samples, Packable w s) ↔ 8 ≤ w ∨ ∀ s ∈ samples, 0 ≤ s.toInt := by
  constructor
  · intro hall
    rcases Nat.lt_or_ge w 8 with hw | hw
    · refine .inr fun s hs => ?_
      exact ((packable_iff hlow (hfit s hs)).1 (hall s hs)).resolve_left (Nat.not_le.2 hw)
    · exact .inl hw
  · intro hcond s hs
    exact (packable_iff hlow (hfit s hs)).2 (hcond.imp_right fun h => h s hs)

/-- What packing into `out` has to achieve. -/
def RoundTrips (w : Nat) (samples : List (BitVec 16)) (out : List (BitVec 8)) : Prop :=
  (∀ i < samples.length,
    (unpackBits out (i * w) w).map (signExtend w) = some (samples.getD i 0)) ∧
  ∀ p, samples.length * w ≤ p → p < 8 * ((samples.length * w + 7) / 8) → bitAt out p = false

theorem packBytes_roundTrip_iff {w : Nat} (hlow : 1 ≤ w) (hhigh : w ≤ 16)
    {samples : List (BitVec 16)} (hfit : ∀ s ∈ samples, FitsWidth w s.toInt)
    {buffer : List (BitVec 8)} (hsize : (samples.length * w + 7) / 8 ≤ buffer.length) :
    (∃ out, packBytes buffer samples w = some out ∧ RoundTrips w samples out) ↔
      8 ≤ w ∨ ∀ s ∈ samples, 0 ≤ s.toInt := by
  rw [← forall_packable_iff hlow hfit]
  rw [Nat.mul_comm] at hsize
  constructor
  · -- without the condition `insert` is called with a value that is too large
    rintro ⟨out, hout, -⟩
    by_contra hnot
    have hnone := packSamples_none hlow hhigh hnot buffer 0 (by omega)
    rw [packBytes, hnone] at hout
    cases hout
  · intro hall
    obtain ⟨out, hout, hlen, hbits, htail⟩ := packBytes_bits hlow hhigh hall hsize
    refine ⟨out, hout, fun i hi => ?_, ?_⟩
    · obtain ⟨v, hv, hget⟩ := unpackBits_of_bits hhigh hlow (by omega) hbits hi
      have hsample : samples.getD i 0 ∈ samples := by
        rw [List.getD_eq_getElem _ _ hi]
        exact List.getElem_mem hi
      rw [Nat.mul_comm, hv, Option.map_some, signExtend_eq hlow hhigh hget (hfit _ hsample)]
    · rw [Nat.mul_comm]
      exact htail

theorem packBytes_roundTrip_fiveBits :
    ∃ out, packBytes [0xff, 0xff] [9, 3] 5 = some out ∧ RoundTrips 5 [9, 3] out := by
  have hfit : ∀ s ∈ [(9 : BitVec 16), 3], FitsWidth 5 s.toInt := by
    simp [FitsWidth]
  have hsize : ([(9 : BitVec 16), 3].length * 5 + 7) / 8 ≤ [(0xff : BitVec 8), 0xff].length := by
    decide
  have hnonneg : ∀ s ∈ [(9 : BitVec 16), 3], 0 ≤ s.toInt := by
    simp
  exact (packBytes_roundTrip_iff (by decide) (by decide) hfit hsize).2 (.inr hnonneg)

/-- The sample -1 does not pass the check of `insert` at a width of seven bits. -/
theorem packBytes_negative_sevenBits :
    FitsWidth 7 (-1 : BitVec 16).toInt ∧ packBytes [0] [-1] 7 = none := by
  have hminus : (-1 : BitVec 16).toInt = -1 := rfl
  refine ⟨?_, by decide⟩
  rw [FitsWidth, hminus]
  norm_num

end RadioStack.Ofh
