import RadioStack.Ofh.BitBuffer
import Mathlib.Tactic.IntervalCases

/-!
# Packing IQ samples

`pack_bytes` and `unpack_bits` of `packing_utils_generic.cpp`, for every sample width up to 16 bits.
Below eight bits only a sample whose low byte fits the width can be written (`Packable`). Packed
samples lie one after the other, most significant bit first: bit `p` of the packed bytes is a bit of
sample `p / w`. `IsPacked` states this, `packBytes_spec` proves it of `pack_bytes`, and
`unpackBits_of_isPacked` reads any packed sample back. -/

namespace RadioStack.Ofh

open Bits

/-! ## Writing samples -/

/-- The inner loop of `pack_bytes`, over the bits of one sample. A pass packs at least one bit,
so `iq_width` passes are enough. -/
def packSample : Nat → List (BitVec 8) → BitVec 16 → Nat → Nat →
    Option (List (BitVec 8) × Nat)
  | passes, buffer, sample, leftToPack, startPos =>
    if leftToPack = 0 then some (buffer, startPos)
    else
      match passes with
      | 0 => none
      | passes + 1 => do
        let nbits := min 8 leftToPack
        let masked : BitVec 8 :=
          if leftToPack > 8 then (sample.sshiftRight (leftToPack - 8)).setWidth 8
          else (sample &&& 0x00ff).setWidth 8
        let sample := if leftToPack > 8 then sample &&& maskLsbOnes 16 (leftToPack - 8) else sample
        let buffer ← insert buffer masked startPos nbits
        packSample passes buffer sample (leftToPack - nbits) (startPos + nbits)

/-- The outer loop of `pack_bytes`, over the samples. -/
def packSamples (iqWidth : Nat) : List (BitVec 8) → List (BitVec 16) → Nat →
    Option (List (BitVec 8) × Nat)
  | buffer, [], startPos => some (buffer, startPos)
  | buffer, sample :: rest, startPos => do
    let (buffer, startPos) ← packSample iqWidth buffer sample iqWidth startPos
    packSamples iqWidth buffer rest startPos

/-- `pack_bytes`. The tail bits of the last used byte are cleared. -/
def packBytes (buffer : List (BitVec 8)) (compressedIq : List (BitVec 16)) (iqWidth : Nat) :
    Option (List (BitVec 8)) := do
  let (buffer, startPos) ← packSamples iqWidth buffer compressedIq 0
  if startPos % 8 ≠ 0 then insert buffer 0 startPos (8 - startPos % 8) else some buffer

/-- Bit `p` after a sample of width `w` is written at `startPos`. -/
def packedBit (buffer : List (BitVec 8)) (sample : BitVec 16) (w startPos p : Nat) : Bool :=
  if startPos ≤ p ∧ p < startPos + w then sample.getLsbD (startPos + w - 1 - p)
  else bitAt buffer p

section

variable {buffer : List (BitVec 8)} {sample : BitVec 16} {startPos w : Nat}

@[simp] theorem packSample_zero (passes : Nat) :
    packSample passes buffer sample 0 startPos = some (buffer, startPos) := by
  cases passes <;> simp [packSample]

theorem packSample_last (passes startPos : Nat) (hw : w ≤ 8) (hpos : 0 < w)
    (hsample : (sample &&& 0x00ff).toNat < 2 ^ w)
    (hsize : startPos + w ≤ 8 * buffer.length) :
    ∃ out, packSample (passes + 1) buffer sample w startPos = some (out, startPos + w) ∧
      out.length = buffer.length ∧ ∀ p, bitAt out p = packedBit buffer sample w startPos p := by
  have hval : ((sample &&& 0x00ff).setWidth 8 : BitVec 8).toNat < 2 ^ w := by
    exact lt_of_le_of_lt (Nat.mod_le _ _) hsample
  obtain ⟨out, hout, hlen, hbits⟩ := bitAt_insert buffer startPos hw hpos hval hsize
  refine ⟨out, ?_, hlen, fun p => ?_⟩
  · rw [packSample]
    simp only [if_neg hpos.ne', if_neg (by omega : ¬ w > 8), Nat.min_eq_right hw, hout]
    simp
  · rw [hbits, insertedBit, packedBit]
    split
    · have hlow : startPos + w - 1 - p < 8 := by omega
      have hmask : (0x00ff : BitVec 16).getLsbD (startPos + w - 1 - p) = true := by
        generalize startPos + w - 1 - p = i at hlow
        interval_cases i <;> rfl
      rw [BitVec.getLsbD_setWidth, BitVec.getLsbD_and, hmask, decide_eq_true hlow]
      simp
    · rfl

/-- The sample's low byte is all that a pass over less than eight bits masks out, so below that
width the byte itself has to fit. -/
def Packable (w : Nat) (sample : BitVec 16) : Prop := 8 ≤ w ∨ (sample &&& 0x00ff).toNat < 2 ^ w

theorem Packable.low_lt (h : Packable w sample) (hw : w ≤ 8) :
    (sample &&& 0x00ff).toNat < 2 ^ w := by
  rcases h with hlow | hlt
  · rw [BitVec.toNat_and, Nat.le_antisymm hw hlow]
    exact lt_of_le_of_lt Nat.and_le_right (by decide)
  · exact hlt

/-- **One sample is written where it belongs**, and nothing else changes. -/
theorem packSample_spec (buffer : List (BitVec 8)) (startPos : Nat) (hpack : Packable w sample)
    (hlow : 0 < w) (hhigh : w ≤ 16) (hsize : startPos + w ≤ 8 * buffer.length) :
    ∃ out, packSample w buffer sample w startPos = some (out, startPos + w) ∧
      out.length = buffer.length ∧ ∀ p, bitAt out p = packedBit buffer sample w startPos p := by
  by_cases hone : w ≤ 8
  · have hlast := packSample_last (w - 1) startPos hone hlow (hpack.low_lt hone) hsize
    rwa [Nat.sub_add_cancel hlow] at hlast
  · -- the first pass takes the high eight bits, the second the rest
    obtain ⟨passes, hw⟩ : ∃ passes, w = passes + 2 := ⟨w - 2, by omega⟩
    have htop : ((sample.sshiftRight (w - 8)).setWidth 8 : BitVec 8).toNat < 2 ^ 8 :=
      BitVec.isLt _
    obtain ⟨mid, hmid, hmidlen, hmidbits⟩ :=
      bitAt_insert buffer startPos (le_refl 8) (by decide) htop (by omega)
    have hrest : ((sample &&& maskLsbOnes 16 (w - 8)) &&& 0x00ff).toNat < 2 ^ (w - 8) := by
      have hmask : (maskLsbOnes 16 (w - 8)).toNat < 2 ^ (w - 8) := by
        interval_cases w <;> first | omega | decide
      exact lt_of_le_of_lt (Nat.and_le_left.trans Nat.and_le_right) hmask
    obtain ⟨out, hout, houtlen, houtbits⟩ :=
      packSample_last passes (startPos + 8) (by omega) (by omega) hrest
        (by omega : startPos + 8 + (w - 8) ≤ 8 * mid.length)
    refine ⟨out, ?_, houtlen.trans hmidlen, fun p => ?_⟩
    · rw [show packSample w = packSample (passes + 1 + 1) by rw [hw], packSample]
      simp only [if_neg (by omega : ¬ w = 0), if_pos (by omega : w > 8),
        Nat.min_eq_left (by omega : 8 ≤ w), hmid, Option.bind_eq_bind, Option.bind_some, hout]
      rw [show startPos + 8 + (w - 8) = startPos + w by omega]
    · rw [houtbits, packedBit, packedBit]
      by_cases hsecond : startPos + 8 ≤ p ∧ p < startPos + 8 + (w - 8)
      · rw [if_pos hsecond, if_pos (by omega), BitVec.getLsbD_and,
          getLsbD_maskLsbOnes (by omega), decide_eq_true (by omega), Bool.and_true,
          show startPos + 8 + (w - 8) - 1 - p = startPos + w - 1 - p by omega]
      · rw [if_neg hsecond, hmidbits, insertedBit]
        by_cases hfirst : startPos ≤ p ∧ p < startPos + 8
        · rw [if_pos hfirst, if_pos (by omega), BitVec.getLsbD_setWidth,
            BitVec.getLsbD_sshiftRight, decide_eq_true (by omega),
            decide_eq_false (by omega), if_pos (by omega),
            show w - 8 + (startPos + 8 - 1 - p) = startPos + w - 1 - p by omega]
          simp
        · rw [if_neg hfirst, if_neg (by omega)]

/-- A sample that does not fit violates the precondition of `insert`. -/
theorem packSample_none (buffer : List (BitVec 8)) (startPos : Nat) (hpack : ¬ Packable w sample)
    (hlow : 0 < w) : packSample w buffer sample w startPos = none := by
  obtain ⟨hshort, hbig⟩ := not_or.1 hpack
  have hval : ¬ ((sample &&& 0x00ff).setWidth 8 : BitVec 8).toNat < 2 ^ w := by
    have hbyte : (sample &&& 0x00ff).toNat < 2 ^ 8 := by
      exact lt_of_le_of_lt Nat.and_le_right (by decide)
    rwa [BitVec.toNat_setWidth, Nat.mod_eq_of_lt hbyte]
  have hinsert : insert buffer ((sample &&& 0x00ff).setWidth 8) startPos w = none :=
    if_neg fun h => hval h.2.1
  obtain ⟨passes, rfl⟩ : ∃ passes, w = passes + 1 := ⟨w - 1, by omega⟩
  rw [packSample]
  simp only [if_neg (Nat.succ_ne_zero passes), if_neg (by omega : ¬ passes + 1 > 8),
    Nat.min_eq_right (by omega : passes + 1 ≤ 8), hinsert]
  rfl

end

/-- The bits that packed samples of width `w` have: bit `p` belongs to sample `p / w`. -/
def sampleBit (w : Nat) (samples : List (BitVec 16)) (p : Nat) : Bool :=
  (samples.getD (p / w) 0).getLsbD (w - 1 - p % w)

variable {w : Nat} {samples : List (BitVec 16)}

theorem packSamples_spec (hlow : 0 < w) (hhigh : w ≤ 16) (hpack : ∀ s ∈ samples, Packable w s) :
    ∀ (buffer : List (BitVec 8)) (startPos : Nat),
      startPos + w * samples.length ≤ 8 * buffer.length →
      ∃ out, packSamples w buffer samples startPos = some (out, startPos + w * samples.length) ∧
        out.length = buffer.length ∧
        ∀ p, bitAt out p = if startPos ≤ p ∧ p < startPos + w * samples.length then
          sampleBit w samples (p - startPos) else bitAt buffer p := by
  induction samples with
  | nil =>
    intro buffer startPos _
    refine ⟨buffer, rfl, rfl, fun p => ?_⟩
    rw [if_neg (by simp)]
  | cons sample rest ih =>
    intro buffer startPos hsize
    rw [List.length_cons, Nat.mul_succ] at hsize ⊢
    obtain ⟨mid, hmid, hmidlen, hmidbits⟩ :=
      packSample_spec buffer startPos (hpack sample List.mem_cons_self) hlow hhigh (by omega)
    obtain ⟨out, hout, houtlen, houtbits⟩ :=
      ih (fun s hs => hpack s (List.mem_cons_of_mem _ hs)) mid (startPos + w) (by omega)
    refine ⟨out, ?_, houtlen.trans hmidlen, fun p => ?_⟩
    · simp only [packSamples, hmid, Option.bind_eq_bind, Option.bind_some, hout]
      congr 2
      omega
    · rw [houtbits, hmidbits, packedBit]
      by_cases hrest : startPos + w ≤ p ∧ p < startPos + w + w * rest.length
      · have hdiv : (p - startPos) / w = (p - (startPos + w)) / w + 1 := by
          rw [← Nat.add_div_right _ (by omega)]
          congr 1
          omega
        have hmod : (p - startPos) % w = (p - (startPos + w)) % w := by
          rw [← Nat.add_mod_right (p - (startPos + w)) w]
          congr 1
          omega
        rw [if_pos hrest, if_pos (by omega), sampleBit, sampleBit, hdiv, hmod, List.getD_cons_succ]
      · rw [if_neg hrest]
        by_cases hhere : startPos ≤ p ∧ p < startPos + w
        · rw [if_pos hhere, if_pos (by omega), sampleBit, Nat.div_eq_of_lt (by omega),
            Nat.mod_eq_of_lt (by omega), List.getD_cons_zero]
          congr 1
          omega
        · rw [if_neg hhere, if_neg (by omega)]

/-- A sample that does not fit stops the packing. -/
theorem packSamples_none (hlow : 0 < w) (hhigh : w ≤ 16) (hpack : ¬ ∀ s ∈ samples, Packable w s) :
    ∀ (buffer : List (BitVec 8)) (startPos : Nat),
      startPos + w * samples.length ≤ 8 * buffer.length →
      packSamples w buffer samples startPos = none := by
  induction samples with
  | nil => exact absurd nofun hpack
  | cons sample rest ih =>
    intro buffer startPos hsize
    rw [List.length_cons, Nat.mul_succ] at hsize
    by_cases hsample : Packable w sample
    · obtain ⟨mid, hmid, hmidlen, -⟩ :=
        packSample_spec buffer startPos hsample hlow hhigh (by omega)
      have hrest : ¬ ∀ s ∈ rest, Packable w s := by
        intro hall
        refine hpack fun s hs => ?_
        rcases List.mem_cons.1 hs with rfl | hs
        · exact hsample
        · exact hall s hs
      simp only [packSamples, hmid, Option.bind_eq_bind, Option.bind_some]
      exact ih hrest mid (startPos + w) (by omega)
    · rw [packSamples, packSample_none buffer startPos hsample hlow]
      rfl

/-- Bytes that hold exactly the given samples, packed with `w` bits each. -/
def IsPacked (w : Nat) (samples : List (BitVec 16)) (bytes : List (BitVec 8)) : Prop :=
  8 * bytes.length = w * samples.length ∧
    ∀ p < w * samples.length, bitAt bytes p = sampleBit w samples p

/-- The samples determine the packed bytes. -/
theorem IsPacked.unique {xs ys : List (BitVec 8)} (hx : IsPacked w samples xs)
    (hy : IsPacked w samples ys) : xs = ys := by
  have hlen : xs.length = ys.length := by
    have := hx.1
    have := hy.1
    omega
  apply ext_bitAt hlen
  intro p hp
  rw [hx.1] at hp
  rw [hx.2 p hp, hy.2 p hp]

/-- **`pack_bytes` fills its buffer with the packed samples** when they end at its last bit. -/
theorem packBytes_spec (hlow : 8 ≤ w) (hhigh : w ≤ 16) {buffer : List (BitVec 8)}
    (hsize : 8 * buffer.length = w * samples.length) :
    ∃ out, packBytes buffer samples w = some out ∧ IsPacked w samples out := by
  have hpack : ∀ s ∈ samples, Packable w s := fun s _ => .inl hlow
  obtain ⟨out, hout, hlen, hbits⟩ := packSamples_spec (by omega) hhigh hpack buffer 0 (by omega)
  rw [Nat.zero_add] at hout hbits
  refine ⟨out, ?_, by omega, fun p hp => ?_⟩
  · have haligned : ¬ w * samples.length % 8 ≠ 0 := by omega
    simp only [packBytes, hout, Option.bind_eq_bind, Option.bind_some, if_neg haligned]
  · rw [hbits, if_pos ⟨Nat.zero_le p, hp⟩, Nat.sub_zero]

/-- **`pack_bytes` into a buffer of any size**: the samples, and zeros up to the end of the byte. -/
theorem packBytes_bits (hlow : 0 < w) (hhigh : w ≤ 16) {buffer : List (BitVec 8)}
    (hpack : ∀ s ∈ samples, Packable w s) (hsize : (w * samples.length + 7) / 8 ≤ buffer.length) :
    ∃ out, packBytes buffer samples w = some out ∧ out.length = buffer.length ∧
      (∀ p < w * samples.length, bitAt out p = sampleBit w samples p) ∧
      ∀ p, w * samples.length ≤ p → p < 8 * ((w * samples.length + 7) / 8) →
        bitAt out p = false := by
  obtain ⟨mid, hmid, hlen, hbits⟩ := packSamples_spec hlow hhigh hpack buffer 0 (by omega)
  rw [Nat.zero_add] at hmid hbits
  have hsamples : ∀ p < w * samples.length, bitAt mid p = sampleBit w samples p := by
    intro p hp
    rw [hbits, if_pos ⟨Nat.zero_le p, hp⟩, Nat.sub_zero]
  generalize w * samples.length = n at *
  by_cases haligned : n % 8 ≠ 0
  · have hzero : (0 : BitVec 8).toNat < 2 ^ (8 - n % 8) := Nat.two_pow_pos _
    obtain ⟨out, hout, houtlen, houtbits⟩ :=
      bitAt_insert mid n (by omega : 8 - n % 8 ≤ 8) (by omega) hzero (by omega)
    refine ⟨out, ?_, houtlen.trans hlen, fun p hp => ?_, fun p hp hp' => ?_⟩
    · simp only [packBytes, hmid, Option.bind_eq_bind, Option.bind_some, if_pos haligned, hout]
    · rw [houtbits, insertedBit, if_neg (by omega), hsamples p hp]
    · rw [houtbits, insertedBit, if_pos (by omega)]
      exact BitVec.getLsbD_zero
  · refine ⟨mid, ?_, hlen, hsamples, fun p hp hp' => by omega⟩
    simp only [packBytes, hmid, Option.bind_eq_bind, Option.bind_some, if_neg haligned]

/-! ## Reading samples -/

/-- The loop of `unpack_bits`. A pass reads at least one bit, so `length` passes are enough. -/
def unpackLoop (buffer : List (BitVec 8)) : Nat → BitVec 16 → Nat → Nat → Option (BitVec 16)
  | passes, value, bitsLeftToRead, offset =>
    if bitsLeftToRead = 0 then some value
    else
      match passes with
      | 0 => none
      | passes + 1 =>
        if bitsLeftToRead > 8 then do
          let byte ← extract buffer offset 8
          unpackLoop buffer passes (byte.setWidth 16 <<< (bitsLeftToRead - 8))
            (bitsLeftToRead - 8) (offset + 8)
        else do
          let bits ← extract buffer offset bitsLeftToRead
          unpackLoop buffer passes (value ||| bits.setWidth 16) 0 offset

def unpackBits (buffer : List (BitVec 8)) (offset length : Nat) : Option (BitVec 16) :=
  unpackLoop buffer length 0 length offset

section

variable {buffer : List (BitVec 8)} {offset : Nat}

@[simp] theorem unpackLoop_zero (passes : Nat) (value : BitVec 16) :
    unpackLoop buffer passes value 0 offset = some value := by
  cases passes <;> simp [unpackLoop]

theorem unpackLoop_last (passes : Nat) {length : Nat} (value : BitVec 16) (hlen : length ≤ 8)
    (hpos : 0 < length) (hsize : offset + length ≤ 8 * buffer.length) :
    ∃ out, unpackLoop buffer (passes + 1) value length offset = some out ∧
      ∀ i, out.getLsbD i = (value.getLsbD i ||
        (decide (i < length) && bitAt buffer (offset + length - 1 - i))) := by
  obtain ⟨bits, hbits, hget⟩ := getLsbD_extract buffer offset hlen hsize
  refine ⟨value ||| bits.setWidth 16, ?_, fun i => ?_⟩
  · rw [unpackLoop]
    simp [if_neg hpos.ne', if_neg (by omega : ¬ length > 8), hbits]
  · rw [BitVec.getLsbD_or, BitVec.getLsbD_setWidth, hget]
    by_cases hi : i < length
    · rw [decide_eq_true (by omega : i < 16), Bool.true_and]
    · simp [hi]

/-- **`unpack_bits` reads its bits**, the last one as the least significant. -/
theorem unpackBits_spec {length : Nat} (hlen : length ≤ 16) (hpos : 0 < length)
    (hsize : offset + length ≤ 8 * buffer.length) :
    ∃ out, unpackBits buffer offset length = some out ∧
      ∀ i, out.getLsbD i =
        (decide (i < length) && bitAt buffer (offset + length - 1 - i)) := by
  rw [unpackBits]
  by_cases hshort : length ≤ 8
  · obtain ⟨out, hout, hget⟩ :=
      unpackLoop_last (length - 1) 0 hshort hpos hsize
    rw [show length - 1 + 1 = length by omega] at hout
    exact ⟨out, hout, fun i => by simp [hget]⟩
  · obtain ⟨byte, hbyte, hbyteget⟩ :=
      getLsbD_extract buffer offset (le_refl 8) (by omega)
    obtain ⟨out, hout, hget⟩ :=
      unpackLoop_last (length - 2) (byte.setWidth 16 <<< (length - 8)) (by omega) (by omega)
        (by omega : offset + 8 + (length - 8) ≤ 8 * buffer.length)
    refine ⟨out, ?_, fun i => ?_⟩
    · rw [show unpackLoop buffer length = unpackLoop buffer (length - 2 + 1 + 1) by
        rw [show length - 2 + 1 + 1 = length by omega], unpackLoop]
      simp [if_neg (by omega : ¬ length = 0), if_pos (by omega : length > 8), hbyte, hout]
    · rw [hget, BitVec.getLsbD_shiftLeft, BitVec.getLsbD_setWidth, hbyteget]
      by_cases hi : i < length
      · by_cases hfirst : i < length - 8
        · rw [decide_eq_true hfirst,
            show offset + 8 + (length - 8) - 1 - i = offset + length - 1 - i by omega]
          simp [hi]
        · rw [decide_eq_false hfirst, decide_eq_true (by omega : i < 16),
            decide_eq_true (by omega : i - (length - 8) < 16),
            decide_eq_true (by omega : i - (length - 8) < 8),
            show offset + 8 - 1 - (i - (length - 8)) = offset + length - 1 - i by omega]
          simp [hi]
      · rw [decide_eq_false (by omega : ¬ i < length - 8),
          decide_eq_false (by omega : ¬ i - (length - 8) < 8)]
        simp [hi]

/-- **Reading back a packed sample** gives its `w` low bits. -/
theorem unpackBits_of_bits (hhigh : w ≤ 16) (hw : 0 < w)
    (hsize : w * samples.length ≤ 8 * buffer.length)
    (hbits : ∀ p < w * samples.length, bitAt buffer p = sampleBit w samples p) {k : Nat}
    (hk : k < samples.length) :
    ∃ out, unpackBits buffer (w * k) w = some out ∧
      ∀ i, out.getLsbD i = (decide (i < w) && (samples.getD k 0).getLsbD i) := by
  have hend : w * k + w ≤ w * samples.length := by
    exact Nat.mul_le_mul_left w hk
  obtain ⟨out, hout, hget⟩ := unpackBits_spec hhigh hw (hend.trans hsize)
  refine ⟨out, hout, fun i => ?_⟩
  rw [hget]
  by_cases hi : i < w
  · have hdiv : (w * k + w - 1 - i) / w = k := by
      rw [show w * k + w - 1 - i = (w - 1 - i) + w * k by omega, Nat.add_mul_div_left _ _ hw,
        Nat.div_eq_of_lt (by omega), Nat.zero_add]
    have hmod : (w * k + w - 1 - i) % w = w - 1 - i := by
      rw [show w * k + w - 1 - i = (w - 1 - i) + w * k by omega, Nat.add_mul_mod_self_left,
        Nat.mod_eq_of_lt (by omega)]
    rw [hbits _ (by omega), sampleBit, hdiv, hmod, show w - 1 - (w - 1 - i) = i by omega]
  · simp [hi]

theorem unpackBits_of_isPacked (hhigh : w ≤ 16) (hw : 0 < w) (h : IsPacked w samples buffer)
    {k : Nat} (hk : k < samples.length) :
    ∃ out, unpackBits buffer (w * k) w = some out ∧
      ∀ i, out.getLsbD i = (decide (i < w) && (samples.getD k 0).getLsbD i) :=
  unpackBits_of_bits hhigh hw (Nat.le_of_eq h.1.symm) h.2 hk

end

/-! ## Blocks among other samples -/

/-- The 24 samples of a resource block lie from place `base` on among the samples that `f` gives. -/
structure BlockAt (f : Nat → BitVec 16) (base : Nat) (prb : List (BitVec 16)) : Prop where
  length : prb.length = 24
  sample : ∀ i < 24, prb.getD i 0 = f (base + i)

theorem BlockAt.ne_nil {f : Nat → BitVec 16} {base : Nat} {prb : List (BitVec 16)}
    (h : BlockAt f base prb) : prb ≠ [] :=
  List.ne_nil_of_length_eq_add_one h.length

end RadioStack.Ofh
