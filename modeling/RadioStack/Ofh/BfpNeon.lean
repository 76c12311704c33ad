import RadioStack.Lib.Neon
import RadioStack.Ofh.BfpCompress

/-!
# Block floating point with NEON

`iq_compression_bfp_neon::compress` takes four blocks at a time, then two, then one, each in three
registers of eight samples. Its exponent is a 16-bit subtraction of leading-zero counts that is
cut to a byte, with no lower bound and no special case for a full-scale magnitude.

**Theorem (`neon_agrees_iff`).** The exponents, and with them the bytes and the shifted samples
that `compress` hands to the packer, are those of the generic code exactly when every block needs
`w - 1` bits or more and is not constant `-32768`. On a block of lower amplitude the subtraction
wraps around below zero, and the byte is at least 243. On the constant block `-32768` it is
`17 - w`, where the generic exponent is zero.
-/

namespace RadioStack.Ofh

open Neon Tournament

/-! ## One block -/

def determineBfpExponent (vec : Int16x8x3) (dataWidth : Nat) : BitVec 8 :=
  let maxLzcnt := BitVec.ofInt 16 (16 - dataWidth + 1)
  let vecMaxLzc := vdupNU16 maxLzcnt
  let tmpMax := vmaxqS16 (vmaxqS16 (vec 0) (vec 1)) (vec 2)
  let max16 := vmaxvqS16 tmpMax
  let tmpMin := vminqS16 (vminqS16 (vec 0) (vec 1)) (vec 2)
  let min16 := vminvqS16 tmpMin
  let maxAbs := BitVec.ofInt 16 (max (max16.toInt.natAbs : Int) (min16.toInt.natAbs - 1))
  let lzc := vclzU16 (vdupNU16 maxAbs)
  (vgetLaneU16 (vsubU16 vecMaxLzc lzc) 0).setWidth 8

/-- `shift_right_x3vector_s16`: an exponent outside 1 to 8 copies the samples. -/
def shiftRightX3vector (src : Int16x8x3) (exponent : BitVec 8) : Int16x8x3 :=
  if 1 ≤ exponent.toNat ∧ exponent.toNat ≤ 8 then fun r => vshrqNS16 (src r) exponent.toNat
  else src

/-- The samples of three registers in the order of memory. -/
def samplesOf (vec : Int16x8x3) : List (BitVec 16) :=
  List.ofFn fun i : Fin 24 => vec ⟨i.val / 8, by omega⟩ ⟨i.val % 8, by omega⟩

/-- What `iq_compression_bfp_neon::compress` writes for one block: the exponent byte, and the
shifted samples that go to the packer. -/
def neonBlock (inputQuantized : List (BitVec 16)) (dataWidth sampleIdx : Nat) :
    BitVec 8 × List (BitVec 16) :=
  let vec := vld1qS16X3 inputQuantized sampleIdx
  let exponent := if dataWidth ≠ maxIqWidth then determineBfpExponent vec dataWidth else 0
  (exponent, samplesOf (shiftRightX3vector vec exponent))

/-- What the generic `compress` writes for one block. -/
def genericBlock (inputQuantized : List (BitVec 16)) (dataWidth i : Nat) :
    BitVec 8 × List (BitVec 16) :=
  let exponent := genericExponent dataWidth (prbAt inputQuantized i)
  (exponent, (prbAt inputQuantized i).map fun s => s.sshiftRight exponent.toNat)

/-! ## The block loops -/

/-- A loop that takes `step` blocks at a time: `count` rounds from block `rb` on. -/
def neonLoop (inputQuantized : List (BitVec 16)) (dataWidth step : Nat) :
    Nat → Nat → List (BitVec 8 × List (BitVec 16))
  | 0, _ => []
  | count + 1, rb =>
    ((List.range step).map fun k =>
      neonBlock inputQuantized dataWidth (nofSamplesPerPrb * (rb + k))) ++
        neonLoop inputQuantized dataWidth step count (rb + step)

/-- `neon::iq_width_packing_supported`. -/
def neonWidthSupported (iqWidth : Nat) : Bool := iqWidth == 9 || iqWidth == 16

/-- The exponents and shifted samples of `iq_compression_bfp_neon::compress`: rounds of four
blocks, then of two, then a last one. -/
def neonBlocks (inputQuantized : List (BitVec 16)) (dataWidth : Nat) :
    List (BitVec 8 × List (BitVec 16)) :=
  let nofPrbs := inputQuantized.length / nofSamplesPerPrb
  if neonWidthSupported dataWidth then
    neonLoop inputQuantized dataWidth 4 (nofPrbs / 4) 0 ++
      neonLoop inputQuantized dataWidth 2 ((nofPrbs / 2 * 2 - nofPrbs / 4 * 4) / 2)
        (nofPrbs / 4 * 4) ++
      if nofPrbs / 2 * 2 ≠ nofPrbs then
        [neonBlock inputQuantized dataWidth (nofSamplesPerPrb * (nofPrbs / 2 * 2))]
      else []
  else (List.range nofPrbs).map (genericBlock inputQuantized dataWidth)

theorem neonLoop_eq (samples : List (BitVec 16)) (w step : Nat) : ∀ count rb,
    neonLoop samples w step count rb = (List.range (step * count)).map fun k =>
      neonBlock samples w (nofSamplesPerPrb * (rb + k))
  | 0, rb => rfl
  | count + 1, rb => by
    have hcount : step * (count + 1) = step + step * count := by
      rw [Nat.mul_succ, Nat.add_comm]
    rw [neonLoop, neonLoop_eq samples w step count (rb + step), hcount, List.range_add,
      List.map_append, List.map_map]
    simp [Nat.add_assoc]

/-- The loops take every block once, in order. -/
theorem neonBlocks_eq (samples : List (BitVec 16)) {w : Nat} (hw : neonWidthSupported w = true) :
    neonBlocks samples w = (List.range (samples.length / nofSamplesPerPrb)).map fun i =>
      neonBlock samples w (nofSamplesPerPrb * i) := by
  have hjoin : ∀ (f : Nat → BitVec 8 × List (BitVec 16)) (a b : Nat),
      (List.range a).map f ++ (List.range b).map (fun k => f (a + k)) =
        (List.range (a + b)).map f := by
    intro f a b
    rw [List.range_add, List.map_append, List.map_map]
    rfl
  generalize hn : samples.length / nofSamplesPerPrb = n
  have htwo : n / 4 * 4 + 2 * ((n / 2 * 2 - n / 4 * 4) / 2) = n / 2 * 2 := by omega
  rw [neonBlocks, hn, if_pos hw, neonLoop_eq, neonLoop_eq]
  simp only [Nat.zero_add]
  rw [Nat.mul_comm 4 (n / 4), hjoin (fun i => neonBlock samples w (nofSamplesPerPrb * i)), htwo]
  by_cases hodd : n / 2 * 2 ≠ n
  · have hlast : n = n / 2 * 2 + 1 := by omega
    rw [if_pos hodd]
    conv_rhs => rw [hlast, List.range_succ, List.map_append]
    rfl
  · rw [if_neg hodd, List.append_nil, not_not.1 hodd]

/-! ## The exponents -/

section

variable {samples : List (BitVec 16)} {w i : Nat}

/-- **The NEON exponent** is a difference of leading-zero counts, cut to a byte. -/
theorem toNat_determineBfpExponent (hw : w ≤ 16) (hi : i < samples.length / nofSamplesPerPrb) :
    (determineBfpExponent (vld1qS16X3 samples (nofSamplesPerPrb * i)) w).toNat =
      (17 - w + (2 ^ 16 - clz16 (BitVec.ofNat 16 (maxAbs (prbAt samples i))))) % 256 := by
  set f : Nat → BitVec 16 := fun n => samples.getD (24 * i + n) 0
  have hprb : BlockAt f 0 (prbAt samples i) :=
    ⟨length_prbAt hi, fun k hk => by rw [getD_prbAt hk, Nat.zero_add]⟩
  have hv : ∀ r l, vld1qS16X3 samples (nofSamplesPerPrb * i) r l = f (8 * r.val + l.val) :=
    fun r l => rfl
  set prb := prbAt samples i
  obtain ⟨I, hI, hmin⟩ := isBest_across selects_signedMin f hv
  obtain ⟨J, hJ, hmax⟩ := isBest_across selects_signedMax f hv
  generalize hvec : vld1qS16X3 samples (nofSamplesPerPrb * i) = vec at hmin hmax
  have hmin' : (vminvqS16 (vminqS16 (vminqS16 (vec 0) (vec 1)) (vec 2))).toInt = blockMin prb :=
    blockMin_of_isBest hprb (fun n => by rw [hI]; omega) hmin
  have hmax' : (vmaxvqS16 (vmaxqS16 (vmaxqS16 (vec 0) (vec 1)) (vec 2))).toInt = blockMax prb :=
    blockMax_of_isBest hprb (fun n => by rw [hJ]; omega) hmax
  have hnonneg : (0 : Int) ≤ max ((blockMax prb).natAbs : Int) ((blockMin prb).natAbs - 1) := by
    omega
  have habs : BitVec.ofInt 16 (max ((blockMax prb).natAbs : Int) ((blockMin prb).natAbs - 1)) =
      BitVec.ofNat 16 (maxAbs prb) := by
    rw [maxAbs, ← BitVec.ofInt_natCast, Int.toNat_of_nonneg hnonneg]
  have hclz : clz16 (BitVec.ofNat 16 (maxAbs prb)) ≤ 16 := by
    rw [clz16]
    split <;> omega
  have hlzcnt : BitVec.ofInt 16 (16 - (w : Int) + 1) = BitVec.ofNat 16 (17 - w) := by
    have hcast : (16 - (w : Int) + 1) = ((17 - w : Nat) : Int) := by omega
    rw [hcast, BitVec.ofInt_natCast]
  simp only [determineBfpExponent, vgetLaneU16, vsubU16, vclzU16, vdupNU16]
  rw [hmin', hmax', habs, hlzcnt, BitVec.toNat_setWidth, BitVec.toNat_sub, BitVec.toNat_ofNat,
    BitVec.toNat_ofNat]
  omega

/-- The exponents agree when the magnitude has its leading one between the mantissa's top bit
and the sign. -/
theorem determineBfpExponent_eq_iff (hlow : 8 ≤ w) (hhigh : w ≤ 15)
    (hi : i < samples.length / nofSamplesPerPrb) :
    determineBfpExponent (vld1qS16X3 samples (nofSamplesPerPrb * i)) w =
        genericExponent w (prbAt samples i) ↔
      2 ^ (w - 2) ≤ maxAbs (prbAt samples i) ∧ maxAbs (prbAt samples i) < 2 ^ 15 := by
  have hne : prbAt samples i ≠ [] := prbAt_ne_nil hi
  have hle := maxAbs_le hne
  have hpow : 0 < 2 ^ (w - 2) := Nat.two_pow_pos _
  rw [← BitVec.toNat_inj, toNat_determineBfpExponent (by omega) hi]
  generalize hx : maxAbs (prbAt samples i) = x at hle
  have hnat : (BitVec.ofNat 16 x).toNat = x := by
    rw [BitVec.toNat_ofNat, Nat.mod_eq_of_lt (by omega)]
  by_cases hzero : x = 0
  · -- all samples are zero or minus one: the count of zeros is 16
    have hclz : clz16 (BitVec.ofNat 16 0) = 16 := rfl
    rw [toNat_genericExponent (by omega) (by omega) (by omega), hx, hzero, hclz, blockExponent,
      if_pos rfl]
    omega
  · have hclz : clz16 (BitVec.ofNat 16 x) = 15 - x.log2 := by
      rw [clz16, hnat, if_neg]
      intro h
      rw [h] at hnat
      exact hzero hnat.symm
    rw [hclz]
    by_cases hfull : x < 2 ^ 15
    · have hlog : x.log2 < 15 := (Nat.log2_lt hzero).2 hfull
      rw [toNat_genericExponent (by omega) (by omega) (by omega), hx, blockExponent, if_neg hzero,
        ← Nat.le_log2 hzero]
      omega
    · have hlog : x.log2 = 15 := by
        rw [Nat.log2_eq_iff hzero]
        omega
      rw [genericExponent_of_le (by omega) (by omega) hne (by omega), hlog]
      omega

end

/-! ## Agreement with the generic implementation -/

/-- The block needs at least `w - 1` bits, or is constant `-2 ^ (w - 2)`; and it is not constant
`-32768`. -/
def NeonRange (w : Nat) (prb : List (BitVec 16)) : Prop :=
  ((∃ s ∈ prb, 2 ^ (w - 2) ≤ s.toInt ∨ s.toInt < -2 ^ (w - 2)) ∨
    ∀ s ∈ prb, s.toInt = -2 ^ (w - 2)) ∧ ∃ s ∈ prb, s.toInt ≠ -32768

theorem neonRange_iff {w : Nat} {prb : List (BitVec 16)} (hne : prb ≠ []) :
    NeonRange w prb ↔ 2 ^ (w - 2) ≤ maxAbs prb ∧ maxAbs prb < 2 ^ 15 := by
  have hcast : 2 ^ (w - 2) ≤ maxAbs prb ↔ (2 : Int) ^ (w - 2) ≤ maxAbs prb := by norm_cast
  obtain ⟨⟨m, hm, hmax⟩, -⟩ := blockMax_spec hne
  have hmaxle : ((blockMax prb).natAbs : Int) ≤ maxAbs prb := by
    rw [maxAbs]
    omega
  rw [hcast, NeonRange]
  refine and_congr ⟨?_, fun hle => ?_⟩ (maxAbs_lt_iff hne).symm
  · rintro (⟨s, hs, hlarge | hsmall⟩ | hall)
    · exact hlarge.trans (sample_bounds hs).2
    · have hbound := (sample_bounds hs).1
      linarith
    · have hval := hall m hm
      omega
  · rcases maxAbs_attained hne with ⟨s, hs, hval⟩ | ⟨s, hs, hval⟩ | hall
    · exact .inl ⟨s, hs, .inl (hval ▸ hle)⟩
    · exact .inl ⟨s, hs, .inr (by linarith)⟩
    · rcases eq_or_lt_of_le hle with heq | hlt
      · exact .inr fun s hs => by rw [hall s hs, heq]
      · exact .inl ⟨m, hm, .inr (by rw [hall m hm]; exact neg_lt_neg hlt)⟩

section

variable {samples : List (BitVec 16)} {w i : Nat}

theorem samplesOf_vld1qS16X3 (hi : i < samples.length / nofSamplesPerPrb) :
    samplesOf (vld1qS16X3 samples (nofSamplesPerPrb * i)) = prbAt samples i := by
  have hlen := length_prbAt hi
  apply List.ext_getElem (by rw [hlen, samplesOf, List.length_ofFn]; rfl)
  intro k hk hk'
  have hget : (prbAt samples i).getD k 0 = samples.getD (24 * i + k) 0 :=
    getD_prbAt (by rw [← hlen]; exact hk')
  rw [List.getD_eq_getElem _ _ hk'] at hget
  rw [hget]
  simp only [samplesOf, List.getElem_ofFn, vld1qS16X3, nofSamplesPerPrb]
  congr 1
  omega

theorem samplesOf_shiftRightX3vector (vec : Int16x8x3) {e : BitVec 8} (he : e.toNat ≤ 8) :
    samplesOf (shiftRightX3vector vec e) =
      (samplesOf vec).map fun s => s.sshiftRight e.toNat := by
  rw [shiftRightX3vector]
  split
  · rfl
  · have hzero : e.toNat = 0 := by omega
    simp [hzero]

/-- Where the exponents agree, the block is written as by the generic code. -/
theorem neonBlock_eq_genericBlock_iff (hlow : 8 ≤ w) (hhigh : w ≤ 15)
    (hi : i < samples.length / nofSamplesPerPrb) :
    neonBlock samples w (nofSamplesPerPrb * i) = genericBlock samples w i ↔
      determineBfpExponent (vld1qS16X3 samples (nofSamplesPerPrb * i)) w =
        genericExponent w (prbAt samples i) := by
  have hwidth : w ≠ maxIqWidth := by
    rw [maxIqWidth]
    omega
  rw [neonBlock, genericBlock, if_pos hwidth]
  constructor
  · intro h
    exact (Prod.mk.inj h).1
  · intro h
    have hx := ((determineBfpExponent_eq_iff hlow hhigh hi).1 h).2
    have hle := blockExponent_le (w := w) hx
    have he : (genericExponent w (prbAt samples i)).toNat ≤ 8 := by
      rw [toNat_genericExponent (by omega) (by omega) hx]
      omega
    rw [h, samplesOf_shiftRightX3vector _ he, samplesOf_vld1qS16X3 hi]

end

/-- **When NEON agrees with the generic code.** -/
theorem neon_agrees_iff {w : Nat} (hlow : 8 ≤ w) (hhigh : w ≤ 15) (samples : List (BitVec 16)) :
    ((∀ i < samples.length / nofSamplesPerPrb,
        determineBfpExponent (vld1qS16X3 samples (nofSamplesPerPrb * i)) w =
            genericExponent w (prbAt samples i) ∧
          (determineBfpExponent (vld1qS16X3 samples (nofSamplesPerPrb * i)) w).toNat ≤ 16 - w) ∧
      neonBlocks samples w = (List.range (samples.length / nofSamplesPerPrb)).map
        (genericBlock samples w)) ↔
      ∀ i < samples.length / nofSamplesPerPrb, NeonRange w (prbAt samples i) := by
  constructor
  · rintro ⟨hexp, -⟩ i hi
    rw [neonRange_iff (prbAt_ne_nil hi)]
    exact (determineBfpExponent_eq_iff hlow hhigh hi).1 (hexp i hi).1
  · intro hrange
    have hexp : ∀ i < samples.length / nofSamplesPerPrb,
        determineBfpExponent (vld1qS16X3 samples (nofSamplesPerPrb * i)) w =
          genericExponent w (prbAt samples i) := by
      intro i hi
      rw [determineBfpExponent_eq_iff hlow hhigh hi, ← neonRange_iff (prbAt_ne_nil hi)]
      exact hrange i hi
    refine ⟨fun i hi => ⟨hexp i hi, ?_⟩, ?_⟩
    · have hx := ((determineBfpExponent_eq_iff hlow hhigh hi).1 (hexp i hi)).2
      rw [hexp i hi, toNat_genericExponent (by omega) (by omega) hx]
      exact blockExponent_le hx
    · by_cases hsupported : neonWidthSupported w = true
      · rw [neonBlocks_eq samples hsupported]
        apply List.map_congr_left
        intro i hi
        have hi' := List.mem_range.1 hi
        exact (neonBlock_eq_genericBlock_iff hlow hhigh hi').2 (hexp i hi')
      · rw [neonBlocks, if_neg hsupported]

/-- A block of ones at width 9: the NEON exponent is 249, the generic one is zero. -/
theorem neon_exponent_ones :
    determineBfpExponent (vld1qS16X3 (List.replicate 24 1) 0) 9 = 249 ∧
      genericExponent 9 (prbAt (List.replicate 24 1) 0) = 0 ∧
      determineBfpExponent (vld1qS16X3 (List.replicate 24 1) 0) 9 ≠
        genericExponent 9 (prbAt (List.replicate 24 1) 0) := by
  decide +kernel

theorem neon_agrees_block300 :
    (∀ i < 1, determineBfpExponent (vld1qS16X3 (List.replicate 24 300) (nofSamplesPerPrb * i)) 9 =
        genericExponent 9 (prbAt (List.replicate 24 300) i) ∧
      (determineBfpExponent (vld1qS16X3 (List.replicate 24 300) (nofSamplesPerPrb * i)) 9).toNat ≤
        16 - 9) ∧
      neonBlocks (List.replicate 24 300) 9 =
        (List.range 1).map (genericBlock (List.replicate 24 300) 9) := by
  refine (neon_agrees_iff (w := 9) (by decide) (by decide) (List.replicate 24 300)).2 ?_
  intro i hi
  obtain rfl : i = 0 := Nat.lt_one_iff.1 hi
  have hmem : (300 : BitVec 16) ∈ List.replicate 24 (300 : BitVec 16) := by simp
  exact ⟨.inl ⟨300, hmem, .inl (by decide)⟩, 300, hmem, by decide⟩

end RadioStack.Ofh
