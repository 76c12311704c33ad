import RadioStack.Ofh.Avx2Packing
import RadioStack.Ofh.BfpCompress

/-!
# Block floating point with AVX2

`iq_compression_bfp_avx2::compress` takes two blocks at a time, in three registers, and leaves an
odd last block to the generic code. It finds the extremes of both blocks by comparisons inside
the 128-bit halves, and it computes `abs(min) - 1` in unsigned arithmetic.

**Theorem (`avx2Compress_eq_compress_iff`).** The AVX2 buffer is the generic one exactly when no
block among the pairs has minimum zero and a sample of `2 ^ (w - 1)` or more. On such a block
`abs(min) - 1` wraps around to `0xffffffff`, the magnitude has its top bit set, and the exponent
comes out as zero. At width 16 there is no such block.
-/

namespace RadioStack.Ofh

open Bytes Avx2 Tournament

/-! ## The extremes of two blocks -/

/-- The comparisons of `find_rbs_abs_min_max_values`, before the absolute value. -/
def compareRbs (compare : M256 → M256 → M256) (v0 v1 v2 : M256) : M256 :=
  let cmp8val := compare (compare v0 v1) v2
  let cmp8valSwp := shuffleEpi32 cmp8val 0x4e
  let cmp4val := compare cmp8val cmp8valSwp
  let cmp4valSwp := shuffleEpi32 cmp4val 0x1b
  let cmp2val := compare cmp4val cmp4valSwp
  let shuffleMask := setrEpi8 [2, 3, 0, 1, 6, 7, 4, 5, 8, 9, 10, 11, 14, 15, 12, 13,
    2, 3, 0, 1, 6, 7, 4, 5, 8, 9, 10, 11, 14, 15, 12, 13]
  let cmp2valSwp := shuffleEpi8 cmp2val shuffleMask
  compare cmp2val cmp2valSwp

section

local instance neZeroRb : NeZero 16 := ⟨by decide⟩

def findRbsAbsMinMaxValues (compare : M256 → M256 → M256) (v0 v1 v2 : M256) :
    BitVec 16 × BitVec 16 :=
  let cmpRb0Rb1 := absEpi16 (compareRbs compare v0 v1 v2)
  (epi16 cmpRb0Rb1 0, epi16 cmpRb0Rb1 8)

end

/-- `calculate_max_abs`. The subtraction of one is unsigned. -/
def calculateMaxAbs (rb0 rb01 rb1 : M256) : Nat × Nat :=
  let v0 := permute2f128 rb0 rb1 0x20
  let v2 := permute2f128 rb0 rb1 0x31
  let v1 := rb01
  let absMin := findRbsAbsMinMaxValues minEpi16 v0 v1 v2
  let absMax := findRbsAbsMinMaxValues maxEpi16 v0 v1 v2
  (max absMax.1.toNat ((absMin.1.toNat + (2 ^ 32 - 1)) % 2 ^ 32),
    max absMax.2.toNat ((absMin.2.toNat + (2 ^ 32 - 1)) % 2 ^ 32))

/-- The samples of half `half` that meet in element `i` of the half. -/
def column (half i : Nat) : List Nat :=
  if half = 0 then [i] ++ [16 + i] ++ [8 + i] else [32 + i] ++ [24 + i] ++ [40 + i]

section

variable {le : BitVec 16 → BitVec 16 → Prop} {op : BitVec 16 → BitVec 16 → BitVec 16}
  (hop : Selects le op) (r0 r1 r2 : M256)

include hop in
theorem isBest_column {half i : Nat} (hhalf : half < 2) (hi : i < 8) :
    IsBest le (sampleOf r0 r1 r2) (column half i)
      (epi16 (map2Epi16 op (map2Epi16 op (permute2f128 r0 r2 0x20) r1)
        (permute2f128 r0 r2 0x31)) ⟨8 * half + i, by omega⟩) := by
  rw [epi16_map2Epi16, epi16_map2Epi16, epi16_permute2f128_0x20, epi16_permute2f128_0x31]
  have hnode := fun k l m => hop.node (hop.node (hop.leaf (sampleOf r0 r1 r2) k)
    (hop.leaf (sampleOf r0 r1 r2) l)) (hop.leaf (sampleOf r0 r1 r2) m)
  interval_cases half <;> interval_cases i <;> exact hnode _ _ _

/-- The remaining comparisons, in the first element of a half. -/
theorem epi16_compareRbs {half : Nat} (hhalf : half < 2) (v0 v1 v2 : M256) :
    let c := fun i : Fin 8 => epi16 (map2Epi16 op (map2Epi16 op v0 v1) v2)
      ⟨8 * half + i.val, by omega⟩
    epi16 (compareRbs (map2Epi16 op) v0 v1 v2) ⟨8 * half, by omega⟩ =
      op (op (op (c 0) (c 4)) (op (c 6) (c 2))) (op (op (c 1) (c 5)) (op (c 7) (c 3))) := by
  have hswap : ∀ a : M256, epi16 (shuffleEpi8 a (setrEpi8 [2, 3, 0, 1, 6, 7, 4, 5, 8, 9, 10, 11,
      14, 15, 12, 13, 2, 3, 0, 1, 6, 7, 4, 5, 8, 9, 10, 11, 14, 15, 12, 13])) ⟨8 * half, by omega⟩ =
        epi16 a ⟨8 * half + 1, by omega⟩ := by
    intro a
    interval_cases half
    · show epi16 _ 0 = epi16 a 1
      rfl
    · show epi16 _ 8 = epi16 a 9
      rfl
  rw [compareRbs]
  simp only [epi16_map2Epi16 _ _ ⟨8 * half, _⟩, hswap]
  simp only [epi16_map2Epi16, epi16_shuffleEpi32]
  interval_cases half <;> rfl

include hop in
/-- **The comparisons find the best of the 24 samples of each block.** -/
theorem isBest_compareRbs {half : Nat} (hhalf : half < 2) :
    ∃ I : List Nat, (∀ n, n ∈ I ↔ 24 * half ≤ n ∧ n < 24 * half + 24) ∧
      IsBest le (sampleOf r0 r1 r2) I (epi16 (compareRbs (map2Epi16 op)
        (permute2f128 r0 r2 0x20) r1 (permute2f128 r0 r2 0x31)) ⟨8 * half, by omega⟩) := by
  have hcol := fun i (hi : i < 8) => isBest_column hop r0 r1 r2 hhalf hi
  rw [epi16_compareRbs hhalf]
  refine ⟨_, fun n => ?_, hop.node
    (hop.node (hop.node (hcol 0 (by decide)) (hcol 4 (by decide)))
      (hop.node (hcol 6 (by decide)) (hcol 2 (by decide))))
    (hop.node (hop.node (hcol 1 (by decide)) (hcol 5 (by decide)))
      (hop.node (hcol 7 (by decide)) (hcol 3 (by decide))))⟩
  have hcase : half = 0 ∨ half = 1 := by omega
  rcases hcase with rfl | rfl <;> simp [column] <;> omega

end

/-- The magnitude that `calculate_max_abs` gives for a block. -/
def avx2MaxAbs (prb : List (BitVec 16)) : Nat :=
  max (blockMax prb).natAbs (((blockMin prb).natAbs + (2 ^ 32 - 1)) % 2 ^ 32)

section

variable {r0 r1 r2 : M256} {prb : List (BitVec 16)} {half : Nat} (hhalf : half < 2)
  (hprb : BlockAt (sampleOf r0 r1 r2) (24 * half) prb)

include hhalf hprb in
theorem toInt_compareRbs_min :
    (epi16 (compareRbs minEpi16 (permute2f128 r0 r2 0x20) r1 (permute2f128 r0 r2 0x31))
      ⟨8 * half, by omega⟩).toInt = blockMin prb := by
  obtain ⟨I, hI, hbest⟩ := isBest_compareRbs selects_signedMin r0 r1 r2 hhalf
  exact blockMin_of_isBest hprb hI hbest

include hhalf hprb in
theorem toInt_compareRbs_max :
    (epi16 (compareRbs maxEpi16 (permute2f128 r0 r2 0x20) r1 (permute2f128 r0 r2 0x31))
      ⟨8 * half, by omega⟩).toInt = blockMax prb := by
  obtain ⟨I, hI, hbest⟩ := isBest_compareRbs selects_signedMax r0 r1 r2 hhalf
  exact blockMax_of_isBest hprb hI hbest

end

/-- **`calculate_max_abs` gives the magnitudes of both blocks.** -/
theorem calculateMaxAbs_eq {r0 r1 r2 : M256} {prb0 prb1 : List (BitVec 16)}
    (hprb0 : BlockAt (sampleOf r0 r1 r2) 0 prb0) (hprb1 : BlockAt (sampleOf r0 r1 r2) 24 prb1) :
    calculateMaxAbs r0 r1 r2 = (avx2MaxAbs prb0, avx2MaxAbs prb1) := by
  have hmin0 := toInt_compareRbs_min (by decide : 0 < 2) hprb0
  have hmax0 := toInt_compareRbs_max (by decide : 0 < 2) hprb0
  have hmin1 := toInt_compareRbs_min (by decide : 1 < 2) hprb1
  have hmax1 := toInt_compareRbs_max (by decide : 1 < 2) hprb1
  rw [avx2MaxAbs, avx2MaxAbs, ← hmin0, ← hmax0, ← hmin1, ← hmax1, ← toNat_abs, ← toNat_abs,
    ← toNat_abs, ← toNat_abs]
  simp only [calculateMaxAbs, findRbsAbsMinMaxValues, epi16_absEpi16]
  rfl

/-! ## Two blocks -/

/-- One round of the pair loop of `iq_compression_bfp_avx2::compress`, on the 48 samples from
`sampleIdx` on. The slots are the ones of both blocks. -/
def compressPrbPair (slot0 slot1 : List (BitVec 8)) (inputQuantized : List (BitVec 16))
    (sampleIdx dataWidth : Nat) : Option (List (BitVec 8) × List (BitVec 8)) := do
  let rb0 := loadu inputQuantized sampleIdx
  let rb01 := loadu inputQuantized (sampleIdx + 16)
  let rb1 := loadu inputQuantized (sampleIdx + 32)
  let maxAbs := calculateMaxAbs rb0 rb01 rb1
  let exponent0 ← determineExponent (BitVec.ofNat 16 maxAbs.1) dataWidth
  let exponent1 ← determineExponent (BitVec.ofNat 16 maxAbs.2) dataWidth
  let exponent0 := BitVec.ofNat 8 exponent0
  let exponent1 := BitVec.ofNat 8 exponent1
  let rb0Sr := sraiEpi16 rb0 exponent0.toNat
  let rb1Sr := sraiEpi16 rb1 exponent1.toNat
  let rb01Sr0 := sraiEpi16 rb01 exponent0.toNat
  let rb01Sr1 := sraiEpi16 rb01 exponent1.toNat
  let rb01Sr := permute2f128 rb01Sr0 rb01Sr1 0x30
  let (data0, data1) ←
    packPrbsBigEndian (slot0.drop 1) (slot1.drop 1) rb0Sr rb01Sr rb1Sr dataWidth
  return (exponent0 :: data0, exponent1 :: data1)

def avx2Exponent (w : Nat) (prb : List (BitVec 16)) : BitVec 8 :=
  BitVec.ofNat 8 ((determineExponent (BitVec.ofNat 16 (avx2MaxAbs prb)) w).getD 0)

theorem sampleOf_shifted (r0 r1 r2 : M256) (e0 e1 : Nat) {n : Nat} (hn : n < 48) :
    sampleOf (sraiEpi16 r0 e0) (permute2f128 (sraiEpi16 r1 e0) (sraiEpi16 r1 e1) 0x30)
      (sraiEpi16 r2 e1) n =
        (sampleOf r0 r1 r2 n).sshiftRight (if n < 24 then e0 else e1) := by
  rw [sampleOf, sampleOf]
  by_cases h0 : n < 16
  · rw [if_pos h0, if_pos h0, if_pos (by omega), epi16_sraiEpi16]
  · rw [if_neg h0, if_neg h0]
    by_cases h1 : n < 32
    · have hval : (Fin.ofNat 16 n).val = n - 16 := by
        rw [Fin.val_ofNat]
        omega
      rw [if_pos h1, if_pos h1, epi16_permute2f128_0x30, hval]
      by_cases h2 : n < 24
      · rw [if_pos (by omega), if_pos h2, epi16_sraiEpi16]
      · rw [if_neg (by omega), if_neg h2, epi16_sraiEpi16]
    · rw [if_neg h1, if_neg h1, if_neg (by omega), epi16_sraiEpi16]

section

variable {w : Nat} (hw : w = 9 ∨ w = 16) {samples : List (BitVec 16)}

/-- Shifting the samples of a block shifts the places where it lies. -/
theorem BlockAt.shifted {f g : Nat → BitVec 16} {base e : Nat} {prb : List (BitVec 16)}
    (h : BlockAt f base prb)
    (hg : ∀ i < 24, g (base + i) = (f (base + i)).sshiftRight e) :
    BlockAt g base (prb.map fun s => s.sshiftRight e) := by
  have hlen := h.length
  refine ⟨by rw [List.length_map, hlen], fun i hi => ?_⟩
  rw [hg i hi, ← h.sample i hi, List.getD_eq_getElem _ _ (by rw [List.length_map]; omega),
    List.getElem_map, List.getD_eq_getElem _ _ (by omega)]

include hw in
/-- Shifting and packing two blocks that lie in registers encodes them. -/
theorem packPrbsBigEndian_shifted {comp0 comp1 : List (BitVec 8)} (h0 : comp0.length = 3 * w)
    (h1 : comp1.length = 3 * w) {r0 r1 r2 : M256} {prb0 prb1 : List (BitVec 16)}
    (hprb0 : BlockAt (sampleOf r0 r1 r2) 0 prb0) (hprb1 : BlockAt (sampleOf r0 r1 r2) 24 prb1)
    (e0 e1 : BitVec 8) :
    ∃ data0 data1, packPrbsBigEndian comp0 comp1 (sraiEpi16 r0 e0.toNat)
        (permute2f128 (sraiEpi16 r1 e0.toNat) (sraiEpi16 r1 e1.toNat) 0x30)
        (sraiEpi16 r2 e1.toNat) w = some (data0, data1) ∧
      e0 :: data0 = encodePrb w e0 prb0 ∧ e1 :: data1 = encodePrb w e1 prb1 := by
  have hshift := fun n (hn : n < 48) => sampleOf_shifted r0 r1 r2 e0.toNat e1.toNat hn
  have hshift0 := hprb0.shifted fun i hi => (hshift _ (by omega)).trans (by rw [if_pos (by omega)])
  have hshift1 := hprb1.shifted fun i hi => (hshift _ (by omega)).trans (by rw [if_neg (by omega)])
  obtain ⟨data0, data1, hpack, hpacked0, hpacked1⟩ :=
    packPrbsBigEndian_spec hw h0 h1 hshift0 hshift1
  exact ⟨data0, data1, hpack, eq_encodePrb (by omega) (by omega) hprb0.length hpacked0,
    eq_encodePrb (by omega) (by omega) hprb1.length hpacked1⟩

/-- Two neighbouring blocks of a buffer lie in the three registers that are loaded from it. -/
theorem blockAt_loadu {rb k : Nat} (hk : k < 2)
    (hrb : rb + k < samples.length / nofSamplesPerPrb) :
    BlockAt (sampleOf (loadu samples (nofSamplesPerPrb * rb))
      (loadu samples (nofSamplesPerPrb * rb + 16)) (loadu samples (nofSamplesPerPrb * rb + 32)))
      (24 * k) (prbAt samples (rb + k)) := by
  refine ⟨length_prbAt hrb, fun i hi => ?_⟩
  rw [getD_prbAt hi, sampleOf_loadu _ _ (by omega), nofSamplesPerPrb]
  congr 1
  omega

include hw in
/-- **A round of the pair loop encodes two blocks.** -/
theorem compressPrbPair_eq {rb : Nat} (hrb : rb + 1 < samples.length / nofSamplesPerPrb)
    {slot0 slot1 : List (BitVec 8)} (h0 : slot0.length = compressedPrbSize w)
    (h1 : slot1.length = compressedPrbSize w) :
    compressPrbPair slot0 slot1 samples (nofSamplesPerPrb * rb) w =
      some (encodePrb w (avx2Exponent w (prbAt samples rb)) (prbAt samples rb),
        encodePrb w (avx2Exponent w (prbAt samples (rb + 1))) (prbAt samples (rb + 1))) := by
  have hlow : 8 ≤ w := by omega
  have hhigh : w ≤ 16 := by omega
  have hprb0 : BlockAt _ 0 (prbAt samples rb) := blockAt_loadu (k := 0) (by decide) (by omega)
  have hprb1 : BlockAt _ 24 _ := blockAt_loadu (by decide) hrb
  have hmax := calculateMaxAbs_eq hprb0 hprb1
  obtain ⟨data0, data1, hpack, henc0, henc1⟩ := packPrbsBigEndian_shifted hw
    (by rw [List.length_drop, h0, compressedPrbSize_eq]; rfl : (slot0.drop 1).length = 3 * w)
    (by rw [List.length_drop, h1, compressedPrbSize_eq]; rfl : (slot1.drop 1).length = 3 * w)
    hprb0 hprb1 (avx2Exponent w (prbAt samples rb))
    (avx2Exponent w (prbAt samples (rb + 1)))
  rw [← henc0, ← henc1]
  simp only [compressPrbPair, hmax]
  rw [determineExponent_eq_some hlow hhigh (BitVec.ofNat 16 (avx2MaxAbs (prbAt samples rb))),
    determineExponent_eq_some hlow hhigh (BitVec.ofNat 16 (avx2MaxAbs (prbAt samples (rb + 1))))]
  simp only [Option.bind_eq_bind, Option.bind_some]
  rw [← avx2Exponent, ← avx2Exponent, hpack]
  rfl

end

/-! ## A whole buffer -/

/-- The pair loop: `count` pairs from block `rb` on. -/
def avx2Loop (inputQuantized : List (BitVec 16)) (dataWidth : Nat) :
    Nat → Nat → List (BitVec 8) → Option (List (BitVec 8))
  | 0, _, buffer => some buffer
  | count + 1, rb, buffer => do
    let prbSize := compressedPrbSize dataWidth
    let (out0, out1) ← compressPrbPair (slotAt buffer prbSize rb) (slotAt buffer prbSize (rb + 1))
      inputQuantized (nofSamplesPerPrb * rb) dataWidth
    avx2Loop inputQuantized dataWidth count (rb + 2)
      (splice (splice buffer (rb * prbSize) out0) ((rb + 1) * prbSize) out1)

/-- `iq_compression_bfp_avx2::compress`, from the quantised samples on. -/
def avx2Compress (buffer : List (BitVec 8)) (inputQuantized : List (BitVec 16))
    (dataWidth : Nat) : Option (List (BitVec 8)) :=
  if iqWidthPackingSupported dataWidth then
    let nofPrbs := inputQuantized.length / nofSamplesPerPrb
    if compressedPrbSize dataWidth * nofPrbs ≤ buffer.length then do
      let buffer ← avx2Loop inputQuantized dataWidth (nofPrbs / 2) 0 buffer
      compressLoop inputQuantized dataWidth (nofPrbs - nofPrbs / 2 * 2) (nofPrbs / 2 * 2) buffer
    else none
  else compress buffer inputQuantized dataWidth

/-- The exponents of the AVX2 implementation: the last block of an odd number is generic. -/
def avx2Exponents (w : Nat) (samples : List (BitVec 16)) (i : Nat) : BitVec 8 :=
  if i < samples.length / nofSamplesPerPrb / 2 * 2 then avx2Exponent w (prbAt samples i)
  else genericExponent w (prbAt samples i)

section

variable {w : Nat} (hw : w = 9 ∨ w = 16) {samples : List (BitVec 16)} {buffer : List (BitVec 8)}
  (hbuf : compressedPrbSize w * (samples.length / nofSamplesPerPrb) ≤ buffer.length)

include hw hbuf in
theorem avx2Loop_eq : ∀ count rb, rb + 2 * count = samples.length / nofSamplesPerPrb / 2 * 2 →
    avx2Loop samples w count rb (writtenTo buffer samples w (avx2Exponents w samples) rb) =
      some (writtenTo buffer samples w (avx2Exponents w samples)
        (samples.length / nofSamplesPerPrb / 2 * 2))
  | 0, rb, hrb => by
    rw [avx2Loop, ← hrb]
    rfl
  | count + 1, rb, hrb => by
    have hlow : 8 ≤ w := by omega
    have hhigh : w ≤ 16 := by omega
    have hslot0 := length_slotAt hlow hhigh (avx2Exponents w samples) (le_refl rb) (by omega) hbuf
    have hslot1 := length_slotAt hlow hhigh (avx2Exponents w samples)
      (by omega : rb ≤ rb + 1) (by omega) hbuf
    have hpair := compressPrbPair_eq hw (by omega : rb + 1 < samples.length / nofSamplesPerPrb)
      hslot0 hslot1
    have hexp0 : avx2Exponent w (prbAt samples rb) = avx2Exponents w samples rb := by
      rw [avx2Exponents, if_pos (by omega)]
    have hexp1 : avx2Exponent w (prbAt samples (rb + 1)) = avx2Exponents w samples (rb + 1) := by
      rw [avx2Exponents, if_pos (by omega)]
    rw [hexp0, hexp1] at hpair
    rw [avx2Loop]
    simp only [hpair, Option.bind_eq_bind, Option.bind_some]
    rw [splice_writtenTo hlow hhigh _ (by omega), splice_writtenTo hlow hhigh _ (by omega),
      avx2Loop_eq count (rb + 2) (by omega)]

include hw hbuf in
/-- **The AVX2 implementation writes the encoded blocks with its own exponents.** -/
theorem avx2Compress_eq : avx2Compress buffer samples w =
    some (writtenTo buffer samples w (avx2Exponents w samples)
      (samples.length / nofSamplesPerPrb)) := by
  have hsupported : iqWidthPackingSupported w = true := by
    rcases hw with rfl | rfl <;> rfl
  have hstart : writtenTo buffer samples w (avx2Exponents w samples) 0 = buffer := by
    simp [writtenTo, encodedPrbs]
  have hpairs := avx2Loop_eq hw hbuf (samples.length / nofSamplesPerPrb / 2) 0 (by omega)
  rw [hstart] at hpairs
  rw [avx2Compress, if_pos hsupported]
  simp only [if_pos hbuf, hpairs, Option.bind_eq_bind, Option.bind_some]
  apply compressLoop_eq (by omega) (by omega) (avx2Exponents w samples) hbuf
  · omega
  · intro k hk
    rw [avx2Exponents, if_neg (by omega)]

end

/-! ## Agreement with the generic implementation -/

/-- The minimum of the block is zero and a sample needs a shift. -/
def ZeroMinBlock (w : Nat) (prb : List (BitVec 16)) : Prop :=
  (∀ s ∈ prb, 0 ≤ s.toInt) ∧ (∃ s ∈ prb, s.toInt = 0) ∧ ∃ s ∈ prb, 2 ^ (w - 1) ≤ s.toInt

section

variable {w : Nat} (hlow : 8 ≤ w) (hhigh : w ≤ 16) {prb : List (BitVec 16)} (hne : prb ≠ [])

theorem zeroMinBlock_iff : ZeroMinBlock w prb ↔
    prb ≠ [] ∧ blockMin prb = 0 ∧ 2 ^ (w - 1) ≤ blockMax prb := by
  constructor
  · rintro ⟨hall, hzero, s, hs, hlarge⟩
    have hne := List.ne_nil_of_mem hs
    exact ⟨hne, blockMin_eq hzero hall, hlarge.trans ((blockMax_spec hne).2 s hs)⟩
  · rintro ⟨hne, hmin, hmax⟩
    obtain ⟨hmem, hle⟩ := blockMin_spec hne
    obtain ⟨⟨s, hs, hval⟩, -⟩ := blockMax_spec hne
    rw [hmin] at hmem hle
    exact ⟨hle, hmem, s, hs, hval ▸ hmax⟩

include hne in
/-- The two magnitudes are the same unless the minimum is zero. -/
theorem avx2MaxAbs_eq_maxAbs (hmin : blockMin prb ≠ 0) : avx2MaxAbs prb = maxAbs prb := by
  have hbounds := natAbs_extremes_le hne
  rw [avx2MaxAbs, maxAbs]
  omega

include hlow hhigh hne in
/-- A zero minimum wraps the magnitude around, which gives the exponent zero. -/
theorem avx2Exponent_of_blockMin_eq_zero (hmin : blockMin prb = 0) : avx2Exponent w prb = 0 := by
  have hbounds := natAbs_extremes_le hne
  have hwrap : BitVec.ofNat 16 (avx2MaxAbs prb) = BitVec.ofNat 16 0xffff := by
    have hval : avx2MaxAbs prb = 2 ^ 32 - 1 := by
      rw [avx2MaxAbs, hmin]
      omega
    rw [hval]
    rfl
  rw [avx2Exponent, hwrap, determineExponent_of_msb (by decide) (by decide) (by omega) hhigh]
  rfl

include hlow hhigh hne in
theorem genericExponent_of_blockMin_eq_zero (hmin : blockMin prb = 0) :
    genericExponent w prb = 0 ↔ blockMax prb < 2 ^ (w - 1) := by
  obtain ⟨⟨s, hs, hval⟩, -⟩ := blockMax_spec hne
  have hnonneg : 0 ≤ blockMax prb := by
    have hle := (blockMin_spec hne).2 s hs
    omega
  have hmax : (maxAbs prb : Int) = blockMax prb := by
    rw [maxAbs, hmin]
    omega
  have hlt : maxAbs prb < 2 ^ 15 := by
    have hbound := toInt_bounds s
    omega
  have hle := blockExponent_le (w := w) hlt
  have hzero : genericExponent w prb = 0 ↔ blockExponent (maxAbs prb) w = 0 := by
    rw [genericExponent, determineExponent_eq hlt (by omega) hhigh, Option.getD_some,
      ← BitVec.toNat_inj, BitVec.toNat_ofNat, Nat.mod_eq_of_lt (by omega)]
    rfl
  rw [hzero, blockExponent_eq_zero_iff (by omega), ← hmax]
  norm_cast

include hlow hhigh hne in
/-- **The exponents agree exactly outside the blocks with a zero minimum that need a shift.** -/
theorem avx2Exponent_eq_iff :
    avx2Exponent w prb = genericExponent w prb ↔ ¬ ZeroMinBlock w prb := by
  rw [zeroMinBlock_iff]
  by_cases hmin : blockMin prb = 0
  · rw [avx2Exponent_of_blockMin_eq_zero hlow hhigh hne hmin, eq_comm,
      genericExponent_of_blockMin_eq_zero hlow hhigh hne hmin]
    constructor
    · rintro hlt ⟨-, -, hle⟩
      exact absurd hlt (not_lt.2 hle)
    · intro h
      exact not_le.1 fun hle => h ⟨hne, hmin, hle⟩
  · rw [avx2Exponent, avx2MaxAbs_eq_maxAbs hne hmin, ← genericExponent]
    simp [hmin]

end

/-- Which exponents decide whether the buffers are the same. -/
theorem avx2Compress_eq_iff_exponents {w : Nat} (hw : w = 9 ∨ w = 16)
    {samples : List (BitVec 16)} {buffer : List (BitVec 8)}
    (hbuf : compressedPrbSize w * (samples.length / nofSamplesPerPrb) ≤ buffer.length) :
    avx2Compress buffer samples w = compress buffer samples w ↔
      ∀ i < samples.length / nofSamplesPerPrb / 2 * 2,
        avx2Exponent w (prbAt samples i) = genericExponent w (prbAt samples i) := by
  rw [avx2Compress_eq hw hbuf, compress_eq (by omega) (by omega) hbuf, Option.some_inj,
    writtenTo_inj (by omega) (by omega) (le_refl _)]
  constructor
  · intro h i hi
    have hexp := h i (by omega)
    rwa [avx2Exponents, if_pos hi] at hexp
  · intro h i hi
    rw [avx2Exponents]
    split
    · exact h i ‹_›
    · rfl

/-- **When the AVX2 buffer is the generic one.** -/
theorem avx2Compress_eq_compress_iff {w : Nat} (hw : w = 9 ∨ w = 16)
    (samples : List (BitVec 16)) (buffer : List (BitVec 8))
    (hbuf : compressedPrbSize w * (samples.length / nofSamplesPerPrb) ≤ buffer.length) :
    (∃ out, avx2Compress buffer samples w = some out ∧ compress buffer samples w = some out) ↔
      ∀ i < samples.length / nofSamplesPerPrb / 2 * 2, ¬ ZeroMinBlock w (prbAt samples i) := by
  have hsame : (∃ out, avx2Compress buffer samples w = some out ∧
      compress buffer samples w = some out) ↔
        avx2Compress buffer samples w = compress buffer samples w := by
    constructor
    · rintro ⟨out, havx2, hgeneric⟩
      rw [havx2, hgeneric]
    · intro heq
      exact ⟨_, avx2Compress_eq hw hbuf, heq ▸ avx2Compress_eq hw hbuf⟩
  rw [hsame, avx2Compress_eq_iff_exponents hw hbuf]
  refine forall₂_congr fun i hi => ?_
  exact avx2Exponent_eq_iff (by omega) (by omega) (prbAt_ne_nil (by omega))

/-- Two blocks of zeros, with one sample of 256 in the first. -/
def zeroMinSamples : List (BitVec 16) := 256 :: List.replicate 47 0

theorem zeroMinBlock_zeroMinSamples : ZeroMinBlock 9 (prbAt zeroMinSamples 0) := by
  have hprb : prbAt zeroMinSamples 0 = 256 :: List.replicate 23 0 := rfl
  rw [hprb]
  refine ⟨fun s hs => ?_, ⟨0, by simp, rfl⟩, ⟨256, by simp, by decide⟩⟩
  rcases List.mem_cons.1 hs with rfl | hs
  · decide
  · rw [List.eq_of_mem_replicate hs]
    decide

theorem avx2Compress_eq_compress_ones :
    ∃ out, avx2Compress (List.replicate 56 0) (List.replicate 48 1) 9 = some out ∧
      compress (List.replicate 56 0) (List.replicate 48 1) 9 = some out := by
  refine (avx2Compress_eq_compress_iff (.inl rfl) (List.replicate 48 1) (List.replicate 56 0)
    (by decide)).2 fun i _ hzero => ?_
  obtain ⟨s, hs, hval⟩ := hzero.2.1
  have hone : s = 1 := List.eq_of_mem_replicate (List.mem_of_mem_drop (List.mem_of_mem_take hs))
  rw [hone] at hval
  exact absurd hval (by decide)

/-- On two blocks of zeros with one sample of 256, the AVX2 exponent is zero and the generic one
is one. -/
theorem avx2Compress_ne_compress :
    ¬ ∃ out, avx2Compress (List.replicate 56 0) zeroMinSamples 9 = some out ∧
      compress (List.replicate 56 0) zeroMinSamples 9 = some out := by
  rintro ⟨out, havx2, hgeneric⟩
  have hbuf : compressedPrbSize 9 * (zeroMinSamples.length / nofSamplesPerPrb) ≤
      (List.replicate 56 (0 : BitVec 8)).length := by decide
  have hexp := (avx2Compress_eq_iff_exponents (.inl rfl) hbuf).1 (havx2.trans hgeneric.symm)
  have hne : prbAt zeroMinSamples 0 ≠ [] := prbAt_ne_nil (by decide)
  exact (avx2Exponent_eq_iff (by decide) (by decide) hne).1 (hexp 0 (by decide))
    zeroMinBlock_zeroMinSamples

end RadioStack.Ofh
