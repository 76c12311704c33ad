import RadioStack.Lib.Avx512
import RadioStack.Ofh.BfpCompress

/-!
# The block exponent with AVX512

`mm512::determine_bfp_exponent` finds the exponents of four resource blocks at once. The 96 samples
fill three registers, so the blocks straddle them; masked shuffles of 128-bit parts bring each block
into one lane of three new registers, and comparisons within the lanes find the extremes.

**Theorem (`avx512_exponent_iff`).** For every width from 1 to 16, the exponent byte in the lane of
a block is the generic exponent of that block, in a group of four blocks and for a single block that
is padded with zero registers, unless all samples of the block are `-32768`. On that block the
magnitude is 32768. The vector code counts its leading zeros as it does for any other magnitude and
gives `17 - w`; in the generic code the count wraps around and the exponent is zero. -/

namespace RadioStack.Ofh.Mm512

open Avx512 Tournament

/-! ## The exponents of four blocks -/

/-- The comparisons of `find_abs_min_max_values`: across the three registers, then within the lanes.
-/
def compareLanes (compare : M512 → M512 → M512) (v0 v1 v2 : M512) : M512 :=
  let cmp8val := compare (compare v0 v1) v2
  let cmp4val := compare cmp8val (maskShuffleEpi32 (set1Epi64 0) 0xffff cmp8val 0x4e)
  let cmp2val := compare cmp4val (maskShuffleEpi32 (set1Epi64 0) 0xffff cmp4val 0xb1)
  let shuffleMask := setrEpi64 [0x0504070601000302, 0x0d0c0f0e09080b0a, 0x0504070601000302,
    0x0d0c0f0e09080b0a, 0x0504070601000302, 0x0d0c0f0e09080b0a, 0x0504070601000302,
    0x0d0c0f0e09080b0a]
  compare cmp2val (shuffleEpi8 cmp2val shuffleMask)

def findAbsMinMaxValues (compare : M512 → M512 → M512) (v0 v1 v2 : M512) : M512 :=
  absEpi16 (compareLanes compare v0 v1 v2)

section

variable (r0 r1 r2 : M512)

/-- The registers with one block in each lane. -/
def regroup : M512 × M512 × M512 :=
  (maskShuffleI64x2 r0 0b11111100 r1 r2 0b01000000,
    maskShuffleI64x2 r1 0b11000011 r0 r2 0b10000001,
    maskShuffleI64x2 r2 0b00111111 r0 r1 0b00111110)

def calculateMaxAbs : M512 :=
  let (v0, v1, v2) := regroup r0 r1 r2
  let absMin := findAbsMinMaxValues minEpi16 v0 v1 v2
  let absMax := findAbsMinMaxValues maxEpi16 v0 v1 v2
  maxEpu16 (subsEpu16 absMin (set1Epi16 1)) absMax

def determineBfpExponent (dataWidth : Nat) : M512 :=
  let maxLzcnt := 16 - dataWidth + 16 + 1
  let maxExp := set1Epi32 (BitVec.ofNat 32 maxLzcnt)
  let maxAbs := andEpi32 (calculateMaxAbs r0 r1 r2) (set1Epi32 0x0000ffff)
  subsEpu16 maxExp (lzcntEpi32 maxAbs)

/-- The exponent byte of block `rb + lane`, in a round of the loop over groups of four blocks. -/
def groupExponent (inputQuantized : List (BitVec 16)) (dataWidth rb : Nat) (lane : Fin 4) :
    BitVec 8 :=
  let sampleIdx := nofSamplesPerPrb * rb
  byteAt (determineBfpExponent (loaduEpi16 inputQuantized sampleIdx)
    (loaduEpi16 inputQuantized (sampleIdx + 32)) (loaduEpi16 inputQuantized (sampleIdx + 2 * 32))
    dataWidth) ⟨16 * lane.val, by omega⟩

section

local instance neZeroByte : NeZero 64 := ⟨by decide⟩

/-- The exponent byte of block `rb` in the loop over single blocks. -/
def tailExponent (inputQuantized : List (BitVec 16)) (dataWidth rb : Nat) : BitVec 8 :=
  byteAt (determineBfpExponent
    (maskzLoaduEpi16 0x00ffffff inputQuantized (nofSamplesPerPrb * rb)) (set1Epi16 0) (set1Epi16 0)
    dataWidth) 0

end

/-! ## The extremes of a lane -/

/-- Part `m` of the twelve 128-bit parts of three registers. -/
def partOf (m : Nat) : Lane :=
  (if m < 4 then r0 else if m < 8 then r1 else r2) ⟨m % 4, by omega⟩

/-- Sample `n` of the 96 in three registers. -/
def sampleOf (n : Nat) : BitVec 16 :=
  epi16 (partOf r0 r1 r2 (n / 8)) ⟨n % 8, by omega⟩

/-- The shuffles bring the three parts of a block into its lane, in an order that turns with it. -/
theorem regroup_eq (l : Fin 4) :
    (regroup r0 r1 r2).1 l = partOf r0 r1 r2 (3 * l.val + l.val % 3) ∧
      (regroup r0 r1 r2).2.1 l = partOf r0 r1 r2 (3 * l.val + (l.val + 1) % 3) ∧
      (regroup r0 r1 r2).2.2 l = partOf r0 r1 r2 (3 * l.val + (l.val + 2) % 3) := by
  refine ⟨?_, ?_, ?_⟩ <;> funext k <;> fin_cases l <;> fin_cases k <;> rfl

theorem epi16_regroup (l : Fin 4) (i : Fin 8) :
    epi16 ((regroup r0 r1 r2).1 l) i =
        sampleOf r0 r1 r2 (24 * l.val + 8 * (l.val % 3) + i.val) ∧
      epi16 ((regroup r0 r1 r2).2.1 l) i =
        sampleOf r0 r1 r2 (24 * l.val + 8 * ((l.val + 1) % 3) + i.val) ∧
      epi16 ((regroup r0 r1 r2).2.2 l) i =
        sampleOf r0 r1 r2 (24 * l.val + 8 * ((l.val + 2) % 3) + i.val) := by
  obtain ⟨h0, h1, h2⟩ := regroup_eq r0 r1 r2 l
  have hpart : ∀ c, epi16 (partOf r0 r1 r2 (3 * l.val + c)) i =
      sampleOf r0 r1 r2 (24 * l.val + 8 * c + i.val) := by
    intro c
    have hdiv : (24 * l.val + 8 * c + i.val) / 8 = 3 * l.val + c := by omega
    have hmod : (24 * l.val + 8 * c + i.val) % 8 = i.val := by omega
    simp [sampleOf, hdiv, hmod]
  rw [h0, h1, h2]
  exact ⟨hpart _, hpart _, hpart _⟩

end

section

variable {le : BitVec 16 → BitVec 16 → Prop} {op : BitVec 16 → BitVec 16 → BitVec 16}

theorem epi16_compareLanes (v0 v1 v2 : M512) (l : Fin 4) :
    let c := fun i : Fin 8 => op (op (epi16 (v0 l) i) (epi16 (v1 l) i)) (epi16 (v2 l) i)
    epi16 (compareLanes (map2Epi16 op) v0 v1 v2 l) 0 =
      op (op (op (c 0) (c 4)) (op (c 2) (c 6))) (op (op (c 1) (c 5)) (op (c 3) (c 7))) := by
  have hswap : ∀ a : M512, epi16 (shuffleEpi8 a (setrEpi64 [0x0504070601000302, 0x0d0c0f0e09080b0a,
      0x0504070601000302, 0x0d0c0f0e09080b0a, 0x0504070601000302, 0x0d0c0f0e09080b0a,
      0x0504070601000302, 0x0d0c0f0e09080b0a]) l) 0 = epi16 (a l) 1 := by
    intro a
    exact epi16_shuffleEpi8 (by revert l; decide) (by revert l; decide)
  have hmask : ∀ (l : Fin 4) (i : Fin 8), (0xffff).testBit (4 * l.val + i.val / 2) = true := by
    decide
  intro c
  simp only [compareLanes, epi16_map2Epi16, hswap, epi16_maskShuffleEpi32 _ _ _ _ _ (hmask _ _)]
  rfl

/-- The samples that meet in element `i` of a lane. -/
def column (l : Fin 4) (i : Nat) : List Nat :=
  [24 * l.val + 8 * (l.val % 3) + i] ++ [24 * l.val + 8 * ((l.val + 1) % 3) + i] ++
    [24 * l.val + 8 * ((l.val + 2) % 3) + i]

/-- The samples in the order in which a lane compares them. -/
def compared (l : Fin 4) : List Nat :=
  ((column l 0 ++ column l 4) ++ (column l 2 ++ column l 6)) ++
    ((column l 1 ++ column l 5) ++ (column l 3 ++ column l 7))

theorem mem_compared (l : Fin 4) (n : Nat) :
    n ∈ compared l ↔ 24 * l.val ≤ n ∧ n < 24 * l.val + 24 := by
  have hbounds : ∀ l : Fin 4, ∀ n ∈ compared l, 24 * l.val ≤ n ∧ n < 24 * l.val + 24 := by decide
  have hall : ∀ l : Fin 4, ∀ k < 24, 24 * l.val + k ∈ compared l := by decide
  refine ⟨hbounds l n, fun ⟨hle, hlt⟩ => ?_⟩
  have hmem := hall l (n - 24 * l.val) (by omega)
  rwa [Nat.add_sub_cancel' hle] at hmem

/-- **The comparisons find the best of the 24 samples of the block in a lane.** -/
theorem isBest_compareLanes (hop : Selects le op) (r0 r1 r2 : M512) (l : Fin 4) :
    ∃ I : List Nat, (∀ n, n ∈ I ↔ 24 * l.val ≤ n ∧ n < 24 * l.val + 24) ∧
      IsBest le (sampleOf r0 r1 r2) I (epi16 (compareLanes (map2Epi16 op) (regroup r0 r1 r2).1
        (regroup r0 r1 r2).2.1 (regroup r0 r1 r2).2.2 l) 0) := by
  have hcol : ∀ i : Fin 8, IsBest le (sampleOf r0 r1 r2) (column l i.val)
      (op (op (epi16 ((regroup r0 r1 r2).1 l) i) (epi16 ((regroup r0 r1 r2).2.1 l) i))
        (epi16 ((regroup r0 r1 r2).2.2 l) i)) := by
    intro i
    obtain ⟨h0, h1, h2⟩ := epi16_regroup r0 r1 r2 l i
    rw [h0, h1, h2]
    exact hop.node (hop.node (hop.leaf _ _) (hop.leaf _ _)) (hop.leaf _ _)
  rw [epi16_compareLanes]
  exact ⟨compared l, mem_compared l, hop.node
    (hop.node (hop.node (hcol 0) (hcol 4)) (hop.node (hcol 2) (hcol 6)))
    (hop.node (hop.node (hcol 1) (hcol 5)) (hop.node (hcol 3) (hcol 7)))⟩

end

/-! ## The exponent of a lane -/

section

variable {r0 r1 r2 : M512} {prb : List (BitVec 16)} {l : Fin 4}
  (hprb : BlockAt (sampleOf r0 r1 r2) (24 * l.val) prb)

include hprb in
/-- The saturated difference leaves zero where the generic code has a negative one, so the magnitude
is the generic one also if the minimum is zero. -/
theorem toNat_calculateMaxAbs :
    (epi16 (calculateMaxAbs r0 r1 r2 l) 0).toNat = maxAbs prb := by
  obtain ⟨I, hI, hmin⟩ := isBest_compareLanes selects_signedMin r0 r1 r2 l
  obtain ⟨J, hJ, hmax⟩ := isBest_compareLanes selects_signedMax r0 r1 r2 l
  have hmin' := blockMin_of_isBest hprb hI hmin
  have hmax' := blockMax_of_isBest hprb hJ hmax
  have hbounds := natAbs_extremes_le hprb.ne_nil
  have hone : (1 : BitVec 16).toNat = 1 := rfl
  simp only [calculateMaxAbs, findAbsMinMaxValues, hone, maxEpu16, subsEpu16, minEpi16, maxEpi16,
    set1Epi16, epi16_map2Epi16, epi16_absEpi16, epi16_ofEpi16, toNat_abs, hmin', hmax',
    BitVec.toNat_ofNat]
  rw [maxAbs]
  split
  · rw [toNat_abs, hmax']
    omega
  · rw [BitVec.toNat_ofNat]
    omega

theorem epi32_masked (r : M512) : (epi32 (andEpi32 r (set1Epi32 0x0000ffff) l) 0).toNat =
    (epi16 (r l) 0).toNat := by
  have hhigh : epi16 (ofEpi32 fun _ => 0x0000ffff) 1 = 0 := by decide
  have hlow : epi16 (ofEpi32 fun _ => 0x0000ffff) 0 = BitVec.allOnes 16 := by decide
  have hword : epi32 (andEpi32 r (set1Epi32 0x0000ffff) l) 0 =
      epi16 (andEpi32 r (set1Epi32 0x0000ffff) l) 1 ++
        epi16 (andEpi32 r (set1Epi32 0x0000ffff) l) 0 := rfl
  rw [hword, epi16_andEpi32, epi16_andEpi32, set1Epi32, hhigh, hlow, BitVec.and_allOnes,
    BitVec.toNat_append]
  simp

include hprb in
/-- **The exponent byte of a lane** is the exponent for the magnitude of the block, whatever it is.
-/
theorem toNat_determineBfpExponent {w : Nat} (hw : 0 < w) (hw' : w ≤ 16) :
    (byteAt (determineBfpExponent r0 r1 r2 w) ⟨16 * l.val, by omega⟩).toNat =
      blockExponent (maxAbs prb) w := by
  have hle := maxAbs_le hprb.ne_nil
  set a := andEpi32 (calculateMaxAbs r0 r1 r2) (set1Epi32 0x0000ffff) with ha
  have hword : (epi32 (a l) 0).toNat = maxAbs prb := by
    rw [ha, epi32_masked, toNat_calculateMaxAbs hprb]
  have hmax : (epi16 (set1Epi32 (BitVec.ofNat 32 (16 - w + 16 + 1)) l) 0).toNat = 33 - w := by
    have helem : epi16 (set1Epi32 (BitVec.ofNat 32 (16 - w + 16 + 1)) l) 0 =
        (BitVec.ofNat 32 (16 - w + 16 + 1)).extractLsb' 0 16 := epi16_ofEpi32 _ 0
    rw [helem, BitVec.extractLsb'_toNat, BitVec.toNat_ofNat, Nat.shiftRight_zero]
    omega
  have hlz : (epi16 (lzcntEpi32 a l) 0).toNat =
      if maxAbs prb = 0 then 32 else 31 - (maxAbs prb).log2 := by
    have helem : epi16 (lzcntEpi32 a l) 0 =
        (BitVec.ofNat 32 (lzcnt32 (epi32 (a l) 0))).extractLsb' 0 16 := epi16_ofEpi32 _ 0
    have hzero : epi32 (a l) 0 = 0 ↔ maxAbs prb = 0 := by
      rw [← hword, ← BitVec.toNat_inj]
      rfl
    rw [helem, BitVec.extractLsb'_toNat, BitVec.toNat_ofNat, Nat.shiftRight_zero, lzcnt32, hword]
    simp only [hzero]
    split <;> omega
  -- the byte is the low one of the first element of the lane
  have hlane : (16 * l.val) / 16 = l.val := by omega
  have hfirst : (16 * l.val) % 16 = 0 := by omega
  have hbyte := toNat_byte (determineBfpExponent r0 r1 r2 w l) 0
  simp only [byteAt, hlane, hfirst]
  refine hbyte.trans ?_
  rw [determineBfpExponent, subsEpu16, epi16_map2Epi16, hmax, ← ha, hlz, BitVec.toNat_ofNat,
    blockExponent]
  split
  · omega
  · rename_i hne
    have hlog : (maxAbs prb).log2 ≤ 15 := Nat.le_of_lt_succ ((Nat.log2_lt hne).2 (by omega))
    omega

end

/-! ## Agreement with the generic implementation -/

section

variable {samples : List (BitVec 16)} {w rb : Nat}

theorem sampleOf_loaduEpi16 (start : Nat) {n : Nat} (hn : n < 96) :
    sampleOf (loaduEpi16 samples start) (loaduEpi16 samples (start + 32))
      (loaduEpi16 samples (start + 2 * 32)) n = samples.getD (start + n) 0 := by
  rw [sampleOf, partOf]
  split_ifs
  all_goals
    rw [epi16_loaduEpi16]
    congr 1
    simp only
    omega

theorem sampleOf_maskzLoaduEpi16 (start : Nat) (r1 r2 : M512) {n : Nat} (hn : n < 24) :
    sampleOf (maskzLoaduEpi16 0x00ffffff samples start) r1 r2 n = samples.getD (start + n) 0 := by
  have hmask : ∀ k < 24, (0x00ffffff).testBit k = true := by decide
  have hidx : 8 * (n / 8 % 4) + n % 8 = n := by omega
  rw [sampleOf, partOf, if_pos (by omega), epi16_maskzLoaduEpi16]
  simp only [hidx, hmask n hn, if_true]

/-- The exponent for the magnitude is the generic one unless the block is constant `-32768`. -/
theorem exponent_eq_iff (hlow : 1 ≤ w) (hhigh : w ≤ 16) {prb : List (BitVec 16)} (hne : prb ≠ [])
    {e : BitVec 8} (he : e.toNat = blockExponent (maxAbs prb) w) :
    e = genericExponent w prb ↔ ∃ s ∈ prb, s.toInt ≠ -32768 := by
  rw [← maxAbs_lt_iff hne, ← BitVec.toNat_inj, he]
  constructor
  · intro heq
    by_contra hfull
    have hmax : maxAbs prb = 2 ^ 15 := Nat.le_antisymm (maxAbs_le hne) (Nat.le_of_not_lt hfull)
    have hlog : (2 ^ 15).log2 = 15 := by decide
    rw [genericExponent_of_le hlow hhigh hne (Nat.le_of_eq hmax.symm), hmax, blockExponent,
      if_neg (by decide), hlog] at heq
    omega
  · intro hlt
    exact (toNat_genericExponent hlow hhigh hlt).symm

theorem toNat_groupExponent (hlow : 1 ≤ w) (hhigh : w ≤ 16)
    (hrb : rb + 4 ≤ samples.length / nofSamplesPerPrb) (lane : Fin 4) :
    (groupExponent samples w rb lane).toNat =
      blockExponent (maxAbs (prbAt samples (rb + lane.val))) w := by
  refine toNat_determineBfpExponent ⟨length_prbAt (by omega), fun i hi => ?_⟩ hlow hhigh
  rw [getD_prbAt hi, sampleOf_loaduEpi16 _ (by omega), nofSamplesPerPrb]
  congr 1
  omega

theorem toNat_tailExponent (hlow : 1 ≤ w) (hhigh : w ≤ 16)
    (hrb : rb < samples.length / nofSamplesPerPrb) :
    (tailExponent samples w rb).toNat = blockExponent (maxAbs (prbAt samples rb)) w := by
  refine toNat_determineBfpExponent (l := 0) ⟨length_prbAt hrb, fun i hi => ?_⟩ hlow hhigh
  rw [getD_prbAt hi, Fin.val_zero, Nat.mul_zero, Nat.zero_add]
  exact (sampleOf_maskzLoaduEpi16 _ _ _ hi).symm

/-- **When AVX512 agrees with the generic code.** -/
theorem avx512_exponent_iff (hlow : 1 ≤ w) (hhigh : w ≤ 16) (samples : List (BitVec 16)) :
    (∀ rb, rb + 4 ≤ samples.length / nofSamplesPerPrb → ∀ lane : Fin 4,
      (groupExponent samples w rb lane = genericExponent w (prbAt samples (rb + lane.val)) ↔
        ∃ s ∈ prbAt samples (rb + lane.val), s.toInt ≠ -32768)) ∧
    ∀ rb < samples.length / nofSamplesPerPrb,
      (tailExponent samples w rb = genericExponent w (prbAt samples rb) ↔
        ∃ s ∈ prbAt samples rb, s.toInt ≠ -32768) := by
  constructor
  · intro rb hrb lane
    have hi : rb + lane.val < samples.length / nofSamplesPerPrb := by omega
    exact exponent_eq_iff hlow hhigh (prbAt_ne_nil hi) (toNat_groupExponent hlow hhigh hrb lane)
  · intro rb hrb
    exact exponent_eq_iff hlow hhigh (prbAt_ne_nil hrb) (toNat_tailExponent hlow hhigh hrb)

end

theorem avx512_exponent_block300 :
    groupExponent (List.replicate 96 300) 9 0 2 =
        genericExponent 9 (prbAt (List.replicate 96 300) 2) ∧
      tailExponent (List.replicate 96 300) 9 3 =
        genericExponent 9 (prbAt (List.replicate 96 300) 3) := by
  have h := avx512_exponent_iff (w := 9) (by decide) (by decide) (List.replicate 96 300)
  have hmem : ∀ i < 4, (300 : BitVec 16) ∈ prbAt (List.replicate 96 300) i := by decide
  exact ⟨(h.1 0 (by decide) 2).2 ⟨300, hmem 2 (by decide), by decide⟩,
    (h.2 3 (by decide)).2 ⟨300, hmem 3 (by decide), by decide⟩⟩

/-- A block of `-32768` at width 9: the AVX512 exponent is 8, the generic one is zero. -/
theorem avx512_exponent_fullScale :
    tailExponent (List.replicate 24 0x8000) 9 0 = 8 ∧
      genericExponent 9 (prbAt (List.replicate 24 0x8000) 0) = 0 ∧
      tailExponent (List.replicate 24 0x8000) 9 0 ≠
        genericExponent 9 (prbAt (List.replicate 24 0x8000) 0) := by
  have hmax : maxAbs (prbAt (List.replicate 24 0x8000) 0) = 32768 := by decide +kernel
  have hlen : 0 < (List.replicate 24 (0x8000 : BitVec 16)).length / nofSamplesPerPrb := by decide
  have htail : tailExponent (List.replicate 24 0x8000) 9 0 = 8 := by
    rw [← BitVec.toNat_inj, toNat_tailExponent (by decide) (by decide) hlen, hmax]
    decide
  have hgeneric : genericExponent 9 (prbAt (List.replicate 24 0x8000) 0) = 0 := by
    rw [genericExponent, hmax]
    decide
  rw [htail, hgeneric]
  decide

end RadioStack.Ofh.Mm512
