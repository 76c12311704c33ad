import RadioStack.Lib.Avx2
import RadioStack.Ofh.Packing

/-!
# Packing two resource blocks with AVX2

`packing_utils_avx2.h`: three registers hold the 48 samples of two resource blocks, 16 in each,
and the routines write the packed bytes of both blocks.

For 9 bits, `pack_avx2_register_9b_be` packs the eight samples of each 128-bit half into the
first nine bytes of the half: every sample is cut to 9 bits and shifted to its place in two
neighbouring bytes, and the bytes are merged. The bytes of the halves are then moved together.
For 16 bits the two bytes of every sample are swapped.

The result is `packPrbsBigEndian_spec`: the bytes are the ones that `IsPacked` describes, so they
are the bytes of `pack_bytes`.
-/

namespace RadioStack.Ofh

open Bits Avx2

/-! ## Nine bits: one register -/

def maskEven : M256 :=
  setrEpi32 [0x0000ff80, 0x00003fe0, 0x00000ff8, 0x000003fe, 0x0000ff80, 0x00003fe0, 0x00000ff8,
    0x000003fe]

def maskOdd : M256 :=
  setrEpi32 [0x7fc00000, 0x1ff00000, 0x07fc0000, 0x01ff0000, 0x7fc00000, 0x1ff00000, 0x07fc0000,
    0x01ff0000]

/-- The first half of `pack_avx2_register_9b_be`: every sample cut to 9 bits and shifted to its
place. There is no variable shift of 16-bit elements, so pairs are shifted, once for the even and
once for the odd ones. -/
def alignSamples (cmpData : M256) : M256 :=
  let cmpDataSh0 := sllvEpi32 cmpData (setrEpi32 [7, 5, 3, 1, 7, 5, 3, 1])
  let cmpDataSh1 := sllvEpi32 cmpData (setrEpi32 [6, 4, 2, 0, 6, 4, 2, 0])
  orSi256 (andSi256 cmpDataSh0 maskEven) (andSi256 cmpDataSh1 maskOdd)

def packAvx2Register9bBe (cmpData : M256) : M256 :=
  let cmpDataShifted := alignSamples cmpData
  let cmpDataV0 := shuffleEpi8 cmpDataShifted
    (setrEpi64x [0x0c0a0806040200ff, 0xffffffffffffff0e, 0x0c0a0806040200ff, 0xffffffffffffff0e])
  let cmpDataV1 := shuffleEpi8 cmpDataShifted
    (setrEpi64x [0x0f0d0b0907050301, 0xffffffffffffffff, 0x0f0d0b0907050301, 0xffffffffffffffff])
  orSi256 cmpDataV0 cmpDataV1

/-- Bit `q` of the packed bytes of a half belongs to its sample `q / 9`; the last seven bytes are
clear. -/
def packedWire (p : Nat) : Wire :=
  let q := 8 * (p / 8 % 16) + (7 - p % 8)
  if q < 72 then .bit (128 * (p / 128) + 16 * (q / 9) + (8 - q % 9)) else .zero

/-- **The nine bytes of a half hold its eight samples.** -/
theorem wired_packAvx2Register9bBe (r : M256) :
    Wired (bit r) packedWire (packAvx2Register9bBe r) := by
  have hshift := (wired_self r).sllv
  have halign : Wired (bit r) _ (alignSamples r) :=
    ((hshift _).and maskEven).or ((hshift _).and maskOdd)
  have hmerge : Wired (bit r) _ (packAvx2Register9bBe r) := (halign.shuffle _).or (halign.shuffle _)
  exact hmerge.congr (by decide +kernel)

/-! ## Nine bits: two resource blocks -/

def shuffleMask0 : M256 :=
  setrEpi64x [0x0706050403020100, 0x0f0e0d0c0b0a0908, 0x06050403020100ff, 0xffffffffffff0807]

def shuffleMask1 : M256 :=
  setrEpi64x [0x050403020100ffff, 0xffffffffff080706, 0xffffffffffffffff, 0xffffffffffffffff]

def shuffleMask2 : M256 :=
  setrEpi64x [0xffffffffffff0807, 0x06050403020100ff, 0x050403020100ffff, 0xffffffffff080706]

def selMask : M256 := setrEpi64x [0, 0, 0xffffffffffffffff, 0xffffffffffffffff]

/-- The first resource block in `avx2_pack_prbs_9b_big_endian`, from the packed first and second
register. -/
def packPrb0 (reg0Packed reg1Packed : M256) : M256 :=
  let reg0Tmp0 := shuffleEpi8 reg0Packed shuffleMask0
  let reg1Tmp0 := shuffleEpi8 reg1Packed shuffleMask1
  let reg0Tmp1 := permutevar8x32 reg0Tmp0 (setrEpi32 [0, 1, 4, 5, 6, 7, 3, 3])
  let reg1Tmp1 := permute4x64 reg1Tmp0 0b01001110
  let prb0Tmp0 := orSi256 reg0Tmp0 reg0Tmp1
  let prb0Tmp1 := orSi256 reg0Tmp1 reg1Tmp1
  blendvEpi8 prb0Tmp0 prb0Tmp1 selMask

/-- The second resource block in `avx2_pack_prbs_9b_big_endian`, from the packed second and third
register. -/
def packPrb1 (reg1Packed reg2Packed : M256) : M256 :=
  let reg1Tmp2 := permutevar8x32 reg1Packed (setrEpi32 [4, 5, 6, 7, 3, 3, 3, 3])
  let reg2Tmp0 := shuffleEpi8 reg2Packed shuffleMask2
  let reg2Tmp1 := permutevar8x32 reg2Tmp0 (setrEpi32 [1, 1, 2, 3, 0, 1, 6, 7])
  let prb1Tmp0 := orSi256 reg1Tmp2 reg2Tmp1
  let prb1Tmp1 := orSi256 reg2Tmp0 reg2Tmp1
  blendvEpi8 prb1Tmp0 prb1Tmp1 selMask

def avx2PackPrbs9bBigEndian (compPrb0 compPrb1 : List (BitVec 8)) (r0 r1 r2 : M256) :
    Option (List (BitVec 8) × List (BitVec 8)) :=
  if compPrb0.length = 27 ∧ compPrb1.length = 27 then
    let reg0Packed := packAvx2Register9bBe r0
    let reg1Packed := packAvx2Register9bBe r1
    let reg2Packed := packAvx2Register9bBe r2
    some ((bytes (packPrb0 reg0Packed reg1Packed)).take 27,
      (bytes (packPrb1 reg1Packed reg2Packed)).take 27)
  else none

/-- Sample `n` of the 48 samples in three registers. -/
def sampleOf (r0 r1 r2 : M256) (n : Nat) : BitVec 16 :=
  epi16 (if n < 16 then r0 else if n < 32 then r1 else r2) (Fin.ofNat 16 n)

theorem sampleOf_loadu (samples : List (BitVec 16)) (start : Nat) {n : Nat} (hn : n < 48) :
    sampleOf (loadu samples start) (loadu samples (start + 16)) (loadu samples (start + 32)) n =
      samples.getD (start + n) 0 := by
  rw [sampleOf]
  split
  · rw [epi16_loadu, Fin.val_ofNat, Nat.mod_eq_of_lt ‹_›]
  · split
    · rw [epi16_loadu, Fin.val_ofNat]
      congr 1
      omega
    · rw [epi16_loadu, Fin.val_ofNat]
      congr 1
      omega

def sampleBits (r0 r1 r2 : M256) (q : Nat) : Bool := (sampleOf r0 r1 r2 (q / 16)).getLsbD (q % 16)

section

variable {r0 r1 r2 : M256} {samples : List (BitVec 16)} {base : Nat}

theorem wired_packed (r0 r1 r2 : M256) {r : M256} (k : Nat)
    (hr : ∀ i : Fin 16, sampleOf r0 r1 r2 (16 * k + i) = epi16 r i) :
    Wired (sampleBits r0 r1 r2) (fun p => (packedWire p).bind fun q => .bit (256 * k + q))
      (packAvx2Register9bBe r) := by
  refine Wired.trans (fun p hp => ?_) (wired_packAvx2Register9bBe r) fun p hp q h => by
    simp only [packedWire] at h
    split_ifs at h
    cases h
    omega
  have hq : (256 * k + p) / 16 = 16 * k + (⟨p / 16, by omega⟩ : Fin 16) := by
    simp only
    omega
  simp only [Wire.Carries, sampleBits]
  rw [hq, hr, getLsbD_epi16 _ _ (by omega)]
  congr 1
  simp only
  omega

/-- Bytes that are wired to the samples of a block are its packed samples. -/
theorem isPacked_of_wired (hprb : BlockAt (sampleOf r0 r1 r2) base samples) {r : M256}
    {w : Nat → Wire} (hwired : Wired (sampleBits r0 r1 r2) w r)
    (hw : ∀ p < 216, w (8 * (p / 8) + (7 - p % 8)) = .bit (16 * (base + p / 9) + (8 - p % 9))) :
    IsPacked 9 samples ((bytes r).take 27) := by
  have htake : ((bytes r).take 27).length = 27 := by simp [bytes]
  refine ⟨by rw [hprb.length, htake], fun p hp => ?_⟩
  rw [hprb.length] at hp
  have hbyte : ((bytes r).take 27).getD (p / 8) 0 = r ⟨p / 8, by omega⟩ := by
    rw [List.getD_eq_getElem _ _ (by omega), List.getElem_take]
    simp only [bytes, List.getElem_ofFn]
  have hbit := hwired (8 * (p / 8) + (7 - p % 8)) (by omega)
  rw [hw p hp, Wire.Carries, sampleBits] at hbit
  rw [bitAt, hbyte, getLsbD_byte _ _ (by omega), hbit, sampleBit, hprb.sample _ (by omega)]
  congr 2 <;> omega

/-- **The first 27 bytes are the packed samples of the first block.** -/
theorem isPacked_packPrb0 (hprb : BlockAt (sampleOf r0 r1 r2) 0 samples) :
    IsPacked 9 samples
      ((bytes (packPrb0 (packAvx2Register9bBe r0) (packAvx2Register9bBe r1))).take 27) := by
  have hreg0 := wired_packed r0 r1 r2 0 (r := r0) (by intro i; fin_cases i <;> rfl)
  have hreg1 := wired_packed r0 r1 r2 1 (r := r1) (by intro i; fin_cases i <;> rfl)
  have hreg0 := hreg0.shuffle shuffleMask0
  have hreg1 := (hreg1.shuffle shuffleMask1).permute4 0b01001110
  have hperm := hreg0.permutevar (setrEpi32 [0, 1, 4, 5, 6, 7, 3, 3])
  exact isPacked_of_wired hprb ((hreg0.or hperm).blendv (hperm.or hreg1) selMask)
    (by decide +kernel)

/-- **The next 27 bytes are the packed samples of the second block.** -/
theorem isPacked_packPrb1 (hprb : BlockAt (sampleOf r0 r1 r2) 24 samples) :
    IsPacked 9 samples
      ((bytes (packPrb1 (packAvx2Register9bBe r1) (packAvx2Register9bBe r2))).take 27) := by
  have hreg1 := wired_packed r0 r1 r2 1 (r := r1) (by intro i; fin_cases i <;> rfl)
  have hreg2 := wired_packed r0 r1 r2 2 (r := r2) (by intro i; fin_cases i <;> rfl)
  have hreg1 := hreg1.permutevar (setrEpi32 [4, 5, 6, 7, 3, 3, 3, 3])
  have hreg2 := hreg2.shuffle shuffleMask2
  have hperm := hreg2.permutevar (setrEpi32 [1, 1, 2, 3, 0, 1, 6, 7])
  exact isPacked_of_wired hprb ((hreg1.or hperm).blendv (hreg2.or hperm) selMask)
    (by decide +kernel)

end

/-! ## Sixteen bits -/

def swapMask : M256 :=
  setrEpi64x [0x0607040502030001, 0x0e0f0c0d0a0b0809, 0x0607040502030001, 0x0e0f0c0d0a0b0809]

def avx2PackPrbs16bBigEndian (compPrb0 compPrb1 : List (BitVec 8)) (r0 r1 r2 : M256) :
    Option (List (BitVec 8) × List (BitVec 8)) :=
  if compPrb0.length = 48 ∧ compPrb1.length = 48 then
    let reg0Swp := shuffleEpi8 r0 swapMask
    let reg1Swp := shuffleEpi8 r1 swapMask
    let reg2Swp := shuffleEpi8 r2 swapMask
    let ones : BitVec 32 := 0xffffffff
    let data0 := maskstoreEpi32 (storeu compPrb0 0 reg0Swp) 32
      (setrEpi32 [ones, ones, ones, ones, 0, 0, 0, 0]) reg1Swp
    let data1 := storeu (maskstoreEpi32Low compPrb1 0
      (setrEpi32 [ones, ones, ones, ones]) (extracti128 reg1Swp 1)) 16 reg2Swp
    some (data0, data1)
  else none

section

local instance neZeroSwapped : NeZero 32 := ⟨by decide⟩

/-- Byte `k` of the three registers with swapped bytes. -/
def swappedByte (r0 r1 r2 : M256) (k : Nat) : BitVec 8 :=
  shuffleEpi8 (if k < 32 then r0 else if k < 64 then r1 else r2) swapMask (Fin.ofNat 32 k)

end

/-- The swapped bytes are big endian: bit `p` of the registers belongs to sample `p / 16`. -/
theorem getLsbD_swappedByte (r0 r1 r2 : M256) (p : Nat) :
    (swappedByte r0 r1 r2 (p / 8)).getLsbD (7 - p % 8) =
      (sampleOf r0 r1 r2 (p / 16)).getLsbD (15 - p % 16) := by
  have hwire : ∀ q < 256, selectWire .bit (shuffleSel swapMask) (8 * (q / 8) + (7 - q % 8)) =
      .bit (16 * (q / 16) + (15 - q % 16)) := by decide +kernel
  have h1 : (p / 16 < 16) = (p / 8 < 32) := propext (by omega)
  have h2 : (p / 16 < 32) = (p / 8 < 64) := propext (by omega)
  rw [swappedByte, sampleOf]
  simp only [h1, h2]
  generalize (if p / 8 < 32 then r0 else if p / 8 < 64 then r1 else r2) = r
  have hbit := (wired_self r).shuffle swapMask (8 * (p % 256 / 8) + (7 - p % 256 % 8)) (by omega)
  rw [hwire _ (Nat.mod_lt p (by decide)), Wire.Carries] at hbit
  rw [getLsbD_byte _ _ (by omega), getLsbD_epi16 _ _ (by omega), Fin.val_ofNat, Fin.val_ofNat,
    show 8 * (p / 8 % 32) + (7 - p % 8) = 8 * (p % 256 / 8) + (7 - p % 256 % 8) by omega, hbit]
  congr 1
  omega

/-- Swapped bytes from the sample `base` on are the packed samples of a block. -/
theorem isPacked_of_swapped {r0 r1 r2 : M256} {samples : List (BitVec 16)} {base : Nat}
    (hprb : BlockAt (sampleOf r0 r1 r2) base samples) {data : List (BitVec 8)}
    (hdata : data.length = 48)
    (hbytes : ∀ k < 48, data.getD k 0 = swappedByte r0 r1 r2 (2 * base + k)) :
    IsPacked 16 samples data := by
  have hlen := hprb.length
  refine ⟨by rw [hlen, hdata], fun p hp => ?_⟩
  have hbit := getLsbD_swappedByte r0 r1 r2 (16 * base + p)
  rw [bitAt, hbytes _ (by omega), sampleBit, hprb.sample _ (by omega)]
  convert hbit using 2 <;> try congr 1
  all_goals omega

theorem ofNat_eq {k j : Nat} (h : k % 32 = j) (hj : j < 32) : Fin.ofNat 32 k = ⟨j, hj⟩ :=
  Fin.ext h

section

variable {compPrb0 compPrb1 data0 data1 : List (BitVec 8)} {r0 r1 r2 : M256}
  (hpack : avx2PackPrbs16bBigEndian compPrb0 compPrb1 r0 r1 r2 = some (data0, data1))

include hpack in
theorem stored0 : data0.length = 48 ∧ ∀ k < 48, data0.getD k 0 = swappedByte r0 r1 r2 k := by
  rw [avx2PackPrbs16bBigEndian, Option.ite_none_right_eq_some] at hpack
  obtain ⟨⟨hcomp, -⟩, heq⟩ := hpack
  obtain ⟨rfl, -⟩ := heq
  have hmask : ∀ i : Fin 8, (epi32 (setrEpi32 [0xffffffff, 0xffffffff, 0xffffffff, 0xffffffff,
      0, 0, 0, 0]) i).msb = decide (i.val < 4) := by decide
  refine ⟨by simp [maskstoreEpi32, storeu, hcomp], fun k hk => ?_⟩
  rw [maskstoreEpi32, getD_overlay (by rw [storeu, length_overlay, hcomp]; exact hk), swappedByte]
  by_cases hlow : k < 32
  · have hidx : Fin.ofNat 32 k = ⟨k, hlow⟩ := ofNat_eq (Nat.mod_eq_of_lt hlow) _
    rw [if_neg (by omega), if_pos hlow, storeu, getD_overlay (by omega), if_pos (Nat.zero_le k),
      Nat.sub_zero, dif_pos hlow, Option.getD_some, hidx]
  · have hidx : Fin.ofNat 32 k = ⟨k - 32, by omega⟩ := ofNat_eq (by omega) _
    rw [if_pos (by omega), if_neg hlow, if_pos (by omega), dif_pos (by omega), hmask,
      if_pos (decide_eq_true (by simp only; omega)), Option.getD_some, hidx]

include hpack in
theorem stored1 :
    data1.length = 48 ∧ ∀ k < 48, data1.getD k 0 = swappedByte r0 r1 r2 (48 + k) := by
  rw [avx2PackPrbs16bBigEndian, Option.ite_none_right_eq_some] at hpack
  obtain ⟨⟨-, hcomp⟩, heq⟩ := hpack
  obtain ⟨-, rfl⟩ := heq
  have hmask : ∀ i : Fin 8, (epi32 (setrEpi32 [0xffffffff, 0xffffffff, 0xffffffff, 0xffffffff])
      i).msb = decide (i.val < 4) := by decide
  refine ⟨by simp [maskstoreEpi32Low, storeu, hcomp], fun k hk => ?_⟩
  rw [storeu, getD_overlay (by rw [maskstoreEpi32Low, length_overlay, hcomp]; exact hk),
    swappedByte, if_neg (by omega : ¬48 + k < 32)]
  by_cases hlow : k < 16
  · have hidx : Fin.ofNat 32 (48 + k) = ⟨16 + k, by omega⟩ := ofNat_eq (by omega) _
    have hhigh (r : M256) : extracti128 r 1 ⟨k, by omega⟩ = r ⟨16 + k, by omega⟩ := by
      simp only [extracti128, if_pos hlow, Nat.mod_eq_of_lt hlow]
      rfl
    rw [if_neg (by omega), if_pos (by omega), maskstoreEpi32Low, getD_overlay (by omega),
      if_pos (Nat.zero_le k)]
    simp only [Nat.sub_zero]
    rw [dif_pos hlow, hmask, if_pos (decide_eq_true (by simp only; omega)), Option.getD_some, hhigh,
      hidx]
  · have hidx : Fin.ofNat 32 (48 + k) = ⟨k - 16, by omega⟩ := ofNat_eq (by omega) _
    rw [if_pos (by omega), if_neg (by omega), dif_pos (by omega), Option.getD_some, hidx]

end

/-! ## Both widths -/

def iqWidthPackingSupported (iqWidth : Nat) : Bool := iqWidth == 9 || iqWidth == 16

/-- `pack_prbs_big_endian`. Any other width is a fatal error. -/
def packPrbsBigEndian (compPrb0 compPrb1 : List (BitVec 8)) (r0 r1 r2 : M256) (iqWidth : Nat) :
    Option (List (BitVec 8) × List (BitVec 8)) :=
  match iqWidth with
  | 9 => avx2PackPrbs9bBigEndian compPrb0 compPrb1 r0 r1 r2
  | 16 => avx2PackPrbs16bBigEndian compPrb0 compPrb1 r0 r1 r2
  | _ => none

/-- **The AVX2 routines pack the 48 samples of the registers**, 24 into each block. -/
theorem packPrbsBigEndian_spec {w : Nat} (hw : w = 9 ∨ w = 16) {compPrb0 compPrb1 : List (BitVec 8)}
    (h0 : compPrb0.length = 3 * w) (h1 : compPrb1.length = 3 * w) {r0 r1 r2 : M256}
    {samples0 samples1 : List (BitVec 16)} (hprb0 : BlockAt (sampleOf r0 r1 r2) 0 samples0)
    (hprb1 : BlockAt (sampleOf r0 r1 r2) 24 samples1) :
    ∃ data0 data1, packPrbsBigEndian compPrb0 compPrb1 r0 r1 r2 w = some (data0, data1) ∧
      IsPacked w samples0 data0 ∧ IsPacked w samples1 data1 := by
  rcases hw with rfl | rfl
  · exact ⟨_, _, if_pos ⟨h0, h1⟩, isPacked_packPrb0 hprb0, isPacked_packPrb1 hprb1⟩
  · have hpack : avx2PackPrbs16bBigEndian compPrb0 compPrb1 r0 r1 r2 = some _ :=
      if_pos ⟨h0, h1⟩
    exact ⟨_, _, hpack,
      isPacked_of_swapped hprb0 (stored0 hpack).1 (by simpa using (stored0 hpack).2),
      isPacked_of_swapped hprb1 (stored1 hpack).1 (stored1 hpack).2⟩

end RadioStack.Ofh
