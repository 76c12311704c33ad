import RadioStack.Ofh.Avx2Packing
import RadioStack.Ofh.Bfp

/-!
# Unpacking a resource block with AVX2

`avx2_unpack_prb_9b_be` of `packing_utils_avx2.h` turns 27 packed bytes into 24 samples. Two
overlapping loads of sixteen bytes fetch the block. Every sample lies in two neighbouring bytes,
so the bytes are doubled and put next to each other, the pair is shifted until the sample's sign
is the top bit, and an arithmetic shift moves it down.

**Theorem (`avx2_nineBits_agree`).** With nine bits the AVX2 routines write the bytes of
`pack_bytes` and read the samples of `unpack_bits`.
-/

namespace RadioStack.Ofh

open Bits Avx2

/-! ## The routine -/

/-- The 27 bytes in one register. No load of single bytes under a mask exists, so the last eleven
are loaded with the five before them, which are then shifted out. -/
def loadPacked (packedData : List (BitVec 8)) : Option M256 := do
  let high ← loaduSi128 packedData 11
  let packedDataHigh := srliSi128 high 5
  let packedDataLow ← loaduSi128 packedData 0
  return permute2f128 packedDataLow packedDataHigh 0x20

def unpackMask0 : M256 :=
  setrEpi64x [0x0304020301020001, 0x0708060705060405, 0x0405030402030102, 0x0809070806070506]

def unpackMask1 : M256 :=
  setrEpi64x [0x0506040503040203, 0x090a080907080607, 0xffffffffffffffff, 0xffffffffffffffff]

/-- The samples in pairs of bytes, shifted to the left end of their element and then, with their
sign, to the right end. -/
def alignUnpacked (packedDataLe : M256) : M256 :=
  let unpacked0 := andSi256 (sllvEpi32 packedDataLe (setrEpi32 [0, 2, 4, 6, 0, 2, 4, 6]))
    (setrEpi32 (List.replicate 8 0x0000ffff))
  let unpacked1 := andSi256 (sllvEpi32 packedDataLe (setrEpi32 [1, 3, 5, 7, 1, 3, 5, 7]))
    (setrEpi32 (List.replicate 8 0xffff0000))
  sraiEpi16 (orSi256 unpacked0 unpacked1) 7

def elements (r : M256) : List (BitVec 16) := List.ofFn (epi16 r)

@[simp] theorem length_elements (r : M256) : (elements r).length = 16 := List.length_ofFn

theorem getD_elements (r : M256) (i : Fin 16) : (elements r).getD i.val 0 = epi16 r i := by
  rw [List.getD_eq_getElem _ _ (by rw [length_elements]; exact i.isLt)]
  exact List.getElem_ofFn _

/-- `avx2_unpack_prb_9b_be`. Both registers are stored whole, so the output needs 32 places. -/
def avx2UnpackPrb9bBe (unpackedIqData : List (BitVec 16)) (packedData : List (BitVec 8)) :
    Option (List (BitVec 16)) :=
  if 32 ≤ unpackedIqData.length then do
    let packed ← loadPacked packedData
    let packed0 := permute4x64 packed 0b10010100
    let packed1 := permute4x64 packed 0b00001110
    let unpacked0 := alignUnpacked (shuffleEpi8 packed0 unpackMask0)
    let unpacked1 := alignUnpacked (shuffleEpi8 packed1 unpackMask1)
    return elements unpacked0 ++ elements unpacked1 ++ unpackedIqData.drop 32
  else none

/-! ## The loads -/

variable {packedData : List (BitVec 8)}

theorem loadPacked_eq (hlen : packedData.length = 27) :
    loadPacked packedData = some fun k => packedData.getD k.val 0 := by
  have hlow : loaduSi128 packedData 0 = some _ := if_pos (by omega)
  have hhigh : loaduSi128 packedData 11 = some _ := if_pos (by omega)
  simp only [loadPacked, hlow, hhigh, Option.bind_eq_bind, Option.bind_some, Option.pure_def,
    Option.some.injEq]
  funext k
  by_cases hk : k.val < 16
  · simp [permute2f128, selectHalf, hk]
  · rw [permute2f128, dif_neg hk]
    by_cases hin : k.val < 27
    · have hidx : 11 + (k.val - 16 + 5) = k.val := by omega
      simp [selectHalf, srliSi128, show k.val - 16 + 5 < 16 by omega, hidx]
    · rw [List.getD_eq_default _ _ (by omega)]
      simp [selectHalf, srliSi128, show ¬ k.val - 16 + 5 < 16 by omega]

/-! ## The samples -/

section

local instance neZeroWord : NeZero 8 := ⟨by decide⟩

/-- The wiring of `alignUnpacked` after a permutation and a shuffle. -/
def unpackWire (mask : M256) (imm : Nat) (p : Nat) : Wire :=
  let w := selectWire (selectWire .bit fun k => some (permute4Idx imm k)) (shuffleSel mask)
  let shifted (count : M256) (p : Nat) : Wire :=
    if p % 32 < (epi32 count (Fin.ofNat 8 (p / 32))).toNat then .zero
    else w (p - (epi32 count (Fin.ofNat 8 (p / 32))).toNat)
  let q := 16 * (p / 16) + min (p % 16 + 7) 15
  .or (if bit (setrEpi32 (List.replicate 8 0x0000ffff)) q then
      shifted (setrEpi32 [0, 2, 4, 6, 0, 2, 4, 6]) q else .zero)
    (if bit (setrEpi32 (List.replicate 8 0xffff0000)) q then
      shifted (setrEpi32 [1, 3, 5, 7, 1, 3, 5, 7]) q else .zero)

end

theorem wired_unpacked (r mask : M256) (imm : Nat) : Wired (bit r) (unpackWire mask imm)
    (alignUnpacked (shuffleEpi8 (permute4x64 r imm) mask)) := by
  have hpairs := ((wired_self r).permute4 imm).shuffle mask
  exact (((hpairs.sllv _).and _).or ((hpairs.sllv _).and _)).srai 7

/-- The elements are wired to the samples from `first` on: bit `j` of a sample is bit `8 - j` of
nine, and its sign is repeated. -/
def Unpacks (mask : M256) (imm first count : Nat) : Prop :=
  ∀ i < count, ∀ j < 16, unpackWire mask imm (16 * i + j) =
    .bit (8 * ((9 * (first + i) + (8 - min j 8)) / 8) + (7 - (9 * (first + i) + (8 - min j 8)) % 8))

theorem unpacks_mask0 : Unpacks unpackMask0 0b10010100 0 16 := by
  unfold Unpacks
  decide +kernel

theorem unpacks_mask1 : Unpacks unpackMask1 0b00001110 16 8 := by
  unfold Unpacks
  decide +kernel

theorem getLsbD_signExtend (v : BitVec 16) {j : Nat} (hj : j < 16) :
    (signExtend 9 v).getLsbD j = v.getLsbD (min j 8) := by
  rw [signExtend, BitVec.getLsbD_sshiftRight, decide_eq_false (by omega : ¬ 16 ≤ j)]
  split
  · rw [BitVec.getLsbD_shiftLeft, decide_eq_true ‹_›, decide_eq_false (by omega),
      Nat.add_sub_cancel_left, Nat.min_eq_left (by omega)]
    simp
  · rw [BitVec.msb_eq_getLsbD_last, BitVec.getLsbD_shiftLeft, Nat.min_eq_right (by omega)]
    simp

/-- **One sample**: the shifts leave its nine bits, sign-extended. -/
theorem epi16_unpacked {packed mask : M256} (hpacked : ∀ k, packed k = packedData.getD k.val 0)
    {imm first count : Nat} (hunpacks : Unpacks mask imm first count) (i : Fin 16)
    (hi : i.val < count) (hend : 9 * (first + i.val) + 8 < 256) {v : BitVec 16}
    (hv : ∀ j, v.getLsbD j =
      (decide (j < 9) && bitAt packedData (9 * (first + i.val) + 9 - 1 - j))) :
    epi16 (alignUnpacked (shuffleEpi8 (permute4x64 packed imm) mask)) i = signExtend 9 v := by
  apply BitVec.eq_of_getLsbD_eq
  intro j hj
  have hbit := wired_unpacked packed mask imm (16 * i + j) (by omega)
  rw [hunpacks i hi j hj, Wire.Carries] at hbit
  rw [getLsbD_epi16 _ _ hj, hbit, getLsbD_signExtend v hj, hv, decide_eq_true (by omega),
    Bool.true_and, bitAt, bit, hpacked, Fin.val_ofNat,
    show 9 * (first + i.val) + 9 - 1 - min j 8 = 9 * (first + i.val) + (8 - min j 8) by omega]
  have hlt : 9 * (first + i.val) + (8 - min j 8) < 256 := by omega
  generalize 9 * (first + i.val) + (8 - min j 8) = q at hlt ⊢
  congr 2 <;> omega

/-- **The first 24 outputs are the samples of `unpack_bits`.** -/
theorem avx2UnpackPrb9bBe_spec {unpackedIqData : List (BitVec 16)}
    (hout : 32 ≤ unpackedIqData.length) (hlen : packedData.length = 27) :
    ∃ result, avx2UnpackPrb9bBe unpackedIqData packedData = some result ∧
      result.length = unpackedIqData.length ∧
      ∀ i < 24, (unpackBits packedData (9 * i) 9).map (signExtend 9) = some (result.getD i 0) := by
  refine ⟨_, by rw [avx2UnpackPrb9bBe, if_pos hout, loadPacked_eq hlen]; rfl, ?_, fun i hi => ?_⟩
  · simp only [List.length_append, length_elements, List.length_drop]
    omega
  · obtain ⟨v, hv, hbits⟩ := unpackBits_spec (by decide : 9 ≤ 16) (by decide)
      (by omega : 9 * i + 9 ≤ 8 * packedData.length)
    rw [hv, Option.map_some, List.append_assoc]
    by_cases hfirst : i < 16
    · have hget := epi16_unpacked (fun _ => rfl) unpacks_mask0 ⟨i, hfirst⟩ hfirst
        (by simp only; omega) (v := v) (by simpa using hbits)
      rw [← hget, List.getD_append _ _ _ _ (by simpa using hfirst)]
      exact congrArg some (getD_elements _ ⟨i, hfirst⟩).symm
    · obtain ⟨n, rfl⟩ : ∃ n, i = 16 + n := ⟨i - 16, by omega⟩
      have hget := epi16_unpacked (fun _ => rfl) unpacks_mask1 ⟨n, by omega⟩
        (by simp only; omega) (by simp only; omega) (v := v) hbits
      rw [← hget, List.getD_append_right _ _ _ _ (by simp), length_elements,
        Nat.add_sub_cancel_left, List.getD_append _ _ _ _ (by simp; omega)]
      exact congrArg some (getD_elements _ ⟨n, by omega⟩).symm

/-! ## Both directions -/

/-- Packed samples depend only on their low bits. -/
theorem IsPacked.of_low {w : Nat} {samples samples' : List (BitVec 16)} {bytes : List (BitVec 8)}
    (h : IsPacked w samples bytes)
    (hlow : samples'.map (BitVec.setWidth w) = samples.map (BitVec.setWidth w)) :
    IsPacked w samples' bytes := by
  have hlen : samples'.length = samples.length := by simpa using congrArg List.length hlow
  refine ⟨by rw [hlen]; exact h.1, fun p hp => ?_⟩
  rw [hlen] at hp
  have hw : 0 < w := Nat.pos_of_mul_pos_right (Nat.lt_of_le_of_lt (Nat.zero_le p) hp)
  have helem : (samples'.getD (p / w) 0).setWidth w = (samples.getD (p / w) 0).setWidth w := by
    rw [← List.getD_map (f := BitVec.setWidth w), ← List.getD_map (f := BitVec.setWidth w), hlow]
  rw [h.2 p hp, sampleBit, sampleBit]
  have hbit := congrArg (BitVec.getLsbD · (w - 1 - p % w)) helem
  simp only [BitVec.getLsbD_setWidth, decide_eq_true (by omega : w - 1 - p % w < w),
    Bool.true_and] at hbit
  exact hbit.symm

/-- **Packing and unpacking with AVX2 agree with the bit packer.** -/
theorem avx2_nineBits_agree :
    (∀ samples0 samples1 : List (BitVec 16), samples0.length = 24 → samples1.length = 24 →
      ∀ compPrb0 compPrb1 : List (BitVec 8), compPrb0.length = 27 → compPrb1.length = 27 →
        ∃ data0 data1,
          avx2PackPrbs9bBigEndian compPrb0 compPrb1 (loadu (samples0 ++ samples1) 0)
              (loadu (samples0 ++ samples1) 16) (loadu (samples0 ++ samples1) 32) =
            some (data0, data1) ∧
          (∀ low0 : List (BitVec 16),
            low0.map (BitVec.setWidth 9) = samples0.map (BitVec.setWidth 9) →
              packBytes compPrb0 low0 9 = some data0) ∧
          ∀ low1 : List (BitVec 16),
            low1.map (BitVec.setWidth 9) = samples1.map (BitVec.setWidth 9) →
              packBytes compPrb1 low1 9 = some data1) ∧
    ∀ packedData : List (BitVec 8), packedData.length = 27 →
      ∀ unpackedIqData : List (BitVec 16), 32 ≤ unpackedIqData.length →
        ∃ result, avx2UnpackPrb9bBe unpackedIqData packedData = some result ∧
          ∀ i < 24,
            (unpackBits packedData (9 * i) 9).map (signExtend 9) = some (result.getD i 0) := by
  refine ⟨fun samples0 samples1 hlen0 hlen1 compPrb0 compPrb1 h0 h1 => ?_,
    fun packedData hlen unpackedIqData hout => ?_⟩
  · set f := sampleOf (loadu (samples0 ++ samples1) 0) (loadu (samples0 ++ samples1) 16)
      (loadu (samples0 ++ samples1) 32) with hf
    have hload (n : Nat) (hn : n < 48) : f n = (samples0 ++ samples1).getD n 0 := by
      rw [hf, sampleOf_loadu _ 0 hn, Nat.zero_add]
    have hprb0 : BlockAt f 0 samples0 := ⟨hlen0, fun i hi => by
      rw [Nat.zero_add, hload i (by omega), List.getD_append _ _ _ _ (by omega)]⟩
    have hprb1 : BlockAt f 24 samples1 := ⟨hlen1, fun i hi => by
      rw [hload _ (by omega), List.getD_append_right _ _ _ _ (by omega), hlen0,
        Nat.add_sub_cancel_left]⟩
    -- the packed bytes are determined by the low bits, and `pack_bytes` writes packed bytes
    have hpack : ∀ {samples low : List (BitVec 16)} {compPrb data : List (BitVec 8)},
        samples.length = 24 → compPrb.length = 27 → IsPacked 9 samples data →
        low.map (BitVec.setWidth 9) = samples.map (BitVec.setWidth 9) →
          packBytes compPrb low 9 = some data := by
      intro samples low compPrb data hlen hcomp hdata hlow
      have hlowlen : low.length = 24 := by
        rw [← hlen]
        simpa using congrArg List.length hlow
      obtain ⟨out, hout, hpacked⟩ := packBytes_spec (by decide : 8 ≤ 9) (by decide : 9 ≤ 16)
        (by rw [hcomp, hlowlen] : 8 * compPrb.length = 9 * low.length)
      rw [hout, hpacked.unique (hdata.of_low hlow)]
    exact ⟨_, _, if_pos ⟨h0, h1⟩, fun low0 => hpack hlen0 h0 (isPacked_packPrb0 hprb0),
      fun low1 => hpack hlen1 h1 (isPacked_packPrb1 hprb1)⟩
  · obtain ⟨result, hresult, -, hsamples⟩ := avx2UnpackPrb9bBe_spec hout hlen
    exact ⟨result, hresult, hsamples⟩

/-- A block of samples `-1`, and a block of bytes with all bits set. -/
theorem avx2_nineBits_agree_ones :
    (∃ data0 data1,
      avx2PackPrbs9bBigEndian (List.replicate 27 0) (List.replicate 27 0)
          (loadu (List.replicate 24 0xffff ++ List.replicate 24 0) 0)
          (loadu (List.replicate 24 0xffff ++ List.replicate 24 0) 16)
          (loadu (List.replicate 24 0xffff ++ List.replicate 24 0) 32) = some (data0, data1) ∧
        packBytes (List.replicate 27 0) (List.replicate 24 0x1ff) 9 = some data0) ∧
    ∃ result, avx2UnpackPrb9bBe (List.replicate 32 0) (List.replicate 27 0xff) = some result ∧
      (unpackBits (List.replicate 27 0xff) (9 * 23) 9).map (signExtend 9) =
        some (result.getD 23 0) := by
  obtain ⟨data0, data1, hpack, hdata0, -⟩ := avx2_nineBits_agree.1 (List.replicate 24 0xffff)
    (List.replicate 24 0) rfl rfl (List.replicate 27 0) (List.replicate 27 0) rfl rfl
  obtain ⟨result, hresult, hsamples⟩ :=
    avx2_nineBits_agree.2 (List.replicate 27 0xff) rfl (List.replicate 32 0) (le_refl 32)
  exact ⟨⟨data0, data1, hpack, hdata0 (List.replicate 24 0x1ff) (by decide)⟩, result, hresult,
    hsamples 23 (by decide)⟩

end RadioStack.Ofh
