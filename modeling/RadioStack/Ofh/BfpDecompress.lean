import RadioStack.Ofh.Avx2Unpacking

/-!
# Scaling of decompressed samples

A received block starts with its exponent, and every mantissa is multiplied by two to that power.
`decompress_prb_generic` keeps the factor in an `int16_t`, `1 << exponent`; the AVX2 and AVX512
decompressors keep it in a `float`. The factor of the largest exponent, 15, does not fit the
`int16_t`: it becomes `-32768`.

**Theorem (`decompress_scaling_iff`).** On a block with 9-bit mantissas and an exponent up to 15
the two back ends scale a mantissa to the same value if and only if the exponent is not 15 or the
mantissa is zero.
-/

namespace RadioStack.Ofh

/-- `int16_t scaler = 1 << exponent` of `decompress_prb_generic`. -/
def genericScaler (exponent : BitVec 8) : BitVec 16 := BitVec.ofNat 16 (2 ^ exponent.toNat)

/-- The products `re * scaler` and `im * scaler` of `decompress_prb_generic`, as they go to the
output quantiser. -/
def genericProducts (compPrb : List (BitVec 8)) (dataWidth : Nat) : Option (List Int) := do
  let (exponent, mantissas) ← decompressPrbGeneric compPrb dataWidth
  return mantissas.map fun mantissa => mantissa.toInt * (genericScaler exponent).toInt

/-- `float scaler = 1 << exponent` of the vector decompressors. The powers of two up to the
exponents in use are exact. -/
def vectorScaler (exponent : BitVec 8) : Int := 2 ^ exponent.toNat

/-- The loop body of `iq_compression_bfp_avx2::decompress` for 9 bits: the unpacked samples and
the factor they are scaled by, before the common gain. -/
def avx2Products (compPrb : List (BitVec 8)) : Option (List Int) := do
  let exponent ← compPrb.head?
  let unpacked ← avx2UnpackPrb9bBe (List.replicate 32 0) compPrb.tail
  return (unpacked.take nofSamplesPerPrb).map fun mantissa =>
    mantissa.toInt * vectorScaler exponent

/-- Any block long enough is read: mantissa `i` is the sign-extended field at bit `w * i`. -/
theorem readMantissas_fields (reader : List (BitVec 8)) {w : Nat} (hlow : 0 < w) (hhigh : w ≤ 16) :
    ∀ (count readPos : Nat), readPos + w * (2 * count) ≤ 8 * reader.length →
      ∃ mantissas, readMantissas reader w count readPos = some mantissas ∧
        mantissas.length = 2 * count ∧
        ∀ i < 2 * count, (unpackBits reader (readPos + w * i) w).map (signExtend w) =
          some (mantissas.getD i 0)
  | 0, _, _ => ⟨[], rfl, rfl, fun i hi => absurd hi (Nat.not_lt_zero i)⟩
  | count + 1, readPos, hsize => by
    have hgrow : w * (2 * (count + 1)) = w * (2 * count) + w * 2 := by ring
    obtain ⟨re, hre, -⟩ := unpackBits_spec hhigh hlow (by omega : readPos + w ≤ 8 * reader.length)
    obtain ⟨im, him, -⟩ :=
      unpackBits_spec hhigh hlow (by omega : readPos + w + w ≤ 8 * reader.length)
    obtain ⟨rest, hrest, hlen, hget⟩ :=
      readMantissas_fields reader hlow hhigh count (readPos + w * 2) (by omega)
    refine ⟨signExtend w re :: signExtend w im :: rest, ?_, ?_, fun i hi => ?_⟩
    · simp [readMantissas, hre, him, hrest]
    · rw [List.length_cons, List.length_cons, hlen]
      omega
    · rcases i with _ | _ | i
      · rw [Nat.mul_zero, Nat.add_zero, hre]
        rfl
      · rw [Nat.mul_one, him]
        rfl
      · have hpos : readPos + w * (i + 2) = readPos + w * 2 + w * i := by ring
        rw [hpos, hget i (by omega)]
        rfl

/-- The factor in 16 bits: its sign is lost at the largest exponent. -/
theorem toInt_genericScaler {exponent : BitVec 8} (h : exponent.toNat ≤ 15) :
    (genericScaler exponent).toInt =
      if exponent.toNat = 15 then -vectorScaler exponent else vectorScaler exponent := by
  rw [genericScaler, vectorScaler]
  generalize exponent.toNat = n at h
  interval_cases n <;> rfl

theorem product_eq_iff {exponent : BitVec 8} (h : exponent.toNat ≤ 15) (mantissa : BitVec 16) :
    mantissa.toInt * (genericScaler exponent).toInt = mantissa.toInt * vectorScaler exponent ↔
      exponent.toNat ≠ 15 ∨ mantissa = 0 := by
  have hpos : 0 < vectorScaler exponent := Int.pow_pos (by decide)
  have hzero : mantissa.toInt = 0 ↔ mantissa = 0 := by
    rw [← BitVec.toInt_inj]
    rfl
  rw [toInt_genericScaler h]
  by_cases htop : exponent.toNat = 15
  · rw [if_pos htop, Int.mul_neg, ← hzero]
    constructor
    · intro heq
      have hprod : mantissa.toInt * vectorScaler exponent = 0 := by omega
      exact .inr ((Int.mul_eq_zero.1 hprod).resolve_right hpos.ne')
    · rintro (hne | hm)
      · exact absurd htop hne
      · rw [hm, Int.zero_mul, Int.neg_zero]
  · rw [if_neg htop]
    exact ⟨fun _ => .inl htop, fun _ => rfl⟩

/-- **The back ends scale alike except at the largest exponent.** Mantissa `i` is the field at bit
`9 * i` after the exponent byte. -/
theorem decompress_scaling_iff {compPrb : List (BitVec 8)}
    (hlen : compPrb.length = compressedPrbSize 9) (hexp : (compPrb.headD 0).toNat ≤ 15) :
    ∃ mantissas generic vector : List _,
      genericProducts compPrb 9 = some generic ∧ avx2Products compPrb = some vector ∧
      generic.length = nofSamplesPerPrb ∧ vector.length = nofSamplesPerPrb ∧
      ∀ i < nofSamplesPerPrb,
        (unpackBits compPrb.tail (9 * i) 9).map (signExtend 9) = some (mantissas.getD i 0) ∧
        vector.getD i 0 = (mantissas.getD i 0).toInt * 2 ^ (compPrb.headD 0).toNat ∧
        (generic.getD i 0 = vector.getD i 0 ↔
          (compPrb.headD 0).toNat ≠ 15 ∨ mantissas.getD i 0 = 0) := by
  match compPrb, hlen, hexp with
  | exponent :: packed, hlen, hexp =>
    have hpacked : packed.length = 27 := by simpa [compressedPrbSize, nofSamplesPerPrb] using hlen
    obtain ⟨mantissas, hread, hcount, hfields⟩ :=
      readMantissas_fields packed (by decide : 0 < 9) (by decide) (nofSamplesPerPrb / 2) 0
        (by rw [hpacked]; decide)
    obtain ⟨result, hunpack, hsize, hsamples⟩ :=
      avx2UnpackPrb9bBe_spec (by simp : 32 ≤ (List.replicate 32 (0 : BitVec 16)).length) hpacked
    have hlength : mantissas.length = nofSamplesPerPrb := hcount
    -- both readers deliver the same mantissas
    have hsame : result.take nofSamplesPerPrb = mantissas := by
      refine List.ext_getElem ?_ fun i hi hi' => ?_
      · rw [List.length_take, hsize, hlength]
        rfl
      · rw [hlength] at hi'
        have hfield := hfields i hi'
        rw [Nat.zero_add, hsamples i hi', Option.some.injEq,
          List.getD_eq_getElem _ _ (by rw [hsize]; exact hi'.trans (by decide)),
          List.getD_eq_getElem _ _ (hlength ▸ hi')] at hfield
        rw [List.getElem_take, hfield]
    have hgeneric : genericProducts (exponent :: packed) 9 =
        some (mantissas.map fun m => m.toInt * (genericScaler exponent).toInt) := by
      simp only [genericProducts, decompressPrbGeneric, List.head?_cons, List.tail_cons, hread]
      rfl
    have hvector : avx2Products (exponent :: packed) =
        some (mantissas.map fun m => m.toInt * vectorScaler exponent) := by
      simp only [avx2Products, List.head?_cons, List.tail_cons, hunpack, ← hsame]
      rfl
    refine ⟨mantissas, _, _, hgeneric, hvector, by rw [List.length_map, hlength],
      by rw [List.length_map, hlength], fun i hi => ?_⟩
    have hfield := hfields i hi
    rw [Nat.zero_add] at hfield
    have hget : ∀ scaler : Int, (mantissas.map fun m => m.toInt * scaler).getD i 0 =
        (mantissas.getD i 0).toInt * scaler := fun scaler => by
      have hzero : (0 : BitVec 16).toInt * scaler = 0 := Int.zero_mul scaler
      rw [← List.getD_map (f := fun m : BitVec 16 => m.toInt * scaler), hzero]
    rw [hget, hget]
    exact ⟨hfield, rfl, product_eq_iff hexp _⟩

/-- The largest exponent with zero mantissas only, and an exponent of our own compressor. -/
theorem decompress_scaling_iff_zero :
    (∃ generic vector : List Int,
      genericProducts (15 :: List.replicate 27 0) 9 = some generic ∧
        avx2Products (15 :: List.replicate 27 0) = some vector ∧
        generic.getD 23 0 = vector.getD 23 0) ∧
    ∃ generic vector : List Int,
      genericProducts (7 :: List.replicate 27 0xff) 9 = some generic ∧
        avx2Products (7 :: List.replicate 27 0xff) = some vector ∧
        vector.getD 23 0 = generic.getD 23 0 := by
  refine ⟨?_, ?_⟩
  · obtain ⟨mantissas, generic, vector, hgeneric, hvector, -, -, hall⟩ :=
      @decompress_scaling_iff (15 :: List.replicate 27 0) rfl (by decide)
    obtain ⟨hfield, -, hiff⟩ := hall 23 (by decide)
    have hzero : mantissas.getD 23 0 = 0 := by
      have hdecode : (unpackBits (List.replicate 27 0) (9 * 23) 9).map (signExtend 9) = some 0 := by
        decide
      exact Option.some.inj (hfield.symm.trans hdecode)
    exact ⟨generic, vector, hgeneric, hvector, hiff.2 (.inr hzero)⟩
  · obtain ⟨mantissas, generic, vector, hgeneric, hvector, -, -, hall⟩ :=
      @decompress_scaling_iff (7 :: List.replicate 27 0xff) rfl (by decide)
    have hsame := (hall 23 (by decide)).2.2.2 (.inl (by decide))
    exact ⟨generic, vector, hgeneric, hvector, hsame.symm⟩

/-- Exponent 15 and mantissas `-1`: one back end feeds `32768`, the other `-32768`. -/
theorem decompress_scaling_exponent15 :
    genericProducts (15 :: List.replicate 27 0xff) 9 = some (List.replicate 24 32768) ∧
      avx2Products (15 :: List.replicate 27 0xff) = some (List.replicate 24 (-32768)) := by
  decide +kernel

end RadioStack.Ofh
