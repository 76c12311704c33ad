import RadioStack.Lib.Tournament
import RadioStack.Ofh.Packing
import Mathlib.Tactic.Linarith
import Mathlib.Tactic.Ring

/-!
# Block floating point, one resource block

`iq_compression_bfp_impl`: the 24 samples of a resource block are shifted right by a common
exponent and packed with `data_width` bits each, after a byte that holds the exponent. The
exponent comes from the number of leading zeros of the largest magnitude of the block.

**Theorem (`compressPrb_bounds`).** The mantissas that the decompressor reads back are the
samples divided by `2 ^ e`, rounded down. The exponent `e` is at most `16 - w`, and it is the
least one for which the mantissas fit in `w` signed bits, except on one kind of block: all 24
samples equal to the same `-2 ^ k`, where it is one more than that.

The exception comes from the magnitude, which takes one off the minimum but not off the maximum:
a negative maximum counts as its full absolute value.
-/

namespace RadioStack.Ofh

open Tournament

/-! ## The exponent -/

def nofSamplesPerPrb : Nat := 24

def maxIqWidth : Nat := 16

/-- `__builtin_clz`: the leading zeros of a 32-bit word that is not zero. -/
def clz32 (x : Nat) : Nat := 31 - x.log2

/-- `determine_exponent`. The count of leading zeros is an unsigned word, so it wraps around
when `x` has its top bit set. -/
def determineExponent (x : BitVec 16) (dataWidth : Nat) : Option Nat :=
  if dataWidth ≠ 0 ∧ dataWidth ≤ maxIqWidth then
    let maxShift := maxIqWidth - dataWidth
    let lzWithoutSign :=
      if 0 < x.toNat ∧ 0 < maxShift then (clz32 x.toNat + (2 ^ 32 - 16 - 1)) % 2 ^ 32
      else maxShift
    let rawExp := min maxShift lzWithoutSign
    some (maxIqWidth - dataWidth - rawExp)
  else none

/-- The exponent for the magnitude `x`: how far its leading one lies above the mantissa. -/
def blockExponent (x dataWidth : Nat) : Nat :=
  if x = 0 then 0 else x.log2 + 2 - dataWidth

variable {x w : Nat}

theorem determineExponent_eq (hx : x < 2 ^ 15) (hlow : 0 < w) (hhigh : w ≤ 16) :
    determineExponent (BitVec.ofNat 16 x) w = some (blockExponent x w) := by
  have hnat : (BitVec.ofNat 16 x).toNat = x := by
    rw [BitVec.toNat_ofNat, Nat.mod_eq_of_lt (by omega)]
  rw [determineExponent, if_pos ⟨by omega, hhigh⟩, hnat, blockExponent, maxIqWidth]
  by_cases hzero : x = 0
  · simp [hzero]
  · have hlog : x.log2 < 15 := (Nat.log2_lt hzero).2 hx
    have hclz : (clz32 x + (2 ^ 32 - 16 - 1)) % 2 ^ 32 = 14 - x.log2 := by
      rw [clz32]
      omega
    refine congrArg some ?_
    split <;> omega

theorem determineExponent_of_msb (hx : 2 ^ 15 ≤ x) (hx' : x < 2 ^ 16) (hlow : 0 < w)
    (hhigh : w ≤ 16) : determineExponent (BitVec.ofNat 16 x) w = some 0 := by
  have hnat : (BitVec.ofNat 16 x).toNat = x := by
    rw [BitVec.toNat_ofNat, Nat.mod_eq_of_lt hx']
  have hlog : x.log2 = 15 := (Nat.log2_eq_iff (by omega)).2 ⟨hx, hx'⟩
  have hclz : (clz32 x + (2 ^ 32 - 16 - 1)) % 2 ^ 32 = 2 ^ 32 - 1 := by
    rw [clz32, hlog]
    rfl
  rw [determineExponent, if_pos ⟨by omega, hhigh⟩, hnat, hclz, maxIqWidth]
  refine congrArg some ?_
  split <;> omega

theorem blockExponent_le (hx : x < 2 ^ 15) : blockExponent x w ≤ 16 - w := by
  rw [blockExponent]
  split
  · omega
  · rename_i hzero
    have hlog : x.log2 < 15 := (Nat.log2_lt hzero).2 hx
    omega

/-- The magnitude fits above the exponent. -/
theorem lt_pow_blockExponent (hw : 2 ≤ w) :
    x < 2 ^ (w - 1 + blockExponent x w) := by
  rw [blockExponent]
  split
  · rename_i hzero
    rw [hzero]
    exact Nat.two_pow_pos _
  · exact lt_of_lt_of_le Nat.lt_log2_self (Nat.pow_le_pow_right (by decide) (by omega))

/-- A positive exponent is no larger than needed for the magnitude. -/
theorem pow_blockExponent_le (hw : 2 ≤ w) (hpos : 0 < blockExponent x w) :
    2 ^ (w - 2 + blockExponent x w) ≤ x := by
  rw [blockExponent] at hpos ⊢
  split at hpos
  · omega
  · rename_i hzero
    rw [if_neg hzero, show w - 2 + (x.log2 + 2 - w) = x.log2 by omega]
    exact Nat.log2_self_le hzero

theorem blockExponent_eq_zero_iff (hw : 2 ≤ w) :
    blockExponent x w = 0 ↔ x < 2 ^ (w - 1) := by
  constructor
  · intro hzero
    simpa [hzero] using lt_pow_blockExponent (x := x) hw
  · intro hx
    by_contra hne
    have hle := pow_blockExponent_le hw (Nat.pos_of_ne_zero hne)
    have hpow : 2 ^ (w - 1) ≤ 2 ^ (w - 2 + blockExponent x w) :=
      Nat.pow_le_pow_right (by decide) (by omega)
    omega

/-! ## The magnitude of a block -/

/-- `std::max_element` over the block. -/
def blockMax (prb : List (BitVec 16)) : Int := (prb.map BitVec.toInt).max?.getD 0

/-- `std::min_element` over the block. -/
def blockMin (prb : List (BitVec 16)) : Int := (prb.map BitVec.toInt).min?.getD 0

/-- The magnitude whose leading zeros give the exponent. -/
def maxAbs (prb : List (BitVec 16)) : Nat :=
  (max ((blockMax prb).natAbs : Int) ((blockMin prb).natAbs - 1)).toNat

section

variable {prb : List (BitVec 16)}

theorem blockMax_spec (hne : prb ≠ []) :
    (∃ s ∈ prb, s.toInt = blockMax prb) ∧ ∀ s ∈ prb, s.toInt ≤ blockMax prb := by
  have hsome : (prb.map BitVec.toInt).max? = some (blockMax prb) := by
    cases prb with
    | nil => exact absurd rfl hne
    | cons s rest => rw [blockMax, List.map_cons, List.max?_cons', Option.getD_some]
  obtain ⟨hmem, hle⟩ := List.max?_eq_some_iff.1 hsome
  exact ⟨List.mem_map.1 hmem, fun s hs => hle _ (List.mem_map_of_mem hs)⟩

theorem blockMin_spec (hne : prb ≠ []) :
    (∃ s ∈ prb, s.toInt = blockMin prb) ∧ ∀ s ∈ prb, blockMin prb ≤ s.toInt := by
  have hsome : (prb.map BitVec.toInt).min? = some (blockMin prb) := by
    cases prb with
    | nil => exact absurd rfl hne
    | cons s rest => rw [blockMin, List.map_cons, List.min?_cons', Option.getD_some]
  obtain ⟨hmem, hle⟩ := List.min?_eq_some_iff.1 hsome
  exact ⟨List.mem_map.1 hmem, fun s hs => hle _ (List.mem_map_of_mem hs)⟩

theorem blockMax_eq {m : Int} (hmem : ∃ s ∈ prb, s.toInt = m) (hle : ∀ s ∈ prb, s.toInt ≤ m) :
    blockMax prb = m := by
  obtain ⟨s, hs, hval⟩ := hmem
  obtain ⟨⟨t, ht, hmax⟩, hbound⟩ := blockMax_spec (List.ne_nil_of_mem hs)
  exact le_antisymm (hmax ▸ hle t ht) (hval ▸ hbound s hs)

theorem blockMin_eq {m : Int} (hmem : ∃ s ∈ prb, s.toInt = m) (hle : ∀ s ∈ prb, m ≤ s.toInt) :
    blockMin prb = m := by
  obtain ⟨s, hs, hval⟩ := hmem
  obtain ⟨⟨t, ht, hmin⟩, hbound⟩ := blockMin_spec (List.ne_nil_of_mem hs)
  exact le_antisymm (hval ▸ hbound s hs) (hmin ▸ hle t ht)

section

variable {f : Nat → BitVec 16} {base : Nat} {I : List Nat} {r : BitVec 16}
  (hprb : BlockAt f base prb) (hI : ∀ n, n ∈ I ↔ base ≤ n ∧ n < base + 24)

include hprb hI in
/-- The best of the places of a block is the best of its samples. -/
theorem mem_of_isBest {le : BitVec 16 → BitVec 16 → Prop} (hbest : IsBest le f I r) :
    r ∈ prb ∧ ∀ s ∈ prb, le r s := by
  obtain ⟨⟨n, hn, hval⟩, hall⟩ := hbest
  rw [hI] at hn
  have hlen := hprb.length
  have hi : n - base < prb.length := by omega
  constructor
  · have hget := hprb.sample (n - base) (by omega)
    rw [show base + (n - base) = n by omega, hval, List.getD_eq_getElem _ _ hi] at hget
    exact hget ▸ List.getElem_mem hi
  · intro s hmem
    obtain ⟨i, hi, rfl⟩ := List.getElem_of_mem hmem
    have hget := hprb.sample i (by omega)
    rw [List.getD_eq_getElem _ _ hi] at hget
    rw [hget]
    exact hall _ ((hI _).2 ⟨by omega, by omega⟩)

include hprb hI in
theorem blockMin_of_isBest (hbest : IsBest (fun x y => x.toInt ≤ y.toInt) f I r) :
    r.toInt = blockMin prb := by
  obtain ⟨hmem, hle⟩ := mem_of_isBest hprb hI hbest
  exact (blockMin_eq ⟨r, hmem, rfl⟩ hle).symm

include hprb hI in
theorem blockMax_of_isBest (hbest : IsBest (fun x y => y.toInt ≤ x.toInt) f I r) :
    r.toInt = blockMax prb := by
  obtain ⟨hmem, hle⟩ := mem_of_isBest hprb hI hbest
  exact (blockMax_eq ⟨r, hmem, rfl⟩ hle).symm

end

theorem toInt_bounds (s : BitVec 16) : -32768 ≤ s.toInt ∧ s.toInt ≤ 32767 := by
  have hlow := BitVec.le_toInt s
  have hhigh := BitVec.toInt_lt (x := s)
  omega

/-- The absolute value of a sample as an unsigned word: that of `-32768` does not overflow. -/
theorem toNat_abs (x : BitVec 16) : (if x.slt 0 then -x else x).toNat = x.toInt.natAbs := by
  have hint := BitVec.toInt_eq_toNat_cond x
  have hzero : (0 : BitVec 16).toInt = 0 := rfl
  by_cases hneg : x.slt 0
  · rw [if_pos hneg, BitVec.toNat_neg]
    simp only [BitVec.slt, hzero, decide_eq_true_eq] at hneg
    split at hint <;> omega
  · rw [if_neg hneg]
    simp only [BitVec.slt, hzero, decide_eq_true_eq] at hneg
    split at hint <;> omega

theorem natAbs_extremes_le (hne : prb ≠ []) :
    (blockMin prb).natAbs ≤ 32768 ∧ (blockMax prb).natAbs ≤ 32768 := by
  obtain ⟨⟨m, -, hm⟩, -⟩ := blockMin_spec hne
  obtain ⟨⟨n, -, hn⟩, -⟩ := blockMax_spec hne
  have h1 := toInt_bounds m
  have h2 := toInt_bounds n
  omega

theorem maxAbs_le (hne : prb ≠ []) : maxAbs prb ≤ 2 ^ 15 := by
  have hbounds := natAbs_extremes_le hne
  rw [maxAbs]
  omega

theorem maxAbs_lt (hmem : ∃ s ∈ prb, -32768 < s.toInt) : maxAbs prb < 2 ^ 15 := by
  obtain ⟨s, hs, hgt⟩ := hmem
  have hne : prb ≠ [] := List.ne_nil_of_mem hs
  obtain ⟨⟨m, -, hm⟩, hmax⟩ := blockMax_spec hne
  obtain ⟨⟨n, -, hn⟩, -⟩ := blockMin_spec hne
  have h1 := hmax s hs
  have h2 := toInt_bounds m
  have h3 := toInt_bounds n
  rw [maxAbs]
  omega

/-- Only the constant block `-32768` has a magnitude with its top bit set. -/
theorem maxAbs_lt_iff (hne : prb ≠ []) :
    maxAbs prb < 2 ^ 15 ↔ ∃ s ∈ prb, s.toInt ≠ -32768 := by
  constructor
  · intro hlt
    obtain ⟨⟨m, hm, hmax⟩, -⟩ := blockMax_spec hne
    refine ⟨m, hm, fun hval => ?_⟩
    rw [maxAbs] at hlt
    omega
  · rintro ⟨s, hs, hval⟩
    have hbound := toInt_bounds s
    exact maxAbs_lt ⟨s, hs, by omega⟩

theorem sample_bounds {s : BitVec 16} (hs : s ∈ prb) :
    -(maxAbs prb + 1 : Int) ≤ s.toInt ∧ s.toInt ≤ maxAbs prb := by
  have hne : prb ≠ [] := List.ne_nil_of_mem hs
  have h1 := (blockMax_spec hne).2 s hs
  have h2 := (blockMin_spec hne).2 s hs
  rw [maxAbs]
  omega

/-- Some sample reaches the magnitude, or all samples are its negative. -/
theorem maxAbs_attained (hne : prb ≠ []) :
    (∃ s ∈ prb, s.toInt = maxAbs prb) ∨ (∃ s ∈ prb, s.toInt = -(maxAbs prb + 1 : Int)) ∨
      ∀ s ∈ prb, s.toInt = -(maxAbs prb : Int) := by
  obtain ⟨⟨m, hm, hmax⟩, hle⟩ := blockMax_spec hne
  obtain ⟨⟨n, hn, hmin⟩, hge⟩ := blockMin_spec hne
  by_cases h1 : blockMax prb = maxAbs prb
  · exact .inl ⟨m, hm, hmax.trans h1⟩
  · by_cases h2 : blockMin prb = -(maxAbs prb + 1 : Int)
    · exact .inr (.inl ⟨n, hn, hmin.trans h2⟩)
    · refine .inr (.inr fun s hs => ?_)
      have h3 := hle s hs
      have h4 := hge s hs
      rw [maxAbs] at h1 h2 ⊢
      omega

end

/-! ## Compressing and reading back -/

/-- `compress_prb_generic`: the exponent, then the packed mantissas. -/
def compressPrbGeneric (compPrbBuffer : List (BitVec 8)) (inputQuantized : List (BitVec 16))
    (dataWidth : Nat) : Option (List (BitVec 8)) := do
  let exponent ← determineExponent (BitVec.ofNat 16 (maxAbs inputQuantized)) dataWidth
  let exponent := BitVec.ofNat 8 exponent
  let compressedSamples := inputQuantized.map fun sample => sample.sshiftRight exponent.toNat
  let packed ← packBytes (compPrbBuffer.drop 1) compressedSamples dataWidth
  return exponent :: packed

def signExtend (bitWidth : Nat) (value : BitVec 16) : BitVec 16 :=
  (value <<< (16 - bitWidth)).sshiftRight (16 - bitWidth)

/-- The subcarrier loop of `decompress_prb_generic`, up to the mantissas: `count` pairs from
`readPos` on. -/
def readMantissas (reader : List (BitVec 8)) (dataWidth : Nat) :
    Nat → Nat → Option (List (BitVec 16))
  | 0, _ => some []
  | count + 1, readPos => do
    let re ← unpackBits reader readPos dataWidth
    let im ← unpackBits reader (readPos + dataWidth) dataWidth
    let rest ← readMantissas reader dataWidth count (readPos + dataWidth * 2)
    return signExtend dataWidth re :: signExtend dataWidth im :: rest

/-- `decompress_prb_generic`, up to the scaling: the exponent and the mantissas. -/
def decompressPrbGeneric (compPrb : List (BitVec 8)) (dataWidth : Nat) :
    Option (BitVec 8 × List (BitVec 16)) := do
  let exponent ← compPrb.head?
  let mantissas ← readMantissas compPrb.tail dataWidth (nofSamplesPerPrb / 2) 0
  return (exponent, mantissas)

/-- `get_compressed_prb_size`: the samples and the exponent, rounded up to bytes. -/
def compressedPrbSize (dataWidth : Nat) : Nat :=
  (nofSamplesPerPrb * dataWidth + 8 + 7) / 8

/-- `v` is a signed number of `w` bits. -/
def FitsWidth (w : Nat) (v : Int) : Prop := -2 ^ (w - 1) ≤ v ∧ v < 2 ^ (w - 1)

instance (w : Nat) (v : Int) : Decidable (FitsWidth w v) := inferInstanceAs (Decidable (_ ∧ _))

/-- An arithmetic shift divides and rounds down. -/
theorem toInt_sshiftRight_eq_div (s : BitVec 16) (e : Nat) :
    (s.sshiftRight e).toInt = s.toInt / 2 ^ e := by
  rw [BitVec.toInt_sshiftRight, Int.shiftRight_eq_div_pow]
  norm_cast

/-- Sign extension restores a number of `w` bits from its low bits. -/
theorem signExtend_eq {w : Nat} (hw : 0 < w) (hhigh : w ≤ 16) {v m : BitVec 16}
    (hbits : ∀ i, v.getLsbD i = (decide (i < w) && m.getLsbD i)) (hfit : FitsWidth w m.toInt) :
    signExtend w v = m := by
  have hshift : v <<< (16 - w) = m <<< (16 - w) := by
    apply BitVec.eq_of_getLsbD_eq
    intro i hi
    rw [BitVec.getLsbD_shiftLeft, BitVec.getLsbD_shiftLeft, hbits,
      decide_eq_true (by omega : i - (16 - w) < w), Bool.true_and]
  rw [signExtend, hshift]
  apply BitVec.eq_of_toInt_eq
  rw [toInt_sshiftRight_eq_div]
  -- the shift to the left does not overflow, so the shift to the right undoes it
  have hexact : (m <<< (16 - w)).toInt = m.toInt * 2 ^ (16 - w) := by
    rw [BitVec.toInt_shiftLeft, Nat.shiftLeft_eq]
    have hm := BitVec.toInt_eq_toNat_bmod m
    have hlt := m.isLt
    rw [FitsWidth] at hfit
    rw [Int.bmod_def] at hm ⊢
    interval_cases w <;> norm_num at hfit hm hlt ⊢ <;> omega
  rw [hexact, Int.mul_ediv_cancel _ (by positivity)]

theorem readMantissas_spec {w : Nat} (hw : 0 < w) (hhigh : w ≤ 16) {samples : List (BitVec 16)}
    {reader : List (BitVec 8)} (hpacked : IsPacked w samples reader)
    (hfit : ∀ s ∈ samples, FitsWidth w s.toInt) :
    ∀ count k, 2 * (k + count) ≤ samples.length →
      readMantissas reader w count (w * (2 * k)) =
        some ((samples.drop (2 * k)).take (2 * count))
  | 0, k, _ => by simp [readMantissas]
  | count + 1, k, hlen => by
    have hread : ∀ j, j < samples.length → ∃ v, unpackBits reader (w * j) w = some v ∧
        signExtend w v = samples.getD j 0 := by
      intro j hj
      obtain ⟨v, hv, hbits⟩ := unpackBits_of_isPacked hhigh hw hpacked hj
      refine ⟨v, hv, signExtend_eq hw hhigh hbits ?_⟩
      rw [List.getD_eq_getElem _ _ hj]
      exact hfit _ (List.getElem_mem hj)
    obtain ⟨re, hre, hreval⟩ := hread (2 * k) (by omega)
    obtain ⟨im, him, himval⟩ := hread (2 * k + 1) (by omega)
    have hnext := readMantissas_spec hw hhigh hpacked hfit count (k + 1) (by omega)
    have hpos : w * (2 * k) + w = w * (2 * k + 1) := by ring
    have hpos2 : w * (2 * k) + w * 2 = w * (2 * (k + 1)) := by ring
    rw [readMantissas, hre, hpos, him, hpos2, hnext]
    simp only [Option.bind_eq_bind, Option.bind_some, hreval, himval]
    rw [List.drop_eq_getElem_cons (by omega : 2 * k < samples.length),
      List.drop_eq_getElem_cons (by omega : 2 * k + 1 < samples.length),
      List.getD_eq_getElem _ _ (by omega), List.getD_eq_getElem _ _ (by omega),
      show 2 * (count + 1) = 2 * count + 1 + 1 by ring, List.take_succ_cons, List.take_succ_cons]
    rfl

section

variable {w : Nat} {prb : List (BitVec 16)}

/-- The mantissas fit in `w` bits. -/
theorem fitsWidth_div_blockExponent (hw : 2 ≤ w) {s : BitVec 16} (hs : s ∈ prb) :
    FitsWidth w (s.toInt / 2 ^ blockExponent (maxAbs prb) w) := by
  obtain ⟨hlow, hhigh⟩ := sample_bounds hs
  have hpow : (maxAbs prb : Int) < 2 ^ (w - 1) * 2 ^ blockExponent (maxAbs prb) w := by
    rw [← pow_add]
    exact_mod_cast lt_pow_blockExponent (x := maxAbs prb) hw
  have hpos : (0 : Int) < 2 ^ blockExponent (maxAbs prb) w := by positivity
  constructor
  · rw [Int.le_ediv_iff_mul_le hpos]
    linarith
  · rw [Int.ediv_lt_iff_lt_mul hpos]
    linarith

/-- **What the compressor writes is what the decompressor reads back.** -/
theorem decompressPrbGeneric_compressPrbGeneric (hlow : 8 ≤ w) (hhigh : w ≤ 16)
    (hprb : prb.length = nofSamplesPerPrb) (hmem : ∃ s ∈ prb, -32768 < s.toInt)
    {buffer : List (BitVec 8)} (hbuf : buffer.length = compressedPrbSize w) :
    ∃ out, compressPrbGeneric buffer prb w = some out ∧
      decompressPrbGeneric out w =
        some (BitVec.ofNat 8 (blockExponent (maxAbs prb) w),
          prb.map fun s => s.sshiftRight (blockExponent (maxAbs prb) w)) := by
  have hx := maxAbs_lt hmem
  have hle := blockExponent_le (w := w) hx
  have hdetermine := determineExponent_eq (w := w) hx (by omega) hhigh
  have hfits (t : BitVec 16) (ht : t ∈ prb) := fitsWidth_div_blockExponent (w := w) (by omega) ht
  set e := blockExponent (maxAbs prb) w
  have hexp : (BitVec.ofNat 8 e).toNat = e := by
    rw [BitVec.toNat_ofNat, Nat.mod_eq_of_lt (by omega)]
  have hsize : 8 * (buffer.drop 1).length = w * (prb.map fun s => s.sshiftRight e).length := by
    rw [List.length_drop, List.length_map, hbuf, hprb, compressedPrbSize, nofSamplesPerPrb]
    omega
  obtain ⟨packed, hpack, hpacked⟩ := packBytes_spec hlow hhigh hsize
  refine ⟨BitVec.ofNat 8 e :: packed, ?_, ?_⟩
  · rw [compressPrbGeneric, hdetermine]
    simp only [Option.bind_eq_bind, Option.bind_some, hexp, hpack]
    rfl
  · have hfit : ∀ s ∈ prb.map fun s => s.sshiftRight e, FitsWidth w s.toInt := by
      intro s hs
      obtain ⟨t, ht, rfl⟩ := List.mem_map.1 hs
      rw [toInt_sshiftRight_eq_div]
      exact hfits t ht
    have hread := readMantissas_spec (by omega) hhigh hpacked hfit (nofSamplesPerPrb / 2) 0
      (by rw [List.length_map, hprb]; decide)
    rw [Nat.mul_zero, Nat.mul_zero, List.drop_zero,
      List.take_of_length_le (by rw [List.length_map, hprb]; decide)] at hread
    simp [decompressPrbGeneric, hread]

/-! ## The least exponent -/

/-- `e` is the least exponent for which all mantissas fit in `w` bits. -/
def IsLeastExponent (w : Nat) (prb : List (BitVec 16)) (e : Nat) : Prop :=
  (∀ s ∈ prb, FitsWidth w (s.toInt / 2 ^ e)) ∧
    ∀ e' < e, ∃ s ∈ prb, ¬ FitsWidth w (s.toInt / 2 ^ e')

/-- Beyond a positive exponent's own bit, a magnitude is too large for every smaller one. -/
theorem not_fitsWidth_of_le {v : Int} {e e' : Nat} (hw : 2 ≤ w) (he : e' < e)
    (hv : 2 ^ (w - 2 + e) ≤ v ∨ v < -2 ^ (w - 2 + e)) : ¬ FitsWidth w (v / 2 ^ e') := by
  have hpos : (0 : Int) < 2 ^ e' := by positivity
  have hpow : (2 : Int) ^ (w - 1) * 2 ^ e' ≤ 2 ^ (w - 2 + e) := by
    rw [← pow_add]
    exact pow_le_pow_right₀ (by decide) (by omega)
  rintro ⟨hl, hr⟩
  rw [Int.le_ediv_iff_mul_le hpos] at hl
  rw [Int.ediv_lt_iff_lt_mul hpos] at hr
  rcases hv with hv | hv <;> linarith

/-- All samples are the same negative power of two, `-2 ^ k`, that needs a shift. -/
def NegPowerBlock (w : Nat) (prb : List (BitVec 16)) (k : Nat) : Prop :=
  w - 1 ≤ k ∧ k ≤ 14 ∧ ∀ s ∈ prb, s.toInt = -2 ^ k

/-- The exponent is the least one, outside the blocks of one negative power of two. -/
theorem isLeastExponent_blockExponent (hw : 2 ≤ w) (hne : prb ≠ [])
    (hmem : ∃ s ∈ prb, -32768 < s.toInt) (hblock : ∀ k, ¬ NegPowerBlock w prb k) :
    IsLeastExponent w prb (blockExponent (maxAbs prb) w) := by
  refine ⟨fun s hs => fitsWidth_div_blockExponent hw hs, fun e' he' => ?_⟩
  have hpow : (2 : Int) ^ (w - 2 + blockExponent (maxAbs prb) w) ≤ maxAbs prb := by
    exact_mod_cast pow_blockExponent_le hw (by omega : 0 < blockExponent (maxAbs prb) w)
  rcases maxAbs_attained hne with ⟨s, hs, hval⟩ | ⟨s, hs, hval⟩ | hall
  · exact ⟨s, hs, not_fitsWidth_of_le hw he' (.inl (by rw [hval]; exact hpow))⟩
  · exact ⟨s, hs, not_fitsWidth_of_le hw he' (.inr (by rw [hval]; linarith))⟩
  · -- a constant negative block: its magnitude is not the power of two itself
    obtain ⟨s, hs⟩ := List.exists_mem_of_ne_nil prb hne
    refine ⟨s, hs, not_fitsWidth_of_le hw he' (.inr ?_)⟩
    have hstrict : (2 : Int) ^ (w - 2 + blockExponent (maxAbs prb) w) ≠ maxAbs prb := by
      intro heq
      have hle := blockExponent_le (w := w) (maxAbs_lt hmem)
      exact hblock (w - 2 + blockExponent (maxAbs prb) w)
        ⟨by omega, by omega, fun t ht => by rw [hall t ht, heq]⟩
    rw [hall s hs]
    exact neg_lt_neg (lt_of_le_of_ne hpow hstrict)

theorem maxAbs_of_negPowerBlock (hne : prb ≠ []) {k : Nat} (hblock : NegPowerBlock w prb k) :
    maxAbs prb = 2 ^ k := by
  obtain ⟨⟨m, hm, hmax⟩, -⟩ := blockMax_spec hne
  obtain ⟨⟨n, hn, hmin⟩, -⟩ := blockMin_spec hne
  have hpos : (0 : Int) < 2 ^ k := by positivity
  have h1 := hblock.2.2 m hm
  have h2 := hblock.2.2 n hn
  have habs : (maxAbs prb : Int) = 2 ^ k := by
    rw [maxAbs]
    omega
  exact_mod_cast habs

/-- On a block of one negative power of two the exponent is one more than the least. -/
theorem isLeastExponent_of_negPowerBlock (hw : 2 ≤ w) (hne : prb ≠ []) {k : Nat}
    (hblock : NegPowerBlock w prb k) :
    blockExponent (maxAbs prb) w = k - (w - 1) + 1 ∧ IsLeastExponent w prb (k - (w - 1)) := by
  have hk := hblock.1
  refine ⟨?_, fun s hs => ?_, fun e' he' => ?_⟩
  · rw [maxAbs_of_negPowerBlock hne hblock, blockExponent, if_neg (by positivity),
      Nat.log2_two_pow]
    omega
  · have hdiv : (-2 ^ k : Int) / 2 ^ (k - (w - 1)) = -2 ^ (w - 1) := by
      have hsplit : (2 : Int) ^ k = 2 ^ (w - 1) * 2 ^ (k - (w - 1)) := by
        rw [← pow_add]
        congr 1
        omega
      rw [hsplit, ← neg_mul, Int.mul_ediv_cancel _ (by positivity)]
    have hpos : (0 : Int) < 2 ^ (w - 1) := by positivity
    rw [hblock.2.2 s hs, hdiv]
    exact ⟨le_refl _, by linarith⟩
  · obtain ⟨s, hs⟩ := List.exists_mem_of_ne_nil prb hne
    refine ⟨s, hs, not_fitsWidth_of_le hw he' (.inr ?_)⟩
    rw [hblock.2.2 s hs]
    exact neg_lt_neg (pow_lt_pow_right₀ (by decide) (by omega))

end

/-! ## The error bound -/

/-- **Compression and its error bound.** -/
theorem compressPrb_bounds {w : Nat} (hlow : 8 ≤ w) (hhigh : w ≤ 16) (prb : List (BitVec 16))
    (hprb : prb.length = nofSamplesPerPrb) (hmem : ∃ s ∈ prb, -32768 < s.toInt)
    (buffer : List (BitVec 8)) (hbuf : buffer.length = compressedPrbSize w) :
    ∃ out e mantissas, compressPrbGeneric buffer prb w = some out ∧
      decompressPrbGeneric out w = some (e, mantissas) ∧ e.toNat ≤ 16 - w ∧
      mantissas.length = nofSamplesPerPrb ∧
      (∀ i < nofSamplesPerPrb,
        let sample := (prb.getD i 0).toInt
        let mantissa := (mantissas.getD i 0).toInt
        mantissa = sample / 2 ^ e.toNat ∧ 0 ≤ sample - mantissa * 2 ^ e.toNat ∧
          sample - mantissa * 2 ^ e.toNat < 2 ^ e.toNat) ∧
      (∀ s ∈ prb, FitsWidth w (s.toInt / 2 ^ e.toNat)) ∧
      ((∀ k, ¬ NegPowerBlock w prb k) → IsLeastExponent w prb e.toNat) ∧
      (∀ k, NegPowerBlock w prb k →
        e.toNat = k - (w - 1) + 1 ∧ IsLeastExponent w prb (k - (w - 1))) := by
  have hne : prb ≠ [] := List.ne_nil_of_mem hmem.choose_spec.1
  obtain ⟨out, hout, hdec⟩ :=
    decompressPrbGeneric_compressPrbGeneric hlow hhigh hprb hmem hbuf
  have hle := blockExponent_le (w := w) (maxAbs_lt hmem)
  have hexp : (BitVec.ofNat 8 (blockExponent (maxAbs prb) w)).toNat =
      blockExponent (maxAbs prb) w := by
    rw [BitVec.toNat_ofNat, Nat.mod_eq_of_lt (by omega)]
  refine ⟨out, _, _, hout, hdec, by rw [hexp]; exact hle, by rw [List.length_map, hprb],
    fun i hi => ?_, fun s hs => ?_, fun hblock => ?_, fun k hblock => ?_⟩
  · have hpos : (0 : Int) < 2 ^ blockExponent (maxAbs prb) w := by positivity
    have hman : ((prb.map fun s : BitVec 16 =>
        s.sshiftRight (blockExponent (maxAbs prb) w)).getD i 0).toInt =
          (prb.getD i 0).toInt / 2 ^ blockExponent (maxAbs prb) w := by
      rw [List.getD_eq_getElem _ _ (by rw [List.length_map, hprb]; exact hi), List.getElem_map,
        toInt_sshiftRight_eq_div, List.getD_eq_getElem _ _ (by rw [hprb]; exact hi)]
    have hmod := Int.emod_add_mul_ediv (prb.getD i 0).toInt (2 ^ blockExponent (maxAbs prb) w)
    have hnonneg := Int.emod_nonneg (prb.getD i 0).toInt hpos.ne'
    have hlt := Int.emod_lt_of_pos (prb.getD i 0).toInt hpos
    simp only [hexp]
    rw [hman]
    refine ⟨rfl, ?_, ?_⟩ <;> linarith
  · rw [hexp]
    exact fitsWidth_div_blockExponent (by omega) hs
  · rw [hexp]
    exact isLeastExponent_blockExponent (by omega) hne hmem hblock
  · rw [hexp]
    exact isLeastExponent_of_negPowerBlock (by omega) hne hblock

def constantBlock : List (BitVec 16) := List.replicate 24 (BitVec.ofInt 16 (-256))

theorem constantBlock_mem : ∃ s ∈ constantBlock, -32768 < s.toInt :=
  ⟨BitVec.ofInt 16 (-256), List.mem_replicate.2 ⟨by decide, rfl⟩, by decide⟩

theorem negPowerBlock_constantBlock : NegPowerBlock 9 constantBlock 8 := by
  refine ⟨by decide, by decide, fun s hs => ?_⟩
  rw [List.eq_of_mem_replicate hs]
  decide

/-- The bounds on 24 samples `-256` at width 9: the exponent is one more than the least. -/
theorem compressPrb_bounds_constantBlock :
    constantBlock.length = nofSamplesPerPrb ∧ NegPowerBlock 9 constantBlock 8 ∧
      ∃ out e mantissas, compressPrbGeneric (List.replicate 28 0) constantBlock 9 = some out ∧
        decompressPrbGeneric out 9 = some (e, mantissas) ∧ e.toNat = 1 ∧
        IsLeastExponent 9 constantBlock 0 := by
  obtain ⟨out, e, mantissas, hout, hdec, -, -, -, -, -, hblock⟩ :=
    compressPrb_bounds (w := 9) (by decide) (by decide) constantBlock rfl constantBlock_mem
      (List.replicate 28 0) rfl
  exact ⟨rfl, negPowerBlock_constantBlock, out, e, mantissas, hout, hdec,
    hblock 8 negPowerBlock_constantBlock⟩

/-- On 24 samples `-256` at width 9 the exponent is one, though the samples fit unshifted. -/
theorem compressPrb_constantBlock_not_least :
    ∃ out mantissas, compressPrbGeneric (List.replicate 28 0) constantBlock 9 = some out ∧
      decompressPrbGeneric out 9 = some (1, mantissas) ∧ ¬ IsLeastExponent 9 constantBlock 1 := by
  obtain ⟨out, hout, hdec⟩ := decompressPrbGeneric_compressPrbGeneric (w := 9) (by decide)
    (by decide) rfl constantBlock_mem
    (rfl : (List.replicate 28 (0 : BitVec 8)).length = compressedPrbSize 9)
  have hne : constantBlock ≠ [] := List.cons_ne_nil _ _
  have hexp := (isLeastExponent_of_negPowerBlock (by decide) hne negPowerBlock_constantBlock).1
  rw [hexp] at hdec
  refine ⟨out, _, hout, hdec, fun h => ?_⟩
  obtain ⟨s, hs, hnot⟩ := h.2 0 (by decide)
  rw [List.eq_of_mem_replicate hs] at hnot
  exact hnot (by decide)

end RadioStack.Ofh
