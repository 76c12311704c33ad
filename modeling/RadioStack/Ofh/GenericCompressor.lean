import RadioStack.Lib.Outcome
import RadioStack.Ofh.PackingRoundTrip
import RadioStack.Ofh.UplaneMessage

/-!
# The generic compressors of the transmitter

`iq_compression_none_impl` and `iq_compression_bfp_impl`, from the quantised samples on, as the
compressor of a data flow. Both pack the values of a block with `pack_bytes`: the samples, or their
mantissas. Whether that succeeds depends on the values alone (`genericCompress_yields`): with eight
bits or more it always does, with fewer if the values fit and none is negative (`packs_iff`).
-/

namespace RadioStack.Ofh

open Bytes

/-- `iq_compression_none_impl::compress`. -/
def noneCompress (buffer : List (BitVec 8)) (inputQuantized : List (BitVec 16)) (dataWidth : Nat) :
    Option (List (BitVec 8)) :=
  let nofPrbs := inputQuantized.length / nofSamplesPerPrb
  let prbSize := getCompressedPrbSize ⟨.none, dataWidth⟩
  if prbSize * nofPrbs ≤ buffer.length then
    blockLoop (packBytes · · dataWidth) prbSize inputQuantized nofPrbs 0 buffer
  else none

/-- The parts of the samples, one after the other. -/
def sampleParts (iq : List (BitVec 16 × BitVec 16)) : List (BitVec 16) :=
  iq.flatMap fun x => [x.1, x.2]

/-- `iq_compressor_selector::compress`, with a buffer of the size of the blocks. -/
def genericCompress (p : RuCompressionParams) (iq : List (BitVec 16 × BitVec 16)) :
    Option (List (BitVec 8)) :=
  let buffer := List.replicate (getCompressedPrbSize p * (iq.length / nofSubcarriersPerRb)) 0
  match p.type with
  | .none => noneCompress buffer (sampleParts iq) p.dataWidth
  | .bfp => compress buffer (sampleParts iq) p.dataWidth
  -- `iq_compression_death_impl`
  | _ => none

/-- The values that are packed for a block. -/
def packedValues (p : RuCompressionParams) (prb : List (BitVec 16)) : List (BitVec 16) :=
  if p.type = .bfp then
    prb.map fun s => s.sshiftRight (genericExponent p.dataWidth prb).toNat
  else prb

/-! ## One block -/

def Packs (p : RuCompressionParams) (prb : List (BitVec 16)) : Prop :=
  ∀ s ∈ packedValues p prb, Packable p.dataWidth s

/-- A block function that fills its slot if and only if the values can be packed. -/
def FillsSlot (compressPrb : List (BitVec 8) → List (BitVec 16) → Option (List (BitVec 8)))
    (p : RuCompressionParams) : Prop :=
  ∀ slot prb, slot.length = getCompressedPrbSize p → prb.length = nofSamplesPerPrb →
    Yields (¬ Packs p prb) (fun out => Packs p prb ∧ out.length = slot.length)
      (compressPrb slot prb)

/-- Values that fit the width can be packed if it has eight bits, or if none is negative. The sign
of a mantissa is that of its sample. -/
theorem packs_iff {p : RuCompressionParams} (hlow : 1 ≤ p.dataWidth) {prb : List (BitVec 16)}
    (hfit : ∀ s ∈ packedValues p prb, FitsWidth p.dataWidth s.toInt) :
    Packs p prb ↔ 8 ≤ p.dataWidth ∨ ∀ s ∈ prb, 0 ≤ s.toInt := by
  rw [Packs, forall_packable_iff hlow hfit, packedValues]
  split
  · simp only [List.forall_mem_map, toInt_sshiftRight_eq_div]
    refine or_congr_right (forall₂_congr fun s _ => ?_)
    exact Int.ediv_nonneg_iff_of_pos (by positivity)
  · rfl

section

variable {w : Nat} (hlow : 0 < w) (hhigh : w ≤ 16)

include hlow hhigh

theorem packBytes_yields {buffer : List (BitVec 8)} {values : List (BitVec 16)}
    (hsize : (w * values.length + 7) / 8 ≤ buffer.length) :
    Yields (¬ ∀ s ∈ values, Packable w s)
      (fun out => (∀ s ∈ values, Packable w s) ∧ out.length = buffer.length)
      (packBytes buffer values w) := by
  by_cases hpack : ∀ s ∈ values, Packable w s
  · obtain ⟨out, hout, hlen, -⟩ := packBytes_bits hlow hhigh hpack hsize
    rw [hout]
    exact ⟨hpack, hlen⟩
  · rw [packBytes, packSamples_none hlow hhigh hpack buffer 0 (by omega)]
    exact hpack

theorem fillsSlot_packBytes : FillsSlot (packBytes · · w) ⟨.none, w⟩ := by
  intro slot prb hslot hprb
  refine packBytes_yields hlow hhigh ?_
  have hvalues : packedValues ⟨.none, w⟩ prb = prb := if_neg nofun
  have hsize : slot.length = (12 * 2 * w + 0 + 7) / 8 := hslot
  rw [hvalues, hprb, nofSamplesPerPrb]
  omega

theorem fillsSlot_compressPrbGeneric : FillsSlot (compressPrbGeneric · · w) ⟨.bfp, w⟩ := by
  intro slot prb hslot hprb
  have hsize : slot.length = 3 * w + 1 := hslot.trans (compressedPrbSize_eq w)
  obtain ⟨e, he⟩ : ∃ e, determineExponent (BitVec.ofNat 16 (maxAbs prb)) w = some e :=
    ⟨_, if_pos ⟨hlow.ne', hhigh⟩⟩
  have hexp : genericExponent w prb = BitVec.ofNat 8 e := by
    rw [genericExponent, he, Option.getD_some]
  have hroom : (w * (packedValues ⟨.bfp, w⟩ prb).length + 7) / 8 ≤ (slot.drop 1).length := by
    rw [packedValues, if_pos rfl, List.length_map, List.length_drop, hsize, hprb, nofSamplesPerPrb]
    omega
  have hpack := packBytes_yields hlow hhigh hroom
  simp only [compressPrbGeneric, he, Option.bind_eq_bind, Option.bind_some, ← hexp]
  rw [show prb.map (fun s => s.sshiftRight (genericExponent w prb).toNat) =
    packedValues ⟨.bfp, w⟩ prb from rfl]
  cases hout : packBytes (slot.drop 1) (packedValues ⟨.bfp, w⟩ prb) w with
  | none =>
    rw [hout] at hpack
    exact hpack
  | some out =>
    rw [hout] at hpack
    refine ⟨hpack.1, ?_⟩
    rw [List.length_cons, hpack.2, List.length_drop]
    omega

end

/-! ## All blocks -/

/-- The loop succeeds if and only if the blocks can be packed. -/
theorem blockLoop_yields {p : RuCompressionParams}
    {compressPrb : List (BitVec 8) → List (BitVec 16) → Option (List (BitVec 8))}
    (hfills : FillsSlot compressPrb p) (samples : List (BitVec 16)) {count i : Nat}
    (buffer : List (BitVec 8)) (hcount : i + count = samples.length / nofSamplesPerPrb)
    (hbuf : getCompressedPrbSize p * (samples.length / nofSamplesPerPrb) ≤ buffer.length) :
    let packs := ∀ k, i ≤ k → k < samples.length / nofSamplesPerPrb → Packs p (prbAt samples k)
    Yields (¬ packs) (fun out => packs ∧ out.length = buffer.length)
      (blockLoop compressPrb (getCompressedPrbSize p) samples count i buffer) := by
  induction count generalizing i buffer with
  | zero => exact ⟨fun k hk hlt => absurd hlt (by omega), rfl⟩
  | succ count ih =>
    have hend : i * getCompressedPrbSize p + getCompressedPrbSize p ≤ buffer.length := by
      rw [← Nat.succ_mul, Nat.mul_comm]
      exact (Nat.mul_le_mul_left _ (by omega)).trans hbuf
    have hslot : (slotAt buffer (getCompressedPrbSize p) i).length = getCompressedPrbSize p := by
      rw [slotAt, List.length_take, List.length_drop]
      omega
    have hprb : (prbAt samples i).length = nofSamplesPerPrb := length_prbAt (by omega)
    have hblock := hfills _ _ hslot hprb
    rw [blockLoop]
    cases hout : compressPrb (slotAt buffer (getCompressedPrbSize p) i) (prbAt samples i) with
    | none =>
      rw [hout] at hblock
      exact fun hpacks => hblock (hpacks i le_rfl (by omega))
    | some out =>
      rw [hout] at hblock
      obtain ⟨hfirst, hlen⟩ := hblock
      have hsplice : (splice buffer (i * getCompressedPrbSize p) out).length = buffer.length := by
        refine length_splice ?_
        rwa [hlen, hslot]
      have hpacks : (∀ k, i ≤ k → k < samples.length / nofSamplesPerPrb →
          Packs p (prbAt samples k)) ↔ ∀ k, i + 1 ≤ k →
            k < samples.length / nofSamplesPerPrb → Packs p (prbAt samples k) := by
        refine ⟨fun h k hk => h k (by omega), fun h k hk hlt => ?_⟩
        rcases Nat.eq_or_lt_of_le hk with rfl | hk
        · exact hfirst
        · exact h k hk hlt
      have hrest := ih _ (by omega : i + 1 + count = _) (hbuf.trans_eq hsplice.symm)
      rw [hsplice, ← hpacks] at hrest
      exact hrest

section

variable {iq : List (BitVec 16 × BitVec 16)}

theorem length_sampleParts : (sampleParts iq).length = 2 * iq.length := by
  simp [sampleParts, Nat.mul_comm]

theorem drop_sampleParts (n : Nat) : (sampleParts iq).drop (2 * n) = sampleParts (iq.drop n) := by
  induction n generalizing iq with
  | zero => rfl
  | succ n ih =>
    cases iq with
    | nil => rfl
    | cons x iq => exact ih

theorem take_sampleParts (n : Nat) : (sampleParts iq).take (2 * n) = sampleParts (iq.take n) := by
  induction n generalizing iq with
  | zero => rfl
  | succ n ih =>
    cases iq with
    | nil => rfl
    | cons x iq => exact congrArg (x.1 :: x.2 :: ·) ih

theorem prbAt_sampleParts (i : Nat) : prbAt (sampleParts iq) i = sampleParts (blocks iq i 1) := by
  rw [prbAt, nofSamplesPerPrb, show 24 * i = 2 * (i * 12) by omega, drop_sampleParts]
  exact take_sampleParts 12

/-- Compression succeeds if and only if all blocks can be packed. -/
theorem genericCompress_yields {p : RuCompressionParams} (hp : p.Supported) :
    let packs := ∀ k < iq.length / nofSubcarriersPerRb, Packs p (sampleParts (blocks iq k 1))
    Yields (¬ packs)
      (fun out => packs ∧
        out.length = getCompressedPrbSize p * (iq.length / nofSubcarriersPerRb))
      (genericCompress p iq) := by
  obtain ⟨type, w⟩ := p
  have hparts : (sampleParts iq).length / nofSamplesPerPrb = iq.length / nofSubcarriersPerRb := by
    rw [length_sampleParts, nofSamplesPerPrb, nofSubcarriersPerRb]
    omega
  have hloop {compressPrb : List (BitVec 8) → List (BitVec 16) → Option (List (BitVec 8))}
      (hfills : FillsSlot compressPrb ⟨type, w⟩) :=
    blockLoop_yields hfills (sampleParts iq) (i := 0)
      (List.replicate (getCompressedPrbSize ⟨type, w⟩ * (iq.length / nofSubcarriersPerRb)) 0)
      (Nat.zero_add _) (by rw [List.length_replicate, hparts])
  simp only [Nat.zero_le, forall_const, hparts, prbAt_sampleParts, List.length_replicate] at hloop
  rcases hp.type_eq with rfl | rfl
  · simp only [genericCompress, noneCompress, hparts, List.length_replicate, le_refl, if_true]
    exact hloop (fillsSlot_packBytes hp.width_pos hp.width_le)
  · have hsize : compressedPrbSize w = getCompressedPrbSize ⟨.bfp, w⟩ := rfl
    simp only [genericCompress, compress, compressLoop, hparts, List.length_replicate, hsize,
      le_refl, if_true]
    exact hloop (fillsSlot_compressPrbGeneric hp.width_pos hp.width_le)

theorem isSome_genericCompress_block {p : RuCompressionParams} (hp : p.Supported) {i : Nat}
    (hi : i < iq.length / nofSubcarriersPerRb) :
    (genericCompress p (blocks iq i 1)).isSome ↔ Packs p (sampleParts (blocks iq i 1)) := by
  have hlen := length_blocks (show i + 1 ≤ iq.length / nofSubcarriersPerRb from hi)
  have hself : blocks (blocks iq i 1) 0 1 = blocks iq i 1 := by
    rw [blocks, Nat.zero_mul, List.drop_zero, List.take_of_length_le hlen.le]
  rw [(genericCompress_yields hp).isSome_iff, hlen, Nat.mul_div_cancel _ (by decide)]
  simp [hself]

end

/-- The generic compressors. -/
def genericCompressor : IqCompressor (BitVec 16 × BitVec 16) where
  compress p iq := (genericCompress p iq).map (·.map UInt8.ofBitVec)
  isSome_compress p iq hp := by
    simp only [Option.isSome_map]
    rw [(genericCompress_yields hp).isSome_iff]
    exact forall₂_congr fun i hi => (isSome_genericCompress_block hp hi).symm
  length_compress p iq out hp hout := by
    obtain ⟨bytes, hbytes, rfl⟩ := Option.map_eq_some_iff.1 hout
    rw [List.length_map, ((genericCompress_yields hp).of_some hbytes).2]

end RadioStack.Ofh
