import RadioStack.Lib.Bytes
import RadioStack.Ofh.Bfp

/-!
# Block floating point, a whole buffer

`iq_compression_bfp_impl::compress` on quantised samples: the blocks of 24 samples are compressed
one after the other, each into its own slot of the output buffer. What a slot held before does
not matter (`compressPrbGeneric_eq`), so the result is the concatenation of the encoded blocks,
followed by the part of the buffer behind them (`compress_eq`).
-/

namespace RadioStack.Ofh

open Bytes

/-! ## One block -/

/-- A block with exponent `e`: the exponent and the packed mantissas. -/
def encodePrb (w : Nat) (e : BitVec 8) (prb : List (BitVec 16)) : List (BitVec 8) :=
  e :: (packBytes (List.replicate (3 * w) 0) (prb.map fun s => s.sshiftRight e.toNat) w).getD []

def genericExponent (w : Nat) (prb : List (BitVec 16)) : BitVec 8 :=
  BitVec.ofNat 8 ((determineExponent (BitVec.ofNat 16 (maxAbs prb)) w).getD 0)

theorem genericExponent_of_le {w : Nat} {prb : List (BitVec 16)} (hlow : 0 < w) (hhigh : w ≤ 16)
    (hne : prb ≠ []) (hx : 2 ^ 15 ≤ maxAbs prb) : (genericExponent w prb).toNat = 0 := by
  have hle := maxAbs_le hne
  rw [genericExponent, determineExponent_of_msb hx (by omega) hlow hhigh]
  rfl

theorem toNat_genericExponent {w : Nat} {prb : List (BitVec 16)} (hlow : 0 < w) (hhigh : w ≤ 16)
    (hx : maxAbs prb < 2 ^ 15) : (genericExponent w prb).toNat = blockExponent (maxAbs prb) w := by
  have hle := blockExponent_le (w := w) hx
  rw [genericExponent, determineExponent_eq hx hlow hhigh, Option.getD_some, BitVec.toNat_ofNat,
    Nat.mod_eq_of_lt (by omega)]

theorem determineExponent_eq_some {w : Nat} (hlow : 8 ≤ w) (hhigh : w ≤ 16) (x : BitVec 16) :
    determineExponent x w = some ((determineExponent x w).getD 0) := by
  rw [determineExponent, if_pos ⟨by omega, hhigh⟩]
  rfl

section

variable {w : Nat} (hlow : 8 ≤ w) (hhigh : w ≤ 16) {prb : List (BitVec 16)}
  (hprb : prb.length = nofSamplesPerPrb)

theorem compressedPrbSize_eq (w : Nat) : compressedPrbSize w = 3 * w + 1 := by
  rw [compressedPrbSize, nofSamplesPerPrb]
  omega

include hlow hhigh hprb in
theorem isPacked_encodePrb (e : BitVec 8) :
    ∃ packed, encodePrb w e prb = e :: packed ∧
      IsPacked w (prb.map fun s => s.sshiftRight e.toNat) packed := by
  have hsize : 8 * (List.replicate (3 * w) (0 : BitVec 8)).length =
      w * (prb.map fun s => s.sshiftRight e.toNat).length := by
    rw [List.length_replicate, List.length_map, hprb, nofSamplesPerPrb]
    omega
  obtain ⟨packed, hpack, hpacked⟩ := packBytes_spec hlow hhigh hsize
  exact ⟨packed, by rw [encodePrb, hpack, Option.getD_some], hpacked⟩

include hlow hhigh hprb in
theorem length_encodePrb (e : BitVec 8) : (encodePrb w e prb).length = compressedPrbSize w := by
  obtain ⟨packed, heq, hpacked⟩ := isPacked_encodePrb hlow hhigh hprb e
  have hlen := hpacked.1
  rw [List.length_map, hprb, nofSamplesPerPrb] at hlen
  rw [heq, List.length_cons, compressedPrbSize_eq]
  omega

include hlow hhigh hprb in
/-- Packed mantissas after their exponent are the encoded block. -/
theorem eq_encodePrb {e : BitVec 8} {packed : List (BitVec 8)}
    (hpacked : IsPacked w (prb.map fun s => s.sshiftRight e.toNat) packed) :
    e :: packed = encodePrb w e prb := by
  obtain ⟨packed', heq, hpacked'⟩ := isPacked_encodePrb hlow hhigh hprb e
  rw [heq, hpacked.unique hpacked']

include hlow hhigh hprb in
/-- **The generic implementation writes the encoded block.** -/
theorem compressPrbGeneric_eq {buffer : List (BitVec 8)}
    (hbuf : buffer.length = compressedPrbSize w) :
    compressPrbGeneric buffer prb w = some (encodePrb w (genericExponent w prb) prb) := by
  have hsize : 8 * (buffer.drop 1).length =
      w * (prb.map fun s => s.sshiftRight (genericExponent w prb).toNat).length := by
    rw [List.length_drop, List.length_map, hbuf, hprb, compressedPrbSize, nofSamplesPerPrb]
    omega
  obtain ⟨packed, hpack, hpacked⟩ := packBytes_spec hlow hhigh hsize
  rw [compressPrbGeneric, determineExponent_eq_some hlow hhigh, ← eq_encodePrb hlow hhigh hprb
    hpacked]
  simp only [Option.bind_eq_bind, Option.bind_some]
  rw [← genericExponent, hpack]
  rfl

end

/-! ## All blocks -/

def prbAt (samples : List (BitVec 16)) (i : Nat) : List (BitVec 16) :=
  (samples.drop (nofSamplesPerPrb * i)).take nofSamplesPerPrb

def slotAt (buffer : List (BitVec 8)) (prbSize i : Nat) : List (BitVec 8) :=
  (buffer.drop (i * prbSize)).take prbSize

/-- The block loop of the generic compressors: `count` blocks from block `i` on. -/
def blockLoop (compressPrb : List (BitVec 8) → List (BitVec 16) → Option (List (BitVec 8)))
    (prbSize : Nat) (inputQuantized : List (BitVec 16)) :
    Nat → Nat → List (BitVec 8) → Option (List (BitVec 8))
  | 0, _, buffer => some buffer
  | count + 1, i, buffer => do
    let out ← compressPrb (slotAt buffer prbSize i) (prbAt inputQuantized i)
    blockLoop compressPrb prbSize inputQuantized count (i + 1) (splice buffer (i * prbSize) out)

def compressLoop (inputQuantized : List (BitVec 16)) (dataWidth : Nat) :
    Nat → Nat → List (BitVec 8) → Option (List (BitVec 8)) :=
  blockLoop (compressPrbGeneric · · dataWidth) (compressedPrbSize dataWidth) inputQuantized

/-- `iq_compression_bfp_impl::compress`, from the quantised samples on. -/
def compress (buffer : List (BitVec 8)) (inputQuantized : List (BitVec 16)) (dataWidth : Nat) :
    Option (List (BitVec 8)) :=
  let nofPrbs := inputQuantized.length / nofSamplesPerPrb
  if compressedPrbSize dataWidth * nofPrbs ≤ buffer.length then
    compressLoop inputQuantized dataWidth nofPrbs 0 buffer
  else none

/-- The blocks before `i`, encoded with the exponents that `exponent` gives. -/
def encodedPrbs (samples : List (BitVec 16)) (w : Nat) (exponent : Nat → BitVec 8) (i : Nat) :
    List (BitVec 8) :=
  (List.range i).flatMap fun k => encodePrb w (exponent k) (prbAt samples k)

/-- The buffer after the blocks before `i` are written. -/
def writtenTo (buffer : List (BitVec 8)) (samples : List (BitVec 16)) (w : Nat)
    (exponent : Nat → BitVec 8) (i : Nat) : List (BitVec 8) :=
  encodedPrbs samples w exponent i ++ buffer.drop (i * compressedPrbSize w)

section

variable {w : Nat} (hlow : 8 ≤ w) (hhigh : w ≤ 16) {samples : List (BitVec 16)}
  {buffer : List (BitVec 8)} {i : Nat}

theorem length_prbAt (hi : i < samples.length / nofSamplesPerPrb) :
    (prbAt samples i).length = nofSamplesPerPrb := by
  simp only [nofSamplesPerPrb] at hi
  simp only [prbAt, List.length_take, List.length_drop, nofSamplesPerPrb]
  omega

theorem prbAt_ne_nil (hi : i < samples.length / nofSamplesPerPrb) :
    prbAt samples i ≠ [] := by
  intro hnil
  have hlen := length_prbAt hi
  rw [hnil] at hlen
  exact absurd hlen (by decide)

theorem getD_prbAt {i k : Nat} (hk : k < nofSamplesPerPrb) :
    (prbAt samples i).getD k 0 = samples.getD (24 * i + k) 0 := by
  rw [prbAt, List.getD_eq_getElem?_getD, List.getElem?_take_of_lt hk, List.getElem?_drop,
    ← List.getD_eq_getElem?_getD, nofSamplesPerPrb]

include hlow hhigh in
theorem length_encodedPrbs (exponent : Nat → BitVec 8)
    (hi : i ≤ samples.length / nofSamplesPerPrb) :
    (encodedPrbs samples w exponent i).length = i * compressedPrbSize w :=
  length_flatMap_range i fun k hk =>
    length_encodePrb hlow hhigh (length_prbAt (by omega)) (exponent k)

include hlow hhigh in
theorem length_slotAt (exponent : Nat → BitVec 8) {i j : Nat} (hij : i ≤ j)
    (hj : j < samples.length / nofSamplesPerPrb)
    (hbuf : compressedPrbSize w * (samples.length / nofSamplesPerPrb) ≤ buffer.length) :
    (slotAt (writtenTo buffer samples w exponent i) (compressedPrbSize w) j).length =
      compressedPrbSize w := by
  have hlen : (encodedPrbs samples w exponent i).length = i * compressedPrbSize w :=
    length_encodedPrbs hlow hhigh exponent (by omega)
  have hmul : (j + 1) * compressedPrbSize w ≤ buffer.length := by
    refine le_trans ?_ hbuf
    rw [Nat.mul_comm]
    exact Nat.mul_le_mul_left _ hj
  rw [Nat.succ_mul] at hmul
  rw [slotAt, writtenTo, List.length_take, List.length_drop, List.length_append, hlen,
    List.length_drop]
  omega

include hlow hhigh in
/-- Writing the next block into its slot extends the encoded blocks. -/
theorem splice_writtenTo (exponent : Nat → BitVec 8) (hi : i < samples.length / nofSamplesPerPrb) :
    splice (writtenTo buffer samples w exponent i) (i * compressedPrbSize w)
      (encodePrb w (exponent i) (prbAt samples i)) =
        writtenTo buffer samples w exponent (i + 1) := by
  rw [writtenTo, splice_append _ _ _ (length_encodedPrbs hlow hhigh exponent (by omega)),
    length_encodePrb hlow hhigh (length_prbAt hi), List.drop_drop, writtenTo, encodedPrbs,
    encodedPrbs, List.range_succ, List.flatMap_append, List.flatMap_singleton, Nat.succ_mul]

include hlow hhigh in
/-- The generic loop, from any number of blocks already written. -/
theorem compressLoop_eq (exponent : Nat → BitVec 8)
    (hbuf : compressedPrbSize w * (samples.length / nofSamplesPerPrb) ≤ buffer.length) :
    ∀ count i, i + count = samples.length / nofSamplesPerPrb →
      (∀ k, i ≤ k → exponent k = genericExponent w (prbAt samples k)) →
      compressLoop samples w count i (writtenTo buffer samples w exponent i) =
        some (writtenTo buffer samples w exponent (samples.length / nofSamplesPerPrb))
  | 0, i, hi, _ => by
    rw [compressLoop, blockLoop, ← hi, Nat.add_zero]
  | count + 1, i, hi, hexp => by
    have hprb := length_prbAt (by omega : i < samples.length / nofSamplesPerPrb)
    have hslot := length_slotAt hlow hhigh exponent (le_refl i) (by omega) hbuf
    have hstep := compressLoop_eq exponent hbuf count (i + 1) (by omega)
      fun k hk => hexp k (by omega)
    rw [compressLoop, blockLoop]
    simp only [compressPrbGeneric_eq hlow hhigh hprb hslot, Option.bind_eq_bind, Option.bind_some]
    rw [← hexp i (le_refl i), splice_writtenTo hlow hhigh exponent (by omega)]
    exact hstep

include hlow hhigh in
/-- **The generic implementation writes the encoded blocks one after the other.** -/
theorem compress_eq
    (hbuf : compressedPrbSize w * (samples.length / nofSamplesPerPrb) ≤ buffer.length) :
    compress buffer samples w =
      some (writtenTo buffer samples w (fun i => genericExponent w (prbAt samples i))
        (samples.length / nofSamplesPerPrb)) := by
  have hstart : writtenTo buffer samples w (fun i => genericExponent w (prbAt samples i)) 0 =
      buffer := by
    simp [writtenTo, encodedPrbs]
  have hloop := compressLoop_eq hlow hhigh (fun i => genericExponent w (prbAt samples i)) hbuf
    (samples.length / nofSamplesPerPrb) 0 (by omega) fun k _ => rfl
  rw [hstart] at hloop
  rw [compress, if_pos hbuf, hloop]

include hlow hhigh in
/-- Two sets of exponents give the same buffer when they agree on every block. -/
theorem writtenTo_inj {e f : Nat → BitVec 8} {n : Nat}
    (hn : n ≤ samples.length / nofSamplesPerPrb) :
    writtenTo buffer samples w e n = writtenTo buffer samples w f n ↔ ∀ i < n, e i = f i := by
  have hsize : ∀ g : Nat → BitVec 8, ∀ i < n,
      (encodePrb w (g i) (prbAt samples i)).length = compressedPrbSize w :=
    fun g i hi => length_encodePrb hlow hhigh (length_prbAt (by omega)) (g i)
  rw [writtenTo, writtenTo, List.append_left_inj, encodedPrbs, encodedPrbs,
    flatMap_range_inj n (hsize e) (hsize f)]
  refine forall₂_congr fun i _ => ⟨fun h => ?_, fun h => by rw [h]⟩
  exact (List.cons.inj h).1

include hlow hhigh in
/-- Each block is found in its slot. -/
theorem slotAt_writtenTo (exponent : Nat → BitVec 8) {n : Nat} (hi : i < n)
    (hn : n ≤ samples.length / nofSamplesPerPrb) :
    slotAt (writtenTo buffer samples w exponent n) (compressedPrbSize w) i =
      encodePrb w (exponent i) (prbAt samples i) := by
  obtain ⟨k, rfl⟩ := Nat.exists_eq_add_of_lt hi
  have hbefore : (encodedPrbs samples w exponent i).length = i * compressedPrbSize w :=
    length_encodedPrbs hlow hhigh exponent (by omega)
  have hprb : (prbAt samples i).length = nofSamplesPerPrb := length_prbAt (by omega)
  rw [slotAt, writtenTo, encodedPrbs, Nat.add_assoc, List.range_add, List.flatMap_append,
    List.append_assoc, ← encodedPrbs, List.drop_left' hbefore, List.range_succ_eq_map]
  simp only [List.map_cons, List.flatMap_cons, Nat.add_zero, List.append_assoc]
  exact List.take_left' (length_encodePrb hlow hhigh hprb (exponent i))

include hlow hhigh in
/-- **The compressed buffer can be read block by block**: the slot of every block with a sample
above `-32768` gives its samples, shifted by an exponent of at most `16 - w`. -/
theorem decompressPrbGeneric_slotAt (samples : List (BitVec 16)) (buffer : List (BitVec 8))
    (hbuf : compressedPrbSize w * (samples.length / nofSamplesPerPrb) ≤ buffer.length) :
    ∃ out, compress buffer samples w = some out ∧
      ∀ i < samples.length / nofSamplesPerPrb, (∃ s ∈ prbAt samples i, -32768 < s.toInt) →
        ∃ e : BitVec 8, e.toNat ≤ 16 - w ∧
          decompressPrbGeneric (slotAt out (compressedPrbSize w) i) w =
            some (e, (prbAt samples i).map fun s => s.sshiftRight e.toNat) := by
  refine ⟨_, compress_eq hlow hhigh hbuf, fun i hi hmem => ?_⟩
  have hprb := length_prbAt hi
  obtain ⟨out, hout, hdec⟩ := decompressPrbGeneric_compressPrbGeneric hlow hhigh hprb hmem
    (List.length_replicate (a := (0 : BitVec 8)))
  rw [compressPrbGeneric_eq hlow hhigh hprb List.length_replicate] at hout
  have hx := maxAbs_lt hmem
  have hexp := toNat_genericExponent (by omega : 0 < w) hhigh hx
  refine ⟨genericExponent w (prbAt samples i), hexp ▸ blockExponent_le hx, ?_⟩
  rw [slotAt_writtenTo hlow hhigh _ hi le_rfl, Option.some.inj hout, hdec, hexp, genericExponent,
    determineExponent_eq hx (by omega) hhigh, Option.getD_some]

theorem decompressPrbGeneric_slotAt_ones :
    ∃ out, compress (List.replicate 56 0) (List.replicate 48 1) 9 = some out ∧
      ∃ e : BitVec 8, decompressPrbGeneric (slotAt out (compressedPrbSize 9) 1) 9 =
        some (e, (prbAt (List.replicate 48 1) 1).map fun s => s.sshiftRight e.toNat) := by
  obtain ⟨out, hout, hall⟩ := decompressPrbGeneric_slotAt (by decide : 8 ≤ 9) (by decide)
    (List.replicate 48 1) (List.replicate 56 0) (by decide)
  obtain ⟨e, -, hdec⟩ := hall 1 (by decide) ⟨1, by decide, by decide⟩
  exact ⟨out, hout, e, hdec⟩

end

end RadioStack.Ofh
