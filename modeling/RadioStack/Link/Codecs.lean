import RadioStack.Lib.Bytes
import Mathlib.Tactic.IntervalCases

/-!
# The codecs of the dynamic-compression link

The sender turns a byte buffer into brain-float IQ samples (`iq_conv`) and then applies one of
four codecs to them; the receiver undoes both. This file models the conversions and the codecs
of `lib/d_compression` and proves that each decoder inverts its encoder.

A float is its 32-bit pattern and a brain float its 16-bit pattern: the code only copies these
values, shifts them and rounds them with integer arithmetic. Code that would read past the end
of a vector, or build a vector from a reversed iterator range, returns `none`.

zlib is not part of the repository. It is a parameter `Zlib`, and `Zlib.Lawful` states what its
documentation promises.
-/

namespace RadioStack.Link

open Bytes

/-! ## Brain floats -/

/-- A brain float, as its bit pattern. -/
abbrev Bf16 := UInt16

/-- A complex sample of two brain floats. -/
structure Cbf16 where
  real : Bf16
  imag : Bf16
deriving DecidableEq, Repr

/-- Rounds a float to the nearest brain float, ties to even. -/
def toBf16 (value : UInt32) : Bf16 :=
  ((value + ((0x7fff : UInt32) + ((value >>> 16) &&& 1))) >>> 16).toUInt16

def toFloat (value : Bf16) : UInt32 := value.toUInt32 <<< 16

/-- The rounding term never carries out of the sixteen bits that are dropped. -/
@[simp] theorem toBf16_toFloat (v : Bf16) : toBf16 (toFloat v) = v := by
  apply UInt16.toNat.inj
  have hv := v.toNat_lt
  have hf : (toFloat v).toNat = v.toNat * 65536 := by
    simp [toFloat, UInt32.toNat_shiftLeft, Nat.shiftLeft_eq]
    omega
  simp only [toBf16, UInt32.toNat_toUInt16, UInt32.toNat_shiftRight, UInt32.toNat_add,
    UInt32.toNat_and, hf, Nat.shiftRight_eq_div_pow]
  simp [Nat.and_one_is_mod]
  have hbit : v.toNat % 2 < 2 := Nat.mod_lt _ (by decide)
  generalize v.toNat % 2 = bit at hbit
  omega

/-! ## Bytes to samples and back -/

/-- The brain float whose high byte is `b`. -/
def sampleOfByte (b : UInt8) : Bf16 := b.toUInt16 <<< 8

def byteOfSample (v : Bf16) : UInt8 := (v >>> 8).toUInt8

@[simp] theorem byteOfSample_sampleOfByte (b : UInt8) : byteOfSample (sampleOfByte b) = b := by
  apply UInt8.toNat.inj
  have hb := b.toNat_lt
  simp [byteOfSample, sampleOfByte, UInt16.toNat_shiftLeft, Nat.shiftLeft_eq,
    Nat.shiftRight_eq_div_pow]
  omega

/-- The pairing loop: two bytes make a sample, a byte left over makes none. -/
def pairSamples : List UInt8 → List Cbf16
  | i :: q :: rest => ⟨sampleOfByte i, sampleOfByte q⟩ :: pairSamples rest
  | _ => []

section

variable (input : List UInt8)

/-- `iq_conv::to_iq`: the number of blank bytes and the samples. -/
def toIq : Nat × List Cbf16 :=
  if input.length % 2 = 1 then
    (1, pairSamples input ++ [⟨sampleOfByte (input.getD (input.length - 1) 0), 0⟩])
  else (0, pairSamples input)

/-- The two high bytes of every sample. -/
def sampleBytes (input : List Cbf16) : List UInt8 :=
  input.flatMap fun iq => [byteOfSample iq.real, byteOfSample iq.imag]

/-- `iq_conv::from_iq`. Dropping more bytes than there are wraps the new size around and
throws. -/
def fromIq (input : List Cbf16) (blankBytes : Nat) : Option (List UInt8) :=
  if blankBytes ≤ (sampleBytes input).length then
    some ((sampleBytes input).take ((sampleBytes input).length - blankBytes))
  else none

@[simp] theorem sampleBytes_append (xs ys : List Cbf16) :
    sampleBytes (xs ++ ys) = sampleBytes xs ++ sampleBytes ys := by
  simp [sampleBytes]

@[simp] theorem length_sampleBytes (xs : List Cbf16) :
    (sampleBytes xs).length = 2 * xs.length := by
  simp [sampleBytes, Nat.mul_comm]

/-- Pairing the bytes and reading them back gives all bytes but an odd last one. -/
theorem sampleBytes_pairSamples : ∀ input : List UInt8,
    sampleBytes (pairSamples input) = input.take (2 * (input.length / 2))
  | [] => rfl
  | [_] => by simp [pairSamples, sampleBytes]
  | i :: q :: rest => by
    have hlen : 2 * ((i :: q :: rest).length / 2) = 2 * (rest.length / 2) + 2 := by
      simp; omega
    rw [hlen, pairSamples]
    simpa [sampleBytes] using sampleBytes_pairSamples rest

theorem length_pairSamples :
    (pairSamples input).length = input.length / 2 := by
  have h := congrArg List.length (sampleBytes_pairSamples input)
  simp at h
  omega

theorem length_toIq :
    (toIq input).2.length = (input.length + 1) / 2 := by
  unfold toIq
  split <;> simp [length_pairSamples] <;> omega

theorem blank_le_one : (toIq input).1 ≤ 1 := by
  unfold toIq
  split <;> simp

/-- The bytes of the samples are the buffer, followed by the blank bytes. -/
theorem take_sampleBytes_toIq :
    (sampleBytes (toIq input).2).take ((sampleBytes (toIq input).2).length - (toIq input).1) =
      input := by
  unfold toIq
  split
  · rename_i hodd
    have hne : input ≠ [] := by rintro rfl; simp at hodd
    have hlast : input.getD (input.length - 1) 0 = input.getLast hne := by
      rw [List.getD_eq_getElem?_getD, List.getElem?_eq_getElem (by omega), Option.getD_some,
        List.getLast_eq_getElem]
    have hcut : 2 * (input.length / 2) = input.length - 1 := by omega
    have hbytes : sampleBytes (pairSamples input ++
        [⟨sampleOfByte (input.getD (input.length - 1) 0), 0⟩]) = input ++ [0] := by
      have htwo : sampleBytes [⟨sampleOfByte (input.getD (input.length - 1) 0), 0⟩] =
          [input.getLast hne, 0] := by
        rw [hlast]
        simp [sampleBytes]
        decide
      rw [sampleBytes_append, sampleBytes_pairSamples, htwo, hcut, ← List.dropLast_eq_take]
      conv_rhs => rw [← List.dropLast_append_getLast hne]
      simp
    simp only [hbytes]
    simp
  · have hcut : 2 * (input.length / 2) = input.length := by omega
    simp only [sampleBytes_pairSamples, hcut]
    simp

/-- **`from_iq` inverts `to_iq`** when it is given the number of blank bytes. -/
theorem fromIq_toIq :
    fromIq (toIq input).2 (toIq input).1 = some input := by
  have hle : (toIq input).1 ≤ (sampleBytes (toIq input).2).length := by
    rw [length_sampleBytes, length_toIq]
    unfold toIq
    split <;> simp
    omega
  rw [fromIq, if_pos hle, take_sampleBytes_toIq]

end

/-! ## Samples as floats in memory -/

/-- `iq_conv::serialize`: both floats of every sample, byte by byte. -/
def serialize (input : List Cbf16) : List UInt8 :=
  input.flatMap fun val => leBytes 4 (toFloat val.real).toNat ++ leBytes 4 (toFloat val.imag).toNat

/-- The float stored in four bytes. -/
def floatOfBytes (bs : List UInt8) : UInt32 := UInt32.ofNat (leValue bs)

/-- `iq_conv::deserialize`. A last group of fewer than eight bytes makes `memcpy` read past the
end of the vector. -/
def deserialize : List UInt8 → Option (List Cbf16)
  | [] => some []
  | i0 :: i1 :: i2 :: i3 :: q0 :: q1 :: q2 :: q3 :: rest =>
    (deserialize rest).map fun out =>
      ⟨toBf16 (floatOfBytes [i0, i1, i2, i3]), toBf16 (floatOfBytes [q0, q1, q2, q3])⟩ :: out
  | _ => none

theorem length_serialize (xs : List Cbf16) : (serialize xs).length = 8 * xs.length := by
  simp [serialize, Nat.mul_comm]

theorem floatOfBytes_leBytes (f : UInt32) : floatOfBytes (leBytes 4 f.toNat) = f := by
  rw [floatOfBytes, leValue_leBytes_of_lt (by simpa using f.toNat_lt), UInt32.ofNat_toNat]

theorem deserialize_append_floats (i q : UInt32) (rest : List UInt8) :
    deserialize (leBytes 4 i.toNat ++ leBytes 4 q.toNat ++ rest) =
      (deserialize rest).map fun out => ⟨toBf16 i, toBf16 q⟩ :: out := by
  have hi := floatOfBytes_leBytes i
  have hq := floatOfBytes_leBytes q
  simp only [leBytes] at hi hq
  simp only [leBytes, List.cons_append, List.nil_append, deserialize, hi, hq]

/-- **`deserialize` inverts `serialize`**: the rounding back to brain floats is exact. -/
theorem deserialize_serialize (xs : List Cbf16) : deserialize (serialize xs) = some xs := by
  induction xs with
  | nil => rfl
  | cons x xs ih =>
    have hcons : serialize (x :: xs) =
        leBytes 4 (toFloat x.real).toNat ++ leBytes 4 (toFloat x.imag).toNat ++ serialize xs := by
      simp [serialize]
    rw [hcons, deserialize_append_floats, ih]
    simp

/-! ## Block floating point -/

/-- Samples in one block of `bfp_compressor`. -/
def nofSamplesPerPrb : Nat := 100

/-- `bfp_compressor::compress_prb_generic`: the high byte of each component. -/
def compressPrbGeneric (input : List Cbf16) : List UInt8 :=
  input.flatMap fun iq => [byteOfSample iq.real, byteOfSample iq.imag]

/-- The iterator range of block `i`, with the code's 32-bit index arithmetic. A range whose end
lies before its start makes the vector constructor throw. -/
def prbRange (input : List Cbf16) (i : Nat) : Option (List Cbf16) :=
  let first := nofSamplesPerPrb * i % 2 ^ 32
  let next := nofSamplesPerPrb * (i + 1) % 2 ^ 32
  let last := if input.length ≤ next then input.length else next
  if first ≤ last then some ((input.take last).drop first) else none

/-- The block loop of `bfp_compressor::compress`: `count` blocks from block `i` on. -/
def bfpLoop (input : List Cbf16) : Nat → Nat → Option (List UInt8)
  | 0, _ => some []
  | count + 1, i => do
    let inter ← prbRange input i
    let rest ← bfpLoop input count (i + 1)
    return compressPrbGeneric inter ++ rest

def bfpCompress (input : List Cbf16) : Option (List UInt8) :=
  bfpLoop input (input.length / nofSamplesPerPrb + 1) 0

def bfpDecompress : List UInt8 → List Cbf16
  | i :: q :: rest => ⟨sampleOfByte i, sampleOfByte q⟩ :: bfpDecompress rest
  | _ => []

/-- The block indices of an input of `n` samples stay below `2 ^ 32`. -/
def PrbIndexFits (n : Nat) : Prop :=
  nofSamplesPerPrb * (n / nofSamplesPerPrb + 1) < 2 ^ 32

variable {input : List Cbf16}

theorem prbRange_eq {i : Nat} (hfit : PrbIndexFits input.length)
    (hi : i ≤ input.length / nofSamplesPerPrb) :
    prbRange input i =
      some ((input.drop (nofSamplesPerPrb * i)).take nofSamplesPerPrb) := by
  unfold PrbIndexFits at hfit
  simp only [nofSamplesPerPrb] at hfit hi ⊢
  have hnext : 100 * (i + 1) % 2 ^ 32 = 100 * (i + 1) := Nat.mod_eq_of_lt (by omega)
  have hfirst : 100 * i % 2 ^ 32 = 100 * i := Nat.mod_eq_of_lt (by omega)
  simp only [prbRange, nofSamplesPerPrb, hnext, hfirst]
  split
  · rw [if_pos (by omega), List.take_length, List.take_of_length_le (by simp; omega)]
  · have hwidth : 100 * (i + 1) - 100 * i = 100 := by omega
    rw [if_pos (by omega), List.drop_take, hwidth]

theorem bfpLoop_eq (hfit : PrbIndexFits input.length) :
    ∀ count i, i + count = input.length / nofSamplesPerPrb + 1 →
      bfpLoop input count i = some (sampleBytes (input.drop (nofSamplesPerPrb * i)))
  | 0, i, hi => by
    have hend : input.length ≤ nofSamplesPerPrb * i := by
      simp only [nofSamplesPerPrb] at hi ⊢
      omega
    rw [bfpLoop, List.drop_eq_nil_of_le hend]
    rfl
  | count + 1, i, hi => by
    have hstep := bfpLoop_eq hfit count (i + 1) (by omega)
    have hsplit : input.drop (nofSamplesPerPrb * i) =
        (input.drop (nofSamplesPerPrb * i)).take nofSamplesPerPrb ++
          input.drop (nofSamplesPerPrb * (i + 1)) := by
      rw [Nat.mul_add, Nat.mul_one, ← List.drop_drop, List.take_append_drop]
    rw [bfpLoop, prbRange_eq hfit (by omega), hstep]
    conv_rhs => rw [hsplit, sampleBytes_append]
    rfl

/-- **The blocks cover every sample once**, also when the last block is empty. -/
theorem bfpCompress_eq (hfit : PrbIndexFits input.length) :
    bfpCompress input = some (sampleBytes input) := by
  rw [bfpCompress, bfpLoop_eq hfit _ _ (by omega)]
  simp

theorem bfpDecompress_eq_pairSamples :
    ∀ input : List UInt8, bfpDecompress input = pairSamples input
  | [] => rfl
  | [_] => rfl
  | i :: q :: rest => by rw [bfpDecompress, pairSamples, bfpDecompress_eq_pairSamples rest]

theorem pairSamples_sampleBytes {xs : List Cbf16}
    (h : ∀ x ∈ xs, (∃ b, x.real = sampleOfByte b) ∧ ∃ b, x.imag = sampleOfByte b) :
    pairSamples (sampleBytes xs) = xs := by
  induction xs with
  | nil => rfl
  | cons x xs ih =>
    obtain ⟨⟨b, hb⟩, ⟨c, hc⟩⟩ := h x (by simp)
    have ih' := ih fun y hy => h y (by simp [hy])
    have hcons : sampleBytes (x :: xs) =
        byteOfSample x.real :: byteOfSample x.imag :: sampleBytes xs := by
      simp [sampleBytes]
    rw [hcons, pairSamples, ih', hb, hc, byteOfSample_sampleOfByte, byteOfSample_sampleOfByte]
    cases x
    simp_all

theorem pairSamples_low_zero : ∀ input : List UInt8, ∀ x ∈ pairSamples input,
    (∃ b, x.real = sampleOfByte b) ∧ ∃ b, x.imag = sampleOfByte b
  | [] => nofun
  | [_] => nofun
  | i :: q :: rest =>
    List.forall_mem_cons.2 ⟨⟨⟨i, rfl⟩, ⟨q, rfl⟩⟩, pairSamples_low_zero rest⟩

theorem toIq_low_zero (input : List UInt8) :
    ∀ x ∈ (toIq input).2, (∃ b, x.real = sampleOfByte b) ∧ ∃ b, x.imag = sampleOfByte b := by
  have hpair := pairSamples_low_zero input
  intro x hx
  unfold toIq at hx
  split at hx
  · rcases List.mem_append.1 hx with hx | hx
    · exact hpair x hx
    · rw [List.mem_singleton.1 hx]
      exact ⟨⟨_, rfl⟩, ⟨0, rfl⟩⟩
  · exact hpair x hx

/-- **Block floating point loses nothing on samples made by `to_iq`.** -/
theorem bfp_roundTrip {input : List UInt8} (hfit : PrbIndexFits (toIq input).2.length) :
    (bfpCompress (toIq input).2).map bfpDecompress = some (toIq input).2 := by
  rw [bfpCompress_eq hfit, Option.map_some, bfpDecompress_eq_pairSamples,
    pairSamples_sampleBytes (toIq_low_zero input)]

/-! ## Run lengths -/

/-- The scan of `rle_compressor::compress`, with the current byte and its run length: the inner
loop extends the run, the outer loop emits it and starts the next one. -/
def rleScan (currentByte runLength : UInt8) : List UInt8 → List UInt8
  | [] => [currentByte, runLength]
  | b :: rest =>
    if b = currentByte ∧ runLength < 255 then rleScan currentByte (runLength + 1) rest
    else currentByte :: runLength :: rleScan b 1 rest

def rleCompress : List UInt8 → List UInt8
  | [] => []
  | b :: rest =>
    let out := rleScan b 1 rest
    if out.length % 2 ≠ 0 then out ++ [(b :: rest).getLast (by simp), 1] else out

/-- `rle_compressor::decompress`. An odd input makes the loop read past its end. -/
def rleDecompress : List UInt8 → Option (List UInt8)
  | [] => some []
  | byte :: runLength :: rest =>
    (rleDecompress rest).map fun out => List.replicate runLength.toNat byte ++ out
  | [_] => none

theorem even_length_rleScan (rest : List UInt8) :
    ∀ b n, (rleScan b n rest).length % 2 = 0 := by
  induction rest with
  | nil => intro b n; simp [rleScan]
  | cons c rest ih =>
    intro b n
    rw [rleScan]
    split
    · exact ih _ _
    · have hrest := ih c 1
      simp only [List.length_cons]
      omega

theorem rleDecompress_rleScan (rest : List UInt8) :
    ∀ b n, rleDecompress (rleScan b n rest) = some (List.replicate n.toNat b ++ rest) := by
  induction rest with
  | nil => intro b n; simp [rleScan, rleDecompress]
  | cons c rest ih =>
    intro b n
    rw [rleScan]
    split
    · rename_i h
      obtain ⟨rfl, hn⟩ := h
      have hn' : (n + 1).toNat = n.toNat + 1 := by
        have : n.toNat < 255 := by simpa using UInt8.lt_iff_toNat_lt.1 hn
        simp
        omega
      rw [ih, hn', List.replicate_succ', List.append_assoc]
      rfl
    · rw [rleDecompress, ih]
      simp

/-- The output of the scan is a list of pairs, so the padding at the end of `compress` is never
reached. -/
theorem rleCompress_cons (b : UInt8) (rest : List UInt8) :
    rleCompress (b :: rest) = rleScan b 1 rest := by
  simp [rleCompress, even_length_rleScan]

/-- **`rle.decompress` inverts `rle.compress`.** -/
theorem rleDecompress_rleCompress (input : List UInt8) :
    rleDecompress (rleCompress input) = some input := by
  cases input with
  | nil => rfl
  | cons b rest =>
    rw [rleCompress_cons, rleDecompress_rleScan]
    simp

/-- Byte and run pairs in canonical form: the length is even, no run is empty, and a run is
followed by one of the same byte only when it is full. -/
def Canonical : List UInt8 → Prop
  | [] => True
  | [_] => False
  | byte :: runLength :: rest =>
    runLength ≠ 0 ∧ (rest.head? = some byte → runLength = 255) ∧ Canonical rest

/-- The scan leaves a run only at another byte or when the run is full. -/
theorem canonical_rleScan (rest : List UInt8) : ∀ b n, n ≠ 0 →
    Canonical (rleScan b n rest) ∧ (rleScan b n rest).head? = some b := by
  induction rest with
  | nil =>
    intro b n hn
    simp [rleScan, Canonical, hn]
  | cons c rest ih =>
    intro b n hn
    rw [rleScan]
    split
    · exact ih b (n + 1) (by grind)
    · obtain ⟨hcanon, hhead⟩ := ih c 1 (by decide)
      exact ⟨⟨hn, by grind, hcanon⟩, rfl⟩

/-- The scan counts through the rest of a run. -/
theorem rleScan_replicate (b run : UInt8) (out : List UInt8) : ∀ m (n : UInt8),
    n.toNat + m = run.toNat → rleScan b n (List.replicate m b ++ out) = rleScan b run out := by
  intro m
  induction m with
  | zero =>
    intro n hn
    rw [UInt8.toNat.inj hn]
    simp
  | succ m ih =>
    intro n hn
    have hrun := run.toNat_lt
    have hlt : n < 255 := by
      rw [UInt8.lt_iff_toNat_lt]
      simp
      omega
    have hnext : (n + 1).toNat + m = run.toNat := by
      simp
      omega
    simp [List.replicate_succ, rleScan, hlt, ih _ hnext]

/-- The first byte is carried along: it tells whether the run before it ends there. -/
theorem rleCompress_rleDecompress : ∀ {ps : List UInt8}, Canonical ps →
    ∃ xs, rleDecompress ps = some xs ∧ rleCompress xs = ps ∧ xs.head? = ps.head?
  | [], _ => ⟨[], rfl, rfl, rfl⟩
  | byte :: run :: rest, ⟨hrun, hfull, hrest⟩ => by
    obtain ⟨xs, hxs, hback, hhead⟩ := rleCompress_rleDecompress hrest
    have hpos : run.toNat ≠ 0 := fun h => hrun (UInt8.toNat.inj h)
    obtain ⟨m, hm⟩ := Nat.exists_eq_succ_of_ne_zero hpos
    refine ⟨byte :: (List.replicate m byte ++ xs), by simp [rleDecompress, hxs, hm,
      List.replicate_succ], ?_, rfl⟩
    rw [rleCompress_cons, rleScan_replicate _ run _ _ _ (by simp; omega)]
    cases xs with
    | nil => simp [rleScan, ← hback, rleCompress]
    | cons c xs =>
      have hend : ¬(c = byte ∧ run < 255) := by
        intro h
        have := hfull (by rw [← hhead, h.1]; rfl)
        grind
      rw [rleScan, if_neg hend, ← rleCompress_cons, hback]

/-- **The codec is a bijection between byte lists and canonical pairs.** -/
theorem rle_bijective :
    (∀ xs, rleDecompress (rleCompress xs) = some xs ∧ Canonical (rleCompress xs)) ∧
    ∀ ps, Canonical ps → ∃ xs, rleDecompress ps = some xs ∧ rleCompress xs = ps := by
  refine ⟨fun xs => ⟨rleDecompress_rleCompress xs, ?_⟩, fun ps hps => ?_⟩
  · cases xs with
    | nil => trivial
    | cons b rest =>
      rw [rleCompress_cons]
      exact (canonical_rleScan rest b 1 (by decide)).1
  · obtain ⟨xs, hxs, hback, -⟩ := rleCompress_rleDecompress hps
    exact ⟨xs, hxs, hback⟩

/-! ## zlib -/

/-- The zlib functions the link calls. The first argument of `compress` and `uncompress` is the
size of the destination buffer; `none` is any status other than `Z_OK`. -/
structure Zlib where
  compressBound : Nat → Nat
  compress : Nat → List UInt8 → Option (List UInt8)
  uncompress : Nat → List UInt8 → Option (List UInt8)

/-- What zlib documents: `compress` succeeds in a buffer of `compressBound` bytes, and
`uncompress` restores the source in a buffer of the source's size. -/
structure Zlib.Lawful (z : Zlib) : Prop where
  compress_ok : ∀ source, (z.compress (z.compressBound source.length) source).isSome
  uncompress_compress : ∀ destLen source out, z.compress destLen source = some out →
    z.uncompress source.length out = some source

/-- `lz77_compressor::compress`: the source size as a 64-bit word, then the zlib stream. -/
def lz77Compress (z : Zlib) (input : List UInt8) : List UInt8 :=
  if input = [] then []
  else
    match z.compress (z.compressBound input.length) input with
    | none => []
    | some out => leBytes 8 input.length ++ out

def lz77Decompress (z : Zlib) (input : List UInt8) : List UInt8 :=
  if input.length < 8 then []
  else
    match z.uncompress (leValue (input.take 8)) (input.drop 8) with
    | none => []
    | some out => out

/-- **`lz77.decompress` inverts `lz77.compress`** on every source whose size is a 64-bit word. -/
theorem lz77Decompress_lz77Compress {z : Zlib} (hz : z.Lawful) {input : List UInt8}
    (hlen : input.length < 2 ^ 64) : lz77Decompress z (lz77Compress z input) = input := by
  by_cases hnil : input = []
  · simp [hnil, lz77Compress, lz77Decompress]
  · obtain ⟨out, hout⟩ := Option.isSome_iff_exists.1 (hz.compress_ok input)
    have htake : (leBytes 8 input.length ++ out).take 8 = leBytes 8 input.length :=
      List.take_left' (length_leBytes _ _)
    have hdrop : (leBytes 8 input.length ++ out).drop 8 = out :=
      List.drop_left' (length_leBytes _ _)
    have hsize : leValue (leBytes 8 input.length) = input.length :=
      leValue_leBytes_of_lt (by simpa using hlen)
    have hlong : ¬ (leBytes 8 input.length ++ out).length < 8 := by simp
    rw [lz77Compress, if_neg hnil, hout]
    simp only [lz77Decompress, if_neg hlong, htake, hdrop, hsize,
      hz.uncompress_compress _ _ _ hout]

end RadioStack.Link
