import RadioStack.Phy.Ldpc
import RadioStack.Phy.PackedBits
import RadioStack.Lib.Outcome

/-!
# The LDPC segmenter

`ldpc_segmenter_impl`: transmit segmentation cuts a transport block into code blocks, appends the
checksum of the transport block and those of the code blocks and pads with zeros; receive
segmentation cuts the soft bits of a codeword. A failed assertion is a fault.

The checksums are parameters: what the CRC calculators compute. The memory of a new segment holds
arbitrary words. The number of channel symbols may be any `unsigned`, so lengths of codewords are
computed modulo 2³².
-/

namespace RadioStack.Phy

open BitString

structure SegmenterConfig where
  baseGraph : BaseGraph
  rv : Nat
  mod : Modulation
  nref : Nat
  nofLayers : Nat
  nofChSymbols : Nat
  deriving DecidableEq, Repr

/-- What the parts of the transport chain need to know about a code block. -/
structure CodeblockMetadata where
  baseGraph : BaseGraph
  liftingSize : Nat
  rv : Nat
  mod : Modulation
  nref : Nat
  cwLength : Nat
  fullLength : Nat
  rmLength : Nat
  nofFillerBits : Nat
  cwOffset : Nat
  nofCrcBits : Nat
  deriving DecidableEq, Repr

/-- A segment with its `size` packed bits. -/
structure DescribedSegment where
  metadata : CodeblockMetadata
  data : List (BitVec 8)
  size : Nat
  deriving DecidableEq, Repr

def DescribedSegment.bits (seg : DescribedSegment) : List Bool := firstBits seg.data seg.size

/-- The checksums of a transport block and of the bits of a code block. -/
structure SchCrc where
  crc16 : List (BitVec 8) → Nat
  crc24A : List (BitVec 8) → Nat
  crc24B : List Bool → Nat

structure Segmenter where
  baseGraph : BaseGraph
  liftingSize : Nat
  segmentLength : Nat
  nofTbBitsIn : Nat
  nofTbBitsOut : Nat
  nofSegments : Nat
  nofSymbolsPerLayer : Nat
  nofShortSegments : Nat
  deriving DecidableEq, Repr

def segCrcLength : Nat := 24

def maxTbs : Nat := 1277992

/-- The attributes for a transport block of `tbs` bits and a lifting size. -/
def configured (tbs : Nat) (cfg : SegmenterConfig) (liftingSize : Nat) : Segmenter :=
  let nofSegments := computeNofCodeblocks tbs cfg.baseGraph
  { baseGraph := cfg.baseGraph
    liftingSize := liftingSize
    segmentLength := computeCodeblockSize cfg.baseGraph liftingSize
    nofTbBitsIn := tbBitsIn tbs
    nofTbBitsOut := withSegmentCrcs (tbBitsIn tbs) nofSegments
    nofSegments := nofSegments
    nofSymbolsPerLayer := cfg.nofChSymbols / cfg.nofLayers
    nofShortSegments := nofSegments - cfg.nofChSymbols / cfg.nofLayers % nofSegments }

/-- Both directions start with the same assignments of the attributes. -/
def configure (tbs : Nat) (cfg : SegmenterConfig) : Except PhyFault Segmenter :=
  match computeLiftingSize tbs cfg.baseGraph (computeNofCodeblocks tbs cfg.baseGraph) with
  | none => .error .assertion
  | some liftingSize => .ok (configured tbs cfg liftingSize)

namespace Segmenter

variable (s : Segmenter)

def computeRmLength (i : Nat) (mod : Modulation) (nofLayers : Nat) : Nat :=
  let tmp :=
    if i < s.nofShortSegments then s.nofSymbolsPerLayer / s.nofSegments
    else divideCeil s.nofSymbolsPerLayer s.nofSegments
  tmp * nofLayers * mod.bitsPerSymbol % 2 ^ 32

def generateCbMetadata (i cwLength cwOffset nofFillerBits nofCrcBits nofTbCrcBits : Nat)
    (cfg : SegmenterConfig) : CodeblockMetadata where
  baseGraph := s.baseGraph
  liftingSize := s.liftingSize
  rv := cfg.rv
  mod := cfg.mod
  nref := cfg.nref
  cwLength := cwLength
  fullLength := computeFullCodeblockSize s.baseGraph s.segmentLength
  nofFillerBits := nofFillerBits
  rmLength := s.computeRmLength i cfg.mod cfg.nofLayers
  cwOffset := cwOffset
  nofCrcBits := if s.nofSegments = 1 then nofTbCrcBits else nofCrcBits

def nofCrcBits : Nat := if 1 < s.nofSegments then segCrcLength else 0

def cbInfoBits : Nat := divideCeil s.nofTbBitsOut s.nofSegments - s.nofCrcBits

def zeroPad : Nat := (s.cbInfoBits + s.nofCrcBits) * s.nofSegments - s.nofTbBitsOut

end Segmenter

/-! ## Filling a segment -/

/-- A bit buffer of which the first `used` bits have been written. -/
structure BitWriter where
  words : List (BitVec 8)
  used : Nat

namespace BitWriter

/-- Inserts bits behind the used ones of a buffer of `size` bits. -/
def push (size : Nat) (w : BitWriter) (value : BitVec 8) (count : Nat) :
    Except PhyFault BitWriter :=
  if w.used + count ≤ size then
    match Ofh.insert w.words value w.used count with
    | some words => .ok ⟨words, w.used + count⟩
    | none => .error .assertion
  else .error .assertion

/-- Inserts a checksum byte by byte, the most significant first. -/
def pushChecksum (size : Nat) (w : BitWriter) (nofBits checksum : Nat) :
    Except PhyFault BitWriter :=
  (List.range (nofBits / 8)).foldlM
    (fun w i => w.push size (BitVec.ofNat 8 (checksum >>> (nofBits - (i + 1) * 8))) 8) w

/-- Inserts zeros up to bit `stop`, no more than a byte at a time. -/
def pushZeros (size : Nat) : Nat → BitWriter → Nat → Except PhyFault BitWriter
  | 0, w, stop => if w.used = stop then .ok w else .error .fuel
  | fuel + 1, w, stop =>
    if w.used = stop then .ok w
    else do
      let w ← w.push size 0 (min 8 (stop - w.used))
      pushZeros size fuel w stop

end BitWriter

section Transmit

variable (crc : SchCrc) (s : Segmenter) (tb : List (BitVec 8)) (nofTbCrcBits tbChecksum : Nat)

/-- The information bits of a segment that come from the transport block. -/
def nofUsedBits (last : Bool) : Nat :=
  if last then s.cbInfoBits - (nofTbCrcBits + s.zeroPad) else s.cbInfoBits

def copyTb (memory : List (BitVec 8)) (tbOffset used : Nat) : Except PhyFault BitWriter :=
  if used ≤ s.segmentLength then
    match copyOffset memory used tb tbOffset with
    | some words => .ok ⟨words, used⟩
    | none => .error .assertion
  else .error .assertion

/-- The checksum of the transport block and the padding, in the last segment. -/
def pushTbCrc (last : Bool) (w : BitWriter) : Except PhyFault BitWriter :=
  if last then do
    let w ← w.pushChecksum s.segmentLength nofTbCrcBits tbChecksum
    w.pushZeros s.segmentLength s.zeroPad (w.used + s.zeroPad)
  else .ok w

/-- The checksum of the segment, if there are several. -/
def pushCbCrc (w : BitWriter) : Except PhyFault BitWriter :=
  if s.nofCrcBits ≠ 0 then
    w.pushChecksum s.segmentLength s.nofCrcBits (crc.crc24B (firstBits w.words w.used))
  else .ok w

/-- Fills a segment: transport block, checksums, filler bits. -/
def fillSegment (memory : List (BitVec 8)) (tbOffset : Nat) (last : Bool) :
    Except PhyFault (List (BitVec 8)) := do
  let w ← copyTb s tb memory tbOffset (nofUsedBits s nofTbCrcBits last)
  let w ← pushTbCrc s nofTbCrcBits tbChecksum last w
  let w ← pushCbCrc crc s w
  let w ← w.pushZeros s.segmentLength s.segmentLength s.segmentLength
  return w.words

/-- The segments so far, with the offsets of the next one. -/
structure TxState where
  segments : List DescribedSegment
  cwOffset : Nat
  tbOffset : Nat

def txRound (memory : Nat → List (BitVec 8)) (cwLength : Nat) (cfg : SegmenterConfig) (st : TxState)
    (i : Nat) : Except PhyFault TxState := do
  let last : Bool := i = s.nofSegments - 1
  let metadata := s.generateCbMetadata i cwLength st.cwOffset
    (s.segmentLength - s.cbInfoBits - s.nofCrcBits) s.nofCrcBits nofTbCrcBits cfg
  -- the vector of segments and the buffer of a segment are bounded
  ensure (st.segments.length < maxNofSegments ∧ 0 < s.segmentLength ∧
    s.segmentLength ≤ maxSegLength)
  let data ← fillSegment crc s tb nofTbCrcBits tbChecksum (memory i) st.tbOffset last
  return {
    segments := st.segments ++ [⟨metadata, data, s.segmentLength⟩]
    cwOffset := st.cwOffset + metadata.rmLength
    tbOffset := st.tbOffset + nofUsedBits s nofTbCrcBits last + if last then nofTbCrcBits else 0 }

end Transmit

def SchCrc.tbChecksum (crc : SchCrc) (tb : List (BitVec 8)) : Nat :=
  if 8 * tb.length ≤ 3824 then crc.crc16 tb else crc.crc24A tb

def newWords (segmentLength : Nat) (memory : Nat → BitVec 8) : List (BitVec 8) :=
  (List.range ((segmentLength + 7) / 8)).map memory

/-- Transmit segmentation. `memory` is what the segments' buffers hold at first. -/
def segmentTx (crc : SchCrc) (memory : Nat → Nat → BitVec 8) (tb : List (BitVec 8))
    (cfg : SegmenterConfig) : Except PhyFault (List DescribedSegment) := do
  ensure (tb ≠ [] ∧ 8 * tb.length + 24 ≤ maxTbs ∧ cfg.rv ≤ 3 ∧ 1 ≤ cfg.nofLayers ∧
    cfg.nofLayers ≤ 4 ∧ cfg.nofChSymbols % cfg.nofLayers = 0)
  let s ← configure (8 * tb.length) cfg
  let cwLength := cfg.nofChSymbols * cfg.mod.bitsPerSymbol % 2 ^ 32
  let st ← (List.range s.nofSegments).foldlM
    (txRound crc s tb (computeTbCrcSize (8 * tb.length)) (crc.tbChecksum tb)
      (fun i => newWords s.segmentLength (memory i)) cwLength cfg) ⟨[], 0, 0⟩
  ensure (s.nofTbBitsIn = st.tbOffset)
  ensure (cwLength = st.cwOffset)
  return st.segments

/-! ## Receive segmentation -/

section Receive

variable {α : Type}

def subspan (xs : List α) (offset count : Nat) : Except PhyFault (List α) :=
  if offset + count ≤ xs.length then .ok ((xs.drop offset).take count) else .error .assertion

/-- One round of the loop over the code blocks: the code blocks so far and the offset of the next.
-/
def rxRound (s : Segmenter) (llrs : List α) (nofTbCrcBits : Nat) (cfg : SegmenterConfig)
    (st : List (List α × CodeblockMetadata) × Nat) (i : Nat) :
    Except PhyFault (List (List α × CodeblockMetadata) × Nat) := do
  let metadata := s.generateCbMetadata i llrs.length st.2
    (s.segmentLength - (s.cbInfoBits + s.nofCrcBits)) s.nofCrcBits nofTbCrcBits cfg
  ensure (st.1.length < maxNofSegments)
  let part ← subspan llrs st.2 metadata.rmLength
  return (st.1 ++ [(part, metadata)], st.2 + metadata.rmLength)

/-- Receive segmentation of the soft bits of a codeword, for a transport block of `tbs` bits. -/
def segmentRx (llrs : List α) (tbs : Nat) (cfg : SegmenterConfig) :
    Except PhyFault (List (List α × CodeblockMetadata)) := do
  ensure (llrs ≠ [] ∧ llrs.length = cfg.nofChSymbols * cfg.mod.bitsPerSymbol % 2 ^ 32 ∧
    cfg.rv ≤ 3 ∧ 1 ≤ cfg.nofLayers ∧ cfg.nofLayers ≤ 4 ∧ cfg.nofChSymbols % cfg.nofLayers = 0)
  let s ← configure tbs cfg
  let st ← (List.range s.nofSegments).foldlM
    (rxRound s llrs (computeTbCrcSize tbs) cfg) ([], 0)
  ensure (llrs.length = st.2)
  return st.1

end Receive

end RadioStack.Phy
