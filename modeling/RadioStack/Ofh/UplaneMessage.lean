import RadioStack.Lib.ByteView
import RadioStack.Ofh.BfpCompress
import RadioStack.Ofh.SlotPoint

/-!
# User-Plane messages

The messages of the Open Fronthaul User-Plane: a radio application header, then sections, each
with a header and the compressed IQ samples of a range of resource blocks.
`uplane_message_builder_impl` writes a message of one section, `uplane_message_decoder_impl` reads
messages. The compression header is either fixed by the configuration or part of every section.

The field for the number of resource blocks has 8 bits, and 0 stands for all blocks of the RU,
from the first one on. `readSectionHeader_append` says what the decoder makes of a section header
that the builder wrote.
-/

namespace RadioStack.Ofh

/-! ## Compression parameters -/

def nofSubcarriersPerRb : Nat := 12

def maxNofPrbs : Nat := 275

inductive CompressionType where
  | none
  | bfp
  | blockScaling
  | muLaw
  | modulation
  | bfpSelective
  | modSelective
  | reserved
  deriving DecidableEq

namespace CompressionType

def toValue : CompressionType → Nat
  | none => 0
  | bfp => 1
  | blockScaling => 2
  | muLaw => 3
  | modulation => 4
  | bfpSelective => 5
  | modSelective => 6
  | reserved => 7

/-- `is_compression_param_present`: the samples of a block follow a byte of their own. -/
def isParamPresent (t : CompressionType) : Bool :=
  t = bfp ∨ t = muLaw ∨ t = bfpSelective ∨ t = modSelective

/-- The types with a `udCompLen` field. -/
def isSelective (t : CompressionType) : Bool := t = bfpSelective ∨ t = modSelective

end CompressionType

structure RuCompressionParams where
  type : CompressionType
  dataWidth : Nat
  deriving DecidableEq

/-- `get_compressed_prb_size`: the size in bytes of one compressed block. -/
def getCompressedPrbSize (p : RuCompressionParams) : Nat :=
  (nofSubcarriersPerRb * 2 * p.dataWidth + (if p.type.isParamPresent then 8 else 0) + 7) / 8

/-- The compressors that the transmitter is configured with: no compression or block floating point,
with 1 to 16 bits. -/
structure RuCompressionParams.Supported (p : RuCompressionParams) : Prop where
  type_eq : p.type = .none ∨ p.type = .bfp
  width_pos : 0 < p.dataWidth
  width_le : p.dataWidth ≤ 16

/-- The samples of the blocks `[startPrb, startPrb + nofPrb)`. -/
def blocks {α : Type} (iq : List α) (startPrb nofPrb : Nat) : List α :=
  (iq.drop (startPrb * nofSubcarriersPerRb)).take (nofPrb * nofSubcarriersPerRb)

theorem length_blocks {α : Type} {iq : List α} {startPrb nofPrb : Nat}
    (h : startPrb + nofPrb ≤ iq.length / nofSubcarriersPerRb) :
    (blocks iq startPrb nofPrb).length = nofPrb * nofSubcarriersPerRb := by
  rw [blocks, List.length_take, List.length_drop]
  have hmul := Nat.mul_le_of_le_div _ _ _ h
  rw [Nat.add_mul] at hmul
  omega

/-- An `iq_compressor`. It compresses the blocks one by one, and fills the bytes of the blocks. -/
structure IqCompressor (α : Type) where
  /-- `none` if an assertion fails. -/
  compress : RuCompressionParams → List α → Option (List UInt8)
  isSome_compress : ∀ p iq, p.Supported → ((compress p iq).isSome ↔
    ∀ i < iq.length / nofSubcarriersPerRb, (compress p (blocks iq i 1)).isSome)
  length_compress : ∀ p iq out, p.Supported → compress p iq = some out →
    out.length = getCompressedPrbSize p * (iq.length / nofSubcarriersPerRb)

/-! ## Building messages -/

def ofhPayloadVersion : Nat := 1

/-- `uplane_message_params`, for a downlink message of a section of type 1. -/
structure UplaneMessageParams (μ : Nat) where
  slot : SlotPoint μ
  symbolId : Nat
  startPrb : Nat
  nofPrb : Nat
  compressionParams : RuCompressionParams

section

variable {α : Type} {μ : Nat}

/-- `encode_data_direction`: downlink, and filter index 0. -/
def encodeDataDirection : UInt8 := UInt8.ofNat (1 <<< 7 ||| ofhPayloadVersion <<< 4)

def encodeSubframeAndSlot (slot : SlotPoint μ) : UInt8 :=
  UInt8.ofNat (slot.subframeIndex <<< 4 ||| slot.subframeSlotIndex >>> 2)

def encodeSlotLsbAndSymbol (params : UplaneMessageParams μ) : UInt8 :=
  UInt8.ofNat ((params.slot.subframeSlotIndex &&& 3) <<< 6 ||| params.symbolId)

def buildRadioAppHeader (params : UplaneMessageParams μ) : List UInt8 :=
  [encodeDataDirection, UInt8.ofNat params.slot.sfn, encodeSubframeAndSlot params.slot,
    encodeSlotLsbAndSymbol params]

/-- `encode_sect_id_rb_symbols`: every block is used, for the current symbol. -/
def encodeSectIdRbSymbols (startPrb : Nat) : UInt8 := UInt8.ofNat (startPrb >>> 8 &&& 3)

def buildSection1Header (startPrb nofPrb : Nat) : List UInt8 :=
  [0, encodeSectIdRbSymbols startPrb, UInt8.ofNat startPrb,
    if nofPrb > 255 then 0 else UInt8.ofNat nofPrb]

/-- Whether the compression header is configured or sent. -/
inductive CompressionHeader where
  | static
  | dynamic
  deriving DecidableEq

/-- `serialize_compression_header`. A width of 16 bits is sent as 0. -/
def serializeCompressionHeader (p : RuCompressionParams) : CompressionHeader → List UInt8
  | .static => []
  | .dynamic =>
    [UInt8.ofNat ((if p.dataWidth = 16 then 0 else p.dataWidth) <<< 4 ||| p.type.toValue), 0]

/-- `get_header_size` of the message builders. -/
def upHeaderSize (p : RuCompressionParams) (header : CompressionHeader) : Nat :=
  (if header = .static then 8 else 10) + if p.type.isSelective then 2 else 0

/-- A message of compressed samples. The builder never writes `udCompLen`: `ud_comp_length_support`
is false. -/
def messageBytes (header : CompressionHeader) (params : UplaneMessageParams μ)
    (data : List UInt8) : List UInt8 :=
  buildRadioAppHeader params ++ (buildSection1Header params.startPrb params.nofPrb ++
    (serializeCompressionHeader params.compressionParams header ++ data))

/-- `build_message`, for samples of `nof_prb` blocks; `none` if they cannot be compressed. -/
def buildMessage (compressor : IqCompressor α) (header : CompressionHeader)
    (params : UplaneMessageParams μ) (iq : List α) : Option (List UInt8) :=
  (compressor.compress params.compressionParams iq).map (messageBytes header params)

theorem length_messageBytes (header : CompressionHeader) (params : UplaneMessageParams μ)
    (data : List UInt8) (htype : params.compressionParams.type.isSelective = false) :
    (messageBytes header params data).length =
      upHeaderSize params.compressionParams header + data.length := by
  rw [messageBytes, List.length_append, List.length_append, List.length_append, upHeaderSize, htype]
  cases header <;> simp [buildRadioAppHeader, buildSection1Header, serializeCompressionHeader] <;>
    omega

end

/-! ## The section header -/

/-- The fields of a section header: `decoder_uplane_section_params` up to the compression. -/
structure SectionHeader where
  sectionId : Nat
  isEveryRbUsed : Bool
  useCurrentSymbolNumber : Bool
  startPrb : Nat
  nofPrbs : Nat
  deriving DecidableEq

/-- The reads of `decode_section_header`, with at least four bytes left. -/
def readSectionHeader (ruNofPrbs : Nat) (v : ByteView) :
    Except OutOfBounds (SectionHeader × ByteView) := do
  let (sectionId, v) ← v.read
  let (sectionAndRest, v) ← v.read
  let (startPrb, v) ← v.read
  let (nofPrb, v) ← v.read
  let rest := sectionAndRest.toNat
  return ({
    sectionId := sectionId.toNat <<< 4 ||| rest >>> 4
    isEveryRbUsed := (rest >>> 3 &&& 1) = 0
    useCurrentSymbolNumber := (rest >>> 2 &&& 1) = 0
    -- no blocks stands for all blocks; the start is then ignored
    startPrb := if nofPrb = 0 then 0 else (rest &&& 3) <<< 8 ||| startPrb.toNat
    nofPrbs := if nofPrb = 0 then ruNofPrbs else nofPrb.toNat }, v)

/-- The blocks that a section header of the builder stands for. -/
def readBack (ruNofPrbs startPrb nofPrb : Nat) : Nat × Nat :=
  if nofPrb = 0 ∨ 255 < nofPrb then (0, ruNofPrbs) else (startPrb, nofPrb)

variable {startPrb : Nat}

theorem toNat_encodeSectIdRbSymbols (h : startPrb < 1024) :
    (encodeSectIdRbSymbols startPrb).toNat = startPrb / 256 := by
  rw [encodeSectIdRbSymbols, UInt8.toNat_ofNat', Nat.shiftRight_eq_div_pow,
    Nat.and_two_pow_sub_one_eq_mod _ 2]
  omega

theorem startPrb_bytes (h : startPrb < 1024) :
    ((encodeSectIdRbSymbols startPrb).toNat &&& 3) <<< 8 ||| (UInt8.ofNat startPrb).toNat =
      startPrb := by
  have hlow : (UInt8.ofNat startPrb).toNat < 2 ^ 8 := (UInt8.ofNat startPrb).toNat_lt
  rw [toNat_encodeSectIdRbSymbols h, Nat.and_two_pow_sub_one_eq_mod _ 2,
    ← Nat.shiftLeft_add_eq_or_of_lt hlow, Nat.shiftLeft_eq, UInt8.toNat_ofNat']
  omega

/-- **Reading back the section header of the builder.** -/
theorem readSectionHeader_append (ruNofPrbs : Nat) (nofPrb first : Nat) (rest : List UInt8)
    (h : startPrb < 1024) :
    ∃ header, readSectionHeader ruNofPrbs ⟨first, buildSection1Header startPrb nofPrb ++ rest⟩ =
        .ok (header, ⟨first + 4, rest⟩) ∧
      (header.startPrb, header.nofPrbs) = readBack ruNofPrbs startPrb nofPrb ∧
      header.isEveryRbUsed = true ∧ header.useCurrentSymbolNumber = true := by
  have hflag (k : Nat) (hk : 2 ≤ k) : (startPrb / 256) >>> k = 0 := by
    rw [Nat.shiftRight_eq_div_pow]
    exact Nat.div_eq_of_lt (lt_of_lt_of_le (by omega) (Nat.pow_le_pow_right (by decide) hk))
  refine ⟨_, rfl, ?_, ?_, ?_⟩
  · simp only [startPrb_bytes h]
    by_cases hmany : 255 < nofPrb
    · simp [readBack, hmany]
    · have hnat : (UInt8.ofNat nofPrb).toNat = nofPrb := by
        rw [UInt8.toNat_ofNat']
        omega
      have hzero : UInt8.ofNat nofPrb = 0 ↔ nofPrb = 0 := by
        rw [← UInt8.toNat_inj, hnat]
        rfl
      by_cases hz : nofPrb = 0
      · simp [readBack, hz]
      · simp [readBack, hmany, hz, hzero, hnat]
  · simp [toNat_encodeSectIdRbSymbols h, hflag 3 (by decide)]
  · simp [toNat_encodeSectIdRbSymbols h, hflag 2 (by decide)]

end RadioStack.Ofh
