import RadioStack.Ofh.FramePool
import RadioStack.Ofh.GenericCompressor
import Mathlib.Data.List.Forall2

/-!
# Downlink User-Plane messages

`data_flow_uplane_downlink_data_impl` sends the samples of a symbol in as many messages as the size
of the Ethernet frames requires. The fragments are computed by
`ofh_uplane_fragment_size_calculator`, and the frames are reserved in the pool before.

**Theorem (`symbolFrames_decodable_iff`).** For every frame size, the messages of a symbol cover the
resource blocks of the RU in order, each fits its frame, and the section header of each says which
blocks it carries, exactly if every block can be compressed and `FrameSizeOk`: a frame holds its
headers and one block, it is not shorter than the shortest Ethernet frame, the first message is not
longer than the longest one, and a fragment that is not the whole carrier has at most 255 blocks. A
longer one is announced with the number 0, which a receiver reads as the whole carrier.
-/

namespace RadioStack.Ofh

/-! ## Fragments -/

def getPrbDataSize (p : RuCompressionParams) : Nat :=
  (p.dataWidth * nofSubcarriersPerRb * 2 + 7) / 8 +
    if p.type = .none ∨ p.type = .modulation then 0 else 1

/-- `ofh_uplane_fragment_size_calculator`. -/
structure FragmentSizeCalculator where
  startPrb : Nat
  nofPrbs : Nat
  prbSize : Nat
  nextFragmentStartPrbIndex : Nat

/-- What `calculate_fragment_size` returns: whether it is the last fragment, and its blocks. -/
structure Fragment where
  isLast : Bool
  startPrb : Nat
  nofPrbs : Nat

namespace FragmentSizeCalculator

def create (startPrb nofPrbs : Nat) (p : RuCompressionParams) : FragmentSizeCalculator :=
  ⟨startPrb, nofPrbs, getPrbDataSize p, startPrb⟩

def calculateFragmentSize (c : FragmentSizeCalculator) (frameSize : Nat) :
    Fragment × FragmentSizeCalculator :=
  let next := c.nextFragmentStartPrbIndex
  if frameSize < c.prbSize then (⟨false, next, 0⟩, c)
  else
    let fit := frameSize / c.prbSize
    let remaining := c.nofPrbs - (next - c.startPrb)
    if fit ≥ remaining then
      (⟨true, next, remaining⟩, { c with nextFragmentStartPrbIndex := next + remaining })
    else (⟨false, next, fit⟩, { c with nextFragmentStartPrbIndex := next + fit })

end FragmentSizeCalculator

/-- A frame without its headers, in 32-bit unsigned arithmetic. -/
def payloadSize (frameSize headersSize : Nat) : Nat :=
  if headersSize ≤ frameSize then frameSize - headersSize else 2 ^ 32 - (headersSize - frameSize)

/-- `calculate_nof_segments`: the quotient rounded up, `none` for a division by zero. The quotient
of at most 275 blocks in single precision is rounded up correctly. -/
def calculateNofSegments (frameSize nofPrbs : Nat) (p : RuCompressionParams) (headersSize : Nat) :
    Option Nat :=
  let fit := payloadSize frameSize headersSize / getPrbDataSize p
  if fit = 0 then none else some ((nofPrbs + fit - 1) / fit)

/-! ## Frames -/

/-- The two bytes of a number, in network order. -/
def beBytes (x : Nat) : List UInt8 := [UInt8.ofNat (x >>> 8), UInt8.ofNat x]

/-- `vlan_frame_params`; without a TCI, frames have no VLAN tag. -/
structure EthParams where
  macDst : Vector UInt8 6
  macSrc : Vector UInt8 6
  tci : Option Nat
  ethType : Nat

/-- `build_frame` of the Ethernet frame builders. -/
def EthParams.buildFrame (p : EthParams) : List UInt8 :=
  p.macDst.toList ++ p.macSrc.toList ++
    (p.tci.elim [] fun tci => beBytes 0x8100 ++ beBytes tci) ++ beBytes p.ethType

/-- `get_header_size` of the Ethernet frame builders. -/
def EthParams.headerSize (p : EthParams) : Nat := if p.tci.isSome then 18 else 14

/-- `build_data_packet`: the eCPRI header of a message of the given length. -/
def buildDataPacket (messageLength pcId seqId : Nat) : List UInt8 :=
  ([0x10, 0] : List UInt8) ++ beBytes (messageLength + 4) ++ beBytes pcId ++ beBytes seqId

/-- `get_header_size` of the eCPRI builder. -/
def ecpriHeaderSize : Nat := 8

/-- The sequence identifier field: no fragmentation by the transport layer. -/
def ecpriSeqId (seqId : UInt8) : Nat := seqId.toNat <<< 8 ||| 1 <<< 7

def maxEthFrameLength : Nat := 9600

def minEthFrameLength : Nat := 64

inductive TxFault where
  /-- A failed assertion. -/
  | assertion
  /-- A write behind the end of a frame buffer. -/
  | overrun
  /-- `srsran_terminate`: all reserved frames are in use. -/
  | noFrame

/-- `set_size` of a frame buffer of the given capacity: a short frame is filled up with zeros. -/
def setSize (capacity : Nat) (frame : List UInt8) : Except TxFault (List UInt8) :=
  if frame.length > maxEthFrameLength then .error .assertion
  else if frame.length < minEthFrameLength then
    if capacity < minEthFrameLength then .error .overrun
    else .ok (frame ++ List.replicate (minEthFrameLength - frame.length) 0)
  else .ok frame

/-- A downlink data flow. Its RU has between 1 and 275 resource blocks. -/
structure DownlinkDataFlow (α : Type) where
  ruNofPrbs : Nat
  comprParams : RuCompressionParams
  header : CompressionHeader
  eth : EthParams
  compressor : IqCompressor α
  nofPrbs_pos : 0 < ruNofPrbs
  nofPrbs_le : ruNofPrbs ≤ maxNofPrbs
  supported : comprParams.Supported

/-- Where a symbol is sent. -/
structure SymbolContext (μ : Nat) where
  slot : SlotPoint μ
  symbolId : Nat
  /-- An eAxC below `MAX_SUPPORTED_EAXC_ID_VALUE`. -/
  eaxc : Fin 32

/-- The elements of `xs` from `offset` on. `span::subspan` asserts that they exist. -/
def subspan {α : Type} (xs : List α) (offset count : Nat) : Except TxFault (List α) :=
  if offset + count ≤ xs.length then .ok ((xs.drop offset).take count) else .error .assertion

namespace DownlinkDataFlow

variable {α : Type} {μ : Nat} (flow : DownlinkDataFlow α) (ctx : SymbolContext μ)

def offset : Nat := flow.eth.headerSize + ecpriHeaderSize

def headersSize : Nat := flow.offset + upHeaderSize flow.comprParams flow.header

def prbSize : Nat := getCompressedPrbSize flow.comprParams

/-- `generate_dl_ofh_user_parameters`. -/
def messageParams (startPrb nofPrb : Nat) : UplaneMessageParams μ :=
  ⟨ctx.slot, ctx.symbolId, startPrb, nofPrb, flow.comprParams⟩

def frame (seqId : UInt8) (message : List UInt8) : List UInt8 :=
  flow.eth.buildFrame ++
    (buildDataPacket message.length ctx.eaxc (ecpriSeqId seqId) ++ message)

/-- `enqueue_section_type_1_message_symbol`: the frame written to a buffer. -/
def enqueueMessageSymbol (capacity : Nat) (seqId : UInt8) (iq : List α) (startPrb nofPrb : Nat) :
    Except TxFault (List UInt8) := do
  let iq ← subspan iq (startPrb * nofSubcarriersPerRb) (nofPrb * nofSubcarriersPerRb)
  match buildMessage flow.compressor flow.header (flow.messageParams ctx startPrb nofPrb) iq with
  | none => .error .assertion
  | some message =>
    if capacity < flow.offset + message.length then .error .overrun
    else return flow.frame ctx seqId message

/-- `get_next_frame`: the first frame that is empty. -/
def getNextFrame (frames : List (FrameBuffer (List UInt8))) : Except TxFault Nat :=
  match frames.findIdx? fun b => b.content.isNone with
  | none => .error .noFrame
  | some i => .ok i

structure SymbolState where
  calculator : FragmentSizeCalculator
  seqId : UInt8
  frames : List (FrameBuffer (List UInt8))

/-- One pass of the fragment loop, and whether it is the last one. A frame that is too small for
one block is skipped. -/
def symbolPass (frameSize : Nat) (iq : List α) (s : SymbolState) :
    Except TxFault (Bool × SymbolState) := do
  let i ← getNextFrame s.frames
  let (fragment, calculator) :=
    s.calculator.calculateFragmentSize (payloadSize frameSize flow.headersSize)
  if fragment.nofPrbs = 0 then return (fragment.isLast, { s with calculator })
  else
    let frame ← flow.enqueueMessageSymbol ctx frameSize s.seqId iq fragment.startPrb
      fragment.nofPrbs
    let frame ← setSize frameSize frame
    return (fragment.isLast, {
      calculator
      seqId := s.seqId + 1
      frames := s.frames.modify i fun b => { b with content := some frame } })

/-- The fragment loop of `enqueue_section_type_1_message_symbol_burst`, for frames of one size and
a number of passes; `none` if there are more passes. -/
def symbolLoop (frameSize : Nat) (iq : List α) : Nat → SymbolState →
    Option (Except TxFault (List (FrameBuffer (List UInt8))))
  | 0, _ => none
  | passes + 1, s =>
    match flow.symbolPass ctx frameSize iq s with
    | .error e => some (.error e)
    | .ok (true, s) => some (.ok s.frames)
    | .ok (false, s) => symbolLoop frameSize iq passes s

def reservedFrames (nofFrames : Nat) : List (FrameBuffer (List UInt8)) :=
  List.replicate nofFrames ⟨.reserved, none⟩

/-! ## Sizes -/

theorem isSelective_eq_false : flow.comprParams.type.isSelective = false := by
  rcases flow.supported.type_eq with h | h <;> rw [h] <;> rfl

/-- The calculator and the message builder agree on the size of a block. -/
theorem getPrbDataSize_eq : getPrbDataSize flow.comprParams = flow.prbSize := by
  rw [getPrbDataSize, prbSize, getCompressedPrbSize, nofSubcarriersPerRb]
  rcases flow.supported.type_eq with h | h <;> simp [h, CompressionType.isParamPresent] <;> omega

theorem prbSize_bounds : 0 < flow.prbSize ∧ flow.prbSize ≤ 49 := by
  have hpos := flow.supported.width_pos
  have hle := flow.supported.width_le
  rw [prbSize, getCompressedPrbSize, nofSubcarriersPerRb]
  split <;> omega

theorem length_buildFrame (p : EthParams) : p.buildFrame.length = p.headerSize := by
  cases h : p.tci <;> simp [EthParams.buildFrame, EthParams.headerSize, beBytes, h]

theorem length_frame (seqId : UInt8) (message : List UInt8) :
    (flow.frame ctx seqId message).length = flow.offset + message.length := by
  simp [frame, buildDataPacket, beBytes, length_buildFrame, offset, ecpriHeaderSize]
  omega

/-! ## The messages of a symbol -/

section

variable (iq : List α) (startPrb nofPrb : Nat)

def Compresses : Prop :=
  (flow.compressor.compress flow.comprParams (blocks iq startPrb nofPrb)).isSome

/-- The compressed samples of blocks. -/
def blockData : List UInt8 :=
  (flow.compressor.compress flow.comprParams (blocks iq startPrb nofPrb)).getD []

def blockMessage : List UInt8 :=
  messageBytes flow.header (flow.messageParams ctx startPrb nofPrb)
    (flow.blockData iq startPrb nofPrb)

end

/-- Every block of a symbol can be compressed. -/
def Compressible (iq : List α) : Prop := ∀ i < flow.ruNofPrbs, flow.Compresses iq i 1

/-- A frame filled up to the shortest length. -/
def pad (frame : List UInt8) : List UInt8 :=
  frame ++ List.replicate (minEthFrameLength - frame.length) 0

section

variable {iq : List α} {startPrb nofPrb : Nat}

variable {flow} in
theorem Compresses.compress_eq (h : flow.Compresses iq startPrb nofPrb) :
    flow.compressor.compress flow.comprParams (blocks iq startPrb nofPrb) =
      some (flow.blockData iq startPrb nofPrb) := by
  obtain ⟨data, hdata⟩ := Option.isSome_iff_exists.1 h
  rw [blockData, hdata, Option.getD_some]

/-- Blocks are compressed one by one. -/
theorem compresses_iff (h : startPrb + nofPrb ≤ iq.length / nofSubcarriersPerRb) :
    flow.Compresses iq startPrb nofPrb ↔
      ∀ i, startPrb ≤ i → i < startPrb + nofPrb → flow.Compresses iq i 1 := by
  have hblock (i : Nat) (hi : i < nofPrb) :
      blocks (blocks iq startPrb nofPrb) i 1 = blocks iq (startPrb + i) 1 := by
    have hle : 1 * nofSubcarriersPerRb ≤
        nofPrb * nofSubcarriersPerRb - i * nofSubcarriersPerRb := by
      rw [← Nat.sub_mul]
      exact Nat.mul_le_mul_right _ (by omega)
    rw [blocks, blocks, blocks, List.drop_take, List.take_take, Nat.min_eq_left hle,
      List.drop_drop, Nat.add_mul]
  rw [Compresses, flow.compressor.isSome_compress _ _ flow.supported, length_blocks h,
    Nat.mul_div_cancel _ (by decide)]
  constructor
  · intro hall i hle hlt
    have hi := hall (i - startPrb) (by omega)
    rwa [hblock _ (by omega), Nat.add_sub_cancel' hle] at hi
  · intro hall i hi
    rw [hblock i hi]
    exact hall (startPrb + i) (by omega) (by omega)

theorem length_blockData (h : startPrb + nofPrb ≤ iq.length / nofSubcarriersPerRb)
    (hc : flow.Compresses iq startPrb nofPrb) :
    (flow.blockData iq startPrb nofPrb).length = flow.prbSize * nofPrb := by
  rw [flow.compressor.length_compress _ _ _ flow.supported hc.compress_eq, length_blocks h,
    Nat.mul_div_cancel _ (by decide)]
  rfl

theorem length_blockFrame (seqId : UInt8) (h : startPrb + nofPrb ≤ iq.length / nofSubcarriersPerRb)
    (hc : flow.Compresses iq startPrb nofPrb) :
    (flow.frame ctx seqId (flow.blockMessage ctx iq startPrb nofPrb)).length =
      flow.headersSize + flow.prbSize * nofPrb := by
  rw [length_frame, blockMessage, length_messageBytes _ _ _ flow.isSelective_eq_false,
    flow.length_blockData h hc, ← Nat.add_assoc]
  rfl

theorem enqueueMessageSymbol_eq (capacity : Nat) (seqId : UInt8)
    (h : startPrb + nofPrb ≤ iq.length / nofSubcarriersPerRb) :
    flow.enqueueMessageSymbol ctx capacity seqId iq startPrb nofPrb =
      match flow.compressor.compress flow.comprParams (blocks iq startPrb nofPrb) with
      | none => .error .assertion
      | some data =>
        let frame := flow.frame ctx seqId
          (messageBytes flow.header (flow.messageParams ctx startPrb nofPrb) data)
        if capacity < frame.length then .error .overrun else .ok frame := by
  have hmul := Nat.mul_le_of_le_div _ _ _ h
  rw [Nat.add_mul] at hmul
  rw [enqueueMessageSymbol, subspan, if_pos hmul]
  change (match buildMessage _ _ _ (blocks iq startPrb nofPrb) with | none => _ | some _ => _) = _
  rw [show buildMessage flow.compressor flow.header (flow.messageParams ctx startPrb nofPrb)
    (blocks iq startPrb nofPrb) = (flow.compressor.compress flow.comprParams _).map _ from rfl]
  simp only [length_frame]
  cases flow.compressor.compress flow.comprParams (blocks iq startPrb nofPrb) <;> rfl

/-- A message of `k` blocks fits its frame, which is not too short for Ethernet, and is not too
long. -/
structure Fits (frameSize k : Nat) : Prop where
  frame : flow.headersSize + flow.prbSize * k ≤ frameSize
  shortest : minEthFrameLength ≤ frameSize
  longest : flow.headersSize + flow.prbSize * k ≤ maxEthFrameLength

variable {flow} in
theorem Fits.mono {frameSize k k' : Nat} (h : flow.Fits frameSize k) (hk : k' ≤ k) :
    flow.Fits frameSize k' := by
  have hmul := Nat.add_le_add_left (Nat.mul_le_mul_left flow.prbSize hk) flow.headersSize
  exact ⟨hmul.trans h.frame, h.shortest, hmul.trans h.longest⟩

/-- The message of a fragment can be built. -/
structure Builds (frameSize : Nat) (iq : List α) (fragment : Nat × Nat) : Prop where
  fits : flow.Fits frameSize fragment.2
  compresses : flow.Compresses iq fragment.1 fragment.2

theorem buildFrame_spec (frameSize : Nat) (seqId : UInt8)
    (h : startPrb + nofPrb ≤ iq.length / nofSubcarriersPerRb) :
    ReturnsIff (flow.Builds frameSize iq (startPrb, nofPrb))
      (· = pad (flow.frame ctx seqId (flow.blockMessage ctx iq startPrb nofPrb)))
      (flow.enqueueMessageSymbol ctx frameSize seqId iq startPrb nofPrb >>= setSize frameSize) := by
  rw [flow.enqueueMessageSymbol_eq ctx frameSize seqId h]
  by_cases hc : flow.Compresses iq startPrb nofPrb
  swap
  · rw [Option.not_isSome_iff_eq_none.1 hc]
    exact fun hbuilds => hc hbuilds.compresses
  have hbuilds : flow.Builds frameSize iq (startPrb, nofPrb) ↔ flow.Fits frameSize nofPrb :=
    ⟨Builds.fits, (⟨·, hc⟩)⟩
  have hlen := flow.length_blockFrame ctx seqId h hc
  rw [hbuilds, hc.compress_eq]
  set frame := flow.frame ctx seqId (flow.blockMessage ctx iq startPrb nofPrb)
  change ReturnsIff _ _ ((if frameSize < frame.length then _ else .ok frame) >>= _)
  rw [hlen]
  split
  · next hshort => exact fun hfits => absurd hfits.frame (by omega)
  next hframe =>
  show ReturnsIff _ _ (setSize frameSize _)
  rw [setSize, pad, hlen]
  refine .ite (fun hlong hfits => absurd hfits.longest (by omega)) fun hlong => ?_
  refine .ite (fun hpad => ?_) fun hpad => ⟨⟨by omega, by omega, by omega⟩, ?_⟩
  · exact .ite (fun hshort hfits => absurd hfits.shortest (by omega)) fun hshort =>
      ⟨⟨by omega, by omega, by omega⟩, rfl⟩
  · rw [Nat.sub_eq_zero_of_le (by omega), List.replicate_zero, List.append_nil]

theorem pad_frame_eq (seqId : UInt8) (iq : List α) (startPrb nofPrb : Nat) :
    ∃ pre zeros : List UInt8, pre.length = flow.offset + 4 ∧
    pad (flow.frame ctx seqId (flow.blockMessage ctx iq startPrb nofPrb)) =
      pre ++ (buildSection1Header startPrb nofPrb ++
        (serializeCompressionHeader flow.comprParams flow.header ++
          (flow.blockData iq startPrb nofPrb ++ zeros))) := by
  generalize hmessage : flow.blockMessage ctx iq startPrb nofPrb = message
  refine ⟨flow.eth.buildFrame ++ (buildDataPacket message.length ctx.eaxc (ecpriSeqId seqId) ++
      buildRadioAppHeader (flow.messageParams ctx startPrb nofPrb)),
    List.replicate (minEthFrameLength - (flow.frame ctx seqId message).length) 0, ?_, ?_⟩
  · simp [length_buildFrame, buildDataPacket, beBytes, buildRadioAppHeader, offset,
      ecpriHeaderSize]
  · rw [pad]
    rw [frame]
    rw [← hmessage, blockMessage, messageBytes]
    simp only [List.append_assoc]
    rfl

end

/-! ## The fragment loop -/

def fit (frameSize : Nat) : Nat := payloadSize frameSize flow.headersSize / flow.prbSize

/-- `r` blocks from `s` on, in fragments of `fit` blocks; at most `passes` of them. -/
def fragments (fit : Nat) : Nat → Nat → Nat → List (Nat × Nat)
  | 0, _, _ => []
  | passes + 1, s, r =>
    if r ≤ fit then [(s, r)] else (s, fit) :: fragments fit passes (s + fit) (r - fit)

def builtFrames (iq : List α) : UInt8 → List (Nat × Nat) → List (List UInt8)
  | _, [] => []
  | seqId, (s, k) :: fs =>
    pad (flow.frame ctx seqId (flow.blockMessage ctx iq s k)) :: builtFrames iq (seqId + 1) fs

/-- The calculator of a symbol, before the fragment that starts at `next`. -/
def calculator (next : Nat) : FragmentSizeCalculator :=
  ⟨0, flow.ruNofPrbs, flow.prbSize, next⟩

theorem create_eq : FragmentSizeCalculator.create 0 flow.ruNofPrbs flow.comprParams =
    flow.calculator 0 := by
  rw [FragmentSizeCalculator.create, getPrbDataSize_eq, calculator]

/-- The next fragment has `fit` blocks, or all that are left. -/
theorem calculateFragmentSize_eq {frameSize : Nat} (hfit : 0 < flow.fit frameSize) (next : Nat) :
    let k := min (flow.ruNofPrbs - next) (flow.fit frameSize)
    (flow.calculator next).calculateFragmentSize (payloadSize frameSize flow.headersSize) =
      (⟨flow.ruNofPrbs - next ≤ flow.fit frameSize, next, k⟩, flow.calculator (next + k)) := by
  intro k
  have hlarge : ¬ payloadSize frameSize flow.headersSize < flow.prbSize := by
    rw [← Nat.div_eq_zero_iff_lt flow.prbSize_bounds.1]
    exact hfit.ne'
  simp only [FragmentSizeCalculator.calculateFragmentSize, calculator, if_neg hlarge, Nat.sub_zero,
    ge_iff_le]
  change (if flow.ruNofPrbs - next ≤ flow.fit frameSize then _ else _) = _
  split
  · next hlast => simp only [k, Nat.min_eq_left hlast, decide_eq_true hlast]
  · next hlast =>
    simp only [k, Nat.min_eq_right (Nat.le_of_not_le hlast), decide_eq_false hlast]
    rfl

theorem modify_append_cons {γ : Type} (f : γ → γ) (xs : List γ) (y : γ) (zs : List γ) :
    (xs ++ y :: zs).modify xs.length f = xs ++ f y :: zs := by
  induction xs with
  | nil => rfl
  | cons x xs ih => simp [ih]

def filled (frames : List (List UInt8)) : List (FrameBuffer (List UInt8)) :=
  frames.map fun frame => ⟨.reserved, some frame⟩

theorem getNextFrame_append (done : List (List UInt8)) (rest : List (FrameBuffer (List UInt8))) :
    getNextFrame (filled done ++ ⟨.reserved, none⟩ :: rest) = .ok (filled done).length := by
  have hfind : (filled done ++ ⟨.reserved, none⟩ :: rest).findIdx? (fun b => b.content.isNone) =
      some (filled done).length := by
    induction done with
    | nil => rfl
    | cons frame done ih => simpa [filled, List.findIdx?_cons] using ih
  rw [getNextFrame, hfind]

/-- The frames can carry the messages: one block fits in a frame, frames are long enough for
Ethernet, and the first message, which is a longest one, is not too long. -/
structure Sendable (frameSize : Nat) : Prop where
  block : flow.headersSize + flow.prbSize ≤ frameSize
  shortest : minEthFrameLength ≤ frameSize
  longest : flow.headersSize + flow.prbSize *
    min flow.ruNofPrbs ((frameSize - flow.headersSize) / flow.prbSize) ≤ maxEthFrameLength

section

variable {frameSize : Nat} {iq : List α}

theorem fit_eq (h : flow.headersSize ≤ frameSize) :
    flow.fit frameSize = (frameSize - flow.headersSize) / flow.prbSize := by
  rw [fit, payloadSize, if_pos h]

variable {flow} in
theorem Sendable.fit_pos (h : flow.Sendable frameSize) : 0 < flow.fit frameSize := by
  have hblock := h.block
  rw [flow.fit_eq (by omega)]
  exact Nat.div_pos (by omega) flow.prbSize_bounds.1

theorem sendable_iff (hfit : 0 < flow.fit frameSize) : flow.Sendable frameSize ↔
    flow.Fits frameSize (min flow.ruNofPrbs (flow.fit frameSize)) := by
  by_cases hheaders : flow.headersSize ≤ frameSize
  · have heq := flow.fit_eq hheaders
    have hmul := Nat.mul_div_le (frameSize - flow.headersSize) flow.prbSize
    have hmin := Nat.mul_le_mul_left flow.prbSize (Nat.min_le_right flow.ruNofPrbs
      (flow.fit frameSize))
    have hblock : flow.prbSize ≤ frameSize - flow.headersSize := by
      rw [heq] at hfit
      exact (Nat.div_pos_iff.1 hfit).2
    rw [← heq] at hmul
    exact ⟨fun h => ⟨by omega, h.shortest, heq ▸ h.longest⟩,
      fun h => ⟨by omega, h.shortest, heq ▸ h.longest⟩⟩
  · refine iff_of_false (fun h => ?_) fun h => ?_
    · have := h.block
      omega
    · have := h.frame
      omega

theorem symbolPass_eq_map (s : SymbolState) {i : Nat} {fragment : Fragment}
    {c : FragmentSizeCalculator} (hnext : getNextFrame s.frames = .ok i)
    (hcalc : s.calculator.calculateFragmentSize (payloadSize frameSize flow.headersSize) =
      (fragment, c)) (hne : fragment.nofPrbs ≠ 0) :
    flow.symbolPass ctx frameSize iq s =
      (flow.enqueueMessageSymbol ctx frameSize s.seqId iq fragment.startPrb fragment.nofPrbs >>=
        setSize frameSize).map fun frame => (fragment.isLast,
          ⟨c, s.seqId + 1, s.frames.modify i fun b => { b with content := some frame }⟩) := by
  rw [symbolPass, hnext]
  simp only [hcalc, if_neg hne, bind, Except.bind, pure, Except.pure]
  cases flow.enqueueMessageSymbol ctx frameSize s.seqId iq fragment.startPrb fragment.nofPrbs with
  | error e => rfl
  | ok message => cases setSize frameSize message <;> rfl

/-- A pass with `r` blocks left, `next` the first of them. -/
theorem symbolPass_spec (hiq : iq.length = flow.ruNofPrbs * nofSubcarriersPerRb)
    (hfit : 0 < flow.fit frameSize) (seqId : UInt8) {next r : Nat} (hr : 0 < r)
    (hnext : next + r = flow.ruNofPrbs) (done : List (List UInt8))
    (rest : List (FrameBuffer (List UInt8))) :
    let k := min r (flow.fit frameSize)
    ReturnsIff (flow.Builds frameSize iq (next, k))
      (· = (decide (r ≤ flow.fit frameSize), ⟨flow.calculator (next + k), seqId + 1,
        filled (done ++ [pad (flow.frame ctx seqId (flow.blockMessage ctx iq next k))]) ++ rest⟩))
      (flow.symbolPass ctx frameSize iq
        ⟨flow.calculator next, seqId, filled done ++ ⟨.reserved, none⟩ :: rest⟩) := by
  intro k
  have hk : next + k ≤ iq.length / nofSubcarriersPerRb := by
    rw [hiq, Nat.mul_div_cancel _ (by decide)]
    omega
  have hne : k ≠ 0 := by omega
  have hcalc := flow.calculateFragmentSize_eq hfit next
  rw [show flow.ruNofPrbs - next = r by omega] at hcalc
  rw [flow.symbolPass_eq_map ctx ⟨flow.calculator next, _, _⟩ (getNextFrame_append done rest)
    hcalc hne]
  refine Ensures.map (flow.buildFrame_spec ctx frameSize seqId hk) ?_
  rintro _ ⟨hbuilds, rfl⟩
  refine ⟨hbuilds, ?_⟩
  simp only [modify_append_cons]
  simp [filled, k]

def segments (fit r : Nat) : Nat := (r + fit - 1) / fit

theorem segments_of_le {fit r : Nat} (hr : 0 < r) (h : r ≤ fit) : segments fit r = 1 := by
  rw [segments, Nat.div_eq_iff (by omega)]
  omega

theorem segments_of_lt {fit r : Nat} (hfit : 0 < fit) (h : fit < r) :
    segments fit r = segments fit (r - fit) + 1 := by
  rw [segments, segments, show r + fit - 1 = r - fit + fit - 1 + fit by omega,
    Nat.add_div_right _ hfit]

theorem segments_pos {fit r : Nat} (hfit : 0 < fit) (hr : 0 < r) : 0 < segments fit r :=
  Nat.div_pos (by omega) hfit

theorem head_mem_fragments (fit n s r : Nat) : (s, min r fit) ∈ fragments fit (n + 1) s r := by
  rw [fragments]
  split
  · next hle => simp [Nat.min_eq_left hle]
  · next hlt => simp [Nat.min_eq_right (Nat.le_of_not_le hlt)]

/-- **The frames of a symbol**: with as many frames as there are fragments, the loop ends after as
many passes. It returns if all messages can be built, and then every frame holds the message of its
fragment. -/
theorem symbolLoop_yields (hiq : iq.length = flow.ruNofPrbs * nofSubcarriersPerRb)
    (hfit : 0 < flow.fit frameSize) (passes : Nat) {r n next : Nat} (hr : 0 < r)
    (hn : segments (flow.fit frameSize) r = n) (hnext : next + r = flow.ruNofPrbs)
    (seqId : UInt8) (done : List (List UInt8)) :
    Yields (passes < n)
      (ReturnsIff (∀ f ∈ fragments (flow.fit frameSize) n next r, flow.Builds frameSize iq f)
        (· = filled (done ++
          flow.builtFrames ctx iq seqId (fragments (flow.fit frameSize) n next r))))
      (flow.symbolLoop ctx frameSize iq passes
        ⟨flow.calculator next, seqId, filled done ++ reservedFrames n⟩) := by
  induction passes generalizing r n next seqId done with
  | zero => exact hn ▸ segments_pos hfit hr
  | succ passes ih =>
    obtain ⟨m, rfl⟩ : ∃ m, n = m + 1 := ⟨n - 1, by have := segments_pos hfit hr; omega⟩
    have hpass := flow.symbolPass_spec ctx hiq hfit seqId hr hnext done (reservedFrames m)
    rw [reservedFrames, List.replicate_succ, symbolLoop, ← reservedFrames]
    cases hres : flow.symbolPass ctx frameSize iq
        ⟨flow.calculator next, seqId, filled done ++ ⟨.reserved, none⟩ :: reservedFrames m⟩ with
    | error e =>
      rw [hres] at hpass
      exact fun hall => hpass (hall _ (head_mem_fragments ..))
    | ok v =>
      rw [hres] at hpass
      obtain ⟨hbuilds, rfl⟩ := hpass
      rw [fragments]
      by_cases hlast : r ≤ flow.fit frameSize
      · obtain rfl : m = 0 := Nat.succ.inj (hn.symm.trans (segments_of_le hr hlast))
        rw [Nat.min_eq_left hlast] at hbuilds ⊢
        rw [decide_eq_true hlast, if_pos hlast]
        refine ⟨fun f hf => List.mem_singleton.1 hf ▸ hbuilds, ?_⟩
        simp [reservedFrames, builtFrames]
      · have hmore : flow.fit frameSize < r := by omega
        rw [segments_of_lt hfit hmore] at hn
        rw [Nat.min_eq_right hmore.le] at hbuilds ⊢
        rw [decide_eq_false hlast, if_neg hlast, List.forall_mem_cons, and_iff_right hbuilds,
          Nat.add_lt_add_iff_right, builtFrames, List.append_cons]
        exact ih (by omega) (Nat.succ.inj hn) (by omega) (seqId + 1) _

end

/-! ## Decodable symbols -/

/-- Ranges, each with its first element and its number of elements, that cover `[s, n)` in order. -/
def Covers : Nat → Nat → List (Nat × Nat) → Prop
  | s, n, [] => s = n
  | s, n, (start, count) :: rs => start = s ∧ 0 < count ∧ Covers (s + count) n rs

/-- A frame that fits its buffer, announces a range of blocks in its section header and carries the
samples of these blocks. -/
structure Carries (frameSize : Nat) (iq : List α) (frame : List UInt8) (range : Nat × Nat) :
    Prop where
  fits : frame.length ≤ frameSize
  announced : ∃ header rest, readSectionHeader flow.ruNofPrbs
      ⟨flow.offset + 4, frame.drop (flow.offset + 4)⟩ = .ok (header, rest) ∧
    (header.startPrb, header.nofPrbs) = range
  samples : flow.compressor.compress flow.comprParams (blocks iq range.1 range.2) =
    some ((frame.drop flow.headersSize).take (flow.prbSize * range.2))

/-- The frames carry the blocks of the RU, in order. -/
def Decodable (frameSize : Nat) (iq : List α) (frames : List (List UInt8)) : Prop :=
  ∃ ranges, Covers 0 flow.ruNofPrbs ranges ∧ List.Forall₂ (flow.Carries frameSize iq) frames ranges

/-- The frames sent for a symbol: those that `enqueue_section_type_1_message_symbol_burst` fills, of
the frames that the pool reserves for a symbol. -/
def symbolFrames (frameSize : Nat) (iq : List α) (seqId : UInt8) (passes : Nat) :
    Option (Except TxFault (List (List UInt8))) := do
  let nofFrames ← calculateNofSegments frameSize flow.ruNofPrbs flow.comprParams flow.headersSize
  let result ← flow.symbolLoop ctx frameSize iq passes
    ⟨.create 0 flow.ruNofPrbs flow.comprParams, seqId, reservedFrames nofFrames⟩
  return result.map fun frames => frames.filterMap (·.content)

/-- The frame sizes for which every symbol can be decoded. -/
structure FrameSizeOk (frameSize : Nat) : Prop extends flow.Sendable frameSize where
  /-- The number of blocks of a fragment can be announced. -/
  announced : (frameSize - flow.headersSize) / flow.prbSize ≤ 255 ∨
    flow.ruNofPrbs ≤ (frameSize - flow.headersSize) / flow.prbSize

theorem Covers.le {s n : Nat} {rs : List (Nat × Nat)} (h : Covers s n rs) : s ≤ n := by
  induction rs generalizing s with
  | nil => exact Nat.le_of_eq h
  | cons r rs ih =>
    have := ih h.2.2
    omega

theorem Covers.eq_nil {n : Nat} {rs : List (Nat × Nat)} (h : Covers n n rs) : rs = [] := by
  cases rs with
  | nil => rfl
  | cons r rs =>
    have hpos := h.2.1
    have hle := h.2.2.le
    omega

theorem covers_fragments {fit : Nat} (hfit : 0 < fit) {n s r : Nat} (hr : 0 < r)
    (hn : segments fit r = n) : Covers s (s + r) (fragments fit n s r) := by
  induction n generalizing s r with
  | zero => exact absurd hn (segments_pos hfit hr).ne'
  | succ n ih =>
    rw [fragments]
    split
    · exact ⟨rfl, hr, rfl⟩
    · next h =>
      rw [segments_of_lt hfit (Nat.lt_of_not_le h)] at hn
      have hrest := ih (s := s + fit) (r := r - fit) (by omega) (Nat.succ.inj hn)
      rw [show s + fit + (r - fit) = s + r by omega] at hrest
      exact ⟨rfl, hfit, hrest⟩

theorem mem_fragments {fit : Nat} (hfit : 0 < fit) {passes s r : Nat} (hr : 0 < r) {a k : Nat}
    (h : (a, k) ∈ fragments fit passes s r) :
    0 < k ∧ k ≤ fit ∧ a + k ≤ s + r ∧ (r ≤ fit → a = s ∧ k = r) := by
  induction passes generalizing s r with
  | zero => cases h
  | succ passes ih =>
    rw [fragments] at h
    split at h
    · obtain ⟨rfl, rfl⟩ := Prod.mk.inj (List.mem_singleton.1 h)
      exact ⟨hr, ‹_›, le_refl _, fun _ => ⟨rfl, rfl⟩⟩
    · rcases List.mem_cons.1 h with h | h
      · cases h
        omega
      · have := ih (by omega) h
        omega

theorem Covers.exists_mem {s n i : Nat} {rs : List (Nat × Nat)} (h : Covers s n rs) (hs : s ≤ i)
    (hi : i < n) : ∃ r ∈ rs, r.1 ≤ i ∧ i < r.1 + r.2 := by
  induction rs generalizing s with
  | nil => exact absurd h (by rw [Covers]; omega)
  | cons r rs ih =>
    obtain ⟨hstart, -, hrest⟩ := h
    by_cases hin : i < s + r.2
    · exact ⟨r, List.mem_cons_self, by omega, by omega⟩
    · obtain ⟨r', hr', hi'⟩ := ih hrest (by omega)
      exact ⟨r', List.mem_cons_of_mem _ hr', hi'⟩

/-- Blocks that do not fit in one frame are sent in several fragments. -/
theorem fragments_of_lt {fit s r : Nat} (hfit : 0 < fit) (h : fit < r) :
    ∃ f fs, fragments fit (segments fit r) s r = (s, fit) :: f :: fs := by
  obtain ⟨p, hp⟩ : ∃ p, segments fit (r - fit) = p + 1 :=
    ⟨_, (Nat.succ_pred_eq_of_pos (segments_pos hfit (by omega))).symm⟩
  rw [segments_of_lt hfit h, hp, fragments, if_neg (by omega), fragments]
  split
  · exact ⟨_, _, rfl⟩
  · exact ⟨_, _, rfl⟩

theorem readBack_eq_self {n s k : Nat} (hk : 0 < k) (h : k ≤ 255 ∨ s = 0 ∧ k = n) :
    readBack n s k = (s, k) := by
  rw [readBack]
  split
  · obtain ⟨rfl, rfl⟩ : s = 0 ∧ k = n := by omega
    rfl
  · rfl

section

variable {frameSize : Nat} {iq : List α}

def sentFrames (frameSize : Nat) (iq : List α) (seqId : UInt8) : List (List UInt8) :=
  flow.builtFrames ctx iq seqId (fragments (flow.fit frameSize)
    (segments (flow.fit frameSize) flow.ruNofPrbs) 0 flow.ruNofPrbs)

/-- All messages can be built if the first one fits its frame and every block can be compressed. -/
theorem forall_builds_iff (hiq : iq.length = flow.ruNofPrbs * nofSubcarriersPerRb)
    (hfit : 0 < flow.fit frameSize) :
    (∀ f ∈ fragments (flow.fit frameSize) (segments (flow.fit frameSize) flow.ruNofPrbs) 0
        flow.ruNofPrbs, flow.Builds frameSize iq f) ↔
      flow.Sendable frameSize ∧ flow.Compressible iq := by
  have hpos := flow.nofPrbs_pos
  have hprbs : iq.length / nofSubcarriersPerRb = flow.ruNofPrbs := by
    rw [hiq, Nat.mul_div_cancel _ (by decide)]
  rw [flow.sendable_iff hfit]
  constructor
  · intro hall
    refine ⟨?_, fun i hi => ?_⟩
    · obtain ⟨m, hm⟩ : ∃ m, segments (flow.fit frameSize) flow.ruNofPrbs = m + 1 :=
        ⟨_, (Nat.succ_pred_eq_of_pos (segments_pos hfit hpos)).symm⟩
      rw [hm] at hall
      exact (hall _ (head_mem_fragments ..)).fits
    · obtain ⟨f, hf, hle, hlt⟩ := (covers_fragments hfit (s := 0) hpos rfl).exists_mem i.zero_le
        (by omega)
      have hend := (mem_fragments hfit hpos hf).2.2.1
      exact (flow.compresses_iff (by omega)).1 (hall f hf).compresses i hle hlt
  · rintro ⟨hfits, hcompressible⟩ ⟨a, k⟩ hf
    obtain ⟨-, hkfit, hak, -⟩ := mem_fragments hfit hpos hf
    exact ⟨hfits.mono (by omega), (flow.compresses_iff (by omega)).2 fun i _ hi =>
      hcompressible i (by omega)⟩

/-- A symbol is sent, with enough passes, if and only if the frames can carry the messages and the
blocks can be compressed. -/
theorem symbolLoop_spec (hiq : iq.length = flow.ruNofPrbs * nofSubcarriersPerRb)
    (hfit : 0 < flow.fit frameSize) (seqId : UInt8) (passes : Nat) :
    Yields (passes < segments (flow.fit frameSize) flow.ruNofPrbs)
      (ReturnsIff (flow.Sendable frameSize ∧ flow.Compressible iq)
        (· = filled (flow.sentFrames ctx frameSize iq seqId)))
      (flow.symbolLoop ctx frameSize iq passes ⟨flow.calculator 0, seqId,
        reservedFrames (segments (flow.fit frameSize) flow.ruNofPrbs)⟩) := by
  rw [← flow.forall_builds_iff hiq hfit]
  exact flow.symbolLoop_yields ctx hiq hfit passes flow.nofPrbs_pos rfl (Nat.zero_add _) seqId []

/-- What the frame of a fragment announces and carries. -/
theorem pad_frame_announced (seqId : UInt8) (iq : List α) {s : Nat} (k : Nat) (hs : s < 1024) :
    ∃ header rest, readSectionHeader flow.ruNofPrbs ⟨flow.offset + 4,
        (pad (flow.frame ctx seqId (flow.blockMessage ctx iq s k))).drop (flow.offset + 4)⟩ =
          .ok (header, rest) ∧
      (header.startPrb, header.nofPrbs) = readBack flow.ruNofPrbs s k := by
  obtain ⟨pre, zeros, hpre, heq⟩ := flow.pad_frame_eq ctx seqId iq s k
  rw [heq, List.drop_left' hpre]
  obtain ⟨header, hread, hback, -⟩ := readSectionHeader_append flow.ruNofPrbs k (flow.offset + 4)
    (serializeCompressionHeader flow.comprParams flow.header ++
      (flow.blockData iq s k ++ zeros)) hs
  exact ⟨header, _, hread, hback⟩

theorem pad_frame_samples (seqId : UInt8) {s k : Nat}
    (h : s + k ≤ iq.length / nofSubcarriersPerRb) (hc : flow.Compresses iq s k) :
    ((pad (flow.frame ctx seqId (flow.blockMessage ctx iq s k))).drop flow.headersSize).take
        (flow.prbSize * k) = flow.blockData iq s k := by
  obtain ⟨pre, zeros, hpre, heq⟩ := flow.pad_frame_eq ctx seqId iq s k
  have hheaders : (pre ++ (buildSection1Header s k ++
      serializeCompressionHeader flow.comprParams flow.header)).length = flow.headersSize := by
    rw [headersSize, upHeaderSize, flow.isSelective_eq_false, List.length_append, hpre,
      List.length_append]
    cases flow.header <;> simp [buildSection1Header, serializeCompressionHeader]
  rw [heq, ← List.append_assoc (buildSection1Header s k), ← List.append_assoc pre,
    List.drop_left' hheaders, List.take_left' (flow.length_blockData h hc)]

theorem length_pad_frame (seqId : UInt8) {s k : Nat}
    (h : s + k ≤ iq.length / nofSubcarriersPerRb) (hc : flow.Compresses iq s k) :
    (pad (flow.frame ctx seqId (flow.blockMessage ctx iq s k))).length =
      max minEthFrameLength (flow.headersSize + flow.prbSize * k) := by
  rw [pad, List.length_append, flow.length_blockFrame ctx seqId h hc, List.length_replicate]
  omega

/-- The frames of fragments whose blocks are announced correctly. -/
theorem forall_builtFrames (fs : List (Nat × Nat)) (seqId : UInt8)
    (hfs : ∀ s k, (s, k) ∈ fs → flow.Builds frameSize iq (s, k) ∧
      s + k ≤ iq.length / nofSubcarriersPerRb ∧ s < 1024 ∧ readBack flow.ruNofPrbs s k = (s, k)) :
    List.Forall₂ (flow.Carries frameSize iq) (flow.builtFrames ctx iq seqId fs) fs := by
  induction fs generalizing seqId with
  | nil => exact .nil
  | cons f fs ih =>
    obtain ⟨s, k⟩ := f
    obtain ⟨⟨hk, hc⟩, hle, hs, hback⟩ := hfs s k (by simp)
    refine .cons ⟨?_, ?_, ?_⟩ (ih (seqId + 1) fun s k h => hfs s k (List.mem_cons_of_mem _ h))
    · rw [flow.length_pad_frame ctx seqId hle hc]
      exact max_le hk.shortest hk.frame
    · obtain ⟨header, rest, hread, hheader⟩ := flow.pad_frame_announced ctx seqId iq k hs
      exact ⟨header, rest, hread, hheader.trans hback⟩
    · rw [flow.pad_frame_samples ctx seqId hle hc, hc.compress_eq]

theorem symbolFrames_eq (seqId : UInt8) (passes : Nat) :
    flow.symbolFrames ctx frameSize iq seqId passes =
      if flow.fit frameSize = 0 then none
      else (flow.symbolLoop ctx frameSize iq passes ⟨flow.calculator 0, seqId,
        reservedFrames (segments (flow.fit frameSize) flow.ruNofPrbs)⟩).map fun r =>
          r.map fun frames => frames.filterMap (·.content) := by
  rw [symbolFrames, calculateNofSegments, getPrbDataSize_eq, create_eq]
  show (if flow.fit frameSize = 0 then none else _) >>= _ = _
  split
  · rfl
  · rw [Option.map_eq_bind]
    rfl

theorem filterMap_filled (frames : List (List UInt8)) :
    (filled frames).filterMap (·.content) = frames := by
  rw [filled, List.filterMap_map]
  exact List.filterMap_some

variable {seqId : UInt8}

/-- A symbol is sent in fragments, if its messages can be built. -/
theorem symbolFrames_spec (frameSize : Nat) (hiq : iq.length = flow.ruNofPrbs * nofSubcarriersPerRb)
    (seqId : UInt8) (passes : Nat) :
    Yields (flow.fit frameSize = 0 ∨ passes < segments (flow.fit frameSize) flow.ruNofPrbs)
      (ReturnsIff (flow.Sendable frameSize ∧ flow.Compressible iq)
        (· = flow.sentFrames ctx frameSize iq seqId))
      (flow.symbolFrames ctx frameSize iq seqId passes) := by
  rw [flow.symbolFrames_eq]
  split
  · next hfit => exact .inl hfit
  next hfit =>
  have hspec := flow.symbolLoop_spec ctx hiq (Nat.pos_of_ne_zero hfit) seqId passes
  rw [or_iff_right hfit]
  refine hspec.map fun res hres => Ensures.map hres fun frames hframes => ⟨hframes.1, ?_⟩
  rw [hframes.2, filterMap_filled]

/-- In decodable frames, a fragment of more than 255 blocks is the whole carrier. -/
theorem announced_of_decodable (hfit : 0 < flow.fit frameSize)
    (h : flow.Decodable frameSize iq (flow.sentFrames ctx frameSize iq seqId)) :
    flow.fit frameSize ≤ 255 ∨ flow.ruNofPrbs ≤ flow.fit frameSize := by
  by_contra hlong
  obtain ⟨ranges, hcovers, hcarries⟩ := h
  obtain ⟨f, fs, hfs⟩ := fragments_of_lt (s := 0) hfit
    (by omega : flow.fit frameSize < flow.ruNofPrbs)
  rw [sentFrames, hfs, builtFrames] at hcarries
  obtain ⟨r, rs, hfirst, hrest, rfl⟩ := List.forall₂_cons_left_iff.1 hcarries
  obtain ⟨header, rest, hread, hheader⟩ := hfirst.announced
  obtain ⟨header', rest', hread', hheader'⟩ := flow.pad_frame_announced ctx seqId iq
    (flow.fit frameSize) (by decide : 0 < 1024)
  obtain ⟨rfl, rfl⟩ := Prod.mk.inj (Except.ok.inj (hread.symm.trans hread'))
  -- the first fragment is announced as the whole carrier, but there is a second one
  rw [← hheader, hheader', readBack, if_pos (by omega)] at hcovers
  obtain ⟨-, -, hcovers⟩ := hcovers
  rw [Nat.zero_add] at hcovers
  rw [hcovers.eq_nil] at hrest
  cases hrest

/-- **When the messages of a symbol can be decoded.** -/
theorem symbolFrames_decodable_iff (frameSize : UInt32) (seqId : UInt8)
    (iq : Vector α (flow.ruNofPrbs * nofSubcarriersPerRb)) :
    (∃ passes frames, flow.symbolFrames ctx frameSize.toNat iq.toList seqId passes =
        some (.ok frames) ∧ flow.Decodable frameSize.toNat iq.toList frames) ↔
      flow.FrameSizeOk frameSize.toNat ∧ flow.Compressible iq.toList := by
  have hiq : iq.toList.length = flow.ruNofPrbs * nofSubcarriersPerRb := Vector.length_toList
  have hpos := flow.nofPrbs_pos
  constructor
  · rintro ⟨passes, frames, hframes, hdec⟩
    obtain ⟨⟨hsend, hcompressible⟩, rfl⟩ :=
      (flow.symbolFrames_spec ctx _ hiq _ passes).of_some hframes
    have hheaders := hsend.block
    refine ⟨⟨hsend, ?_⟩, hcompressible⟩
    rw [← flow.fit_eq (by omega)]
    exact flow.announced_of_decodable ctx hsend.fit_pos hdec
  · rintro ⟨h, hcompressible⟩
    have hsend := h.toSendable
    have hfit := hsend.fit_pos
    have hheaders := hsend.block
    have hannounced := h.announced
    rw [← flow.fit_eq (by omega)] at hannounced
    obtain ⟨res, hframes, hres⟩ := (flow.symbolFrames_spec ctx frameSize.toNat hiq seqId
      (segments (flow.fit frameSize.toNat) flow.ruNofPrbs)).exists_some (by omega)
    obtain ⟨_, rfl, rfl⟩ := hres.exists_ok ⟨hsend, hcompressible⟩
    refine ⟨_, _, hframes, _, ?_, flow.forall_builtFrames ctx _ _ ?_⟩
    · have hcovers := covers_fragments hfit (s := 0) hpos rfl
      rwa [Nat.zero_add] at hcovers
    · intro a k hmem
      obtain ⟨hk, hkfit, hak, hall⟩ := mem_fragments hfit hpos hmem
      have hle : flow.ruNofPrbs ≤ 275 := flow.nofPrbs_le
      rw [hiq, Nat.mul_div_cancel _ (by decide)]
      exact ⟨(flow.forall_builds_iff hiq hfit).2 ⟨hsend, hcompressible⟩ _ hmem, by omega, by omega,
        readBack_eq_self hk (by omega)⟩

end

/-- With the generic compressors a symbol can be compressed if the values of each of its blocks can
be packed (`packs_iff`). -/
theorem compressible_iff_packs {flow : DownlinkDataFlow (BitVec 16 × BitVec 16)}
    (hgeneric : flow.compressor = genericCompressor)
    (iq : Vector (BitVec 16 × BitVec 16) (flow.ruNofPrbs * nofSubcarriersPerRb)) :
    flow.Compressible iq.toList ↔
      ∀ i < flow.ruNofPrbs, Packs flow.comprParams (sampleParts (blocks iq.toList i 1)) := by
  refine forall₂_congr fun i hi => ?_
  rw [Compresses, hgeneric, genericCompressor, Option.isSome_map]
  refine isSome_genericCompress_block flow.supported ?_
  rwa [Vector.length_toList, Nat.mul_div_cancel _ (by decide)]

/-! ## A carrier of 100 MHz -/

/-- 273 blocks, as block floating point with 9 bits, in frames with a VLAN tag. -/
def bfpFlow : DownlinkDataFlow (BitVec 16 × BitVec 16) where
  ruNofPrbs := 273
  comprParams := ⟨.bfp, 9⟩
  header := .static
  eth := ⟨.replicate 6 0, .replicate 6 0, some 1, 0xaefe⟩
  compressor := genericCompressor
  nofPrbs_pos := by decide
  nofPrbs_le := by decide
  supported := ⟨.inr rfl, by decide, by decide⟩

/-- With frames of 7300 bytes, the first message has 259 blocks and announces 273. -/
theorem bfpFlow_not_decodable :
    ¬ ∃ passes frames,
      bfpFlow.symbolFrames ⟨(⟨0, by decide⟩ : SlotPoint 1), 0, 0⟩ 7300
          (List.replicate 3276 (0, 0)) 0 passes = some (.ok frames) ∧
        bfpFlow.Decodable 7300 (List.replicate 3276 (0, 0)) frames := by
  rintro ⟨passes, frames, hframes, hdec⟩
  obtain ⟨⟨hsend, -⟩, rfl⟩ :=
    (bfpFlow.symbolFrames_spec _ _ List.length_replicate _ passes).of_some hframes
  exact absurd (bfpFlow.announced_of_decodable _ hsend.fit_pos hdec) (by decide)

end DownlinkDataFlow

end RadioStack.Ofh
