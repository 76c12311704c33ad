import RadioStack.Link.Codecs

/-!
# The dynamic-compression link, end to end

The sender reads a file in buffers, encodes each buffer with the option its controller has
chosen, and prepends the option and the number of blank bytes. The receiver pops the two bytes,
undoes the option and writes the buffer to its output file, until the one-byte terminator comes.

**Theorem (`link_transparent`).** Every frame decodes to its buffer and none is the terminator.
The receiver of any sequence of frames writes the buffers in order, and the receiver of a whole
run of the sender writes the file `count` times, whatever the controller chose for each frame.

The channel hands over whole messages in order, so it does not appear: the receiver's input is
the list of messages the sender sent.
-/

namespace RadioStack.Link

open Bytes

/-! ## Frames -/

/-- The codec of a frame. -/
inductive CompressionOptions where
  | none | bfp | rle | lz77
deriving DecidableEq, Repr

/-- The enumerator's value, as the sender writes it. -/
def CompressionOptions.toByte : CompressionOptions → UInt8
  | .none => 0
  | .bfp => 1
  | .rle => 2
  | .lz77 => 3

def terminator : List UInt8 := [0]

/-- The receiver's test for the terminator. -/
def isTerminator (buffer : List UInt8) : Bool :=
  buffer.length == 1 && buffer.head? == some 0

/-- One round of the sender's loop: from a buffer to the message that is sent. -/
def encodeFrame (z : Zlib) (option : CompressionOptions) (buffer : List UInt8) :
    Option (List UInt8) := do
  let blankBytes := (toIq buffer).1
  let iqSamples := (toIq buffer).2
  let serial := serialize iqSamples
  let out ← match option with
    | .bfp => bfpCompress iqSamples
    | .rle => some (rleCompress serial)
    | .lz77 => some (lz77Compress z serial)
    | .none => some serial
  return option.toByte :: UInt8.ofNat blankBytes :: out

/-- One round of the receiver's loop: from a message to the bytes that are written. A message of
fewer than two bytes makes `front` read an empty vector. -/
def decodeFrame (z : Zlib) : List UInt8 → Option (List UInt8)
  | compType :: blank :: buffer =>
    let blankBytes := blank.toNat
    match compType with
    | 0 => do fromIq (← deserialize buffer) blankBytes
    | 1 => fromIq (bfpDecompress buffer) blankBytes
    | 2 => do fromIq (← deserialize (← rleDecompress buffer)) blankBytes
    | 3 => do fromIq (← deserialize (lz77Decompress z buffer)) blankBytes
    -- an unknown type leaves the buffer as it came
    | _ => some buffer
  | _ => none

/-- The buffers that an option can carry: `bfp.compress` counts samples in 32 bits, and LZ77 sends
the length of its input as a `size_t`. -/
def CompressionOptions.Carries : CompressionOptions → List UInt8 → Prop
  | .bfp, buffer => PrbIndexFits (toIq buffer).2.length
  | .lz77, buffer => (serialize (toIq buffer).2).length < 2 ^ 64
  | _, _ => True

instance : ∀ (option : CompressionOptions) (buffer : List UInt8), Decidable (option.Carries buffer)
  | .bfp, _ => inferInstanceAs (Decidable (_ < _))
  | .lz77, _ => inferInstanceAs (Decidable (_ < _))
  | .none, _ => inferInstanceAs (Decidable True)
  | .rle, _ => inferInstanceAs (Decidable True)

/-- What the channel can announce in its 32-bit length field, every option can carry. -/
theorem carries_of_lt (option : CompressionOptions) {buffer : List UInt8}
    (h : buffer.length < 2 ^ 32) : option.Carries buffer := by
  cases option with
  | bfp =>
    rw [CompressionOptions.Carries, PrbIndexFits, length_toIq, nofSamplesPerPrb]
    omega
  | lz77 =>
    rw [CompressionOptions.Carries, length_serialize, length_toIq]
    omega
  | _ => trivial

theorem toNat_blank (buffer : List UInt8) :
    (UInt8.ofNat (toIq buffer).1).toNat = (toIq buffer).1 := by
  have := blank_le_one buffer
  rw [UInt8.toNat_ofNat']
  omega

variable {z : Zlib}

/-- **A frame decodes to its buffer**, whatever the option. -/
theorem decodeFrame_encodeFrame (hz : z.Lawful) (option : CompressionOptions)
    {buffer : List UInt8} (hcarries : option.Carries buffer) :
    ∃ out, encodeFrame z option buffer =
        some (option.toByte :: UInt8.ofNat (toIq buffer).1 :: out) ∧
      decodeFrame z (option.toByte :: UInt8.ofNat (toIq buffer).1 :: out) = some buffer := by
  cases option with
  | none =>
    refine ⟨serialize (toIq buffer).2, rfl, ?_⟩
    simp only [decodeFrame, CompressionOptions.toByte, toNat_blank, deserialize_serialize]
    exact fromIq_toIq buffer
  | bfp =>
    obtain ⟨out, hout⟩ : ∃ out, bfpCompress (toIq buffer).2 = some out :=
      ⟨_, bfpCompress_eq hcarries⟩
    have hback : bfpDecompress out = (toIq buffer).2 := by
      simpa [hout] using bfp_roundTrip hcarries
    refine ⟨out, by simp [encodeFrame, hout], ?_⟩
    simp only [decodeFrame, CompressionOptions.toByte, toNat_blank, hback]
    exact fromIq_toIq buffer
  | rle =>
    refine ⟨rleCompress (serialize (toIq buffer).2), rfl, ?_⟩
    simp only [decodeFrame, CompressionOptions.toByte, toNat_blank, rleDecompress_rleCompress]
    simp only [Option.bind_eq_bind, Option.bind_some, deserialize_serialize]
    exact fromIq_toIq buffer
  | lz77 =>
    refine ⟨lz77Compress z (serialize (toIq buffer).2), rfl, ?_⟩
    simp only [decodeFrame, CompressionOptions.toByte, toNat_blank,
      lz77Decompress_lz77Compress hz hcarries, deserialize_serialize]
    exact fromIq_toIq buffer

@[simp] theorem isTerminator_cons_cons (a b : UInt8) (rest : List UInt8) :
    isTerminator (a :: b :: rest) = false := by
  simp [isTerminator]

/-! ## The two loops -/

/-- The receiver's loop over the messages: the bytes of its output file. Without a terminator
`recv` blocks and the loop does not end. -/
def receive (z : Zlib) : List (List UInt8) → Option (List UInt8)
  | [] => none
  | buffer :: rest =>
    if isTerminator buffer then some []
    else do
      let written ← decodeFrame z buffer
      return written ++ (← receive z rest)

/-- The messages for a list of buffers and options, with the terminator. -/
def transmit (z : Zlib) : List (List UInt8 × CompressionOptions) → Option (List (List UInt8))
  | [] => some [terminator]
  | (buffer, option) :: rest => do
    let message ← encodeFrame z option buffer
    return message :: (← transmit z rest)

/-- Receiving the message of one buffer writes the buffer, then what the rest writes. -/
theorem receive_encodeFrame (hz : z.Lawful) {option : CompressionOptions}
    {buffer message : List UInt8} (hcarries : option.Carries buffer)
    (henc : encodeFrame z option buffer = some message) {rest : List (List UInt8)}
    {written : List UInt8} (hrest : receive z rest = some written) :
    receive z (message :: rest) = some (buffer ++ written) := by
  obtain ⟨out, hout, hdec⟩ := decodeFrame_encodeFrame hz option hcarries
  obtain rfl : option.toByte :: UInt8.ofNat (toIq buffer).1 :: out = message := by
    simpa [hout] using henc
  simp [receive, hdec, hrest]

theorem receive_transmit (hz : z.Lawful) :
    ∀ frames : List (List UInt8 × CompressionOptions),
      (∀ f ∈ frames, f.2.Carries f.1) →
      ∃ sent, transmit z frames = some sent ∧
        receive z sent = some (frames.map Prod.fst).flatten
  | [], _ => ⟨[terminator], rfl, rfl⟩
  | (buffer, option) :: rest, hcarries => by
    obtain ⟨sent, hsent, hrecv⟩ := receive_transmit hz rest fun f hf => hcarries f (by simp [hf])
    have hbuffer : option.Carries buffer := hcarries (buffer, option) (by simp)
    obtain ⟨out, henc, -⟩ := decodeFrame_encodeFrame hz option hbuffer
    refine ⟨_ :: sent, by simp [transmit, henc, hsent]; rfl, ?_⟩
    rw [receive_encodeFrame hz hbuffer henc hrecv]
    simp

/-! ## The file reader -/

/-- The state of `buffer_reader`: how often the file is still to be read, and the position in
it. A negative count reads nothing, as zero does. -/
structure BufferReader where
  count : Nat
  pos : Nat
deriving DecidableEq, Repr

def maxBufferSize : Nat := 20240

/-- `buffer_reader::read_buffer`: at the end of the file the position goes back to its start and
the count goes down. -/
def readBuffer (file : List UInt8) : Nat → Nat → List UInt8 × BufferReader
  | 0, pos => ([], ⟨0, pos⟩)
  | count + 1, pos =>
    let buffer := (file.drop pos).take maxBufferSize
    if buffer = [] then readBuffer file count 0
    else (buffer, ⟨count + 1, pos + buffer.length⟩)

/-- The bytes the reader has still to give. -/
def remaining (file : List UInt8) (r : BufferReader) : List UInt8 :=
  match r.count with
  | 0 => []
  | count + 1 => file.drop r.pos ++ (List.replicate count file).flatten

theorem remaining_zero_pos (file : List UInt8) (count : Nat) :
    remaining file ⟨count, 0⟩ = (List.replicate count file).flatten := by
  cases count with
  | zero => rfl
  | succ count => simp [remaining, List.replicate_succ]

/-- One read takes the next bytes off what remains, and gets closer to the end. -/
theorem readBuffer_spec (file : List UInt8) : ∀ count pos,
    let buffer := (readBuffer file count pos).1
    let r := (readBuffer file count pos).2
    remaining file ⟨count, pos⟩ = buffer ++ remaining file r ∧
      buffer.length ≤ maxBufferSize ∧
      (buffer = [] → remaining file r = []) ∧
      (buffer ≠ [] → Prod.Lex (· < ·) (· < ·)
        (r.count, file.length - r.pos) (count, file.length - pos))
  | 0, pos => by simp [readBuffer, remaining]
  | count + 1, pos => by
    simp only [readBuffer]
    split
    · rename_i hnil
      -- the file is exhausted: what remains is what remains after the rewind
      have hdrop : file.drop pos = [] := by
        rcases List.take_eq_nil_iff.1 hnil with h | h
        · simp [maxBufferSize] at h
        · exact h
      have hrem : remaining file ⟨count + 1, pos⟩ = remaining file ⟨count, 0⟩ := by
        rw [remaining_zero_pos]
        simp [remaining, hdrop]
      obtain ⟨h1, h2, h3, h4⟩ := readBuffer_spec file count 0
      refine ⟨hrem.trans h1, h2, h3, fun hne => ?_⟩
      have hlt := h4 hne
      omega
    · rename_i hne
      have hpos : 0 < ((file.drop pos).take maxBufferSize).length :=
        List.length_pos_of_ne_nil hne
      refine ⟨?_, by simp, fun h => absurd h hne, fun _ => Prod.Lex.right _ ?_⟩
      · simp only [remaining, ← List.append_assoc]
        congr 1
        rw [← List.drop_drop, List.length_take, List.length_drop]
        rcases Nat.le_total maxBufferSize (file.length - pos) with h | h
        · rw [Nat.min_eq_left h, List.take_append_drop]
        · rw [Nat.min_eq_right h, List.take_of_length_le (by simpa using h)]
          simp
          omega
      · simp only [List.length_take, List.length_drop] at hpos ⊢
        omega

/-- The sender's loop, with the option the controller has for each frame index. -/
def sendLoop (z : Zlib) (file : List UInt8) (option : Nat → CompressionOptions)
    (frameIndex : Nat) (r : BufferReader) : Option (List (List UInt8)) :=
  let next := readBuffer file r.count r.pos
  if next.1 = [] then some [terminator]
  else do
    let message ← encodeFrame z (option frameIndex) next.1
    return message :: (← sendLoop z file option (frameIndex + 1) next.2)
termination_by (r.count, file.length - r.pos)
decreasing_by exact (readBuffer_spec file r.count r.pos).2.2.2 ‹_›

/-- Whatever the controller chooses, the receiver writes what the reader had to give. -/
theorem receive_sendLoop (hz : z.Lawful) (file : List UInt8) (option : Nat → CompressionOptions)
    (frameIndex : Nat) (r : BufferReader) :
    ∃ sent, sendLoop z file option frameIndex r = some sent ∧
      receive z sent = some (remaining file r) := by
  obtain ⟨hrem, hmax, hnil, -⟩ := readBuffer_spec file r.count r.pos
  rw [sendLoop]
  by_cases hend : (readBuffer file r.count r.pos).1 = []
  · refine ⟨[terminator], by simp [hend], ?_⟩
    have hdone : remaining file r = [] := by simpa [hend, hnil hend] using hrem
    rw [hdone]
    rfl
  · have hcarries : (option frameIndex).Carries (readBuffer file r.count r.pos).1 :=
      carries_of_lt _ (lt_of_le_of_lt hmax (by decide))
    obtain ⟨out, henc, -⟩ := decodeFrame_encodeFrame hz (option frameIndex) hcarries
    obtain ⟨sent, hsent, hrecv⟩ :=
      receive_sendLoop hz file option (frameIndex + 1) (readBuffer file r.count r.pos).2
    refine ⟨_ :: sent, by simp [hend, henc, hsent]; rfl, ?_⟩
    rw [receive_encodeFrame hz hcarries henc hrecv]
    exact congrArg some hrem.symm
termination_by (r.count, file.length - r.pos)
decreasing_by exact (readBuffer_spec file r.count r.pos).2.2.2 hend

/-! ## End-to-end transparency -/

/-- **The link is transparent.** -/
theorem link_transparent (z : Zlib) (hz : z.Lawful) :
    (∀ (buffer : List UInt8) (option : CompressionOptions), buffer ≠ [] →
      option.Carries buffer →
      ∃ message, encodeFrame z option buffer = some message ∧
        isTerminator message = false ∧ decodeFrame z message = some buffer) ∧
    (∀ frames : List (List UInt8 × CompressionOptions),
      (∀ f ∈ frames, f.1 ≠ [] ∧ f.2.Carries f.1) →
      ∃ sent, transmit z frames = some sent ∧
        receive z sent = some (frames.map Prod.fst).flatten) ∧
    (∀ (file : List UInt8) (count : Nat) (option : Nat → CompressionOptions),
      ∃ sent, sendLoop z file option 0 ⟨count, 0⟩ = some sent ∧
        receive z sent = some (List.replicate count file).flatten) := by
  refine ⟨fun buffer option _ hcarries => ?_, fun frames hf => ?_, fun file count option => ?_⟩
  · obtain ⟨out, henc, hdec⟩ := decodeFrame_encodeFrame hz option hcarries
    exact ⟨_, henc, isTerminator_cons_cons _ _ _, hdec⟩
  · exact receive_transmit hz frames fun f hmem => (hf f hmem).2
  · obtain ⟨sent, hsent, hrecv⟩ := receive_sendLoop hz file option 0 ⟨count, 0⟩
    exact ⟨sent, hsent, by rw [hrecv, remaining_zero_pos]⟩

/-- The serialized samples of the buffer `[0x41, 0x42]`. -/
def sampleSource : List UInt8 := [0, 0, 0, 0x41, 0, 0, 0, 0x42]

/-- The zlib stream of `sampleSource`. -/
def sampleStream : List UInt8 :=
  [120, 156, 99, 96, 96, 112, 100, 96, 96, 112, 2, 0, 1, 143, 0, 132]

/-- A zlib that is the real one on `sampleSource` and stores every other source. -/
def sampleZlib : Zlib where
  compressBound n := n + n / 2 ^ 12 + n / 2 ^ 14 + n / 2 ^ 25 + 13
  compress destLen source :=
    let out := if source = sampleSource then sampleStream else 0 :: source
    if out.length ≤ destLen then some out else none
  uncompress destLen source :=
    let out := if source = sampleStream then sampleSource else source.drop 1
    if out.length ≤ destLen then some out else none

theorem sampleZlib_lawful : sampleZlib.Lawful where
  compress_ok source := by
    by_cases h : source = sampleSource
    · subst h
      decide
    · simp only [sampleZlib, if_neg h, List.length_cons]
      rw [if_pos (by omega)]
      rfl
  uncompress_compress destLen source out h := by
    by_cases hs : source = sampleSource
    · subst hs
      simp only [sampleZlib, if_true, Option.ite_none_right_eq_some, Option.some.injEq] at h
      rw [← h.2]
      decide
    · simp only [sampleZlib, if_neg hs, Option.ite_none_right_eq_some, Option.some.injEq] at h
      have hne : 0 :: source ≠ sampleStream := by simp [sampleStream]
      rw [← h.2]
      simp [sampleZlib, hne]

/-- The message of `[0x41, 0x42]` by LZ77, and what the receiver writes. -/
theorem link_transparent_sample :
    sampleZlib.Lawful ∧
      encodeFrame sampleZlib .lz77 [0x41, 0x42] =
        some (3 :: 0 :: 8 :: 0 :: 0 :: 0 :: 0 :: 0 :: 0 :: 0 :: sampleStream) ∧
      ∃ sent, transmit sampleZlib [([0x41, 0x42], .lz77), ([0x43], .none), ([1, 1, 1], .rle),
          ([6, 0, 255], .bfp)] = some sent ∧
        receive sampleZlib sent = some [0x41, 0x42, 0x43, 1, 1, 1, 6, 0, 255] :=
  ⟨sampleZlib_lawful, by decide, (link_transparent sampleZlib sampleZlib_lawful).2.1 _ (by decide)⟩

end RadioStack.Link
