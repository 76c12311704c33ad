import RadioStack.Lib.Run
import RadioStack.Lib.Outcome
import RadioStack.Lib.Segmented

/-!
# The byte buffer

A `byte_buffer` is a pointer to a control block, or null. The control block holds an intrusive list
of segments, each a block of memory divided into headroom, payload and tailroom; the list's head and
tail pointers; the number of bytes; and a pointer to the one segment that lives in the memory block
of the control block itself, which is smaller than the others.

The list is modelled by the chain of segments that starts at the head pointer. The tail pointer is
null, or points to the last segment of that chain, or to a segment that has been destroyed
(`TailPtr`); the segment of the control block's memory block carries a flag, so the pointer to it is
live iff some segment of the chain has the flag. Every access through a pointer that is not live is
a fault, and so is a failed assertion. Allocations succeed, for every segment size. -/

namespace RadioStack

/-- Why an operation on a byte buffer goes wrong. -/
inductive BufferFault
  /-- A null or destroyed segment is accessed. -/
  | segment
  /-- The control block of a buffer without one is accessed. -/
  | controlBlock
  | assertion
  /-- A loop ran out of the iterations given to it. -/
  | fuel
  deriving DecidableEq, Repr

/-- The sizes of the segments: both come from memory blocks of one size, and the first segment
shares its block with the control block. -/
structure SegmentSizes where
  first : Nat
  regular : Nat
  first_lt : first < regular

structure BufferSegment where
  headroom : Nat
  payload : List UInt8
  tailroom : Nat
  /-- It is the segment in the memory block of its control block. -/
  inControlBlock : Bool
  deriving DecidableEq, Repr

namespace BufferSegment

section

variable (s : BufferSegment)

def length : Nat := s.payload.length

def capacity : Nat := s.headroom + s.length + s.tailroom

def new (size headroom : Nat) (inControlBlock : Bool) : BufferSegment :=
  ⟨min headroom size, [], size - min headroom size, inControlBlock⟩

def append (bytes : List UInt8) : Except BufferFault BufferSegment :=
  if bytes.length ≤ s.tailroom then
    .ok { s with payload := s.payload ++ bytes, tailroom := s.tailroom - bytes.length }
  else .error .assertion

/-- `prepend`, and `reserve_prepend` with the bytes that the memory happens to hold. -/
def prepend (bytes : List UInt8) : Except BufferFault BufferSegment :=
  if bytes.length ≤ s.headroom then
    .ok { s with payload := bytes ++ s.payload, headroom := s.headroom - bytes.length }
  else .error .assertion

def trimHead (n : Nat) : BufferSegment :=
  { s with payload := s.payload.drop n, headroom := s.headroom + n }

/-- Shortens the payload to `n` bytes. -/
def resize (n : Nat) : BufferSegment :=
  { s with payload := s.payload.take n, tailroom := s.tailroom + (s.length - n) }

def trimTail (n : Nat) : BufferSegment := s.resize (s.length - n)

end

end BufferSegment

/-- Where the tail pointer of a segment list points to. -/
inductive TailPtr
  | null
  /-- The last segment of the list. -/
  | last
  /-- A segment that has been destroyed. -/
  | destroyed
  deriving DecidableEq, Repr

structure ControlBlock where
  /-- The segments, from the head pointer on. -/
  segments : List BufferSegment
  tail : TailPtr
  pktLen : Nat
  deriving DecidableEq, Repr

/-- A byte buffer: a control block, or none. -/
abbrev ByteBuffer := Option ControlBlock

namespace ControlBlock

section

variable (cb : ControlBlock)

/-- The segment at the head pointer. -/
def headSegment : Except BufferFault BufferSegment :=
  match cb.segments with
  | [] => .error .segment
  | s :: _ => .ok s

/-- The segment at the tail pointer. -/
def tailSegment : Except BufferFault BufferSegment :=
  match cb.tail, cb.segments.getLast? with
  | .last, some s => .ok s
  | _, _ => .error .segment

variable (s : BufferSegment)

def setHead : ControlBlock :=
  { cb with segments := s :: cb.segments.tail }

def setTail : ControlBlock :=
  { cb with segments := cb.segments.dropLast ++ [s] }

def addLen (n : Nat) : ControlBlock := { cb with pktLen := cb.pktLen + n }

/-- `push_back` writes to the tail segment unless the head pointer is null. -/
def pushBack : Except BufferFault ControlBlock :=
  match cb.segments with
  | [] => .ok { cb with segments := [s], tail := .last }
  | _ => do
    let _ ← cb.tailSegment
    return { cb with segments := cb.segments ++ [s], tail := .last }

/-- `push_front` sets the tail pointer only if it is null. -/
def pushFront : ControlBlock :=
  { cb with segments := s :: cb.segments, tail := if cb.tail = .null then .last else cb.tail }

/-- `pop_back` and the destruction of the segment, for a live tail pointer. -/
def popBack : ControlBlock :=
  { cb with segments := cb.segments.dropLast
            tail := if cb.segments.dropLast = [] then .null else .last }

end

end ControlBlock

namespace ByteBuffer

/-- The headroom of the first segment of a buffer. -/
def defaultFirstSegmentHeadroom : Nat := 16

def length : ByteBuffer → Nat
  | none => 0
  | some cb => cb.pktLen

section Operations

variable (sizes : SegmentSizes)

/-! ## Segments -/

def addHeadSegment (headroom : Nat) : ControlBlock :=
  ⟨[.new sizes.first headroom true], .last, 0⟩

def createSegment (headroom : Nat) : BufferSegment := .new sizes.regular headroom false

section

variable (buf : ByteBuffer)

def appendSegment (headroom : Nat) : Except BufferFault ControlBlock :=
  match buf with
  | none => .ok (addHeadSegment sizes headroom)
  | some cb => cb.pushBack (createSegment sizes headroom)

def prependSegment (headroom : Nat) : ControlBlock :=
  match buf with
  | none => addHeadSegment sizes headroom
  | some cb => cb.pushFront (createSegment sizes headroom)

/-! ## Append -/

/-- Adds a segment if the tail segment is full. -/
def appendRoom (cb : ControlBlock) : Except BufferFault ControlBlock := do
  let t ← cb.tailSegment
  if t.tailroom = 0 then cb.pushBack (createSegment sizes 0) else return cb

/-- The segment-wise copy of bytes to the tail; the callers add the number of bytes to the length.
-/
def appendLoop : Nat → ControlBlock → List UInt8 → Except BufferFault ControlBlock
  | _, cb, [] => .ok cb
  | 0, _, _ :: _ => .error .fuel
  | fuel + 1, cb, b :: bs => do
    let cb ← appendRoom sizes cb
    let t ← cb.tailSegment
    let toWrite := min t.tailroom (b :: bs).length
    let t ← t.append ((b :: bs).take toWrite)
    appendLoop fuel (cb.setTail t) ((b :: bs).drop toWrite)

def appendBytes (cb : ControlBlock) (bytes : List UInt8) : Except BufferFault ControlBlock := do
  let cb ← appendLoop sizes bytes.length cb bytes
  return cb.addLen bytes.length

def appendSpan (bytes : List UInt8) : Except BufferFault ByteBuffer :=
  if bytes = [] then .ok buf
  else some <$> appendBytes sizes
    (buf.getD (addHeadSegment sizes defaultFirstSegmentHeadroom)) bytes

/-- The part of `append(byte)` that finds or makes room. -/
def appendByteRoom : Except BufferFault ControlBlock :=
  match buf with
  | none => appendSegment sizes none defaultFirstSegmentHeadroom
  | some cb =>
    if cb.pktLen = 0 then appendSegment sizes (some cb) defaultFirstSegmentHeadroom
    else do
      let t ← cb.tailSegment
      if t.tailroom = 0 then appendSegment sizes (some cb) defaultFirstSegmentHeadroom
      else return cb

def appendByte (byte : UInt8) : Except BufferFault ByteBuffer := do
  let cb ← appendByteRoom sizes buf
  let t ← cb.tailSegment
  let t ← t.append [byte]
  return some ((cb.setTail t).addLen 1)

/-- The control block that another buffer is copied to: a new one takes the headroom of the other
buffer's head segment. -/
def copyTarget (ocb : ControlBlock) : Except BufferFault ControlBlock :=
  match buf with
  | none => (fun s => addHeadSegment sizes s.headroom) <$> ocb.headSegment
  | some cb => .ok cb

end

def appendBuffer (buf other : ByteBuffer) : Except BufferFault ByteBuffer :=
  match other with
  | none => .ok buf
  | some ocb =>
    if ocb.pktLen = 0 then .ok buf
    else do
      let cb ← copyTarget sizes buf ocb
      some <$> ocb.segments.foldlM (fun cb s => appendBytes sizes cb s.payload) cb

/-- A node takes the place of the segment in the control block's memory block. -/
def replaceControlSegment (node : BufferSegment) : List BufferSegment → List BufferSegment
  | [] => []
  | s :: segs => if s.inControlBlock then node :: segs else s :: replaceControlSegment node segs

/-- The segments of a control block are linked behind those of another one, except for the one in
its own memory block, which is copied. -/
def linkSegments (cb ocb : ControlBlock) : Except BufferFault ControlBlock :=
  match ocb.segments.find? (·.inControlBlock) with
  | none => .error .segment
  | some s => do
    let node ← (createSegment sizes 0).append s.payload
    let _ ← cb.tailSegment
    return ⟨cb.segments ++ replaceControlSegment node ocb.segments, ocb.tail,
      cb.pktLen + ocb.pktLen⟩

/-- `append(byte_buffer&&)` of a buffer that nobody else refers to: both buffers afterwards. -/
def appendMove (buf other : ByteBuffer) : Except BufferFault (ByteBuffer × ByteBuffer) :=
  if other.length = 0 then .ok (buf, other)
  else if buf.length = 0 then .ok (other, none)
  else
    match buf, other with
    | some cb, some ocb => (fun cb => (some cb, none)) <$> linkSegments sizes cb ocb
    | _, _ => .error .controlBlock

/-! ## Prepend -/

/-- Adds a segment in front if there is no room in the head segment, and always in an empty
buffer. -/
def prependRoom (empty : Bool) (buf : ByteBuffer) (n : Nat) : Except BufferFault ControlBlock :=
  if empty then .ok (prependSegment sizes buf n)
  else
    match buf with
    | none => .error .controlBlock
    | some cb => do
      let h ← cb.headSegment
      return if h.headroom = 0 then prependSegment sizes buf n else cb

/-- The segment-wise copy of bytes in front of the head, from the last byte on. The length, and with
it `empty()`, changes only after the loop. -/
def prependLoop (empty : Bool) : Nat → ByteBuffer → List UInt8 → Except BufferFault ByteBuffer
  | _, buf, [] => .ok buf
  | 0, _, _ :: _ => .error .fuel
  | fuel + 1, buf, b :: bs => do
    let cb ← prependRoom sizes empty buf (b :: bs).length
    let h ← cb.headSegment
    let rest := (b :: bs).length - min h.headroom (b :: bs).length
    let h ← h.prepend ((b :: bs).drop rest)
    prependLoop empty fuel (some (cb.setHead h)) ((b :: bs).take rest)

/-- `reserve_prepend`: `bytes` is what the reserved memory happens to hold. -/
def reservePrepend (buf : ByteBuffer) (bytes : List UInt8) : Except BufferFault ByteBuffer := do
  let buf ← prependLoop sizes (decide (buf.length = 0)) (bytes.length + 1) buf bytes
  match buf with
  | none => .error .controlBlock
  | some cb => return some (cb.addLen bytes.length)

def prependSpan (buf : ByteBuffer) (bytes : List UInt8) : Except BufferFault ByteBuffer :=
  if buf.length = 0 then appendSpan sizes buf bytes else reservePrepend sizes buf bytes

def deepCopy (buf : ByteBuffer) : Except BufferFault ByteBuffer :=
  match buf with
  | none => .ok none
  | some cb => cb.segments.foldlM (fun buf s => appendSpan sizes buf s.payload) none

end Operations

/-! ## Trimming -/

/-- The loop of `trim_head`: segments without payload are removed until enough bytes are trimmed. -/
def trimHeadSegments : List BufferSegment → Nat → Except BufferFault (List BufferSegment)
  | segs, 0 => .ok segs
  | [], _ + 1 => .error .segment
  | s :: segs, n + 1 =>
    if (s.trimHead (min (n + 1) s.length)).length = 0 then
      trimHeadSegments segs (n + 1 - min (n + 1) s.length)
    else .ok (s.trimHead (min (n + 1) s.length) :: segs)

/-- `trim_head` leaves the tail pointer as it is, also if the segment it points to is removed. -/
def trimHead (buf : ByteBuffer) (n : Nat) : Except BufferFault ByteBuffer :=
  if buf.length < n then .error .assertion
  else
    match buf with
    | none => .ok none
    | some cb => do
      let segs ← trimHeadSegments cb.segments n
      return some ⟨segs, if segs = [] ∧ cb.segments ≠ [] then .destroyed else cb.tail,
        cb.pktLen - n⟩

/-- The walk of `trim_tail` to the new last segment, and the segments up to it. -/
def truncateSegments : List BufferSegment → Nat → Option (List BufferSegment)
  | [], _ => none
  | s :: segs, newLen =>
    if newLen ≤ s.length then some [s.resize newLen]
    else (truncateSegments segs (newLen - s.length)).map (s :: ·)

def trimTail (buf : ByteBuffer) (n : Nat) : Except BufferFault ByteBuffer :=
  if buf.length < n then .error .assertion
  else if n = 0 then .ok buf
  else
    match buf with
    | none => .error .controlBlock
    | some cb => do
      let t ← cb.tailSegment
      if n ≤ t.length then
        let cb := { cb.setTail (t.trimTail n) with pktLen := cb.pktLen - n }
        return some (if (t.trimTail n).length = 0 then cb.popBack else cb)
      else
        match truncateSegments cb.segments (cb.pktLen - n) with
        | none => return some cb
        | some segs => return some ⟨segs, .last, cb.pktLen - n⟩

/-! ## Linearisation -/

/-- The head and the tail pointer are equal. -/
def ControlBlock.headIsTail (cb : ControlBlock) : Bool :=
  cb.segments.length == 1 && cb.tail == .last

/-- `linearize`, with its result. -/
def linearize (buf : ByteBuffer) : Except BufferFault (Bool × ByteBuffer) :=
  match buf with
  | none => .ok (true, none)
  | some cb =>
    if cb.pktLen = 0 ∨ ControlBlock.headIsTail cb then .ok (true, some cb)
    else do
      let h ← cb.headSegment
      if h.capacity - h.headroom < cb.pktLen then return (false, some cb)
      else
        let h ← cb.segments.tail.foldlM (fun h s => h.append s.payload) h
        return (true, some { cb with segments := [h], tail := .last })

/-! ## Observations -/

/-- The bytes of one segment as the byte iterator's `++` gives them: it enters every segment, and in
one without payload it reads the byte behind it. -/
def iterateSegment (s : BufferSegment) : List (Option UInt8) :=
  if s.payload = [] then [none] else s.payload.map some

/-- The bytes between `begin()` and `end()`; `begin()` skips segments without payload. -/
def iterate : ByteBuffer → List (Option UInt8)
  | none => []
  | some cb => (cb.segments.dropWhile fun s => s.payload == []).flatMap iterateSegment

/-- The spans of a range of `rem` bytes. -/
def spans : List BufferSegment → Nat → List (List UInt8)
  | [], _ => []
  | s :: segs, rem =>
    s.payload.take (min rem (s.length % 2 ^ 32)) ::
      if rem - min rem (s.length % 2 ^ 32) = 0 then []
      else spans segs (rem - min rem (s.length % 2 ^ 32))

/-- `segments()`; the range keeps its size in an `unsigned`. -/
def segments : ByteBuffer → List (List UInt8)
  | none => []
  | some cb => spans (cb.segments.dropWhile fun s => s.payload == []) (cb.pktLen % 2 ^ 32)

/-- `operator[]`; the iterator is moved by an `unsigned`. -/
def get? (buf : ByteBuffer) (i : Nat) : Option UInt8 :=
  match buf with
  | none => none
  | some cb => Segmented.at? (cb.segments.map BufferSegment.payload) (i % 2 ^ 32)

/-- The buffer shows a sequence of bytes, however it is looked at. -/
structure Shows (buf : ByteBuffer) (bytes : List UInt8) : Prop where
  iterate : buf.iterate = bytes.map some
  segments : buf.segments.flatten = bytes
  get? : ∀ i < bytes.length, buf.get? i = bytes[i]?
  length : buf.length = bytes.length

end ByteBuffer

/-! ## Buffers and operations on them -/

/-- The operations; the numbers name the buffers. -/
inductive BufferOp
  | appendByte (i : Nat) (byte : UInt8)
  | appendSpan (i : Nat) (bytes : List UInt8)
  | appendBuffer (i j : Nat)
  | appendMove (i j : Nat)
  | prependSpan (i : Nat) (bytes : List UInt8)
  /-- With the bytes that the reserved memory happens to hold. -/
  | reservePrepend (i : Nat) (bytes : List UInt8)
  | trimHead (i n : Nat)
  | trimTail (i n : Nat)
  | linearize (i : Nat)
  /-- The copy of buffer `i` becomes buffer `j`. -/
  | deepCopy (i j : Nat)
  deriving DecidableEq, Repr

namespace BufferOp

open Function (update)

/-- One operation on a set of buffers. -/
def step (sizes : SegmentSizes) (bufs : Nat → ByteBuffer) :
    BufferOp → Except BufferFault (Nat → ByteBuffer)
  | appendByte i byte => update bufs i <$> (bufs i).appendByte sizes byte
  | appendSpan i bytes => update bufs i <$> (bufs i).appendSpan sizes bytes
  | appendBuffer i j => update bufs i <$> (bufs i).appendBuffer sizes (bufs j)
  | appendMove i j =>
    (fun r => update (update bufs j r.2) i r.1) <$> (bufs i).appendMove sizes (bufs j)
  | prependSpan i bytes => update bufs i <$> (bufs i).prependSpan sizes bytes
  | reservePrepend i bytes => update bufs i <$> (bufs i).reservePrepend sizes bytes
  | trimHead i n => update bufs i <$> (bufs i).trimHead n
  | trimTail i n => update bufs i <$> (bufs i).trimTail n
  | linearize i => (fun r => update bufs i r.2) <$> (bufs i).linearize
  | deepCopy i j => update bufs j <$> (bufs i).deepCopy sizes

/-- The operation on the sequences of bytes that the buffers stand for. -/
def apply (seqs : Nat → List UInt8) : BufferOp → Nat → List UInt8
  | appendByte i byte => update seqs i (seqs i ++ [byte])
  | appendSpan i bytes => update seqs i (seqs i ++ bytes)
  | appendBuffer i j => update seqs i (seqs i ++ seqs j)
  | appendMove i j => update (update seqs j []) i (seqs i ++ seqs j)
  | prependSpan i bytes | reservePrepend i bytes => update seqs i (bytes ++ seqs i)
  | trimHead i n => update seqs i ((seqs i).drop n)
  | trimTail i n => update seqs i ((seqs i).take ((seqs i).length - n))
  | linearize _ => seqs
  | deepCopy i j => update seqs j (seqs i)

/-- What the operations require of their callers: a buffer is not appended to itself, and no more
bytes are trimmed than there are. -/
def Legal (bufs : Nat → ByteBuffer) : BufferOp → Prop
  | appendBuffer i j | appendMove i j => i ≠ j
  | trimHead i n | trimTail i n => n ≤ (bufs i).length
  | _ => True

end BufferOp

end RadioStack
