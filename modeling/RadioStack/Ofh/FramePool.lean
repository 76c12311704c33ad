import RadioStack.Ofh.SlotPoint

/-!
# The Ethernet frame pool

`eth_frame_pool` keeps the Ethernet frames of a sector until they are sent. It has an entry for
every symbol of 20 slots, and each entry has a `frame_buffer_array` for each kind of message. A
writer reserves a block of free buffers and pushes it back with the frames it built; the array then
lists the frames, with the symbol they were pushed for. -/

namespace RadioStack.Ofh

/-! ## Frame buffers -/

inductive FrameBufferStatus where
  | free
  | reserved
  | used
  | markedToSend
  deriving DecidableEq

/-- `frame_buffer`, with frames of type `β`. -/
structure FrameBuffer (β : Type) where
  status : FrameBufferStatus
  /-- The frame; `none` if the size is 0. -/
  content : Option β
  deriving DecidableEq

/-- `frame_buffer_array`, for frames of type `β` that are pushed with a timestamp of type `τ`. -/
structure FrameBufferArray (β τ : Type) where
  /-- `increment_quant`: the buffers of one reservation. -/
  incrementQuant : Nat
  buffersArray : List (FrameBuffer β)
  /-- `used_buffers`, by their index. -/
  usedBuffers : List (Nat × τ)
  /-- The counter of `write_position`. -/
  writeCount : Nat

namespace FrameBufferArray

variable {β τ : Type}

/-- An array for the frames of a number of antennas, with two entries for each. -/
def create (nofBuffersToReturn nofAntennas : Nat) : FrameBufferArray β τ where
  incrementQuant := nofBuffersToReturn
  buffersArray := List.replicate (nofBuffersToReturn * nofAntennas * 2) ⟨.free, none⟩
  usedBuffers := []
  writeCount := 0

/-- `write_position.value()`. -/
def writePosition (a : FrameBufferArray β τ) : Nat := a.writeCount % a.buffersArray.length

/-- Changes the buffers `[pos, pos + count)`. -/
def modifyBlock (f : FrameBuffer β → FrameBuffer β) (pos count : Nat)
    (buffers : List (FrameBuffer β)) : List (FrameBuffer β) :=
  buffers.mapIdx fun i b => if pos ≤ i ∧ i < pos + count then f b else b

/-- `reserve_buffers` of the array and of its entry: the first buffer of the block, or `none` if the
block is not free, and `none` for everything if the block leaves the array. The frames in the block
are cleared. -/
def reserveBuffers (a : FrameBufferArray β τ) : Option (Option Nat × FrameBufferArray β τ) :=
  let pos := a.writePosition
  let count := a.incrementQuant
  if pos + count ≤ a.buffersArray.length then
    if ((a.buffersArray.drop pos).take count).all (·.status = .free) then
      some (some pos, { a with
        buffersArray := modifyBlock (fun _ => ⟨.reserved, none⟩) pos count a.buffersArray
        writeCount := (a.writeCount + count) % 2 ^ 32 })
    else some (none, a)
  else none

/-- The capacity of `used_buffers`. -/
def maxUsedBuffers : Nat := 128

/-- `push_buffers`, for the block from `pos` on in which its writer left `contents`; `none` if
`used_buffers` is full. -/
def pushBuffers (timestamp : τ) : Nat → List (Option β) → FrameBufferArray β τ →
    Option (FrameBufferArray β τ)
  | _, [], a => some a
  | pos, none :: contents, a =>
    pushBuffers timestamp (pos + 1) contents
      { a with buffersArray := a.buffersArray.set pos ⟨.free, none⟩ }
  | pos, some frame :: contents, a =>
    if a.usedBuffers.length < maxUsedBuffers then
      pushBuffers timestamp (pos + 1) contents { a with
        buffersArray := a.buffersArray.set pos ⟨.used, some frame⟩
        usedBuffers := a.usedBuffers ++ [(pos, timestamp)] }
    else none

end FrameBufferArray

/-! ## Entries -/

inductive CyclicPrefix where
  | normal
  | extended
  deriving DecidableEq

/-- `get_nsymb_per_slot`. -/
def CyclicPrefix.nsymb : CyclicPrefix → Nat
  | normal => 14
  | extended => 12

def nofOfdmSymPerSlotNormalCp : Nat := 14

/-- `get_pool_entry`: the index of the entry for a symbol. -/
def getPoolEntry {μ : Nat} (slot : SlotPoint μ) (symbol : Nat) : Nat :=
  (slot.slotIndex * nofOfdmSymPerSlotNormalCp + symbol) % (nofOfdmSymPerSlotNormalCp * 20)

theorem CyclicPrefix.nsymb_bounds (cp : CyclicPrefix) : 0 < cp.nsymb ∧ cp.nsymb ≤ 14 := by
  cases cp <;> decide

end RadioStack.Ofh
