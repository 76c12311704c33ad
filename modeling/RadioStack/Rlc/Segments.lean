import RadioStack.Rlc.AmPdu

/-!
# Reassembly of SDU segments

The receivers of both modes keep the segments of an incomplete SDU in a set ordered by segment
offset. `store_segment` trims a new segment, or the segments it overlaps, so that no byte is held
twice; `update_segment_inventory` walks the set to see whether the SDU is complete.
-/

namespace RadioStack.Rlc

structure RxSegment where
  si : SiField
  /-- Segment offset (`uint16_t`). -/
  so : Nat
  payload : List UInt8
  deriving DecidableEq

namespace RxSegment

def lastByte (s : RxSegment) : Nat := s.so + s.payload.length - 1

/-- Drops the bytes before `byte`. -/
def advance (s : RxSegment) (byte : Nat) : RxSegment :=
  { s with payload := s.payload.drop (byte - s.so), so := byte % 2 ^ 16 }

end RxSegment

/-- Insertion into the set of segments; a segment with the same offset is kept. -/
def insertSegment (new : RxSegment) : List RxSegment → List RxSegment
  | [] => [new]
  | s :: l =>
    if new.so < s.so then new :: s :: l
    else if s.so < new.so then s :: insertSegment new l
    else s :: l

/-- The loop of `store_segment`: `kept` lies before the current segment. -/
def storeLoop (new : RxSegment) (kept : List RxSegment) :
    List RxSegment → List RxSegment × Bool
  | [] => (insertSegment new kept, true)
  | cur :: rest =>
    -- the new segment starts after the end of the current one
    if cur.lastByte < new.so then storeLoop new (kept ++ [cur]) rest
    else if cur.so ≤ new.so then
      -- the new segment starts within the current one
      if new.lastByte ≤ cur.lastByte then (kept ++ cur :: rest, false)
      else storeLoop (new.advance (cur.lastByte + 1)) (kept ++ [cur]) rest
    -- the new segment starts before the current one
    else if new.lastByte < cur.so then (insertSegment new (kept ++ cur :: rest), true)
    else if new.lastByte < cur.lastByte then
      (insertSegment new (insertSegment (cur.advance (new.lastByte + 1)) (kept ++ rest)), true)
    else storeLoop new kept rest

/-- `store_segment`: the set with the new segment, and whether it changed. -/
def storeSegment (segments : List RxSegment) (new : RxSegment) : List RxSegment × Bool :=
  storeLoop new [] segments

/-- The loop of `update_segment_inventory`: `fully_received` and `has_gap`. -/
def segmentInventory : Nat → List RxSegment → Bool × Bool
  | _, [] => (false, false)
  | nextByte, s :: l =>
    if s.so ≠ nextByte then (false, true)
    else if s.si = .lastSegment then (true, false)
    else segmentInventory (nextByte + s.payload.length) l

/-- The slices that a `byte_buffer_chain` has place for: 40 bytes each in a block of 2048. -/
def maxNofSlices : Nat := 2048 / 40

/-- `byte_buffer_chain::append`, on the slices of the chain; `none` if it is full. -/
def appendSlice (slices : List (List UInt8)) (slice : List UInt8) : Option (List (List UInt8)) :=
  if slice = [] then some slices
  else if slices.length = maxNofSlices then none
  else some (slices ++ [slice])

/-- The loop of `reassemble_sdu`; `none` if the segments do not fit in a chain. -/
def chainSegments (segments : List RxSegment) : Option (List UInt8) :=
  (segments.foldlM (fun slices s => appendSlice slices s.payload) []).map List.flatten

theorem foldlM_appendSlice {segments : List RxSegment}
    (hpos : ∀ s ∈ segments, 0 < s.payload.length) {slices : List (List UInt8)}
    (hle : slices.length ≤ maxNofSlices) :
    segments.foldlM (fun slices s => appendSlice slices s.payload) slices =
      if slices.length + segments.length ≤ maxNofSlices
      then some (slices ++ segments.map (·.payload)) else none := by
  induction segments generalizing slices with
  | nil => simp [hle]
  | cons s segments ih =>
    obtain ⟨hs, hrest⟩ := List.forall_mem_cons.1 hpos
    rw [List.foldlM_cons, appendSlice, if_neg (List.ne_nil_of_length_pos hs), List.length_cons]
    split
    · next hfull =>
      rw [if_neg (by omega)]
      rfl
    · next hroom =>
      have hle' : (slices ++ [s.payload]).length ≤ maxNofSlices := by
        rw [List.length_append, List.length_singleton]
        omega
      have hih := ih hrest hle'
      rw [List.length_append, List.length_singleton, Nat.add_assoc, Nat.add_comm 1,
        List.append_assoc] at hih
      exact hih

theorem chainSegments_eq {segments : List RxSegment}
    (hpos : ∀ s ∈ segments, 0 < s.payload.length) :
    chainSegments segments =
      if segments.length ≤ maxNofSlices then some (segments.map (·.payload)).flatten else none := by
  rw [chainSegments, foldlM_appendSlice hpos (Nat.zero_le _), List.length_nil, Nat.zero_add]
  split <;> rfl

/-- `s` holds the bytes of `sdu` from its offset on, and is marked last where the SDU ends. -/
structure RxSegment.SliceOf (s : RxSegment) (sdu : List UInt8) : Prop where
  pos : 0 < s.payload.length
  le : s.so + s.payload.length ≤ sdu.length
  bytes : s.payload = (sdu.drop s.so).take s.payload.length
  last_iff : s.si = .lastSegment ↔ s.so + s.payload.length = sdu.length

/-- `a` ends before `b` starts. -/
def RxSegment.Before (a b : RxSegment) : Prop := a.so + a.payload.length ≤ b.so

/-- Ordered, disjoint slices of `sdu`. -/
structure SegmentsOf (sdu : List UInt8) (l : List RxSegment) : Prop where
  slices : ∀ s ∈ l, s.SliceOf sdu
  ordered : l.Pairwise RxSegment.Before

theorem RxSegment.length_advance {s : RxSegment} {b : Nat} :
    (s.advance b).payload.length = s.payload.length - (b - s.so) :=
  List.length_drop

theorem insertSegment_append {new : RxSegment} {kept rest : List RxSegment}
    (hk : ∀ s ∈ kept, s.so < new.so) (hr : ∀ s ∈ rest, new.so < s.so) :
    insertSegment new (kept ++ rest) = kept ++ new :: rest := by
  induction kept with
  | nil =>
    cases rest with
    | nil => rfl
    | cons s rest => exact if_pos (hr s (List.mem_cons_self ..))
  | cons s kept ih =>
    have hs := hk s (List.mem_cons_self ..)
    simp only [List.cons_append, insertSegment]
    rw [if_neg (by omega), if_pos hs, ih fun t ht => hk t (List.mem_cons_of_mem _ ht)]

end RadioStack.Rlc
