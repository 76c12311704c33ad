import RadioStack.Support.ByteBufferTrim

/-!
# Byte buffers refine sequences of bytes

Starting from empty buffers, every sequence of operations that each meet a condition on the buffers
they find (`BufferOp.Cond`) leaves buffers that show, by iteration, `segments()`, indexing and
`length()`, what the operations on sequences of bytes give. The condition is necessary: an operation
that does not meet it goes through a dead pointer, fails an assertion, or leaves a buffer that does
not show its bytes.

What the condition excludes are buffers that were trimmed to empty and used again, moves of a buffer
whose first segment is gone, single bytes for segments that are not longer than the default
headroom, and 2³² bytes or more.

**Theorem (`refines_iff`).** In every such run the buffers show the sequences, and the next
operation goes right iff it meets the condition. -/

namespace RadioStack

open ByteBuffer

variable {sizes : SegmentSizes}

namespace BufferOp

open Function (update)

/-- The operation goes through live pointers and leaves no segment without payload behind another
one. -/
def Ready (sizes : SegmentSizes) (bufs : Nat → ByteBuffer) : BufferOp → Prop
  | appendByte i _ => AppendByteReady sizes (bufs i)
  | appendSpan i bytes => bytes ≠ [] → AppendReady (bufs i)
  | appendBuffer i j => (bufs j).length ≠ 0 → AppendReady (bufs i)
  | appendMove i j =>
    (bufs i).length ≠ 0 → (bufs j).length ≠ 0 → AppendReady (bufs i) ∧ MoveReady (bufs j)
  | prependSpan i bytes => PrependSpanReady sizes bytes (bufs i)
  | reservePrepend i bytes => ReserveReady sizes bytes (bufs i)
  | trimTail i n => n ≠ 0 → AppendReady (bufs i)
  | trimHead _ _ | linearize _ | deepCopy _ _ => True

/-- The operation goes right: it is ready, and no buffer becomes longer than an `unsigned` counts.
-/
def Cond (sizes : SegmentSizes) (bufs : Nat → ByteBuffer) (op : BufferOp) : Prop :=
  op.Ready sizes bufs ∧ ∀ k, (op.apply (fun i => (bufs i).bytes) k).length < 2 ^ 32

/-- One operation that its callers may make and that meets the condition. -/
def goodStep (sizes : SegmentSizes) (bufs : Nat → ByteBuffer) (op : BufferOp)
    (bufs' : Nat → ByteBuffer) : Prop :=
  op.Legal bufs ∧ op.Cond sizes bufs ∧ op.step sizes bufs = .ok bufs'

def applyAll (ops : List BufferOp) : Nat → List UInt8 := ops.foldl apply fun _ => []

end BufferOp

open BufferOp (apply)

/-- Every buffer represents its sequence. -/
def RepresentsAll (sizes : SegmentSizes) (bufs : Nat → ByteBuffer) (seqs : Nat → List UInt8) :
    Prop :=
  ∀ i, (bufs i).Represents sizes (seqs i)

section Step

variable {bufs bufs' : Nat → ByteBuffer} {seqs : Nat → List UInt8} {op : BufferOp}

open Function (update)

theorem RepresentsAll.update (h : RepresentsAll sizes bufs seqs) {buf : ByteBuffer}
    {seq : List UInt8} (i : Nat) (hbuf : buf.Represents sizes seq) :
    RepresentsAll sizes (update bufs i buf) (update seqs i seq) := by
  intro k
  by_cases hk : k = i
  · subst hk
    rwa [Function.update_self, Function.update_self]
  · rw [Function.update_of_ne hk, Function.update_of_ne hk]
    exact h k

theorem RepresentsAll.bytes_eq (h : RepresentsAll sizes bufs seqs) :
    (fun i => (bufs i).bytes) = seqs :=
  funext fun i => (h i).bytes_eq

variable {x : Except BufferFault ByteBuffer}

/-- What an operation does to the buffers: unless it is ready, it fails or leaves a gap. -/
def StepDoes (sizes : SegmentSizes) (ready : Prop) (seqs : Nat → List UInt8) :
    Except BufferFault (Nat → ByteBuffer) → Prop :=
  Ensures (fun _ => ¬ ready) fun bufs =>
    ready ∧ RepresentsAll sizes bufs seqs ∨ ¬ ready ∧ ∃ k, (bufs k).Gapped

theorem stepDoes_update {ready : Prop} {seq : List UInt8} (i : Nat)
    (h : RepresentsAll sizes bufs seqs) (hx : Does sizes ready seq x) :
    StepDoes sizes ready (update seqs i seq) (update bufs i <$> x) :=
  hx.map fun buf hbuf => hbuf.imp (fun hbuf => ⟨hbuf.1, h.update i hbuf.2⟩) fun hbuf =>
    ⟨hbuf.1, i, by rw [Function.update_self]; exact hbuf.2⟩

/-- A ready operation succeeds, and the buffers represent what the sequences become. -/
theorem step_does (h : RepresentsAll sizes bufs seqs) (hlegal : op.Legal bufs) :
    StepDoes sizes (op.Ready sizes bufs) (apply seqs op) (op.step sizes bufs) := by
  cases op with
  | appendByte i byte => exact stepDoes_update i h (does_of_returnsIff (appendByte_spec (h i)))
  | appendSpan i bytes =>
    refine stepDoes_update i h ((appendSpan_spec bytes (h i)).imp (fun hn _ => hn) ?_)
    exact fun _ hready hrep => .inl ⟨hready, hrep.1⟩
  | appendBuffer i j =>
    exact stepDoes_update i h (does_of_returnsIff (appendBuffer_spec (h i) (h j)))
  | appendMove i j =>
    refine (appendMove_spec (h i) (h j)).map fun r ⟨hempty, hr⟩ =>
      hr.imp (fun hr => ?_) fun hr => ?_
    · exact ⟨hr.1, (h.update j hempty).update i hr.2⟩
    · exact ⟨hr.1, i, by rw [Function.update_self]; exact hr.2⟩
  | prependSpan i bytes => exact stepDoes_update i h (prependSpan_spec bytes (h i))
  | reservePrepend i bytes => exact stepDoes_update i h (reservePrepend_spec bytes (h i))
  | trimHead i n => exact stepDoes_update i h (does_of_returnsIff (trimHead_spec (h i) hlegal))
  | trimTail i n => exact stepDoes_update i h (does_of_returnsIff (trimTail_spec (h i) hlegal))
  | linearize i =>
    refine (linearize_spec (h i)).map (absurd trivial) fun r _ hrep => .inl ⟨trivial, ?_⟩
    rw [apply, ← Function.update_eq_self i seqs]
    exact h.update i hrep
  | deepCopy i j => exact stepDoes_update j h (does_of_returnsIff (deepCopy_spec (h i)))

theorem step_of_ready (h : RepresentsAll sizes bufs seqs) (hlegal : op.Legal bufs)
    (hready : op.Ready sizes bufs) :
    ∃ bufs', op.step sizes bufs = .ok bufs' ∧ RepresentsAll sizes bufs' (apply seqs op) := by
  have hstep := step_does h hlegal
  cases hok : op.step sizes bufs with
  | ok bufs' => exact ⟨bufs', rfl, ((hstep.of_ok hok).resolve_right fun hn => hn.1 hready).2⟩
  | error e => exact absurd hready (hstep.of_error hok)

/-- One operation: the result shows what the sequences become iff the condition is met. -/
theorem step_shows_iff (h : RepresentsAll sizes bufs seqs) (hlegal : op.Legal bufs) :
    (∃ bufs', op.step sizes bufs = .ok bufs' ∧ ∀ k, (bufs' k).Shows (apply seqs op k)) ↔
      op.Cond sizes bufs := by
  constructor
  · rintro ⟨bufs', hok, hshow⟩
    refine ⟨?_, fun k => ?_⟩
    · rcases (step_does h hlegal).of_ok hok with hready | ⟨-, k, hgap⟩
      · exact hready.1
      · exact absurd hgap (hshow k).not_gapped
    rw [h.bytes_eq]
    exact (hshow k).length_lt
  · rintro ⟨hready, hlen⟩
    obtain ⟨bufs', hok, hrep⟩ := step_of_ready h hlegal hready
    rw [h.bytes_eq] at hlen
    exact ⟨bufs', hok, fun k => (hrep k).shows (hlen k)⟩

end Step

/-! ## Runs -/

section Runs

variable {bufs bufs' : Nat → ByteBuffer} {seqs : Nat → List UInt8} {ops : List BufferOp}

/-- A run of operations that meet the condition follows the sequences. -/
theorem run_represents (hrun : Run (BufferOp.goodStep sizes) bufs ops bufs')
    (h : RepresentsAll sizes bufs seqs) (hlen : ∀ k, (seqs k).length < 2 ^ 32) :
    RepresentsAll sizes bufs' (ops.foldl apply seqs) ∧
      ∀ k, (ops.foldl apply seqs k).length < 2 ^ 32 := by
  induction hrun generalizing seqs with
  | nil => exact ⟨h, hlen⟩
  | cons hstep _ ih =>
    obtain ⟨hlegal, ⟨hready, hlen'⟩, hok⟩ := hstep
    obtain ⟨bufs₁, hok₁, hrep⟩ := step_of_ready h hlegal hready
    obtain rfl := Except.ok.inj (hok₁.symm.trans hok)
    rw [h.bytes_eq] at hlen'
    exact ih hrep hlen'

theorem refines_iff (sizes : SegmentSizes)
    (hrun : Run (BufferOp.goodStep sizes) (fun _ => none) ops bufs) :
    (∀ k, (bufs k).Shows (BufferOp.applyAll ops k)) ∧
    ∀ op : BufferOp, op.Legal bufs →
      ((∃ bufs', op.step sizes bufs = .ok bufs' ∧
        ∀ k, (bufs' k).Shows (BufferOp.applyAll (ops ++ [op]) k)) ↔ op.Cond sizes bufs) := by
  have hnone : RepresentsAll sizes (fun _ => none) fun _ => [] := fun _ => rfl
  obtain ⟨hrep, hlen⟩ := run_represents hrun hnone fun _ => Nat.two_pow_pos 32
  refine ⟨fun k => (hrep k).shows (hlen k), fun op hlegal => ?_⟩
  rw [BufferOp.applyAll, List.foldl_append]
  exact step_shows_iff hrep hlegal

end Runs

/-- Buffers after three bytes were appended to the first of them: the headroom takes its whole first
segment. -/
def threeBytes : Nat → ByteBuffer :=
  Function.update (fun _ => none) 0
    (some ⟨[⟨2, [], 0, true⟩, ⟨0, [1, 2, 3], 1, false⟩], .last, 3⟩)

theorem goodStep_threeBytes : BufferOp.goodStep ⟨2, 4, by decide⟩ (fun _ => none)
    (.appendSpan 0 [1, 2, 3]) threeBytes := by
  refine ⟨trivial, ⟨nofun, fun k => ?_⟩, rfl⟩
  by_cases hk : k = 0
  · subst hk
    exact (by decide : 3 < 2 ^ 32)
  · rw [apply, Function.update_of_ne hk]
    exact Nat.two_pow_pos 32

theorem refines_threeBytes :
    (∀ k, (threeBytes k).Shows (BufferOp.applyAll [.appendSpan 0 [1, 2, 3]] k)) ∧
    ∀ op : BufferOp, op.Legal threeBytes →
      ((∃ bufs', op.step ⟨2, 4, by decide⟩ threeBytes = .ok bufs' ∧
        ∀ k, (bufs' k).Shows (BufferOp.applyAll ([.appendSpan 0 [1, 2, 3]] ++ [op]) k)) ↔
        op.Cond ⟨2, 4, by decide⟩ threeBytes) :=
  refines_iff ⟨2, 4, by decide⟩ (.single goodStep_threeBytes)

/-- A buffer that is trimmed to empty keeps its control block, with null pointers; the next append
of a span goes through the tail pointer. -/
theorem append_after_trimTail :
    ∃ bufs, Run (fun s (op : BufferOp) t => op.Legal s ∧ op.step ⟨20, 60, by decide⟩ s = .ok t)
      (fun _ => none) [.appendSpan 0 [7], .trimTail 0 1] bufs ∧
      (BufferOp.appendSpan 0 [8]).Legal bufs ∧
      (BufferOp.appendSpan 0 [8]).step ⟨20, 60, by decide⟩ bufs = .error .segment :=
  ⟨_, .cons ⟨trivial, rfl⟩ (.single ⟨Nat.le_refl 1, rfl⟩), trivial, rfl⟩

end RadioStack
