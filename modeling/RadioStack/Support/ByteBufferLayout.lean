import RadioStack.Support.ByteBuffer

/-!
# The layout of a byte buffer

A buffer represents the sequence of the bytes of its segments. A layout is tidy if at most the head
segment is without payload (`Layout`); the byte iterator, which skips only leading segments without
payload, shows the sequence iff no such segment stands behind one with payload (`NoGap`).

Each operation is followed once through its branches: it does not go through a dead pointer and
leaves no gap if and only if the buffers it finds are ready for it, and then it keeps the layout
tidy (`Does`). -/

namespace RadioStack

variable {sizes : SegmentSizes}

namespace BufferSegment

/-- The capacity of a segment is that of its memory block. -/
def Sound (sizes : SegmentSizes) (s : BufferSegment) : Prop :=
  s.capacity = if s.inControlBlock then sizes.first else sizes.regular

theorem sound_new_first (headroom : Nat) : (new sizes.first headroom true).Sound sizes := by
  simp only [Sound, capacity, length, new, List.length_nil, if_pos]
  omega

theorem sound_new_regular (headroom : Nat) : (new sizes.regular headroom false).Sound sizes := by
  simp only [Sound, capacity, length, new, List.length_nil, Bool.false_eq_true, if_false]
  omega

variable {s : BufferSegment}

theorem Sound.append (hs : s.Sound sizes) (bytes : List UInt8) :
    ReturnsIff (bytes.length ≤ s.tailroom)
      (fun t => t.Sound sizes ∧ t.payload = s.payload ++ bytes ∧
        t.tailroom = s.tailroom - bytes.length) (s.append bytes) := by
  refine .ite (fun h => ⟨h, Eq.trans ?_ hs, rfl, rfl⟩) id
  simp only [capacity, length, List.length_append]
  omega

theorem Sound.prepend (hs : s.Sound sizes) (bytes : List UInt8) :
    ReturnsIff (bytes.length ≤ s.headroom)
      (fun t => t.Sound sizes ∧ t.payload = bytes ++ s.payload) (s.prepend bytes) := by
  refine .ite (fun h => ⟨h, Eq.trans ?_ hs, rfl⟩) id
  simp only [capacity, length, List.length_append]
  omega

theorem sound_trimHead {n : Nat} (hn : n ≤ s.length) (hs : s.Sound sizes) :
    (s.trimHead n).Sound sizes := by
  refine Eq.trans ?_ hs
  simp only [capacity, length, trimHead, List.length_drop] at hn ⊢
  omega

theorem sound_resize {n : Nat} (hn : n ≤ s.length) (hs : s.Sound sizes) :
    (s.resize n).Sound sizes := by
  refine Eq.trans ?_ hs
  simp only [capacity, length, resize, List.length_take] at hn ⊢
  omega

theorem length_resize {n : Nat} (hn : n ≤ s.length) :
    (s.resize n).length = n := by
  simp only [length, resize, List.length_take] at hn ⊢
  omega

end BufferSegment

open BufferSegment (Sound)

def contentOf (segs : List BufferSegment) : List UInt8 :=
  (segs.map BufferSegment.payload).flatten

@[simp] theorem contentOf_nil : contentOf [] = [] := rfl

@[simp] theorem contentOf_cons (s : BufferSegment) (segs : List BufferSegment) :
    contentOf (s :: segs) = s.payload ++ contentOf segs := rfl

@[simp] theorem contentOf_append (xs ys : List BufferSegment) :
    contentOf (xs ++ ys) = contentOf xs ++ contentOf ys := by
  simp [contentOf]

def Filled (sizes : SegmentSizes) (segs : List BufferSegment) : Prop :=
  ∀ s ∈ segs, s.Sound sizes ∧ s.payload ≠ []

/-- The segments hold `bytes`, and at most the head segment is without payload. -/
structure Layout (sizes : SegmentSizes) (segs : List BufferSegment) (bytes : List UInt8) :
    Prop where
  content : contentOf segs = bytes
  sound : ∀ s ∈ segs, s.Sound sizes
  tidy : ∀ s ∈ segs.tail, s.payload ≠ []

namespace Layout

variable {s t h : BufferSegment} {segs pre rest : List BufferSegment} {bytes more : List UInt8}

theorem singleton (hs : s.Sound sizes) : Layout sizes [s] s.payload :=
  ⟨List.append_nil _, fun _ h => by rwa [List.mem_singleton.1 h], nofun⟩

theorem cons_iff : Layout sizes (h :: rest) bytes ↔
    h.Sound sizes ∧ Filled sizes rest ∧ bytes = h.payload ++ contentOf rest := by
  constructor
  · intro hl
    exact ⟨hl.sound h List.mem_cons_self,
      fun s hs => ⟨hl.sound s (List.mem_cons_of_mem _ hs), hl.tidy s hs⟩, hl.content.symm⟩
  · rintro ⟨hh, hrest, rfl⟩
    refine ⟨rfl, fun s hs => ?_, fun s hs => (hrest s hs).2⟩
    rcases List.mem_cons.1 hs with rfl | hs
    · exact hh
    · exact (hrest s hs).1

theorem of_filled (hf : Filled sizes segs) : Layout sizes segs (contentOf segs) :=
  ⟨rfl, fun s hs => (hf s hs).1, fun s hs => (hf s (List.mem_of_mem_tail hs)).2⟩

/-- A segment with payload may be put behind the others. -/
theorem append (hl : Layout sizes segs bytes) (hf : Filled sizes rest) :
    Layout sizes (segs ++ rest) (bytes ++ contentOf rest) := by
  cases segs with
  | nil =>
    obtain rfl := hl.content
    exact of_filled hf
  | cons h segs =>
    obtain ⟨hh, hsegs, rfl⟩ := cons_iff.1 hl
    refine cons_iff.2 ⟨hh, ?_, by simp⟩
    intro s hs
    exact (List.mem_append.1 hs).elim (hsegs s) (hf s)

/-- Without its last segments a layout stays tidy. -/
theorem of_append (hl : Layout sizes (pre ++ rest) bytes) : Layout sizes pre (contentOf pre) := by
  refine ⟨rfl, fun s hs => hl.sound s (List.mem_append_left _ hs), fun s hs => hl.tidy s ?_⟩
  cases pre with
  | nil => cases hs
  | cons h pre => exact List.mem_append_left _ hs

end Layout

/-! ## Observations -/

variable {cb : ControlBlock}

section Observations

variable {segs : List BufferSegment}

/-- No segment without payload stands behind one with payload. -/
def NoGap (segs : List BufferSegment) : Prop :=
  segs.Pairwise fun s t => s.payload ≠ [] → t.payload ≠ []

theorem noGap_of_filled (hf : ∀ s ∈ segs, s.payload ≠ []) : NoGap segs :=
  List.pairwise_of_forall_mem_list fun _ _ t ht _ => hf t ht

theorem Layout.noGap {bytes : List UInt8} (hl : Layout sizes segs bytes) : NoGap segs := by
  cases segs with
  | nil => exact .nil
  | cons h rest => exact .cons (fun s hs _ => hl.tidy s hs) (noGap_of_filled hl.tidy)

theorem contentOf_dropWhile (segs : List BufferSegment) :
    contentOf (segs.dropWhile fun s => s.payload == []) = contentOf segs := by
  induction segs with
  | nil => rfl
  | cons s segs ih =>
    rw [List.dropWhile_cons]
    split
    · next h => rw [ih, contentOf_cons, beq_iff_eq.1 h, List.nil_append]
    · rfl

theorem flatMap_iterateSegment (hf : ∀ s ∈ segs, s.payload ≠ []) :
    segs.flatMap ByteBuffer.iterateSegment = (contentOf segs).map some := by
  induction segs with
  | nil => rfl
  | cons s segs ih =>
    rw [List.flatMap_cons, ih fun x hx => hf x (List.mem_cons_of_mem _ hx),
      ByteBuffer.iterateSegment, if_neg (hf s List.mem_cons_self), contentOf_cons, List.map_append]

/-- Behind the leading segments without payload there is no other one. -/
theorem noGap_iff : NoGap segs ↔
    ∀ s ∈ segs.dropWhile fun s => s.payload == [], s.payload ≠ [] := by
  induction segs with
  | nil => exact iff_of_true .nil nofun
  | cons h rest ih =>
    rw [NoGap, List.pairwise_cons, List.dropWhile_cons]
    split
    · next hh =>
      rw [← ih]
      exact and_iff_right fun _ _ hne => absurd (beq_iff_eq.1 hh) hne
    · next hh =>
      have hne : h.payload ≠ [] := by simpa using hh
      rw [List.forall_mem_cons]
      exact ⟨fun hg => ⟨hne, fun s hs => hg.1 s hs hne⟩,
        fun hf => ⟨fun s hs _ => hf.2 s hs, noGap_of_filled hf.2⟩⟩

/-- Iteration reads a byte outside of the payload of a segment in a gap. -/
theorem noGap_of_iterate {bytes : List UInt8} (h : ByteBuffer.iterate (some cb) = bytes.map some) :
    NoGap cb.segments := by
  refine noGap_iff.2 fun s hs hempty => ?_
  have hmem : none ∈ ByteBuffer.iterate (some cb) :=
    List.mem_flatMap.2 ⟨s, hs, by rw [ByteBuffer.iterateSegment, if_pos hempty]; simp⟩
  rw [h] at hmem
  simp at hmem

/-- Without a gap, iteration gives the bytes. -/
theorem iterate_of_noGap (h : NoGap cb.segments) :
    ByteBuffer.iterate (some cb) = (contentOf cb.segments).map some := by
  rw [ByteBuffer.iterate, flatMap_iterateSegment (noGap_iff.1 h), contentOf_dropWhile]

theorem length_spans_le (segs : List BufferSegment) (rem : Nat) :
    (ByteBuffer.spans segs rem).flatten.length ≤ rem := by
  induction segs generalizing rem with
  | nil => exact Nat.zero_le rem
  | cons s segs ih =>
    rw [ByteBuffer.spans, List.flatten_cons, List.length_append, List.length_take]
    split
    · rw [List.flatten_nil, List.length_nil]
      omega
    · have := ih (rem - min rem (s.length % 2 ^ 32))
      omega

theorem flatten_spans {rem : Nat} (h : (contentOf segs).length = rem) (hlt : rem < 2 ^ 32) :
    (ByteBuffer.spans segs rem).flatten = contentOf segs := by
  induction segs generalizing rem with
  | nil => rfl
  | cons s segs ih =>
    rw [contentOf_cons, List.length_append] at h
    have hmin : min rem (s.length % 2 ^ 32) = s.payload.length := by
      rw [BufferSegment.length, Nat.mod_eq_of_lt (by omega)]
      omega
    rw [ByteBuffer.spans, hmin, List.take_length, List.flatten_cons, contentOf_cons]
    split
    · have hnil : contentOf segs = [] := List.eq_nil_of_length_eq_zero (by omega)
      rw [hnil, List.flatten_nil]
    · have hlen : (contentOf segs).length = rem - s.payload.length := by omega
      rw [ih hlen (by omega)]

end Observations

/-! ## What a buffer represents -/

namespace ControlBlock

/-- The control block of a buffer with the given bytes. -/
structure Represents (sizes : SegmentSizes) (cb : ControlBlock) (bytes : List UInt8) : Prop where
  layout : Layout sizes cb.segments bytes
  pktLen : cb.pktLen = bytes.length
  tail : cb.tail = .null → cb.segments = []

/-- The tail pointer points to a segment. -/
def TailLive (cb : ControlBlock) : Prop := cb.tail = .last ∧ cb.segments ≠ []

instance (cb : ControlBlock) : Decidable cb.TailLive := inferInstanceAs (Decidable (_ ∧ _))

theorem tailSegment_spec (cb : ControlBlock) : ReturnsIff cb.TailLive
    (fun t => cb.segments = cb.segments.dropLast ++ [t]) cb.tailSegment := by
  rw [tailSegment]
  split
  · next s htail hlast =>
    have hsegs := List.dropLast_append_getLast? s hlast
    exact ⟨⟨htail, by rw [← hsegs]; simp⟩, hsegs.symm⟩
  · next h => exact fun hlive => h _ hlive.1 (List.getLast?_eq_some_getLast hlive.2)

theorem tailSegment_eq {pre : List BufferSegment} {t : BufferSegment} (htail : cb.tail = .last)
    (hsegs : cb.segments = pre ++ [t]) : cb.tailSegment = .ok t := by
  rw [tailSegment, htail, hsegs, List.getLast?_append_of_ne_nil _ (by simp)]
  rfl

end ControlBlock

namespace ByteBuffer

def bytes : ByteBuffer → List UInt8
  | none => []
  | some cb => contentOf cb.segments

def Represents (sizes : SegmentSizes) : ByteBuffer → List UInt8 → Prop
  | none, bytes => bytes = []
  | some cb, bytes => cb.Represents sizes bytes

variable {buf : ByteBuffer} {seq : List UInt8}

theorem Represents.bytes_eq (h : buf.Represents sizes seq) : buf.bytes = seq := by
  cases buf with
  | none => exact Eq.symm h
  | some cb => exact h.layout.content

theorem Represents.length_eq (h : buf.Represents sizes seq) : buf.length = seq.length := by
  cases buf with
  | none =>
    have hnil : seq = [] := h
    rw [hnil]
    rfl
  | some cb => exact h.pktLen

theorem Represents.iterate_eq (h : buf.Represents sizes seq) : buf.iterate = seq.map some := by
  cases buf with
  | none =>
    obtain rfl : seq = [] := h
    rfl
  | some cb =>
    obtain rfl := h.layout.content
    exact iterate_of_noGap h.layout.noGap

/-- A represented sequence is shown, if its length fits an `unsigned`. -/
theorem Represents.shows (h : buf.Represents sizes seq) (hlt : seq.length < 2 ^ 32) :
    buf.Shows seq := by
  cases buf with
  | none =>
    obtain rfl : seq = [] := h
    exact ⟨rfl, rfl, nofun, rfl⟩
  | some cb =>
    obtain rfl := h.layout.content
    refine ⟨h.iterate_eq, ?_, fun i hi => ?_, h.pktLen⟩
    · rw [segments, h.pktLen, Nat.mod_eq_of_lt hlt,
        flatten_spans (by rw [contentOf_dropWhile]) hlt, contentOf_dropWhile]
    · rw [get?, Nat.mod_eq_of_lt (Nat.lt_trans hi hlt), Segmented.at?_eq]
      rfl

/-- Only sequences that fit an `unsigned` are shown. -/
theorem Shows.length_lt (h : buf.Shows seq) : seq.length < 2 ^ 32 := by
  cases buf with
  | none =>
    have hlen : 0 = seq.length := h.length
    omega
  | some cb =>
    have hle := length_spans_le (cb.segments.dropWhile fun s => s.payload == [])
      (cb.pktLen % 2 ^ 32)
    have hseg : (spans _ (cb.pktLen % 2 ^ 32)).flatten = seq := h.segments
    have hlen : cb.pktLen = seq.length := h.length
    rw [hseg, hlen] at hle
    omega

/-- A segment without payload stands behind one with payload. -/
def Gapped : ByteBuffer → Prop
  | none => False
  | some cb => ¬ NoGap cb.segments

theorem Shows.not_gapped (h : buf.Shows seq) : ¬ buf.Gapped := by
  cases buf with
  | none => exact id
  | some cb => exact not_not_intro (noGap_of_iterate h.iterate)

/-- The operation fails or leaves a gap, unless it is `ready`; then the result represents `seq`. -/
def Does (sizes : SegmentSizes) (ready : Prop) (seq : List UInt8) :
    Except BufferFault ByteBuffer → Prop :=
  Ensures (fun _ => ¬ ready) fun buf =>
    ready ∧ buf.Represents sizes seq ∨ ¬ ready ∧ buf.Gapped

theorem does_of_returnsIff {ready : Prop} {x : Except BufferFault ByteBuffer}
    (h : ReturnsIff ready (fun buf => buf.Represents sizes seq) x) : Does sizes ready seq x :=
  h.imp (fun hn _ => hn) fun _ hc hpost => .inl ⟨hc, hpost⟩

end ByteBuffer

end RadioStack
