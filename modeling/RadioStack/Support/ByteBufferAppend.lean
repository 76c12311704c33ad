import RadioStack.Support.ByteBufferLayout

/-!
# Appending to a byte buffer

An append writes behind the payload of the tail segment, or to a new segment behind it (`Room`).
With a live tail pointer it keeps the layout, and through a dead one it faults (`appendBytes_spec`).
-/

namespace RadioStack.ByteBuffer

variable {sizes : SegmentSizes} {cb ocb : ControlBlock} {buf other : ByteBuffer}
  {seq more bytes : List UInt8} {s t : BufferSegment}

open BufferSegment (Sound)

theorem sound_createSegment (headroom : Nat) : (createSegment sizes headroom).Sound sizes :=
  BufferSegment.sound_new_regular headroom

/-- The control block holds the bytes, whatever its length says. -/
structure Holds (sizes : SegmentSizes) (cb : ControlBlock) (bytes : List UInt8) : Prop where
  layout : Layout sizes cb.segments bytes
  tail : cb.tail = .null → cb.segments = []

theorem holds_of_live (hlive : cb.TailLive) (hl : Layout sizes cb.segments seq) :
    Holds sizes cb seq :=
  ⟨hl, fun hnull => nomatch hlive.1.symm.trans hnull⟩

/-! ## One round -/

/-- The tail segment, which may be without payload: a new one is. -/
structure Room (sizes : SegmentSizes) (cb : ControlBlock) (seq : List UInt8) (t : BufferSegment) :
    Prop where
  tail : cb.tail = .last
  sound : t.Sound sizes
  split : ∃ pre, cb.segments = pre ++ [t] ∧ Layout sizes pre (contentOf pre) ∧
    seq = contentOf pre ++ t.payload

theorem Room.tailSegment (h : Room sizes cb seq t) : cb.tailSegment = .ok t := by
  obtain ⟨pre, hsegs, -⟩ := h.split
  exact ControlBlock.tailSegment_eq h.tail hsegs

theorem room_of_layout (hl : Layout sizes cb.segments seq) :
    ReturnsIff cb.TailLive (Room sizes cb seq) cb.tailSegment := by
  refine cb.tailSegment_spec.imp (fun h _ => h) fun t hlive hsegs => ⟨hlive, ?_⟩
  rw [hsegs] at hl
  exact ⟨hlive.1, hl.sound t (by simp), _, hsegs, hl.of_append, by simpa using hl.content.symm⟩

theorem Room.write (h : Room sizes cb seq s) (hmore : more ≠ []) :
    ReturnsIff (more.length ≤ s.tailroom) (fun t => (cb.setTail t).TailLive ∧
      Layout sizes (cb.setTail t).segments (seq ++ more) ∧ t.tailroom = s.tailroom - more.length)
      (s.append more) := by
  obtain ⟨pre, hsegs, hpre, rfl⟩ := h.split
  refine (h.sound.append more).imp (fun h _ => h) fun t hle ⟨hsound, hpay, hleft⟩ => ⟨hle, ?_⟩
  have hset : (cb.setTail t).segments = pre ++ [t] := by
    rw [ControlBlock.setTail, hsegs, List.dropLast_concat]
  have hf : Filled sizes [t] := by simp [Filled, hsound, hpay, hmore]
  refine ⟨⟨h.tail, by simp [hset]⟩, ?_, hleft⟩
  rw [hset]
  simpa [hpay] using hpre.append hf

/-- A new tail segment; the tail pointer is not used if there is no segment. -/
theorem pushBack_room (hl : Layout sizes cb.segments seq) (hs : s.Sound sizes)
    (hempty : s.payload = []) :
    ReturnsIff (cb.segments = [] ∨ cb.TailLive)
      (fun cb₁ => cb₁.pktLen = cb.pktLen ∧ Room sizes cb₁ seq s) (cb.pushBack s) := by
  obtain rfl := hl.content
  rw [ControlBlock.pushBack]
  split
  · next hnil =>
    rw [hnil] at hl
    exact ⟨.inl hnil, rfl, rfl, hs, [], rfl, hl, by simp [hnil, hempty]⟩
  · next hne =>
    refine cb.tailSegment_spec.bind (fun h _ => not_or.2 ⟨hne, h⟩) fun _ hlive _ => ?_
    exact ⟨.inr hlive, rfl, rfl, hs, cb.segments, rfl, hl, by simp [hempty]⟩

/-- Room for at least one byte is in the tail segment or in a new one. -/
theorem appendRoom_spec (hl : Layout sizes cb.segments seq) :
    ReturnsIff cb.TailLive (fun cb₁ => cb₁.pktLen = cb.pktLen ∧ ∃ t, Room sizes cb₁ seq t ∧
      0 < t.tailroom ∧ (t.payload = [] ∨ cb₁ = cb)) (appendRoom sizes cb) := by
  refine (room_of_layout hl).bind (fun h _ => h) fun t hlive hroom => .ite (fun _ => ?_)
    fun hpos => ⟨hlive, rfl, t, hroom, Nat.pos_of_ne_zero hpos, .inr rfl⟩
  refine (pushBack_room hl (sound_createSegment 0) rfl).imp (fun h _ => (not_or.1 h).2)
    fun cb₁ _ ⟨hlen, hroom⟩ => ⟨hlive, hlen, _, hroom, ?_, .inl rfl⟩
  have hlt := sizes.first_lt
  simp only [createSegment, BufferSegment.new]
  omega

/-! ## The loop -/

/-- The tail pointer is used only if there are bytes to append. -/
theorem appendLoop_spec {fuel : Nat} (h : Holds sizes cb seq) (hfuel : bytes.length ≤ fuel) :
    ReturnsIff (bytes ≠ [] → cb.TailLive) (fun cb' => (cb'.TailLive ↔ cb.TailLive) ∧
      cb'.pktLen = cb.pktLen ∧ Holds sizes cb' (seq ++ bytes))
      (appendLoop sizes fuel cb bytes) := by
  induction fuel generalizing cb seq bytes with
  | zero =>
    obtain rfl := List.eq_nil_of_length_eq_zero (Nat.le_zero.1 hfuel)
    exact ⟨absurd rfl, Iff.rfl, rfl, by rwa [List.append_nil]⟩
  | succ fuel ih =>
    cases bytes with
    | nil => exact ⟨absurd rfl, Iff.rfl, rfl, by rwa [List.append_nil]⟩
    | cons b bs =>
      refine (appendRoom_spec h.layout).bind (fun h _ hc => h (hc (List.cons_ne_nil b bs)))
        fun cb₁ hlive ⟨hlen, t, hroom, hpos, _⟩ => ?_
      have hwritten : ((b :: bs).take (min t.tailroom (b :: bs).length)).length =
          min t.tailroom (b :: bs).length := List.length_take_of_le (Nat.min_le_right _ _)
      have hne : (b :: bs).take (min t.tailroom (b :: bs).length) ≠ [] := by
        rw [← List.length_pos_iff, hwritten, List.length_cons]
        omega
      rw [bind_of_ok hroom.tailSegment]
      refine (hroom.write hne).bind (fun hfit => absurd (by omega) hfit)
        fun t₁ _ ⟨hlive₁, hl₁, _⟩ => ?_
      have hrest : ((b :: bs).drop (min t.tailroom (b :: bs).length)).length ≤ fuel := by
        rw [List.length_drop]
        rw [List.length_cons] at *
        omega
      refine (ih (holds_of_live hlive₁ hl₁) hrest).imp (fun h => absurd (fun _ => hlive₁) h)
        fun cb' _ ⟨hlive', hlen', h'⟩ => ⟨fun _ => hlive, ?_, hlen'.trans hlen, ?_⟩
      · exact iff_of_true (hlive'.2 hlive₁) hlive
      · rwa [List.append_assoc, List.take_append_drop] at h'

theorem appendBytes_spec (bytes : List UInt8) (hcb : cb.Represents sizes seq) :
    ReturnsIff (bytes ≠ [] → cb.TailLive) (fun cb' => (cb'.TailLive ↔ cb.TailLive) ∧
      cb'.Represents sizes (seq ++ bytes)) (appendBytes sizes cb bytes) := by
  refine (appendLoop_spec ⟨hcb.layout, hcb.tail⟩ (Nat.le_refl bytes.length)).bind (fun h _ => h)
    fun cb' hc ⟨hlive, hlen, h⟩ => ⟨hc, hlive, h.layout, ?_, h.tail⟩
  simp [ControlBlock.addLen, hlen, hcb.pktLen]

/-! ## Spans -/

/-- An append does not go through a dead tail pointer. -/
def AppendReady (buf : ByteBuffer) : Prop := ∀ cb ∈ buf, cb.TailLive

theorem appendReady_some : AppendReady (some cb) ↔ cb.TailLive :=
  ⟨fun h => h cb rfl, fun h cb' hcb => by rwa [← Option.some.inj hcb]⟩

theorem addHeadSegment_spec (headroom : Nat) :
    (addHeadSegment sizes headroom).Represents sizes [] ∧
      (addHeadSegment sizes headroom).TailLive :=
  ⟨⟨Layout.singleton (BufferSegment.sound_new_first headroom), rfl, nofun⟩, rfl, nofun⟩

theorem getD_addHeadSegment (hbuf : buf.Represents sizes seq) (headroom : Nat) :
    (buf.getD (addHeadSegment sizes headroom)).Represents sizes seq ∧
      ((buf.getD (addHeadSegment sizes headroom)).TailLive ↔ AppendReady buf) := by
  cases buf with
  | none =>
    obtain rfl : seq = [] := hbuf
    exact ⟨(addHeadSegment_spec headroom).1, iff_of_true (addHeadSegment_spec headroom).2 nofun⟩
  | some cb => exact ⟨hbuf, appendReady_some.symm⟩

/-- An append leaves a live tail pointer, unless there is nothing to append. -/
theorem appendSpan_spec (bytes : List UInt8) (hbuf : buf.Represents sizes seq) :
    ReturnsIff (bytes ≠ [] → AppendReady buf) (fun buf' => buf'.Represents sizes (seq ++ bytes) ∧
      (AppendReady buf → AppendReady buf')) (appendSpan sizes buf bytes) := by
  obtain ⟨hrep, hlive⟩ := getD_addHeadSegment hbuf defaultFirstSegmentHeadroom
  refine .ite (fun hnil => ⟨fun h => absurd hnil h, ?_, id⟩) fun _ => ?_
  · rwa [hnil, List.append_nil]
  · rw [← hlive]
    exact (appendBytes_spec bytes hrep).map (fun h _ => h) fun cb' hc ⟨hlive', hrep'⟩ =>
      ⟨hc, hrep', fun h => appendReady_some.2 (hlive'.2 h)⟩

/-! ## Buffers -/

theorem foldlM_appendBytes (segs : List BufferSegment) (hcb : cb.Represents sizes seq) :
    ReturnsIff (contentOf segs ≠ [] → cb.TailLive)
      (fun cb' => cb'.Represents sizes (seq ++ contentOf segs))
      (segs.foldlM (fun cb s => appendBytes sizes cb s.payload) cb) := by
  induction segs generalizing cb seq with
  | nil => exact ⟨absurd rfl, by rwa [contentOf_nil, List.append_nil]⟩
  | cons s segs ih =>
    rw [List.foldlM_cons, contentOf_cons, Ne, List.append_eq_nil_iff, not_and_or, or_imp,
      ← List.append_assoc]
    refine (appendBytes_spec s.payload hcb).bind (fun h _ hc => h hc.1)
      fun cb₁ hc ⟨hlive, hrep⟩ => ?_
    refine (ih hrep).imp (fun h _ hc => h fun hne => hlive.2 (hc.2 hne)) fun cb' hc' hrep' => ?_
    exact ⟨⟨hc, fun hne => hlive.1 (hc' hne)⟩, hrep'⟩

theorem appendBuffer_spec (hbuf : buf.Represents sizes seq) (hother : other.Represents sizes more) :
    ReturnsIff (other.length ≠ 0 → AppendReady buf)
      (fun buf' => buf'.Represents sizes (seq ++ more)) (appendBuffer sizes buf other) := by
  have hlen := hother.length_eq
  have hzero : other.length = 0 → Represents sizes buf (seq ++ more) := by
    intro hzero
    obtain rfl := List.eq_nil_of_length_eq_zero (hlen.symm.trans hzero)
    rwa [List.append_nil]
  cases other with
  | none => exact ⟨absurd rfl, hzero rfl⟩
  | some ocb =>
    refine .ite (fun h => ⟨absurd h, hzero h⟩) fun hne => ?_
    obtain rfl := hother.layout.content
    have hcontent : contentOf ocb.segments ≠ [] := fun hnil => hne (by rwa [hnil] at hlen)
    obtain ⟨h, rest, hsegs⟩ : ∃ h rest, ocb.segments = h :: rest :=
      List.exists_cons_of_ne_nil fun hnil => hcontent (by rw [hnil]; rfl)
    have htarget : copyTarget sizes buf ocb = .ok (buf.getD (addHeadSegment sizes h.headroom)) := by
      cases buf with
      | none => rw [copyTarget, ControlBlock.headSegment, hsegs]; rfl
      | some cb => rfl
    obtain ⟨hrep, hlive⟩ := getD_addHeadSegment hbuf h.headroom
    rw [bind_of_ok htarget]
    refine (foldlM_appendBytes ocb.segments hrep).map (fun h _ hc => h fun _ => ?_)
      fun cb' hc hrep' => ⟨fun _ => hlive.1 (hc hcontent), hrep'⟩
    exact hlive.2 (hc hne)

/-- `deep_copy` appends the segments one by one to a fresh buffer. -/
theorem foldlM_appendSpan (segs : List BufferSegment) (hbuf : buf.Represents sizes seq)
    (h : AppendReady buf) :
    ReturnsIff True (fun buf' => buf'.Represents sizes (seq ++ contentOf segs))
      (segs.foldlM (fun buf s => appendSpan sizes buf s.payload) buf) := by
  induction segs generalizing buf seq with
  | nil => exact ⟨trivial, by rwa [contentOf_nil, List.append_nil]⟩
  | cons s segs ih =>
    rw [List.foldlM_cons, contentOf_cons, ← List.append_assoc]
    exact (appendSpan_spec s.payload hbuf).bind (fun hn => absurd (fun _ => h) hn)
      fun buf₁ _ ⟨hrep, hready⟩ => ih hrep (hready h)

theorem deepCopy_spec (hbuf : buf.Represents sizes seq) :
    ReturnsIff True (fun buf' => buf'.Represents sizes seq) (deepCopy sizes buf) := by
  cases buf with
  | none => exact ⟨trivial, hbuf⟩
  | some cb =>
    obtain rfl := hbuf.layout.content
    have hempty : Represents sizes none [] := rfl
    exact foldlM_appendSpan cb.segments hempty nofun

/-! ## Single bytes -/

/-- A byte can be appended: the tail pointer is live where it is used, and a new segment has room
behind its headroom. -/
def AppendByteReady (sizes : SegmentSizes) : ByteBuffer → Prop
  | none => defaultFirstSegmentHeadroom < sizes.first
  | some cb =>
    if cb.pktLen = 0 then
      (cb.segments = [] ∨ cb.TailLive) ∧ defaultFirstSegmentHeadroom < sizes.regular
    else
      cb.TailLive ∧
        ((∀ t ∈ cb.segments.getLast?, t.tailroom ≠ 0) ∨ defaultFirstSegmentHeadroom < sizes.regular)

variable {byte : UInt8}

theorem tailroom_createSegment (headroom : Nat) :
    0 < (createSegment sizes headroom).tailroom ↔ headroom < sizes.regular := by
  simp only [createSegment, BufferSegment.new]
  omega

/-- The tail segment that the byte is written to. It has room iff the buffer is ready. -/
theorem appendByteRoom_spec (hbuf : buf.Represents sizes seq) :
    Ensures (fun _ => ¬ AppendByteReady sizes buf) (fun cb => cb.pktLen = seq.length ∧
      ∃ t, Room sizes cb seq t ∧ (0 < t.tailroom ↔ AppendByteReady sizes buf))
      (appendByteRoom sizes buf) := by
  cases buf with
  | none =>
    obtain rfl : seq = [] := hbuf
    refine ⟨rfl, _, ⟨rfl, BufferSegment.sound_new_first _, [], rfl, ⟨rfl, nofun, nofun⟩, rfl⟩, ?_⟩
    simp only [BufferSegment.new, AppendByteReady]
    omega
  | some cb =>
    have hpush := pushBack_room (s := createSegment sizes defaultFirstSegmentHeadroom) hbuf.layout
      (sound_createSegment _) rfl
    rw [AppendByteReady, appendByteRoom]
    split
    · refine hpush.imp (fun h _ hc => h hc.1) fun cb₁ hlive ⟨hlen, hroom⟩ =>
        ⟨hlen.trans hbuf.pktLen, _, hroom, ?_⟩
      rw [tailroom_createSegment, and_iff_right hlive]
    · refine (room_of_layout hbuf.layout).bind (fun h _ hc => h hc.1) fun t hlive hroom => ?_
      have hlast : cb.segments.getLast? = some t := by
        obtain ⟨pre, hsegs, -⟩ := hroom.split
        rw [hsegs, List.getLast?_concat]
      simp only [hlast, Option.mem_def, Option.some.injEq, forall_eq', hlive, true_and]
      refine .ite (fun hfull => ?_) fun hpos => ?_
      · refine hpush.imp (fun h => absurd (.inr hlive) h) fun cb₁ _ ⟨hlen, hroom⟩ =>
          ⟨hlen.trans hbuf.pktLen, _, hroom, ?_⟩
        rw [tailroom_createSegment, or_iff_right (not_not_intro hfull)]
      · exact ⟨hbuf.pktLen, t, hroom, iff_of_true (Nat.pos_of_ne_zero hpos) (.inl hpos)⟩

theorem appendByte_spec (hbuf : buf.Represents sizes seq) :
    ReturnsIff (AppendByteReady sizes buf) (fun buf' => buf'.Represents sizes (seq ++ [byte]))
      (appendByte sizes buf byte) := by
  refine (appendByteRoom_spec hbuf).bind fun cb ⟨hlen, t, hroom, hready⟩ => ?_
  rw [bind_of_ok hroom.tailSegment, ← hready]
  refine (hroom.write (List.cons_ne_nil byte [])).bind (fun h _ => h)
    fun t₁ hfit ⟨hlive, hl, _⟩ => ⟨hfit, hl, ?_, (holds_of_live hlive hl).tail⟩
  simp [ControlBlock.addLen, ControlBlock.setTail, hlen]

/-! ## Buffers that are moved -/

/-- The segments of a buffer can be taken over: the one in the control block's memory block is still
there, and none is without payload. -/
def MoveReady (buf : ByteBuffer) : Prop :=
  ∀ cb ∈ buf, (∃ s ∈ cb.segments, s.inControlBlock) ∧ ∀ s ∈ cb.segments, s.payload ≠ []

variable {segs : List BufferSegment} {node : BufferSegment}

theorem replaceControlSegment_eq (node : BufferSegment)
    (hfind : segs.find? (·.inControlBlock) = some s) :
    ∃ front back, segs = front ++ s :: back ∧
      replaceControlSegment node segs = front ++ node :: back := by
  induction segs with
  | nil => cases hfind
  | cons x segs ih =>
    rw [List.find?_cons] at hfind
    rw [replaceControlSegment]
    split at hfind
    · next hflag =>
      cases hfind
      exact ⟨[], segs, rfl, if_pos hflag⟩
    · next hflag =>
      obtain ⟨front, back, rfl, heq⟩ := ih hfind
      exact ⟨x :: front, back, rfl, by rw [if_neg (by simp [hflag]), heq]; rfl⟩

/-- The copy has the payload of the segment that it takes the place of. -/
theorem replaceControlSegment_spec (hfind : segs.find? (·.inControlBlock) = some s)
    (hpay : node.payload = s.payload) :
    contentOf (replaceControlSegment node segs) = contentOf segs ∧
      ((∀ x ∈ replaceControlSegment node segs, x.payload ≠ []) ↔ ∀ x ∈ segs, x.payload ≠ []) ∧
      ∀ x ∈ replaceControlSegment node segs, x = node ∨ x ∈ segs := by
  obtain ⟨front, back, rfl, heq⟩ := replaceControlSegment_eq node hfind
  rw [heq]
  refine ⟨by simp [contentOf, hpay], by simp [or_imp, forall_and, hpay], fun x hx => ?_⟩
  simp only [List.mem_append, List.mem_cons] at hx ⊢
  tauto

/-- The copy of the segment in the control block's memory block fits a regular segment. -/
theorem createSegment_append (hs : s.Sound sizes) (hflag : s.inControlBlock = true) :
    ReturnsIff True (fun node => node.Sound sizes ∧ node.payload = s.payload)
      ((createSegment sizes 0).append s.payload) := by
  refine ((sound_createSegment 0).append s.payload).imp (fun h => absurd ?_ h)
    fun node _ hnode => ⟨trivial, hnode.1, hnode.2.1⟩
  have hlt := sizes.first_lt
  rw [Sound, if_pos hflag, BufferSegment.capacity, BufferSegment.length] at hs
  simp only [createSegment, BufferSegment.new]
  omega

/-- Where the condition of a move fails, a dead pointer is used or a segment without payload ends up
behind one with payload. -/
theorem linkSegments_spec (hcb : cb.Represents sizes seq) (hocb : ocb.Represents sizes more)
    (hseq : seq ≠ []) :
    Ensures (fun _ => ¬ (cb.TailLive ∧ MoveReady (some ocb))) (fun cb' =>
      (cb.TailLive ∧ MoveReady (some ocb)) ∧ cb'.Represents sizes (seq ++ more) ∨
        ¬ (cb.TailLive ∧ MoveReady (some ocb)) ∧ ¬ NoGap cb'.segments)
      (linkSegments sizes cb ocb) := by
  have hmove : MoveReady (some ocb) ↔
      (∃ s ∈ ocb.segments, s.inControlBlock) ∧ ∀ s ∈ ocb.segments, s.payload ≠ [] := by
    simp [MoveReady]
  rw [linkSegments, hmove]
  split
  · next hfind =>
    rintro ⟨-, ⟨s, hs, hflag⟩, -⟩
    exact List.find?_eq_none.1 hfind s hs hflag
  · next s hfind =>
    have hmem := List.mem_of_find?_eq_some hfind
    have hflag : s.inControlBlock = true := List.find?_some hfind
    refine (createSegment_append (hocb.layout.sound s hmem) hflag).bind (absurd trivial)
      fun node _ ⟨hsound, hpay⟩ => ?_
    refine cb.tailSegment_spec.bind (fun h _ hc => h hc.1) fun t hlive _ => ?_
    obtain ⟨hcontent, hfilled, hnodes⟩ := replaceControlSegment_spec hfind hpay
    rw [and_iff_right hlive, and_iff_right ⟨s, hmem, hflag⟩, ← hfilled]
    by_cases hfull : ∀ x ∈ replaceControlSegment node ocb.segments, x.payload ≠ []
    · refine .inl ⟨hfull, ?_, ?_, fun hnull => ?_⟩
      · rw [← hocb.layout.content, ← hcontent]
        refine hcb.layout.append fun x hx => ⟨?_, hfull x hx⟩
        rcases hnodes x hx with rfl | hx
        · exact hsound
        · exact hocb.layout.sound x hx
      · rw [List.length_append, ← hcb.pktLen, ← hocb.pktLen]
      · exact absurd (hocb.tail hnull) (List.ne_nil_of_mem hmem)
    · refine .inr ⟨hfull, fun hgap => hfull fun x hx => ?_⟩
      obtain ⟨n, hn, hne⟩ : ∃ n ∈ cb.segments, n.payload ≠ [] := by
        by_contra hall
        push Not at hall
        rw [← hcb.layout.content] at hseq
        exact hseq (List.flatten_eq_nil_iff.2 (by simpa using hall))
      exact (List.pairwise_append.1 hgap).2.2 n hn x hx hne

/-- Both buffers after a move, which links the segments unless one of the buffers is empty. -/
theorem appendMove_spec (hbuf : buf.Represents sizes seq) (hother : other.Represents sizes more) :
    let ready := buf.length ≠ 0 → other.length ≠ 0 → AppendReady buf ∧ MoveReady other
    Ensures (fun _ => ¬ ready) (fun r => r.2.Represents sizes [] ∧
      (ready ∧ r.1.Represents sizes (seq ++ more) ∨ ¬ ready ∧ r.1.Gapped))
      (appendMove sizes buf other) := by
  refine .ite (fun hzero => ?_) fun hne => .ite (fun hzero => ?_) fun hne' => ?_
  · obtain rfl := List.eq_nil_of_length_eq_zero (hother.length_eq.symm.trans hzero)
    exact ⟨hother, .inl ⟨fun _ h => absurd hzero h, by rwa [List.append_nil]⟩⟩
  · obtain rfl := List.eq_nil_of_length_eq_zero (hbuf.length_eq.symm.trans hzero)
    exact ⟨rfl, .inl ⟨absurd hzero, hother⟩⟩
  · match buf, other with
    | none, _ => exact absurd rfl hne'
    | some _, none => exact absurd rfl hne
    | some cb, some ocb =>
      have hseq : seq ≠ [] := fun hnil => hne' (by rw [hbuf.length_eq, hnil]; rfl)
      simp only [hne, hne', ne_eq, not_false_eq_true, forall_true_left, appendReady_some]
      exact (linkSegments_spec hbuf hother hseq).map fun _ h => ⟨rfl, h⟩

end RadioStack.ByteBuffer
