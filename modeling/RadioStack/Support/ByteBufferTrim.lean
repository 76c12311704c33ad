import RadioStack.Support.ByteBufferAppend

/-!
# Prepending to and trimming a byte buffer

A prepend writes from the last byte on, into the headroom of the head segment or of a new one in
front of it. Its first round keeps the layout tidy unless it leaves a head segment without payload
behind the new one; after that round the head segment has payload, and nothing changes any more
(`prependLoop_filled`). Trimming removes the segments it empties, and so does a linearisation that
has room. -/

namespace RadioStack.ByteBuffer

variable {sizes : SegmentSizes} {cb : ControlBlock} {buf : ByteBuffer} {seq bytes : List UInt8}
  {h : BufferSegment} {segs rest : List BufferSegment} {empty : Bool} {n fuel : Nat}

open BufferSegment (Sound)

/-! ## One round of a prepend -/

/-- A prepend leaves no segment without payload behind a new one. -/
def PrependReady (empty : Bool) (cb : ControlBlock) : Prop :=
  if empty then ∀ h ∈ cb.segments.head?, h.payload ≠ []
  else ∃ h ∈ cb.segments.head?, h.payload ≠ [] ∨ h.headroom ≠ 0

/-- The control block holds the bytes, but its layout need not be tidy. -/
structure Stores (sizes : SegmentSizes) (cb : ControlBlock) (bytes : List UInt8) : Prop where
  content : contentOf cb.segments = bytes
  sound : ∀ s ∈ cb.segments, s.Sound sizes
  tail : cb.tail = .null → cb.segments = []

def Tidy (cb : ControlBlock) : Prop := ∀ s ∈ cb.segments.tail, s.payload ≠ []

def HeadFilled (cb : ControlBlock) : Prop := ∃ h ∈ cb.segments.head?, h.payload ≠ []

theorem HeadFilled.tidy (hhead : HeadFilled cb) (hgap : NoGap cb.segments) : Tidy cb := by
  obtain ⟨h, hmem, hne⟩ := hhead
  rw [← List.cons_head?_tail hmem] at hgap
  exact fun s hs => (List.pairwise_cons.1 hgap).1 s hs hne

theorem headSegment_eq (hsegs : cb.segments = h :: rest) : cb.headSegment = .ok h := by
  rw [ControlBlock.headSegment, hsegs]

/-- The part of a round after room is found: the control block, and the bytes that are left. -/
def prependHead (bytes : List UInt8) (cb : ControlBlock) :
    Except BufferFault (ControlBlock × List UInt8) := do
  let h ← cb.headSegment
  let rest := bytes.length - min h.headroom bytes.length
  let h ← h.prepend (bytes.drop rest)
  return (cb.setHead h, bytes.take rest)

theorem prependLoop_succ (hne : bytes ≠ []) : prependLoop sizes empty (fuel + 1) buf bytes =
    (prependRoom sizes empty buf bytes.length >>= prependHead bytes) >>= fun r =>
      prependLoop sizes empty fuel (some r.1) r.2 := by
  cases bytes with
  | nil => exact absurd rfl hne
  | cons b bs => simp only [prependLoop, prependHead, bind_assoc, pure_bind]

/-- What a round does, if it writes to the head segment `h`. -/
structure Wrote (sizes : SegmentSizes) (cb : ControlBlock) (bytes seq : List UInt8)
    (h : BufferSegment) (rest : List BufferSegment) (r : ControlBlock × List UInt8) : Prop where
  pktLen : r.1.pktLen = cb.pktLen
  part : ∃ part t, bytes = r.2 ++ part ∧ part.length = min h.headroom bytes.length ∧
    t.payload = part ++ h.payload ∧ r.1.segments = t :: rest ∧ Stores sizes r.1 (part ++ seq)

theorem prependHead_spec (hcb : Stores sizes cb seq) (hsegs : cb.segments = h :: rest)
    (bytes : List UInt8) :
    ReturnsIff True (Wrote sizes cb bytes seq h rest) (prependHead bytes cb) := by
  have hsound := hcb.sound
  rw [hsegs, List.forall_mem_cons] at hsound
  rw [prependHead, bind_of_ok (headSegment_eq hsegs)]
  have hlen : (bytes.drop (bytes.length - min h.headroom bytes.length)).length =
      min h.headroom bytes.length := by
    rw [List.length_drop]
    omega
  refine (hsound.1.prepend _).bind (fun hfit => absurd (by omega) hfit) fun t _ ⟨ht, hpay⟩ =>
    ⟨trivial, rfl, _, t, (List.take_append_drop _ _).symm, hlen, hpay, ?_, ?_, ?_, fun hnull => ?_⟩
  · rw [ControlBlock.setHead, hsegs, List.tail_cons]
  · rw [ControlBlock.setHead, hsegs, List.tail_cons, contentOf_cons, hpay, ← hcb.content, hsegs,
      contentOf_cons, List.append_assoc]
  · rw [ControlBlock.setHead, hsegs, List.tail_cons]
    exact List.forall_mem_cons.2 ⟨ht, hsound.2⟩
  · exact nomatch hsegs.symm.trans (hcb.tail hnull)

theorem Stores.pushFront (hcb : Stores sizes cb seq) (n : Nat) :
    Stores sizes (cb.pushFront (createSegment sizes n)) seq := by
  refine ⟨hcb.content, List.forall_mem_cons.2 ⟨sound_createSegment n, hcb.sound⟩, fun hnull => ?_⟩
  simp only [ControlBlock.pushFront] at hnull
  split at hnull
  · cases hnull
  · contradiction

/-- A round writes at least one byte. It keeps the layout tidy if the head segment had payload, and
else if the buffer is ready. -/
structure Round (sizes : SegmentSizes) (empty : Bool) (cb : ControlBlock) (bytes seq : List UInt8)
    (r : ControlBlock × List UInt8) : Prop where
  pktLen : r.1.pktLen = cb.pktLen
  head : HeadFilled r.1
  keeps : HeadFilled cb → (Tidy r.1 ↔ Tidy cb)
  ready : Tidy cb → (Tidy r.1 ↔ PrependReady empty cb)
  part : ∃ part, bytes = r.2 ++ part ∧ part ≠ [] ∧ Stores sizes r.1 (part ++ seq)

theorem Wrote.round {cb₁ : ControlBlock} {r : ControlBlock × List UInt8}
    (hw : Wrote sizes cb₁ bytes seq h rest r) (hlen : cb₁.pktLen = cb.pktLen)
    (hroom : 0 < h.headroom) (hne : bytes ≠ [])
    (hkeeps : HeadFilled cb → ((∀ s ∈ rest, s.payload ≠ []) ↔ Tidy cb))
    (hready : Tidy cb → ((∀ s ∈ rest, s.payload ≠ []) ↔ PrependReady empty cb)) :
    Round sizes empty cb bytes seq r := by
  obtain ⟨part, t, hsplit, hpart, hpay, hsegs, hstores⟩ := hw.part
  have hne' : part ≠ [] := by
    have hpos := List.length_pos_iff.2 hne
    rw [← List.length_pos_iff]
    omega
  have htidy : Tidy r.1 ↔ ∀ s ∈ rest, s.payload ≠ [] := by rw [Tidy, hsegs, List.tail_cons]
  refine ⟨hw.pktLen.trans hlen, ⟨t, by rw [hsegs]; rfl, ?_⟩, ?_, ?_, part, hsplit, hne', hstores⟩
  · simp [hpay, hne']
  · rwa [htidy]
  · rwa [htidy]

theorem prependRound (hcb : Stores sizes cb seq) (hne : bytes ≠ []) :
    ReturnsIff (empty = true ∨ cb.segments ≠ []) (Round sizes empty cb bytes seq)
      (prependRoom sizes empty (some cb) bytes.length >>= prependHead bytes) := by
  have hnew : 0 < (createSegment sizes bytes.length).headroom := by
    have hpos := List.length_pos_iff.2 hne
    have hlt := sizes.first_lt
    simp only [createSegment, BufferSegment.new]
    omega
  have hpush := prependHead_spec (hcb.pushFront bytes.length) rfl bytes
  obtain ⟨segs, tail, len⟩ := cb
  cases segs with
  | nil =>
    cases empty with
    | true =>
      refine hpush.imp (absurd trivial) fun r _ hw => ⟨.inl rfl, hw.round rfl hnew hne ?_ ?_⟩
      · simp [HeadFilled]
      · simp [PrependReady]
    | false => exact fun h => h.elim Bool.false_ne_true fun hne => hne rfl
  | cons h rest =>
    by_cases hroom : empty = true ∨ h.headroom = 0
    · have hfront : prependRoom sizes empty (some ⟨h :: rest, tail, len⟩) bytes.length =
          .ok (ControlBlock.pushFront ⟨h :: rest, tail, len⟩
            (createSegment sizes bytes.length)) := by
        cases empty with
        | true => rfl
        | false => exact congrArg Except.ok (if_pos (hroom.resolve_left Bool.false_ne_true))
      rw [bind_of_ok hfront]
      refine hpush.imp (absurd trivial) fun r _ hw =>
        ⟨.inr (List.cons_ne_nil _ _), hw.round rfl hnew hne ?_ ?_⟩
      · simp +contextual [HeadFilled, Tidy]
      · intro (htidy : ∀ s ∈ rest, s.payload ≠ [])
        cases empty with
        | true => simpa [PrependReady] using fun _ => htidy
        | false => simpa [PrependReady, hroom.resolve_left Bool.false_ne_true] using fun _ => htidy
    · obtain ⟨hempty, hhead⟩ := not_or.1 hroom
      obtain rfl : empty = false := by simpa using hempty
      have hstay : prependRoom sizes false (some ⟨h :: rest, tail, len⟩) bytes.length =
          .ok ⟨h :: rest, tail, len⟩ := congrArg Except.ok (if_neg hhead)
      rw [bind_of_ok hstay]
      refine (prependHead_spec hcb rfl bytes).imp (absurd trivial) fun r _ hw =>
        ⟨.inr (List.cons_ne_nil _ _),
          hw.round rfl (Nat.pos_of_ne_zero hhead) hne (fun _ => Iff.rfl) fun htidy => ?_⟩
      exact iff_of_true htidy ⟨h, rfl, .inr hhead⟩

/-! ## The loop of a prepend -/

/-- With payload in the head segment, the loop changes nothing about the tidiness. -/
theorem prependLoop_filled (hcb : Stores sizes cb seq) (hhead : HeadFilled cb)
    (hfuel : bytes.length ≤ fuel) :
    ReturnsIff True (fun buf => ∃ cb', buf = some cb' ∧ cb'.pktLen = cb.pktLen ∧
        Stores sizes cb' (bytes ++ seq) ∧ HeadFilled cb' ∧ (Tidy cb' ↔ Tidy cb))
      (prependLoop sizes empty fuel (some cb) bytes) := by
  induction fuel generalizing cb seq bytes with
  | zero =>
    obtain rfl := List.eq_nil_of_length_eq_zero (Nat.le_zero.1 hfuel)
    exact ⟨trivial, cb, rfl, rfl, hcb, hhead, Iff.rfl⟩
  | succ fuel ih =>
    by_cases hne : bytes = []
    · subst hne
      exact ⟨trivial, cb, rfl, rfl, hcb, hhead, Iff.rfl⟩
    have hsegs : cb.segments ≠ [] := by
      obtain ⟨h, hmem, -⟩ := hhead
      exact List.ne_nil_of_mem (List.mem_of_mem_head? hmem)
    rw [prependLoop_succ hne]
    refine (prependRound hcb hne).bind (fun h => absurd (.inr hsegs) h) fun r _ hround => ?_
    obtain ⟨part, hsplit, hpart, hstores⟩ := hround.part
    have hpos := List.length_pos_iff.2 hpart
    rw [hsplit, List.length_append] at hfuel
    rw [hsplit, List.append_assoc]
    refine (ih hstores hround.head (by omega)).imp (absurd trivial) ?_
    rintro _ - ⟨cb', rfl, hlen, hstores', hhead', htidy⟩
    exact ⟨trivial, cb', rfl, hlen.trans hround.pktLen, hstores', hhead',
      htidy.trans (hround.keeps hhead)⟩

/-- A prepend to a head segment without payload and room fails or makes a gap. -/
theorem prependLoop_spec (hcb : Stores sizes cb seq) (htidy : Tidy cb)
    (hfuel : bytes.length ≤ fuel) :
    let ready := bytes ≠ [] → PrependReady empty cb
    Ensures (fun _ => ¬ ready) (fun buf => ∃ cb', buf = some cb' ∧ cb'.pktLen = cb.pktLen ∧
        Stores sizes cb' (bytes ++ seq) ∧ (ready ∧ Tidy cb' ∨ ¬ ready ∧ ¬ NoGap cb'.segments))
      (prependLoop sizes empty fuel (some cb) bytes) := by
  by_cases hne : bytes = []
  · subst hne
    rw [prependLoop]
    exact ⟨cb, rfl, rfl, hcb, .inl ⟨absurd rfl, htidy⟩⟩
  obtain ⟨fuel, rfl⟩ : ∃ k, fuel = k + 1 := by
    have hpos := List.length_pos_iff.2 hne
    exact ⟨fuel - 1, by omega⟩
  rw [prependLoop_succ hne]
  simp only [ne_eq, hne, not_false_eq_true, forall_true_left]
  refine (prependRound hcb hne).bind (fun h _ hready => h ?_) fun r _ hround => ?_
  · cases empty with
    | true => exact .inl rfl
    | false =>
      obtain ⟨h, hmem, -⟩ := hready
      exact .inr (List.ne_nil_of_mem (List.mem_of_mem_head? hmem))
  obtain ⟨part, hsplit, hpart, hstores⟩ := hround.part
  have hpos := List.length_pos_iff.2 hpart
  rw [hsplit, List.length_append] at hfuel
  rw [hsplit, List.append_assoc]
  refine (prependLoop_filled hstores hround.head (by omega)).imp (absurd trivial) ?_
  rintro _ - ⟨cb', rfl, hlen, hstores', hhead', htidy'⟩
  have hiff := htidy'.trans (hround.ready htidy)
  refine ⟨cb', rfl, hlen.trans hround.pktLen, hstores', ?_⟩
  by_cases hready : PrependReady empty cb
  · exact .inl ⟨hready, hiff.2 hready⟩
  · exact .inr ⟨hready, fun hgap => hready (hiff.1 (hhead'.tidy hgap))⟩

/-! ## Reserving and prepending -/

/-- A reservation leaves no segment without payload behind a new one, and there is a control block
at its end. -/
def ReserveReady (sizes : SegmentSizes) (bytes : List UInt8) : ByteBuffer → Prop
  | none => bytes ≠ [] ∧ 0 < sizes.first
  | some cb => bytes ≠ [] → PrependReady (decide (cb.pktLen = 0)) cb

theorem Stores.addLen {ready : Prop} (hcb : Stores sizes cb seq) (hlen : cb.pktLen + n = seq.length)
    (h : ready ∧ Tidy cb ∨ ¬ ready ∧ ¬ NoGap cb.segments) :
    ready ∧ Represents sizes (some (cb.addLen n)) seq ∨ ¬ ready ∧ Gapped (some (cb.addLen n)) :=
  h.imp (fun h => ⟨h.1, ⟨hcb.content, hcb.sound, h.2⟩, hlen, hcb.tail⟩) id

/-- The first round without control block writes into the segment of the new one, as much as fits.
-/
theorem prependLoop_none (hne : bytes ≠ []) :
    let ready := ReserveReady sizes bytes none
    Ensures (fun _ => ¬ ready) (fun buf => ∃ cb', buf = some cb' ∧ cb'.pktLen = 0 ∧
        Stores sizes cb' bytes ∧ (ready ∧ Tidy cb' ∨ ¬ ready ∧ ¬ NoGap cb'.segments))
      (prependLoop sizes true (bytes.length + 1) none bytes) := by
  have hnew : Stores sizes (addHeadSegment sizes bytes.length) [] :=
    ⟨rfl, (addHeadSegment_spec bytes.length).1.layout.sound, nofun⟩
  have hpos := List.length_pos_iff.2 hne
  rw [prependLoop_succ hne]
  refine (prependHead_spec hnew rfl bytes).bind (absurd trivial) fun r _ hw => ?_
  obtain ⟨part, t, hsplit, hpart, hpay, hsegs, hstores⟩ := hw.part
  have htidy : Tidy r.1 := by
    rw [Tidy, hsegs]
    exact nofun
  have hlen : r.2.length + part.length = bytes.length := by rw [hsplit, List.length_append]
  have hready : (r.2 ≠ [] → PrependReady true r.1) ↔ ReserveReady sizes bytes none := by
    simp only [PrependReady, ReserveReady, hsegs, hpay, BufferSegment.new, ← List.length_pos_iff,
      List.length_append, List.length_nil, if_true, List.head?_cons, Option.mem_def,
      Option.some.injEq, forall_eq'] at *
    omega
  have hloop := @prependLoop_spec sizes r.1 (part ++ []) r.2 true bytes.length hstores htidy
    (by omega)
  simp only [hready, List.append_nil, ← hsplit] at hloop
  refine hloop.mono ?_
  rintro _ ⟨cb', rfl, hlen', h⟩
  exact ⟨cb', rfl, hlen'.trans hw.pktLen, h⟩

theorem reservePrepend_spec (bytes : List UInt8) (hbuf : buf.Represents sizes seq) :
    Does sizes (ReserveReady sizes bytes buf) (bytes ++ seq) (reservePrepend sizes buf bytes) := by
  cases buf with
  | none =>
    obtain rfl : seq = [] := hbuf
    by_cases hne : bytes = []
    · subst hne
      exact fun h => h.1 rfl
    rw [List.append_nil]
    refine (prependLoop_none hne).bind ?_
    rintro _ ⟨cb', rfl, hlen, hstores, h⟩
    exact hstores.addLen (by rw [hlen, Nat.zero_add]) h
  | some cb =>
    have hcb : Stores sizes cb seq := ⟨hbuf.layout.content, hbuf.layout.sound, hbuf.tail⟩
    refine (prependLoop_spec hcb hbuf.layout.tidy (Nat.le_succ bytes.length)).bind ?_
    rintro _ ⟨cb', rfl, hlen, hstores, h⟩
    refine hstores.addLen ?_ h
    rw [hlen, hbuf.pktLen, List.length_append, Nat.add_comm]

/-- A prepend to an empty buffer is an append. -/
def PrependSpanReady (sizes : SegmentSizes) (bytes : List UInt8) (buf : ByteBuffer) : Prop :=
  if buf.length = 0 then bytes ≠ [] → AppendReady buf else ReserveReady sizes bytes buf

theorem prependSpan_spec (bytes : List UInt8) (hbuf : buf.Represents sizes seq) :
    Does sizes (PrependSpanReady sizes bytes buf) (bytes ++ seq) (prependSpan sizes buf bytes) := by
  rw [PrependSpanReady, prependSpan]
  split
  · next hzero =>
    obtain rfl := List.eq_nil_of_length_eq_zero (hbuf.length_eq.symm.trans hzero)
    refine (appendSpan_spec bytes hbuf).imp (fun h _ => h) fun buf' hready h => .inl ⟨hready, ?_⟩
    rw [List.append_nil]
    exact h.1
  · exact reservePrepend_spec bytes hbuf

/-! ## Trimming -/

theorem trimHeadSegments_spec (hl : Layout sizes segs seq) (hn : n ≤ seq.length) :
    ReturnsIff True (fun segs' => Layout sizes segs' (seq.drop n) ∧ (segs = [] → segs' = []))
      (trimHeadSegments segs n) := by
  induction segs generalizing n seq with
  | nil =>
    obtain rfl := hl.content
    obtain rfl : n = 0 := Nat.le_zero.1 hn
    exact ⟨trivial, hl, id⟩
  | cons s segs ih =>
    cases n with
    | zero => exact ⟨trivial, hl, nofun⟩
    | succ n =>
      obtain ⟨hs, hrest, rfl⟩ := Layout.cons_iff.1 hl
      rw [List.length_append] at hn
      have hlen : (s.trimHead (min (n + 1) s.length)).length = s.length - min (n + 1) s.length :=
        List.length_drop
      simp only [trimHeadSegments, hlen]
      refine .ite (fun hzero => ?_) fun hzero => ?_
      · have hle : s.payload.length ≤ n + 1 := Nat.le_of_sub_eq_zero (by
          rw [BufferSegment.length] at hzero
          omega)
        rw [BufferSegment.length, Nat.min_eq_right hle, List.drop_append,
          List.drop_of_length_le hle, List.nil_append]
        exact (ih (Layout.of_filled hrest) (by omega)).imp (absurd trivial) fun _ _ h =>
          ⟨trivial, h.1, nofun⟩
      · have hlt : n + 1 ≤ s.length := by omega
        rw [Nat.min_eq_left hlt]
        refine ⟨trivial, Layout.cons_iff.2 ⟨BufferSegment.sound_trimHead hlt hs, hrest, ?_⟩, nofun⟩
        rw [List.drop_append_of_le_length hlt]
        rfl

theorem trimHead_spec (hbuf : buf.Represents sizes seq) (hn : n ≤ buf.length) :
    ReturnsIff True (fun buf' => buf'.Represents sizes (seq.drop n)) (trimHead buf n) := by
  unfold trimHead
  rw [if_neg (Nat.not_lt.2 hn)]
  cases buf with
  | none =>
    obtain rfl : seq = [] := hbuf
    exact ⟨trivial, List.drop_nil⟩
  | some cb =>
    refine (trimHeadSegments_spec hbuf.layout (hbuf.length_eq ▸ hn)).bind (absurd trivial)
      fun segs' _ ⟨hl, hnil⟩ => ⟨trivial, hl, ?_, fun hnull => ?_⟩
    · rw [List.length_drop, ← hbuf.pktLen]
    · split_ifs at hnull
      exact hnil (hbuf.tail hnull)

theorem truncateSegments_spec {newLen : Nat} (hl : Layout sizes segs seq)
    (hlen : newLen ≤ seq.length) (hne : segs ≠ []) :
    ∃ segs', truncateSegments segs newLen = some segs' ∧ segs' ≠ [] ∧
      Layout sizes segs' (seq.take newLen) ∧
      (newLen ≠ 0 → Filled sizes segs → Filled sizes segs') := by
  induction segs generalizing newLen seq with
  | nil => exact absurd rfl hne
  | cons s segs ih =>
    obtain ⟨hs, hrest, rfl⟩ := Layout.cons_iff.1 hl
    rw [truncateSegments]
    split
    · next hle =>
      have hlength := BufferSegment.length_resize hle
      refine ⟨[s.resize newLen], rfl, List.cons_ne_nil _ _, ?_, fun hpos _ x hx => ?_⟩
      · rw [List.take_append_of_le_length hle]
        exact Layout.singleton (BufferSegment.sound_resize hle hs)
      · rw [List.mem_singleton.1 hx]
        refine ⟨BufferSegment.sound_resize hle hs, List.length_pos_iff.1 ?_⟩
        rw [BufferSegment.length] at hlength
        omega
    · next hgt =>
      simp only [BufferSegment.length, Nat.not_le] at hgt ⊢
      rw [List.length_append] at hlen
      have hsegs : segs ≠ [] := by
        rintro rfl
        simp only [contentOf_nil, List.length_nil] at hlen
        omega
      have hle : newLen - s.payload.length ≤ (contentOf segs).length := by omega
      obtain ⟨segs', hok, -, hl', hfilled⟩ := ih (Layout.of_filled hrest) hle hsegs
      have hfilled' := hfilled (by omega) hrest
      refine ⟨s :: segs', by rw [hok]; rfl, List.cons_ne_nil _ _, ?_, fun _ hf x hx => ?_⟩
      · refine Layout.cons_iff.2 ⟨hs, hfilled', ?_⟩
        rw [hl'.content, List.take_append, List.take_of_length_le (Nat.le_of_lt hgt)]
      · rcases List.mem_cons.1 hx with rfl | hx
        · exact hf x List.mem_cons_self
        · exact hfilled' x hx

/-- The tail segment is shortened, and removed if nothing of it is left. -/
theorem trimTail_last {pre : List BufferSegment} {t : BufferSegment}
    (hcb : cb.Represents sizes seq) (htail : cb.tail = .last) (hsegs : cb.segments = pre ++ [t])
    (hn : n ≤ t.length) :
    ControlBlock.Represents sizes
      (if (t.trimTail n).length = 0 then
        ControlBlock.popBack { cb.setTail (t.trimTail n) with pktLen := cb.pktLen - n }
      else { cb.setTail (t.trimTail n) with pktLen := cb.pktLen - n })
      (seq.take (seq.length - n)) := by
  have hl := hcb.layout
  rw [hsegs] at hl
  have hset : (cb.setTail (t.trimTail n)).segments = pre ++ [t.trimTail n] := by
    rw [ControlBlock.setTail, hsegs, List.dropLast_concat]
  have htake : seq.take (seq.length - n) = contentOf pre ++ (t.trimTail n).payload := by
    rw [← hl.content, contentOf_append, contentOf_cons, contentOf_nil, List.append_nil,
      List.length_append, Nat.add_sub_assoc (show n ≤ t.payload.length from hn),
      List.take_length_add_append]
    rfl
  have hlen : cb.pktLen - n = (contentOf pre ++ (t.trimTail n).payload).length := by
    rw [← htake, List.length_take, hcb.pktLen]
    omega
  rw [htake]
  split
  · next hzero =>
    rw [List.eq_nil_of_length_eq_zero hzero, List.append_nil] at hlen ⊢
    simp only [ControlBlock.popBack, hset, List.dropLast_concat]
    refine ⟨hl.of_append, hlen, fun hnull => ?_⟩
    split_ifs at hnull
    assumption
  · next hzero =>
    refine ⟨?_, hlen, fun hnull => absurd (htail.symm.trans hnull) (by simp)⟩
    have hf : Filled sizes [t.trimTail n] := by
      refine List.forall_mem_singleton.2 ⟨BufferSegment.sound_resize (Nat.sub_le _ _) ?_, ?_⟩
      · exact hl.sound t (by simp)
      · exact fun hnil => hzero (by rw [BufferSegment.length, hnil]; rfl)
    simpa [hset] using hl.of_append.append hf

theorem trimTail_spec (hbuf : buf.Represents sizes seq) (hn : n ≤ buf.length) :
    ReturnsIff (n ≠ 0 → AppendReady buf)
      (fun buf' => buf'.Represents sizes (seq.take (seq.length - n))) (trimTail buf n) := by
  unfold trimTail
  rw [if_neg (Nat.not_lt.2 hn)]
  refine .ite (fun hzero => ⟨absurd hzero, ?_⟩) fun hzero => ?_
  · rwa [hzero, Nat.sub_zero, List.take_length]
  cases buf with
  | none => exact absurd (Nat.le_zero.1 hn) hzero
  | some cb =>
    rw [appendReady_some]
    refine cb.tailSegment_spec.bind (fun h _ hc => h (hc hzero)) fun t hlive hsegs =>
      .ite (fun hle => ⟨fun _ => hlive, trimTail_last hbuf hlive.1 hsegs hle⟩) fun _ => ?_
    have hlen : cb.pktLen = seq.length := hbuf.pktLen
    obtain ⟨segs', hok, -, hl', -⟩ :=
      truncateSegments_spec hbuf.layout (by omega : cb.pktLen - n ≤ seq.length) hlive.2
    rw [hok]
    rw [hlen] at hl' ⊢
    exact ⟨fun _ => hlive, hl', (List.length_take_of_le (Nat.sub_le _ _)).symm, nofun⟩

/-! ## Linearisation -/

theorem foldlM_append_segment (hh : h.Sound sizes) (hroom : (contentOf segs).length ≤ h.tailroom) :
    ReturnsIff True (fun h' => h'.Sound sizes ∧ h'.payload = h.payload ++ contentOf segs)
      (segs.foldlM (fun h s => h.append s.payload) h) := by
  induction segs generalizing h with
  | nil => exact ⟨trivial, hh, (List.append_nil _).symm⟩
  | cons s segs ih =>
    rw [contentOf_cons, List.length_append] at hroom
    have hfits : s.payload.length ≤ h.tailroom := by omega
    rw [List.foldlM_cons, contentOf_cons, ← List.append_assoc]
    refine (hh.append s.payload).bind (absurd hfits) fun h' _ ⟨hsound, hpay, hleft⟩ => ?_
    rw [← hpay]
    exact ih hsound (by omega)

theorem linearize_spec (hbuf : buf.Represents sizes seq) :
    ReturnsIff True (fun r => r.2.Represents sizes seq) (linearize buf) := by
  cases buf with
  | none => exact ⟨trivial, hbuf⟩
  | some cb =>
    refine .ite (fun _ => ⟨trivial, hbuf⟩) fun hcond => ?_
    have hlen : cb.pktLen = seq.length := hbuf.pktLen
    obtain rfl := hbuf.layout.content
    cases hsegs : cb.segments with
    | nil =>
      rw [hsegs] at hlen
      exact absurd (.inl hlen) hcond
    | cons h rest =>
      have hl := hbuf.layout
      rw [hsegs] at hl hlen
      obtain ⟨hh, -, -⟩ := Layout.cons_iff.1 hl
      rw [bind_of_ok (headSegment_eq hsegs), ← hsegs]
      refine .ite (fun _ => ⟨trivial, hbuf⟩) fun hbig => ?_
      rw [contentOf_cons, List.length_append] at hlen
      have hroom : (contentOf rest).length ≤ h.tailroom := by
        rw [BufferSegment.capacity, BufferSegment.length] at hbig
        omega
      rw [hsegs, List.tail_cons, contentOf_cons]
      refine (foldlM_append_segment hh hroom).bind (absurd trivial) fun h' _ hr =>
        ⟨trivial, ?_, ?_, by simp⟩
      · rw [← hr.2]
        exact Layout.singleton hr.1
      · rw [List.length_append]
        exact hlen

end RadioStack.ByteBuffer
