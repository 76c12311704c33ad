import RadioStack.Support.ByteBufferTrim

/-!
# Resizing a byte buffer

`resize` grows a buffer in rounds: each sets the payload of the tail segment to as many bytes as the
segment has room for, of those that are still to be added. It shrinks a buffer by cutting the list
of segments behind the one that the new last byte is in.

A round sets the size of the payload to the number of added bytes and not to its sum with the old
size, so a tail segment with both payload and room loses bytes (`growLoop_length`). The segments
behind the cut are not destroyed, and for the new size 0 none is cut.

**Theorem (`resize_resized_iff`).** A resize does what it should iff it grows a buffer whose tail
segment is empty or full, or cuts off no segment, or keeps the size.
-/

namespace RadioStack

/-- `resize` of a segment to any size that fits; the memory behind the payload holds `memory`. -/
def BufferSegment.resizeTo (s : BufferSegment) (memory : Nat → UInt8) (n : Nat) :
    Except BufferFault BufferSegment :=
  if n ≤ s.length + s.tailroom then
    .ok { s with payload := s.payload.take n ++ (List.range (n - s.length)).map memory
                 tailroom := s.length + s.tailroom - n }
  else .error .assertion

namespace ByteBuffer

/-- The segments of their own memory blocks behind the one of the last byte of `newSz`. -/
def cutOff : List BufferSegment → Nat → List BufferSegment
  | [], _ => []
  | s :: segs, newSz =>
    if newSz ≤ s.length then segs.filter fun s => !s.inControlBlock
    else cutOff segs (newSz - s.length)

section

variable (sizes : SegmentSizes) (memory : Nat → Nat → UInt8)

/-- The loop that adds bytes. With `toAdd` bytes left, `memory toAdd` is what the memory of the tail
segment happens to hold. -/
def growLoop : Nat → ControlBlock → Nat → Except BufferFault ControlBlock
  | _, cb, 0 => .ok cb
  | 0, _, _ + 1 => .error .fuel
  | fuel + 1, cb, toAdd + 1 => do
    let cb ← appendRoom sizes cb
    let t ← cb.tailSegment
    let added := min t.tailroom (toAdd + 1)
    let t ← t.resizeTo (memory (toAdd + 1)) added
    growLoop fuel (cb.setTail t) (toAdd + 1 - added)

/-- `resize`, with the segments that are lost to the pool. -/
def resize (buf : ByteBuffer) (newSz : Nat) :
    Except BufferFault (ByteBuffer × List BufferSegment) :=
  if newSz = buf.length then .ok (buf, [])
  else if buf.length < newSz then do
    let cb ← growLoop sizes memory (newSz - buf.length) (buf.getD (addHeadSegment sizes 0))
      (newSz - buf.length)
    return (some { cb with pktLen := newSz }, [])
  else
    match buf with
    | none => .error .controlBlock
    | some cb =>
      -- the walk along the segments ends at once, before it cuts the list
      if newSz = 0 then .ok (some { cb with pktLen := 0 }, [])
      else
        match truncateSegments cb.segments newSz with
        | none => .error .segment
        | some segs => .ok (some ⟨segs, .last, newSz⟩, cutOff cb.segments newSz)

end

/-- What a resize should do to a buffer with the bytes `seq`. -/
structure Resized (sizes : SegmentSizes) (seq : List UInt8) (newSz : Nat) (buf : ByteBuffer)
    (lost : List BufferSegment) (bytes : List UInt8) : Prop where
  length : bytes.length = newSz
  kept : bytes.take seq.length = seq.take newSz
  shows : buf.Shows bytes
  append : ∀ more, ∃ buf', appendSpan sizes buf more = .ok buf' ∧
    buf'.iterate = (bytes ++ more).map some
  returned : lost = []

/-- The tail segment is empty or full. -/
def Growable (buf : ByteBuffer) : Prop :=
  ∀ cb ∈ buf, cb.TailLive ∧ ∀ t, cb.tailSegment = .ok t → t.payload = [] ∨ t.tailroom = 0

/-- When a resize does what it should; `segments()` keeps the size in an `unsigned`. -/
def ResizeReady (buf : ByteBuffer) (newSz : Nat) : Prop :=
  newSz < 2 ^ 32 ∧
    if newSz < buf.length then 0 < newSz ∧ ∀ cb ∈ buf, cutOff cb.segments newSz = []
    else if newSz = buf.length then AppendReady buf
    else Growable buf

variable {sizes : SegmentSizes} {memory : Nat → Nat → UInt8} {cb cb' : ControlBlock}
  {buf : ByteBuffer} {seq : List UInt8} {fuel toAdd newSz : Nat}

/-! ## Growing -/

theorem resizeTo_of_empty {s : BufferSegment} (memory : Nat → UInt8) (n : Nat)
    (hs : s.payload = []) : s.resizeTo memory n = s.append ((List.range n).map memory) := by
  simp [BufferSegment.resizeTo, BufferSegment.append, BufferSegment.length, hs]

theorem length_resizeTo {s t : BufferSegment} {memory : Nat → UInt8} {n : Nat}
    (h : s.resizeTo memory n = .ok t) :
    t.length = n ∧ t.tailroom = s.length + s.tailroom - n := by
  rw [BufferSegment.resizeTo] at h
  split_ifs at h
  cases h
  refine ⟨?_, rfl⟩
  simp only [BufferSegment.length, List.length_append, List.length_take, List.length_map,
    List.length_range]
  omega

/-- From an empty or a full tail segment on, the loop appends. -/
theorem growLoop_spec (memory : Nat → Nat → UInt8) (hl : Layout sizes cb.segments seq)
    (hlive : cb.TailLive)
    (htail : toAdd ≠ 0 → ∀ t, cb.tailSegment = .ok t → t.payload = [] ∨ t.tailroom = 0)
    (hfuel : toAdd ≤ fuel) :
    ReturnsIff True (fun cb' => cb'.TailLive ∧ ∃ more : List UInt8, more.length = toAdd ∧
      Layout sizes cb'.segments (seq ++ more)) (growLoop sizes memory fuel cb toAdd) := by
  induction fuel generalizing cb seq toAdd with
  | zero =>
    obtain rfl := Nat.le_zero.1 hfuel
    exact ⟨trivial, hlive, [], rfl, by rwa [List.append_nil]⟩
  | succ fuel ih =>
    cases toAdd with
    | zero => exact ⟨trivial, hlive, [], rfl, by rwa [List.append_nil]⟩
    | succ toAdd =>
      refine (appendRoom_spec hl).bind (absurd hlive) fun cb₁ _ ⟨_, t, hroom, hpos, hor⟩ => ?_
      have hempty : t.payload = [] := by
        rcases hor with hempty | rfl
        · exact hempty
        · exact (htail (Nat.succ_ne_zero _) t hroom.tailSegment).resolve_right (Nat.ne_of_gt hpos)
      set added := (List.range (min t.tailroom (toAdd + 1))).map (memory (toAdd + 1)) with hadded
      have hlen : added.length = min t.tailroom (toAdd + 1) := by simp [hadded]
      have hne : added ≠ [] := by
        rw [← List.length_pos_iff]
        omega
      rw [bind_of_ok hroom.tailSegment]
      simp only [resizeTo_of_empty _ _ hempty, ← hadded]
      refine (hroom.write hne).bind (absurd (by omega)) fun t₁ _ ⟨hlive₁, hl₁, hleft⟩ => ?_
      -- a segment with bytes left to add is full
      have htail₁ : toAdd + 1 - min t.tailroom (toAdd + 1) ≠ 0 → ∀ u,
          (cb₁.setTail t₁).tailSegment = .ok u → u.payload = [] ∨ u.tailroom = 0 := by
        intro hmore u hu
        rw [ControlBlock.tailSegment_eq hlive₁.1 rfl] at hu
        cases hu
        right
        omega
      refine (ih hl₁ hlive₁ htail₁ (by omega)).imp (absurd trivial) ?_
      rintro cb' - ⟨hlive', more, hmore, hl'⟩
      refine ⟨trivial, hlive', added ++ more, ?_, by rwa [List.append_assoc] at hl'⟩
      rw [List.length_append]
      omega

theorem length_setTail {t : BufferSegment} (t₁ : BufferSegment) (ht : cb.tailSegment = .ok t) :
    (contentOf (cb.setTail t₁).segments).length + t.length =
      (contentOf cb.segments).length + t₁.length := by
  obtain ⟨-, hsegs⟩ := cb.tailSegment_spec.of_ok ht
  rw [ControlBlock.setTail]
  conv_rhs => rw [hsegs]
  simp only [contentOf_append, contentOf_cons, contentOf_nil, List.append_nil, List.length_append,
    BufferSegment.length]
  omega

theorem appendRoom_cases (h : appendRoom sizes cb = .ok cb') :
    contentOf cb'.segments = contentOf cb.segments ∧
      ∀ t, cb.tailSegment = .ok t → t.tailroom ≠ 0 → cb' = cb := by
  obtain ⟨t, ht, h⟩ := exists_of_bind_ok h
  split at h
  · next hfull =>
    refine ⟨?_, fun u hu hroom => ?_⟩
    · rw [ControlBlock.pushBack] at h
      split at h
      · next hnil =>
        cases h
        rw [hnil]
        rfl
      · obtain ⟨_, -, h⟩ := exists_of_bind_ok h
        cases h
        simp [createSegment, BufferSegment.new]
    · rw [Except.ok.inj (ht.symm.trans hu)] at hfull
      exact absurd hfull hroom
  · cases h
    exact ⟨rfl, fun _ _ _ => rfl⟩

/-- No more bytes are there than are counted; fewer if the tail segment has payload and room. -/
theorem growLoop_length (h : growLoop sizes memory fuel cb toAdd = .ok cb') :
    (contentOf cb'.segments).length ≤ (contentOf cb.segments).length + toAdd ∧
      ∀ t, cb.tailSegment = .ok t → t.payload ≠ [] → t.tailroom ≠ 0 → toAdd ≠ 0 →
        (contentOf cb'.segments).length < (contentOf cb.segments).length + toAdd := by
  induction fuel generalizing cb toAdd with
  | zero =>
    cases toAdd with
    | zero =>
      cases h
      exact ⟨Nat.le_refl _, fun _ _ _ _ h => absurd rfl h⟩
    | succ toAdd => cases h
  | succ fuel ih =>
    cases toAdd with
    | zero =>
      cases h
      exact ⟨Nat.le_refl _, fun _ _ _ _ h => absurd rfl h⟩
    | succ toAdd =>
      obtain ⟨cb₁, hroom, h⟩ := exists_of_bind_ok h
      obtain ⟨t, ht, h⟩ := exists_of_bind_ok h
      obtain ⟨t₁, ht₁, h⟩ := exists_of_bind_ok h
      obtain ⟨hcontent, hsame⟩ := appendRoom_cases hroom
      have hset := length_setTail t₁ ht
      have hle := (ih h).1
      have hlen := (length_resizeTo ht₁).1
      rw [hcontent] at hset
      refine ⟨by omega, fun u hu hne hroom _ => ?_⟩
      obtain rfl := hsame u hu hroom
      obtain rfl := Except.ok.inj (ht.symm.trans hu)
      have : 0 < t.length := List.length_pos_iff.2 hne
      omega

/-- A dead tail pointer, or a tail segment with payload and room, makes the growth go wrong. -/
theorem growable_of_growLoop {bytes : List UInt8} (hne : toAdd ≠ 0)
    (hlen : bytes.length = (contentOf cb.segments).length + toAdd)
    (h : growLoop sizes memory toAdd cb toAdd = .ok cb')
    (hshows : iterate (some cb') = bytes.map some) : Growable (some cb) := by
  intro cb₀ hcb₀
  cases hcb₀
  constructor
  · obtain ⟨n, rfl⟩ := Nat.exists_eq_succ_of_ne_zero hne
    obtain ⟨cb₁, hroom, -⟩ := exists_of_bind_ok h
    obtain ⟨t, ht, -⟩ := exists_of_bind_ok hroom
    exact (cb.tailSegment_spec.of_ok ht).1
  · intro t ht
    by_contra hnot
    obtain ⟨hpay, hroom⟩ := not_or.1 hnot
    have hlt := (growLoop_length h).2 t ht hpay hroom hne
    rw [iterate_of_noGap (noGap_of_iterate hshows)] at hshows
    have hcount := congrArg List.length hshows
    rw [List.length_map, List.length_map] at hcount
    omega

/-! ## The result -/

theorem resized_of_represents {bytes : List UInt8} (hbuf : buf.Represents sizes bytes)
    (hready : AppendReady buf) (hlen : bytes.length = newSz) (hlt : newSz < 2 ^ 32)
    (hkept : bytes.take seq.length = seq.take newSz) : Resized sizes seq newSz buf [] bytes := by
  refine ⟨hlen, hkept, hbuf.shows (by omega), fun more => ?_, rfl⟩
  obtain ⟨buf', hok, hbuf', -⟩ := (appendSpan_spec more hbuf).exists_ok fun _ => hready
  exact ⟨buf', hok, hbuf'.iterate_eq⟩

theorem resized_of_shrink (hcb : cb.Represents sizes seq) (hlt : newSz < seq.length)
    (hfit : newSz < 2 ^ 32) :
    ∃ segs, truncateSegments cb.segments newSz = some segs ∧
      Resized sizes seq newSz (some ⟨segs, .last, newSz⟩) [] (seq.take newSz) := by
  have hne : cb.segments ≠ [] := by
    intro hnil
    have hcontent := hcb.layout.content
    rw [hnil] at hcontent
    rw [← hcontent] at hlt
    exact absurd hlt (Nat.not_lt_zero _)
  obtain ⟨segs, hsegs, hne', hl, -⟩ := truncateSegments_spec hcb.layout (Nat.le_of_lt hlt) hne
  have hlen : (seq.take newSz).length = newSz := List.length_take_of_le (Nat.le_of_lt hlt)
  refine ⟨segs, hsegs, resized_of_represents ⟨hl, hlen.symm, nofun⟩ ?_ hlen hfit ?_⟩
  · exact appendReady_some.2 ⟨rfl, hne'⟩
  · rw [List.take_take, Nat.min_eq_right (Nat.le_of_lt hlt)]

theorem resized_of_grow (hbuf : buf.Represents sizes seq) (hlt : seq.length < newSz)
    (hgrow : Growable buf) (hfit : newSz < 2 ^ 32) :
    ∃ cb' bytes, growLoop sizes memory (newSz - seq.length) (buf.getD (addHeadSegment sizes 0))
        (newSz - seq.length) = .ok cb' ∧
      Resized sizes seq newSz (some { cb' with pktLen := newSz }) [] bytes := by
  have hready : AppendReady buf := fun cb hcb => (hgrow cb hcb).1
  obtain ⟨hrep, hlive⟩ := getD_addHeadSegment hbuf 0
  have htail : newSz - seq.length ≠ 0 → ∀ t,
      (buf.getD (addHeadSegment sizes 0)).tailSegment = .ok t →
        t.payload = [] ∨ t.tailroom = 0 := by
    intro _ t ht
    cases buf with
    | none =>
      cases ht
      exact .inl rfl
    | some cb => exact (hgrow cb rfl).2 t ht
  obtain ⟨cb', hloop, hlive', more, hmore, hl⟩ :=
    (growLoop_spec memory hrep.layout (hlive.2 hready) htail (Nat.le_refl _)).exists_ok trivial
  have hsum : (seq ++ more).length = newSz := by
    rw [List.length_append, hmore]
    omega
  refine ⟨cb', seq ++ more, hloop, resized_of_represents
    ⟨hl, hsum.symm, (holds_of_live hlive' hl).tail⟩ (appendReady_some.2 hlive') hsum hfit ?_⟩
  rw [List.take_left, List.take_of_length_le (Nat.le_of_lt hlt)]

theorem resized_of_ready (hbuf : buf.Represents sizes seq) (h : ResizeReady buf newSz) :
    ∃ buf' lost bytes, resize sizes memory buf newSz = .ok (buf', lost) ∧
      Resized sizes seq newSz buf' lost bytes := by
  obtain ⟨hfit, h⟩ := h
  have hlen := hbuf.length_eq
  unfold resize
  rw [hlen] at h ⊢
  split at h
  · next hlt =>
    obtain ⟨hpos, hcut⟩ := h
    rw [if_neg (Nat.ne_of_lt hlt), if_neg (Nat.not_lt_of_gt hlt)]
    cases buf with
    | none =>
      rw [← hlen] at hlt
      exact absurd hlt (Nat.not_lt_zero _)
    | some cb =>
      obtain ⟨segs, hsegs, hres⟩ := resized_of_shrink hbuf hlt hfit
      simp only [if_neg (Nat.ne_of_gt hpos), hsegs, hcut cb rfl]
      exact ⟨_, _, _, rfl, hres⟩
  · split at h
    · next heq =>
      rw [if_pos heq]
      refine ⟨_, _, seq, rfl, resized_of_represents hbuf h heq.symm hfit ?_⟩
      rw [heq]
    · next hne =>
      have hlt : seq.length < newSz := by omega
      rw [if_neg hne, if_pos hlt]
      obtain ⟨cb', bytes, hloop, hres⟩ := resized_of_grow hbuf hlt h hfit
      exact ⟨_, _, bytes, bind_of_ok hloop, hres⟩

theorem ready_of_resized {buf' : ByteBuffer} {lost : List BufferSegment} {bytes : List UInt8}
    (hbuf : buf.Represents sizes seq) (hok : resize sizes memory buf newSz = .ok (buf', lost))
    (h : Resized sizes seq newSz buf' lost bytes) : ResizeReady buf newSz := by
  have hlen := hbuf.length_eq
  have hlt := h.shows.length_lt
  rw [h.length] at hlt
  refine ⟨hlt, ?_⟩
  unfold resize at hok
  split at hok
  · next heq =>
    cases hok
    rw [if_neg (by omega), if_pos heq]
    obtain ⟨_, happend, -⟩ := h.append [0]
    exact ((appendSpan_spec [0] hbuf).of_ok happend).1 (List.cons_ne_nil _ _)
  · next hne =>
    split at hok
    · next hgrow =>
      rw [if_neg (by omega), if_neg hne]
      cases buf with
      | none => exact nofun
      | some cb =>
        obtain ⟨cb', hloop, hok⟩ := exists_of_bind_ok hok
        cases hok
        refine growable_of_growLoop (by omega) ?_ hloop h.shows.iterate
        rw [hbuf.layout.content, h.length]
        omega
    · next hshrink =>
      rw [if_pos (by omega)]
      cases buf with
      | none => cases hok
      | some cb =>
        simp only at hok
        split at hok
        · next hzero =>
          cases hok
          have hiter : bytes.map some = seq.map some := h.shows.iterate.symm.trans hbuf.iterate_eq
          have hcount := congrArg List.length hiter
          rw [List.length_map, List.length_map, h.length] at hcount
          omega
        · next hpos =>
          split at hok
          · cases hok
          · cases hok
            refine ⟨by omega, fun cb₁ hcb₁ => ?_⟩
            cases hcb₁
            exact h.returned

/-- When a resize does what it should. -/
theorem resize_resized_iff (memory : Nat → Nat → UInt8) (newSz : Nat)
    (hbuf : buf.Represents sizes seq) :
    (∃ buf' lost bytes, resize sizes memory buf newSz = .ok (buf', lost) ∧
      Resized sizes seq newSz buf' lost bytes) ↔ ResizeReady buf newSz := by
  constructor
  · rintro ⟨buf', lost, bytes, hok, h⟩
    exact ready_of_resized hbuf hok h
  · exact resized_of_ready hbuf

def twoSegments : ByteBuffer :=
  some ⟨[⟨16, List.replicate 4 7, 0, true⟩, ⟨0, List.replicate 30 7, 0, false⟩], .last, 34⟩

/-- A buffer of two full segments grows by a third. -/
theorem resize_twoSegments : ∃ buf' lost bytes,
    resize ⟨20, 30, by decide⟩ (fun _ i => i.toUInt8) twoSegments 40 = .ok (buf', lost) ∧
      Resized ⟨20, 30, by decide⟩ (List.replicate 34 7) 40 buf' lost bytes := by
  have hspan : appendSpan ⟨20, 30, by decide⟩ none (List.replicate 34 7) = .ok twoSegments := rfl
  have hbuf := ((appendSpan_spec _ (show Represents _ none [] from rfl)).of_ok hspan).2.1
  refine (resize_resized_iff _ 40 hbuf).2 ⟨by decide, fun cb hcb => ?_⟩
  cases hcb
  refine ⟨by decide, fun t ht => ?_⟩
  cases ht
  exact .inr rfl

/-- A buffer of one byte that is resized to three shows two. -/
theorem resize_one_to_three : ∃ buf buf', appendSpan ⟨20, 30, by decide⟩ none [7] = .ok buf ∧
    resize ⟨20, 30, by decide⟩ (fun _ _ => 0) buf 3 = .ok (buf', []) ∧
      buf'.length = 3 ∧ buf'.iterate = [some 7, some 0] :=
  ⟨_, _, rfl, rfl, rfl, rfl⟩

end ByteBuffer

end RadioStack
