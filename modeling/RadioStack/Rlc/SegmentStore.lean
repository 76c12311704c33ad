import RadioStack.Rlc.RxAm
import Mathlib.Data.List.Induction
import Mathlib.Data.Set.Insert

/-!
# Storing arbitrary segments

`store_segment` for segments that need not be slices of one SDU: any offset, any length, any
order. Both receivers keep the set sorted by offset, without overlaps, and cut new or stored
segments at the end of the others. The offset where a segment is cut is stored in a `uint16_t`, so
a cut at byte 65536 or beyond moves the rest of the segment to the front of the SDU.

**Theorem (`storeSegments_iff`).** In a sequence of segments the stored ones are, after each of
them, sorted, disjoint and exactly the received bytes, and the check of `refresh_status_report`
holds, if and only if no segment of the sequence is cut there (`Overflows`). Segments that end
before byte 65535 are never (`not_overflows`).

**Theorem (`reassembly_exact`).** Slices of one SDU are complete exactly when all its bytes have
come. Chained they are then the SDU, if there are at most 51 of them; otherwise it is dropped.
-/

namespace RadioStack.Rlc

/-! ## Bytes -/

variable {s : RxSegment}

namespace RxSegment

/-- The segment holds the byte. -/
def Has (s : RxSegment) (b : Nat) : Prop := s.so ≤ b ∧ b < s.so + s.payload.length

/-- Segments as they are received: an offset of 16 bits and at least one byte. -/
structure Valid (s : RxSegment) : Prop where
  so_lt : s.so < 2 ^ 16
  pos : 0 < s.payload.length

theorem Valid.lastByte_succ (h : s.Valid) :
    s.lastByte + 1 = s.so + s.payload.length := by
  have := h.pos
  unfold lastByte
  omega

theorem Valid.so_lt_of_before (h : s.Valid) {t : RxSegment} (hbefore : s.Before t) :
    s.so < t.so := by
  have := h.pos
  unfold Before at hbefore
  omega

end RxSegment

def coverage (l : List RxSegment) : Set Nat := {b | ∃ s ∈ l, s.Has b}

variable {l : List RxSegment} {b : Nat}

theorem mem_coverage : b ∈ coverage l ↔ ∃ s ∈ l, s.Has b := Iff.rfl

@[simp] theorem coverage_nil : coverage [] = ∅ := by
  ext b
  simp [mem_coverage]

theorem coverage_append (l l' : List RxSegment) :
    coverage (l ++ l') = coverage l ∪ coverage l' := by
  ext b
  simp [mem_coverage, or_and_right, exists_or]

theorem mem_coverage_cons :
    b ∈ coverage (s :: l) ↔ s.Has b ∨ b ∈ coverage l := by
  simp [mem_coverage]

/-- Sorted, disjoint segments. -/
structure SegmentSet (l : List RxSegment) : Prop where
  valid : ∀ s ∈ l, s.Valid
  ordered : l.Pairwise RxSegment.Before

/-- A cut at byte 65536 or beyond. The new segment and the received bytes `U` both reach byte
65535. If all bytes of the new segment up to there were received it is cut at the end of `U`, and
if not the stored segment that reaches the end of `U` is cut at the end of the new one. -/
def Overflows (U : Set Nat) (new : RxSegment) : Prop :=
  65535 ≤ new.lastByte ∧ ∃ m ∈ U, (∀ b ∈ U, b ≤ m) ∧ 65535 ≤ m ∧
    ((∀ b, new.so ≤ b → b ≤ 65535 → b ∈ U) ∧ m < new.lastByte ∨
      (∃ b, new.so ≤ b ∧ b ≤ 65535 ∧ b ∉ U) ∧ new.lastByte < m)

theorem not_overflows {U : Set Nat} {new : RxSegment} (h : new.so + new.payload.length ≤ 65535) :
    ¬ Overflows U new := by
  rintro ⟨hreach, -⟩
  unfold RxSegment.lastByte at hreach
  omega

/-- What storing `new` over the bytes `U` leads to. -/
structure StoreOutcome (U : Set Nat) (new : RxSegment) (result : List RxSegment) : Prop where
  stored : ¬ Overflows U new → SegmentSet result ∧ coverage result = U ∪ {b | new.Has b}
  lost : Overflows U new → coverage result ≠ U ∪ {b | new.Has b}

theorem StoreOutcome.congr {U U' : Set Nat} {new new' : RxSegment} {result : List RxSegment}
    (h : StoreOutcome U' new' result) (hbytes : U' ∪ {b | new'.Has b} = U ∪ {b | new.Has b})
    (hover : Overflows U new ↔ Overflows U' new') : StoreOutcome U new result :=
  ⟨fun hn => hbytes ▸ h.stored (mt hover.2 hn), fun ho => hbytes ▸ h.lost (hover.1 ho)⟩

section

variable {new cur : RxSegment} {kept rest l : List RxSegment}

theorem SegmentSet.sublist (h : SegmentSet l) {l' : List RxSegment} (hsub : l'.Sublist l) :
    SegmentSet l' :=
  ⟨fun s hs => h.valid s (hsub.subset hs), h.ordered.sublist hsub⟩

/-- A segment fits between those that end before it and those that start after it. -/
theorem SegmentSet.insert (h : SegmentSet (kept ++ rest)) (hnew : new.Valid)
    (hk : ∀ s ∈ kept, s.Before new) (hr : ∀ s ∈ rest, new.Before s) :
    SegmentSet (insertSegment new (kept ++ rest)) ∧
      insertSegment new (kept ++ rest) = kept ++ new :: rest := by
  obtain ⟨hkept, hrest, hcross⟩ := List.pairwise_append.1 h.ordered
  have hk' : ∀ s ∈ kept, s.so < new.so := fun s hs =>
    (h.valid s (List.mem_append_left _ hs)).so_lt_of_before (hk s hs)
  rw [insertSegment_append hk' fun s hs => hnew.so_lt_of_before (hr s hs)]
  refine ⟨⟨fun s hs => ?_, ?_⟩, rfl⟩
  · rcases List.mem_append.1 hs with hs | hs
    · exact h.valid s (List.mem_append_left _ hs)
    · rcases List.mem_cons.1 hs with rfl | hs
      · exact hnew
      · exact h.valid s (List.mem_append_right _ hs)
  · refine List.pairwise_append.2 ⟨hkept, List.pairwise_cons.2 ⟨hr, hrest⟩, ?_⟩
    intro a ha b hb
    rcases List.mem_cons.1 hb with rfl | hb
    · exact hk a ha
    · exact hcross a ha b hb

theorem mem_insertSegment (h : s ∈ insertSegment new l) : s = new ∨ s ∈ l := by
  induction l with
  | nil => simpa [insertSegment] using h
  | cons t l ih =>
    simp only [insertSegment] at h
    split at h
    · simpa using h
    · split at h
      · rcases List.mem_cons.1 h with rfl | h
        · simp
        · simpa using (ih h).imp_right .inr
      · exact .inr h

/-- Whatever the offsets, an insertion adds no other bytes than those of the new segment. -/
theorem coverage_insertSegment_subset (new : RxSegment) (l : List RxSegment)
    (h : b ∈ coverage (insertSegment new l)) : new.Has b ∨ b ∈ coverage l := by
  obtain ⟨s, hs, hhas⟩ := h
  rcases mem_insertSegment hs with rfl | hs
  · exact .inl hhas
  · exact .inr ⟨s, hs, hhas⟩

end

/-! ## One segment -/

section

variable {new cur : RxSegment} {kept rest : List RxSegment}

theorem lt_of_mem_kept (hk : ∀ s ∈ kept, s.Before new) (hb : b ∈ coverage kept) :
    b < new.so := by
  obtain ⟨s, hs, hhas⟩ := hb
  have hbefore := hk s hs
  unfold RxSegment.Has RxSegment.Before at *
  omega

/-- A segment that reaches byte 65535 is the last one, and holds the highest byte. -/
theorem SegmentSet.of_reaches (h : SegmentSet (kept ++ cur :: rest))
    (hreach : 65535 ≤ cur.lastByte) :
    rest = [] ∧ ∀ b ∈ coverage (kept ++ cur :: rest), b ≤ cur.lastByte := by
  have hcur := (h.valid cur (by simp)).lastByte_succ
  obtain ⟨-, hordered, hcross⟩ := List.pairwise_append.1 h.ordered
  have hrest : rest = [] := by
    refine List.eq_nil_iff_forall_not_mem.2 fun s hs => ?_
    have hbefore := (List.pairwise_cons.1 hordered).1 s hs
    have hlt := (h.valid s (by simp [hs])).so_lt
    unfold RxSegment.Before at hbefore
    omega
  refine ⟨hrest, fun b hb => ?_⟩
  rw [hrest, coverage_append] at hb
  rcases hb with hb | hb
  · have hlt := lt_of_mem_kept (fun s hs => hcross s hs cur List.mem_cons_self) hb
    omega
  · rcases mem_coverage_cons.1 hb with hhas | hnone
    · unfold RxSegment.Has at hhas
      omega
    · simp at hnone

theorem mem_of_has (hb : cur.Has b) : b ∈ coverage (kept ++ cur :: rest) :=
  ⟨cur, by simp, hb⟩

/-- With the highest byte known, whether there is an overflow depends on the first bytes of the
new segment. -/
theorem overflows_iff (h : SegmentSet (kept ++ cur :: rest)) (hreach : 65535 ≤ cur.lastByte) :
    Overflows (coverage (kept ++ cur :: rest)) new ↔ 65535 ≤ new.lastByte ∧
      ((∀ b, new.so ≤ b → b ≤ 65535 → b ∈ coverage (kept ++ cur :: rest)) ∧
          cur.lastByte < new.lastByte ∨
        (∃ b, new.so ≤ b ∧ b ≤ 65535 ∧ b ∉ coverage (kept ++ cur :: rest)) ∧
          new.lastByte < cur.lastByte) := by
  have hvalid := h.valid cur (by simp)
  have hlast := hvalid.lastByte_succ
  have hmax := (h.of_reaches hreach).2
  have hmem : cur.lastByte ∈ coverage (kept ++ cur :: rest) :=
    mem_of_has ⟨by have := hvalid.pos; omega, by omega⟩
  constructor
  · rintro ⟨hnew, m, hm, hle, -, hcases⟩
    obtain rfl : m = cur.lastByte := Nat.le_antisymm (hmax m hm) (hle _ hmem)
    exact ⟨hnew, hcases⟩
  · rintro ⟨hnew, hcases⟩
    exact ⟨hnew, _, hmem, hmax, hreach, hcases⟩

/-- Between two stored segments nothing overflows. -/
theorem StoreOutcome.insert (h : SegmentSet (kept ++ rest)) (hnew : new.Valid)
    (hk : ∀ s ∈ kept, s.Before new) (hr : ∀ s ∈ rest, new.Before s) :
    StoreOutcome (coverage (kept ++ rest)) new (insertSegment new (kept ++ rest)) := by
  obtain ⟨hset, hlist⟩ := h.insert hnew hk hr
  have hfit : ¬ Overflows (coverage (kept ++ rest)) new := by
    rintro ⟨hreach, m, hm, -, hm', -⟩
    have hlt := hnew.so_lt
    have hlast := hnew.lastByte_succ
    rw [coverage_append] at hm
    rcases hm with hm | ⟨s, hs, -⟩
    · have := lt_of_mem_kept hk hm
      omega
    · have hbefore := hr s hs
      have hs' := (h.valid s (List.mem_append_right _ hs)).so_lt
      unfold RxSegment.Before at hbefore
      omega
  refine ⟨fun _ => ⟨hset, ?_⟩, fun ho => absurd ho hfit⟩
  rw [hlist]
  ext b
  simp only [coverage_append, Set.mem_union, mem_coverage_cons]
  show _ ↔ _ ∨ new.Has b
  tauto

/-- A cut below byte 65536 keeps the end of a segment. -/
theorem RxSegment.Valid.advance (h : s.Valid) (hle : s.so ≤ b) (hlast : b ≤ s.lastByte)
    (hlt : b < 2 ^ 16) :
    (s.advance b).Valid ∧ (s.advance b).so = b ∧ (s.advance b).lastByte = s.lastByte := by
  have hend := h.lastByte_succ
  have hso : (s.advance b).so = b := Nat.mod_eq_of_lt hlt
  have hlen := RxSegment.length_advance (s := s) (b := b)
  refine ⟨⟨by rw [hso]; exact hlt, by omega⟩, hso, ?_⟩
  rw [RxSegment.lastByte, hso, hlen]
  omega

/-- A cut at byte 65536 or beyond moves the rest before the old end. -/
theorem RxSegment.Valid.has_advance_lt (h : s.Valid) (hle : s.so ≤ b) (hwrap : 2 ^ 16 ≤ b)
    {c : Nat} (hc : (s.advance b).Has c) :
    c < s.lastByte := by
  have hend := h.lastByte_succ
  have hso : (s.advance b).so = b % 2 ^ 16 := rfl
  have hlen := RxSegment.length_advance (s := s) (b := b)
  unfold RxSegment.Has at hc
  omega

section

variable (h : SegmentSet (kept ++ cur :: rest)) (hnew : new.Valid)
  (hk : ∀ s ∈ kept, s.Before new)

section

variable (hstart : cur.so ≤ new.so)

include hstart

include h hnew in
/-- The new segment lies inside of the current one. -/
theorem StoreOutcome.inside (hlast : new.lastByte ≤ cur.lastByte) :
    StoreOutcome (coverage (kept ++ cur :: rest)) new (kept ++ cur :: rest) := by
  have hc := (h.valid cur (by simp)).lastByte_succ
  have hn := hnew.lastByte_succ
  have hcover : ∀ b, new.Has b → cur.Has b := by
    intro b hb
    unfold RxSegment.Has at *
    omega
  refine ⟨fun _ => ⟨h, ?_⟩, fun ho => ?_⟩
  · refine (Set.union_eq_left.2 fun b hb => ?_).symm
    exact mem_of_has (hcover b hb)
  · have hreach : 65535 ≤ cur.lastByte := ho.1.trans hlast
    obtain ⟨-, ⟨-, hafter⟩ | ⟨⟨b, hb, hb', hmiss⟩, -⟩⟩ := (overflows_iff h hreach).1 ho
    · omega
    · exact absurd (mem_of_has ⟨by omega, by omega⟩) hmiss

include h hnew in
theorem overflows_advance (hover : new.so ≤ cur.lastByte)
    (hlast : cur.lastByte < new.lastByte) (hfit : cur.lastByte < 65535) :
    Overflows (coverage (kept ++ cur :: rest)) new ↔
      Overflows (coverage (kept ++ cur :: rest)) (new.advance (cur.lastByte + 1)) := by
  have hc := (h.valid cur (by simp)).lastByte_succ
  obtain ⟨-, hso, hend⟩ := hnew.advance (b := cur.lastByte + 1) (by omega) (by omega) (by omega)
  have hinside : ∀ b, new.so ≤ b → b < cur.lastByte + 1 → b ∈ coverage (kept ++ cur :: rest) :=
    fun b hb hb' => mem_of_has ⟨by omega, by omega⟩
  have hfull : (∀ b, new.so ≤ b → b ≤ 65535 → b ∈ coverage (kept ++ cur :: rest)) ↔
      ∀ b, cur.lastByte + 1 ≤ b → b ≤ 65535 → b ∈ coverage (kept ++ cur :: rest) := by
    refine ⟨fun hall b hb => hall b (by omega), fun hall b hb hb' => ?_⟩
    by_cases hin : b < cur.lastByte + 1
    · exact hinside b hb hin
    · exact hall b (by omega) hb'
  have hsome : (∃ b, new.so ≤ b ∧ b ≤ 65535 ∧ b ∉ coverage (kept ++ cur :: rest)) ↔
      ∃ b, cur.lastByte + 1 ≤ b ∧ b ≤ 65535 ∧ b ∉ coverage (kept ++ cur :: rest) := by
    simpa using not_congr hfull
  simp [Overflows, hso, hend, hfull, hsome]

include h hnew in
theorem coverage_advance (hover : new.so ≤ cur.lastByte)
    (hlast : cur.lastByte < new.lastByte) (hfit : cur.lastByte < 65535) :
    coverage (kept ++ cur :: rest) ∪ {b | (new.advance (cur.lastByte + 1)).Has b} =
      coverage (kept ++ cur :: rest) ∪ {b | new.Has b} := by
  have hc := (h.valid cur (by simp)).lastByte_succ
  have hn := hnew.lastByte_succ
  obtain ⟨hvalid, hso, hend⟩ :=
    hnew.advance (b := cur.lastByte + 1) (by omega) (by omega) (by omega)
  have hn' := hvalid.lastByte_succ
  ext b
  constructor
  · rintro (hb | hb)
    · exact .inl hb
    · refine .inr ?_
      change RxSegment.Has _ b at hb
      show new.Has b
      unfold RxSegment.Has at *
      omega
  · rintro (hb | hb)
    · exact .inl hb
    · change new.Has b at hb
      by_cases hin : b < cur.lastByte + 1
      · unfold RxSegment.Has at hb
        exact .inl (mem_of_has ⟨by omega, by omega⟩)
      · refine .inr ?_
        show RxSegment.Has _ b
        unfold RxSegment.Has at *
        omega

include h hnew in
/-- The new segment is cut beyond byte 65535: its last byte is lost. -/
theorem StoreOutcome.trimmed (hlast : cur.lastByte < new.lastByte)
    (hreach : 65535 ≤ cur.lastByte) :
    StoreOutcome (coverage (kept ++ cur :: rest)) new
      (storeLoop (new.advance (cur.lastByte + 1)) (kept ++ [cur]) rest).1 := by
  obtain ⟨rfl, hmax⟩ := h.of_reaches hreach
  have hc := (h.valid cur (by simp)).lastByte_succ
  have hlt := hnew.so_lt
  have hend := hnew.lastByte_succ
  have hover : Overflows (coverage (kept ++ [cur])) new :=
    (overflows_iff h hreach).2 ⟨by omega, .inl ⟨fun b hb hb' =>
      mem_of_has ⟨by omega, by omega⟩, hlast⟩⟩
  refine ⟨fun hn => absurd hover hn, fun _ heq => ?_⟩
  have hmem : new.lastByte ∈ coverage (kept ++ [cur]) ∪ {b | new.Has b} := by
    refine .inr ⟨?_, by omega⟩
    omega
  rw [← heq] at hmem
  rcases coverage_insertSegment_subset _ _ hmem with hhas | hold
  · exact absurd (hnew.has_advance_lt (by omega) (by omega) hhas) (Nat.lt_irrefl _)
  · have := hmax _ hold
    omega

end

include h hk in
theorem so_notMem (hstart : new.so < cur.so) : new.so ∉ coverage (kept ++ cur :: rest) := by
  obtain ⟨-, hordered, -⟩ := List.pairwise_append.1 h.ordered
  intro hmem
  rw [coverage_append] at hmem
  rcases hmem with hmem | hmem
  · exact absurd (lt_of_mem_kept hk hmem) (Nat.lt_irrefl _)
  · rcases mem_coverage_cons.1 hmem with hhas | ⟨s, hs, hhas⟩
    · unfold RxSegment.Has at hhas
      omega
    · have hbefore := (List.pairwise_cons.1 hordered).1 s hs
      unfold RxSegment.Before RxSegment.Has at *
      omega

include h hnew hk in
/-- The new segment ends inside of the current one, which is cut. -/
theorem StoreOutcome.cut (hstart : new.so < cur.so) (hover : cur.so ≤ new.lastByte)
    (hlast : new.lastByte < cur.lastByte) :
    StoreOutcome (coverage (kept ++ cur :: rest)) new
      (insertSegment new
        (insertSegment (cur.advance (new.lastByte + 1)) (kept ++ rest))) := by
  have hcur := h.valid cur (by simp)
  have hc := hcur.lastByte_succ
  have hn := hnew.lastByte_succ
  have hlt := hnew.so_lt
  by_cases hfit : new.lastByte < 65535
  · obtain ⟨hcut, hso, hend⟩ :=
      hcur.advance (b := new.lastByte + 1) (by omega) (by omega) (by omega)
    have hcutEnd := hcut.lastByte_succ
    set cut := cur.advance (new.lastByte + 1)
    obtain ⟨-, hordered, hcross⟩ := List.pairwise_append.1 h.ordered
    have hrest := (List.pairwise_cons.1 hordered).1
    have hdrop : SegmentSet (kept ++ rest) :=
      h.sublist ((List.sublist_cons_self cur rest).append_left kept)
    have hcutKept : ∀ s ∈ kept, s.Before cut := by
      intro s hs
      have := hk s hs
      unfold RxSegment.Before at *
      omega
    have hcutRest : ∀ s ∈ rest, cut.Before s := by
      intro s hs
      have := hrest s hs
      unfold RxSegment.Before at *
      omega
    have hnewRest : ∀ s ∈ cut :: rest, new.Before s := by
      intro s hs
      rcases List.mem_cons.1 hs with rfl | hs
      · unfold RxSegment.Before
        omega
      · have := hcutRest s hs
        unfold RxSegment.Before at *
        omega
    obtain ⟨hfirst, hlist⟩ := hdrop.insert hcut hcutKept hcutRest
    rw [hlist] at hfirst ⊢
    obtain ⟨hset, hlist'⟩ := hfirst.insert hnew hk hnewRest
    refine ⟨fun _ => ⟨hset, ?_⟩, fun ho => ?_⟩
    · rw [hlist']
      ext b
      have hsplit : new.Has b ∨ cut.Has b ↔ cur.Has b ∨ new.Has b := by
        unfold RxSegment.Has
        omega
      simp only [coverage_append, Set.mem_union, mem_coverage_cons]
      show _ ↔ _ ∨ new.Has b
      rw [← or_assoc (a := new.Has b), hsplit]
      simp [or_comm, or_left_comm]
    · have := ho.1
      omega
  · have hreach : 65535 ≤ cur.lastByte := by omega
    obtain ⟨rfl, hmax⟩ := h.of_reaches hreach
    have hmiss := so_notMem h hk hstart
    have hoverflow : Overflows (coverage (kept ++ [cur])) new :=
      (overflows_iff h hreach).2 ⟨by omega, .inr ⟨⟨_, le_refl _, by omega, hmiss⟩, hlast⟩⟩
    refine ⟨fun hno => absurd hoverflow hno, fun _ heq => ?_⟩
    have hmem : cur.lastByte ∈ coverage (kept ++ [cur]) ∪ {b | new.Has b} :=
      .inl (mem_of_has ⟨by have := hcur.pos; omega, by omega⟩)
    rw [← heq] at hmem
    rcases coverage_insertSegment_subset _ _ hmem with hhas | hold
    · unfold RxSegment.Has at hhas
      omega
    · rcases coverage_insertSegment_subset _ _ hold with hhas | hkept
      · exact absurd (hcur.has_advance_lt (by omega) (by omega) hhas) (Nat.lt_irrefl _)
      · rw [List.append_nil] at hkept
        have := lt_of_mem_kept hk hkept
        omega

include h hnew hk in
theorem overflows_erase (hstart : new.so < cur.so) (hlast : cur.lastByte ≤ new.lastByte) :
    Overflows (coverage (kept ++ cur :: rest)) new ↔ Overflows (coverage (kept ++ rest)) new := by
  have hc := (h.valid cur (by simp)).lastByte_succ
  have hlt := hnew.so_lt
  have hmiss := so_notMem h hk hstart
  have hsub : ∀ b, b ∈ coverage (kept ++ rest) → b ∈ coverage (kept ++ cur :: rest) := by
    rintro b ⟨s, hs, hhas⟩
    exact ⟨s, List.mem_append.2 ((List.mem_append.1 hs).imp_right (List.mem_cons_of_mem _)), hhas⟩
  have hsplit : ∀ b, b ∈ coverage (kept ++ cur :: rest) →
      cur.Has b ∨ b ∈ coverage (kept ++ rest) := by
    intro b hb
    simp only [coverage_append, Set.mem_union, mem_coverage_cons] at hb ⊢
    tauto
  constructor
  · rintro ⟨hreach, m, hm, hmax, hm', hcases⟩
    rcases hcases with ⟨hfull, -⟩ | ⟨-, hend⟩
    · exact absurd (hfull new.so (le_refl _) (by omega)) hmiss
    · rcases hsplit m hm with hhas | hm
      · unfold RxSegment.Has at hhas
        omega
      · exact ⟨hreach, m, hm, fun b hb => hmax b (hsub b hb), hm',
          .inr ⟨⟨_, le_refl _, by omega, fun hb => hmiss (hsub _ hb)⟩, hend⟩⟩
  · rintro ⟨hreach, m, hm, hmax, hm', hcases⟩
    rcases hcases with ⟨hfull, -⟩ | ⟨-, hend⟩
    · exact absurd (hsub _ (hfull new.so (le_refl _) (by omega))) hmiss
    · refine ⟨hreach, m, hsub m hm, fun b hb => ?_, hm',
        .inr ⟨⟨_, le_refl _, by omega, hmiss⟩, hend⟩⟩
      rcases hsplit b hb with hhas | hb
      · unfold RxSegment.Has at hhas
        omega
      · exact hmax b hb

include h hnew in
theorem coverage_erase (hstart : new.so < cur.so) (hlast : cur.lastByte ≤ new.lastByte) :
    coverage (kept ++ rest) ∪ {b | new.Has b} =
      coverage (kept ++ cur :: rest) ∪ {b | new.Has b} := by
  have hc := (h.valid cur (by simp)).lastByte_succ
  have hn := hnew.lastByte_succ
  ext b
  have hcover : cur.Has b → new.Has b := by
    unfold RxSegment.Has
    omega
  simp only [coverage_append, Set.mem_union, mem_coverage_cons]
  show _ ∨ new.Has b ↔ _ ∨ new.Has b
  tauto

end

/-- **The loop of `store_segment`.** -/
theorem storeLoop_outcome (h : SegmentSet (kept ++ rest)) (hnew : new.Valid)
    (hk : ∀ s ∈ kept, s.Before new) :
    StoreOutcome (coverage (kept ++ rest)) new (storeLoop new kept rest).1 := by
  induction rest generalizing new kept with
  | nil =>
    have hinsert := StoreOutcome.insert h hnew hk nofun
    rwa [List.append_nil] at hinsert ⊢
  | cons cur rest ih =>
    have hc := (h.valid cur (by simp)).lastByte_succ
    have hn := hnew.lastByte_succ
    have hshift : kept ++ cur :: rest = (kept ++ [cur]) ++ rest := by simp
    unfold storeLoop
    split
    · next hafter =>
      rw [hshift] at h ⊢
      refine ih h hnew fun s hs => ?_
      rcases List.mem_append.1 hs with hs | hs
      · exact hk s hs
      · obtain rfl := List.mem_singleton.1 hs
        unfold RxSegment.Before
        omega
    · next hafter =>
      split
      · next hstart =>
        split
        · next hlast => exact .inside h hnew hstart hlast
        · next hlast =>
          by_cases hfit : cur.lastByte < 65535
          · obtain ⟨hvalid, hso, -⟩ :=
              hnew.advance (b := cur.lastByte + 1) (by omega) (by omega) (by omega)
            have hnext := ih (hshift ▸ h) hvalid fun s hs => ?_
            · rw [← hshift] at hnext
              exact hnext.congr (coverage_advance h hnew hstart (by omega) (by omega) hfit)
                (overflows_advance h hnew hstart (by omega) (by omega) hfit)
            · unfold RxSegment.Before
              rcases List.mem_append.1 hs with hs | hs
              · have hbefore := hk s hs
                unfold RxSegment.Before at hbefore
                omega
              · obtain rfl := List.mem_singleton.1 hs
                omega
          · exact .trimmed h hnew hstart (by omega) (by omega)
      · next hstart =>
        split
        · next hbefore =>
          refine .insert h hnew hk fun s hs => ?_
          unfold RxSegment.Before
          rcases List.mem_cons.1 hs with rfl | hs
          · omega
          · have hrest := (List.pairwise_cons.1 (List.pairwise_append.1 h.ordered).2.1).1 s hs
            unfold RxSegment.Before at hrest
            omega
        · next hbefore =>
          split
          · next hlast => exact .cut h hnew hk (by omega) (by omega) hlast
          · next hlast =>
            have hnext :=
              ih (h.sublist ((List.sublist_cons_self cur rest).append_left kept)) hnew hk
            exact hnext.congr (coverage_erase h hnew (by omega) (by omega))
              (overflows_erase h hnew hk (by omega) (by omega))

end

/-! ## Slices of one SDU -/

section

variable {sdu : List UInt8} {s new : RxSegment} {kept rest l : List RxSegment} {b : Nat}

theorem RxSegment.SliceOf.valid (h : s.SliceOf sdu) (hlen : sdu.length < 2 ^ 16) : s.Valid :=
  ⟨Nat.lt_of_le_of_lt ((Nat.le_add_right ..).trans h.le) hlen, h.pos⟩

theorem RxSegment.SliceOf.advance (h : s.SliceOf sdu) (hlen : sdu.length < 2 ^ 16)
    (hle : s.so ≤ b) (hb : b ≤ s.lastByte) : (s.advance b).SliceOf sdu := by
  have hend := (h.valid hlen).lastByte_succ
  have hsdu := h.le
  have hlength := RxSegment.length_advance (s := s) (b := b)
  have hso : (s.advance b).so = b := Nat.mod_eq_of_lt (by omega)
  have hsame : b + (s.payload.length - (b - s.so)) = s.so + s.payload.length := by omega
  refine ⟨by omega, by omega, ?_, ?_⟩
  · rw [hso, hlength]
    show s.payload.drop (b - s.so) = _
    rw [h.bytes, List.drop_take, List.drop_drop, ← h.bytes, Nat.add_sub_cancel' hle]
  · rw [hso, hlength, hsame]
    exact h.last_iff

theorem forall_insertSegment {P : RxSegment → Prop} (hnew : P new) (h : ∀ s ∈ l, P s) :
    ∀ s ∈ insertSegment new l, P s :=
  fun s hs => (mem_insertSegment hs).elim (fun heq => heq ▸ hnew) (h s)

/-- All that is stored are slices: of the SDU, if the segments are. -/
theorem storeLoop_slices (hlen : sdu.length < 2 ^ 16) (h : ∀ s ∈ kept ++ rest, s.SliceOf sdu)
    (hnew : new.SliceOf sdu) : ∀ s ∈ (storeLoop new kept rest).1, s.SliceOf sdu := by
  induction rest generalizing new kept with
  | nil => exact forall_insertSegment hnew (by simpa using h)
  | cons cur rest ih =>
    have hcur := h cur (by simp)
    have hshift : ∀ s ∈ (kept ++ [cur]) ++ rest, s.SliceOf sdu := by simpa using h
    have hdrop : ∀ s ∈ kept ++ rest, s.SliceOf sdu := fun s hs => h s (by simp at hs ⊢; tauto)
    unfold storeLoop
    split
    · exact ih hshift hnew
    · split
      · split
        · exact h
        · exact ih hshift (hnew.advance hlen (by omega) (by omega))
      · split
        · exact forall_insertSegment hnew h
        · split
          · exact forall_insertSegment hnew
              (forall_insertSegment (hcur.advance hlen (by omega) (by omega)) hdrop)
          · exact ih hdrop hnew

/-- Storing a slice of the SDU keeps ordered, disjoint slices of it. -/
theorem segmentsOf_storeSegment (hlen : sdu.length < 2 ^ 16) (h : SegmentsOf sdu l)
    (hnew : new.SliceOf sdu) : SegmentsOf sdu (storeSegment l new).1 := by
  have hset : SegmentSet l := ⟨fun s hs => (h.slices s hs).valid hlen, h.ordered⟩
  have hle := hnew.le
  have hstored := (@storeLoop_outcome new [] l hset (hnew.valid hlen) nofun).stored
    (not_overflows (by omega))
  exact ⟨@storeLoop_slices sdu new [] l hlen h.slices hnew, hstored.1.ordered⟩

theorem RxSegment.SliceOf.append_drop (h : s.SliceOf sdu) :
    s.payload ++ sdu.drop (s.so + s.payload.length) = sdu.drop s.so := by
  nth_rewrite 1 [h.bytes]
  rw [← List.drop_drop]
  exact List.take_append_drop ..

/-- The walk over slices from byte `b` on: they are complete iff they hold all bytes from there, and
then they make up the rest of the SDU. -/
theorem SegmentsOf.inventory (h : SegmentsOf sdu l) (hstart : ∀ s ∈ l, b ≤ s.so)
    (hb : b < sdu.length) :
    ((segmentInventory b l).1 = true ↔ ∀ x, b ≤ x → x < sdu.length → x ∈ coverage l) ∧
      ((segmentInventory b l).1 = true → (l.map (·.payload)).flatten = sdu.drop b) := by
  induction l generalizing b with
  | nil => exact ⟨⟨nofun, fun hall => absurd (hall b le_rfl hb) (by simp)⟩, nofun⟩
  | cons s l ih =>
    have hs := h.slices s List.mem_cons_self
    have hord := List.pairwise_cons.1 h.ordered
    have hchain : ((s :: l).map (·.payload)).flatten = s.payload ++ (l.map (·.payload)).flatten :=
      rfl
    simp only [segmentInventory, mem_coverage_cons]
    split
    · next hso =>
      -- nothing holds byte `b`
      have hfirst := hstart s List.mem_cons_self
      refine ⟨iff_of_false nofun fun hall => ?_, nofun⟩
      rcases hall b le_rfl hb with hhas | ⟨t, ht, hhas⟩
      · exact absurd hhas.1 (by omega)
      · have hbefore : s.so + s.payload.length ≤ t.so := hord.1 t ht
        exact absurd hhas.1 (by omega)
    · next hso =>
      obtain rfl : s.so = b := not_not.1 hso
      split
      · next hsi =>
        have hend := hs.last_iff.1 hsi
        -- nothing can follow the last segment
        have hnil : l = [] := by
          refine List.eq_nil_iff_forall_not_mem.2 fun t ht => ?_
          have hbefore : s.so + s.payload.length ≤ t.so := hord.1 t ht
          have ht' := h.slices t (List.mem_cons_of_mem _ ht)
          have := ht'.pos
          have := ht'.le
          omega
        refine ⟨iff_of_true rfl fun x hx hlt => .inl ⟨hx, by omega⟩, fun _ => ?_⟩
        rw [hchain, hnil, ← hs.append_drop, List.drop_of_length_le hend.ge]
        rfl
      · next hsi =>
        have hend := Nat.lt_of_le_of_ne hs.le (mt hs.last_iff.2 hsi)
        have hrest := ih ⟨fun t ht => h.slices t (List.mem_cons_of_mem _ ht), hord.2⟩ hord.1 hend
        refine ⟨hrest.1.trans ⟨fun hall x hx hlt => ?_, fun hall x hx hlt => ?_⟩, fun hfull => ?_⟩
        · by_cases hin : x < s.so + s.payload.length
          · exact .inl ⟨hx, hin⟩
          · exact .inr (hall x (by omega) hlt)
        · exact (hall x (by omega) hlt).resolve_left fun hhas => absurd hhas.2 (by omega)
        · rw [hchain, hrest.2 hfull, hs.append_drop]

end

/-! ## Sequences of segments -/

/-- The set after the segments have been stored one after the other. -/
def storeSegments (received : List RxSegment) : List RxSegment :=
  received.foldl (fun l new => (storeSegment l new).1) []

/-- The stored segments are sorted by offset and disjoint, and hold the received bytes. -/
structure StoredExactly (received stored : List RxSegment) : Prop where
  sorted : stored.Pairwise fun a b => a.so < b.so
  disjoint : stored.Pairwise fun a b => ∀ byte, ¬ (a.Has byte ∧ b.Has byte)
  covers : coverage stored = coverage received

theorem SegmentSet.storedExactly {received stored : List RxSegment} (h : SegmentSet stored)
    (hcover : coverage stored = coverage received) : StoredExactly received stored := by
  refine ⟨?_, ?_, hcover⟩
  · exact h.ordered.imp_of_mem fun {a b} ha _ hbefore => (h.valid a ha).so_lt_of_before hbefore
  · refine h.ordered.imp fun {a b} hbefore byte ⟨ha, hb⟩ => ?_
    unfold RxSegment.Before RxSegment.Has at *
    omega

/-- **The walk over sorted, disjoint segments passes the check of its NACKs.** -/
theorem SegmentSet.nackSegments (h : SegmentSet l) {lastSo : Nat}
    (hstart : ∀ s ∈ l, lastSo ≤ s.so) (sn : Nat) (haveLast : Bool) (report : StatusPdu) :
    ∃ r, RxAm.Core.nackSegments sn lastSo haveLast l report = .ok r := by
  induction l generalizing lastSo haveLast report with
  | nil => cases haveLast <;> exact ⟨_, rfl⟩
  | cons s l ih =>
    have hfirst := hstart s List.mem_cons_self
    have hlt := (h.valid s List.mem_cons_self).so_lt
    have hcheck : ¬ (s.so ≠ lastSo ∧
        (s.so + (2 ^ 16 - 1)) % 2 ^ 16 < lastSo % 2 ^ 16) := by
      rintro ⟨hne, hbad⟩
      omega
    have hnext := fun haveLast => ih (h.sublist (List.sublist_cons_self s l))
      (fun t ht => (List.pairwise_cons.1 h.ordered).1 t ht) haveLast
    cases haveLast with
    | false | true =>
      rw [RxAm.Core.nackSegments, if_neg hcheck]
      exact hnext _ _

section

variable {received : List RxSegment} {new : RxSegment}

theorem storeSegments_concat :
    storeSegments (received ++ [new]) = (storeSegment (storeSegments received) new).1 := by
  rw [storeSegments, List.foldl_append]
  rfl

theorem coverage_concat :
    coverage (received ++ [new]) = coverage received ∪ {b | new.Has b} := by
  ext b
  rw [coverage_append]
  simp [mem_coverage_cons]

theorem storeSegments_outcome (hset : SegmentSet (storeSegments received))
    (hcover : coverage (storeSegments received) = coverage received) (hnew : new.Valid) :
    StoreOutcome (coverage received) new (storeSegments (received ++ [new])) := by
  rw [storeSegments_concat, ← hcover]
  exact @storeLoop_outcome new [] _ hset hnew nofun

end

/-- As long as nothing is lost, the set stays sorted and disjoint and no segment overflows. -/
theorem storeSegments_of_covers {received : List RxSegment} (hvalid : ∀ s ∈ received, s.Valid)
    (h : ∀ pre new, pre ++ [new] <+: received →
      ¬ Overflows (coverage pre) new ∨
        coverage (storeSegments (pre ++ [new])) = coverage (pre ++ [new])) :
    (SegmentSet (storeSegments received) ∧
        coverage (storeSegments received) = coverage received) ∧
      ∀ pre new, pre ++ [new] <+: received → ¬ Overflows (coverage pre) new := by
  induction received using List.reverseRecOn with
  | nil =>
    refine ⟨⟨⟨nofun, .nil⟩, rfl⟩, fun pre new hpre => ?_⟩
    simp at hpre
  | append_singleton received new ih =>
    obtain ⟨⟨hset, hcover⟩, hall⟩ := ih (fun s hs => hvalid s (List.mem_append_left _ hs))
      fun pre x hpre => h pre x (hpre.trans (List.prefix_append _ _))
    have houtcome := storeSegments_outcome hset hcover (hvalid new (by simp))
    have hfits : ¬ Overflows (coverage received) new := by
      intro ho
      rcases h received new (List.prefix_refl _) with hno | hcov
      · exact hno ho
      · exact houtcome.lost ho (hcov.trans coverage_concat)
    obtain ⟨hset', hcover'⟩ := houtcome.stored hfits
    refine ⟨⟨hset', hcover'.trans coverage_concat.symm⟩, fun pre x hpre => ?_⟩
    rcases List.prefix_concat_iff.1 hpre with heq | hpre
    · obtain ⟨rfl, hx⟩ := List.append_inj' heq rfl
      obtain rfl := List.singleton_inj.1 hx
      exact hfits
    · exact hall pre x hpre

/-- **The store of segments on arbitrary input.** -/
theorem storeSegments_iff {segments : List RxSegment}
    (hvalid : ∀ s ∈ segments, s.so < 2 ^ 16 ∧ s.payload ≠ [] ∧ s.si ≠ .fullSdu) :
    (∀ received, received <+: segments →
      StoredExactly received (storeSegments received) ∧
        ∀ sn report, ∃ r,
          RxAm.Core.nackSegments sn 0 false (storeSegments received) report = .ok r) ↔
      ∀ received new, received ++ [new] <+: segments → ¬ Overflows (coverage received) new := by
  have hvalid' : ∀ s ∈ segments, s.Valid := fun s hs =>
    ⟨(hvalid s hs).1, List.length_pos_iff.2 (hvalid s hs).2.1⟩
  constructor
  · intro h received new hpre
    exact (storeSegments_of_covers hvalid' fun pre x hpre => .inr (h _ hpre).1.covers).2 received
      new hpre
  · intro h received hpre
    obtain ⟨⟨hset, hcover⟩, -⟩ := storeSegments_of_covers
      (fun s hs => hvalid' s (hpre.subset hs)) fun pre x hx => .inl (h pre x (hx.trans hpre))
    exact ⟨hset.storedExactly hcover, fun sn report =>
      hset.nackSegments (fun s _ => Nat.zero_le s.so) sn false report⟩

/-- Two segments that overlap: the second one is cut. -/
theorem storeSegments_iff_overlap :
    let segments := [⟨.firstSegment, 0, [1, 2, 3]⟩, ⟨.middleSegment, 2, [3, 4]⟩]
    StoredExactly segments (storeSegments segments) ∧
      storeSegments segments = [⟨.firstSegment, 0, [1, 2, 3]⟩, ⟨.middleSegment, 3, [4]⟩] := by
  refine ⟨((storeSegments_iff (by decide)).2 ?_ _ (List.prefix_refl _)).1, by decide⟩
  intro received new hpre hover
  have hmem : new ∈ [(⟨.firstSegment, 0, [1, 2, 3]⟩ : RxSegment), ⟨.middleSegment, 2, [3, 4]⟩] :=
    hpre.subset (by simp)
  have hreach := hover.1
  rcases List.mem_cons.1 hmem with rfl | hmem
  · exact absurd hreach (by decide)
  · obtain rfl := List.mem_singleton.1 hmem
    exact absurd hreach (by decide)

/-- The end of the third segment is cut at byte 65544 and stored from byte 8 on, inside of the
first one. The last byte received is not stored, and the status report fails its check. -/
theorem storeSegments_wrapped :
    let segments : List RxSegment := [⟨.firstSegment, 0, List.replicate 10 0⟩,
      ⟨.middleSegment, 65534, List.replicate 10 0⟩, ⟨.middleSegment, 65535, List.replicate 20 0⟩]
    storeSegments segments = [⟨.firstSegment, 0, List.replicate 10 0⟩,
        ⟨.middleSegment, 8, List.replicate 11 0⟩, ⟨.middleSegment, 65534, List.replicate 10 0⟩] ∧
      65554 ∈ coverage segments ∧ 65554 ∉ coverage (storeSegments segments) ∧
      RxAm.Core.nackSegments 0 0 false (storeSegments segments) { snSize := .size12bits } =
        .error (.nackOffsets 0) := by
  have hstored : storeSegments [⟨.firstSegment, 0, List.replicate 10 0⟩,
      ⟨.middleSegment, 65534, List.replicate 10 0⟩, ⟨.middleSegment, 65535, List.replicate 20 0⟩] =
      [⟨.firstSegment, 0, List.replicate 10 0⟩, ⟨.middleSegment, 8, List.replicate 11 0⟩,
        ⟨.middleSegment, 65534, List.replicate 10 0⟩] := by decide
  refine ⟨hstored,
    ⟨⟨.middleSegment, 65535, List.replicate 20 0⟩, by simp, by decide, by decide⟩, ?_, ?_⟩
  · rw [hstored]
    simp [mem_coverage, RxSegment.Has]
  · rfl

/-! ## Reassembly -/

theorem segmentsOf_storeSegments {sdu : List UInt8} {received : List RxSegment}
    (hlen : sdu.length < 2 ^ 16) (h : ∀ s ∈ received, s.SliceOf sdu) :
    SegmentsOf sdu (storeSegments received) := by
  induction received using List.reverseRecOn with
  | nil => exact ⟨nofun, .nil⟩
  | append_singleton received new ih =>
    rw [storeSegments_concat]
    exact segmentsOf_storeSegment hlen (ih fun s hs => h s (List.mem_append_left _ hs))
      (h new (by simp))

/-- **Reassembly.** -/
theorem reassembly_exact {sdu : List UInt8} {received : List RxSegment} (hpos : 0 < sdu.length)
    (hlen : sdu.length < 2 ^ 16) (hslices : ∀ s ∈ received, s.SliceOf sdu) :
    ((segmentInventory 0 (storeSegments received)).1 = true ↔
        ∀ b < sdu.length, b ∈ coverage received) ∧
      ((segmentInventory 0 (storeSegments received)).1 = true →
        chainSegments (storeSegments received) =
          if (storeSegments received).length ≤ maxNofSlices then some sdu else none) := by
  have hstored := segmentsOf_storeSegments hlen hslices
  obtain ⟨hiff, hchain⟩ := hstored.inventory (fun s _ => s.so.zero_le) hpos
  have hfits : ∀ pre new, pre ++ [new] <+: received → ¬ Overflows (coverage pre) new := by
    intro pre new hpre
    have hle := (hslices new (hpre.subset (by simp))).le
    exact not_overflows (by omega)
  have hcover := (storeSegments_of_covers (fun s hs => (hslices s hs).valid hlen)
    fun pre new hpre => .inl (hfits pre new hpre)).1.2
  rw [hcover] at hiff
  refine ⟨hiff.trans ⟨fun h b => h b b.zero_le, fun h b _ => h b⟩, fun hfull => ?_⟩
  rw [chainSegments_eq fun s hs => (hstored.slices s hs).pos, hchain hfull, List.drop_zero]

/-- Overlapping slices, the last one first. -/
theorem reassembly_exact_overlap :
    chainSegments (storeSegments [⟨.lastSegment, 1, [2, 3]⟩, ⟨.firstSegment, 0, [1, 2]⟩]) =
      some [1, 2, 3] := by
  have hslices : ∀ s ∈ [(⟨.lastSegment, 1, [2, 3]⟩ : RxSegment), ⟨.firstSegment, 0, [1, 2]⟩],
      s.SliceOf [1, 2, 3] := by
    simp only [List.forall_mem_cons]
    exact ⟨⟨by decide, by decide, by decide, by decide⟩,
      ⟨by decide, by decide, by decide, by decide⟩, nofun⟩
  exact (reassembly_exact (by decide) (by decide) hslices).2 (by decide)

end RadioStack.Rlc
