import RadioStack.Rlc.RxUm

/-!
# Duplicated segments in unacknowledged mode

Once all segments of an SDU are received it is delivered, and its entry stays in the RX window until
RX_Next_Reassembly passes it: without segments, but marked as fully received. `handle_pdu` does not
look at that mark. A further segment is stored as the first one of a new set, and the inventory of
this set either completes the SDU again or finds it incomplete.

**Theorem (`delivered_once`).** Take the SNs that were delivered and are in the RX window since. In
every run without a further segment of such an SN (`Fresh`) they all count as fully received, so
that RX_Next_Reassembly moves past them, and none is delivered again; each further segment of such
an SN breaks this.
-/

namespace RadioStack.Rlc.RxUm

variable {n : UmSnSize} {s : RxUm n}

/-! ## The RX window -/

/-- Entries are only removed. -/
def Shrinks (w w' : Window n) : Prop := ∀ x info, w'.get? x = some info → w.get? x = some info

theorem Shrinks.refl (w : Window n) : Shrinks w w := fun _ _ => id

theorem Shrinks.trans {w w' w'' : Window n} (h : Shrinks w w') (h' : Shrinks w' w'') :
    Shrinks w w'' := fun x info hx => h x info (h' x info hx)

theorem shrinks_erase (w : Window n) (sn : Nat) : Shrinks w (w.erase sn) := by
  intro x info hx
  rw [CircularMap.get?_erase] at hx
  split_ifs at hx
  exact hx

/-- RX_Next_Reassembly passes only SDUs that are fully received. -/
theorem updateRxNextReassembly_window (s : RxUm n) (start : Nat) :
    Shrinks s.rxWindow (s.updateRxNextReassembly start).rxWindow ∧
      ∀ x info, s.rxWindow.get? x = some info → info.fullyReceived = false →
        (s.updateRxNextReassembly start).rxWindow.get? x = some info := by
  refine serialLoop_invariant (P := fun w _ => Shrinks s.rxWindow w ∧
    ∀ x info, s.rxWindow.get? x = some info → info.fullyReceived = false →
      w.get? x = some info) (fun w sn w' hw _ hbody => ?_) ⟨.refl _, fun _ _ h _ => h⟩
  split_ifs at hbody with hfull
  cases hbody
  refine ⟨hw.1.trans (shrinks_erase w sn), fun x info hx hno => ?_⟩
  have hx' := hw.2 x info hx hno
  have hne : x ≠ sn := by
    rintro rfl
    simp only [fullyReceivedAt, hx', Option.any_some, hno, Bool.false_eq_true] at hfull
  rw [CircularMap.get?_erase, if_neg hne, hx']

theorem cleanLoop_window (s : RxUm n) (fuel : Nat) (w : Window n) (sn : Nat) :
    Shrinks w (s.cleanLoop fuel w sn).1 ∧
      ∀ x info, w.get? x = some info → s.snInReassemblyWindow x = true →
        (s.cleanLoop fuel w sn).1.get? x = some info := by
  induction fuel generalizing w sn with
  | zero => exact ⟨.refl w, fun _ _ h _ => h⟩
  | succ fuel ih =>
    unfold cleanLoop
    split
    · next hout =>
      obtain ⟨hsub, hkeep⟩ := ih (w.erase sn) ((sn + 1) % n.mod)
      refine ⟨(shrinks_erase w sn).trans hsub, fun x info hx hin => hkeep x info ?_ hin⟩
      have hne : x ≠ sn := by
        rintro rfl
        rw [hin] at hout
        cases hout
      rw [CircularMap.get?_erase, if_neg hne, hx]
    · exact ⟨.refl w, fun _ _ h _ => h⟩

/-! ## A segment is placed -/

/-- The entries behind a segment of `sn` that leaves it with `info`. -/
def PlacedWindow (s : RxUm n) (sn : Nat) (info : SduInfo) (w : Window n) : Prop :=
  ∀ x i, w.get? x = some i → x = sn ∧ i = info ∨ x ≠ sn ∧ s.rxWindow.get? x = some i

theorem PlacedWindow.of_shrinks {sn : Nat} {info : SduInfo} {w w' : Window n}
    (h : PlacedWindow s sn info w) (hw : Shrinks w w') : PlacedWindow s sn info w' :=
  fun x i hx => h x i (hw x i hx)

theorem chainSegments_store {info : SduInfo} {new : RxSegment}
    (h : chainSegments (info.store new).segments = none) : info.segments ≠ [] := by
  intro hnil
  rw [SduInfo.store, hnil] at h
  change (appendSlice [] new.payload >>= pure).map List.flatten = none at h
  rw [bind_pure, Option.map_eq_none_iff, appendSlice] at h
  split at h <;> cases h

/-- The SDU is completed and delivered, or it is dropped, or its entry shows it as incomplete. -/
inductive Placed (s : RxUm n) (sn : Nat) : RxUm n × Option (List UInt8) → Prop
  | complete {t : RxUm n} {sdu : List UInt8} {info : SduInfo} (hfull : info.fullyReceived = true)
      (hreleased : info.segments = []) (hwindow : PlacedWindow s sn info t.rxWindow) :
      Placed s sn (t, some sdu)
  | dropped {t : RxUm n} {info : SduInfo} (hheld : (s.sduInfo sn).segments ≠ [])
      (hwindow : PlacedWindow s sn info t.rxWindow) : Placed s sn (t, none)
  | incomplete {t : RxUm n} {info : SduInfo} (hno : info.fullyReceived = false)
      (hget : t.rxWindow.get? sn = some info) (hwindow : PlacedWindow s sn info t.rxWindow) :
      Placed s sn (t, none)

theorem placed_placeSegment (s : RxUm n) (header : UmPduHeader) (payload : List UInt8) :
    Placed s header.sn (s.placeSegment header payload) := by
  set info := (s.sduInfo header.sn).store { si := header.si, so := header.so, payload } with hinfo
  set t := s.handleSegmentDataSdu header payload with ht
  have hget : t.rxWindow.get? header.sn = some info := get?_putSdu s header.sn info
  have hwindow : PlacedWindow s header.sn info t.rxWindow := by
    intro x i hx
    by_cases hne : x = header.sn
    · subst hne
      exact .inl ⟨rfl, Option.some.inj (hx.symm.trans hget)⟩
    · exact .inr ⟨hne, get?_putSdu_of_ne hne hx⟩
  unfold placeSegment
  rw [← ht]
  simp only [fullyReceivedAt, hget, Option.any_some]
  cases hfull : info.fullyReceived with
  | true =>
    -- the segments are released, the mark stays
    have hmark : ({ info with segments := [] } : SduInfo).fullyReceived = true := hfull
    have hreleased : PlacedWindow s header.sn { info with segments := [] }
        (t.rxWindow.modify header.sn fun info => { info with segments := [] }) := by
      intro x i hx
      rw [CircularMap.get?_modify] at hx
      split at hx
      · next hx' =>
        rw [hget, Option.map_some] at hx
        exact .inl ⟨hx', (Option.some.inj hx).symm⟩
      · next hne => exact .inr ⟨hne, (hwindow x i hx).resolve_left (fun h => hne h.1) |>.2⟩
    have hwindow' : PlacedWindow s header.sn { info with segments := [] }
        (t.releaseSdu header.sn).rxWindow := by
      unfold releaseSdu
      simp only
      split
      · exact hreleased.of_shrinks (updateRxNextReassembly_window _ _).1
      · exact hreleased
    have hsegments : (t.sduInfo header.sn).segments = info.segments := by
      rw [sduInfo, hget, Option.getD_some]
    simp only [if_true, hsegments]
    cases hchain : chainSegments info.segments with
    | some sdu => exact .complete hmark rfl hwindow'
    | none => exact .dropped (chainSegments_store hchain) hwindow'
  | false =>
    simp only [Bool.false_eq_true, if_false]
    split
    · -- the window moves, but not past the SDU
      obtain ⟨hclean, hkeep⟩ := cleanLoop_window
        ({ t with rxNextHighest := (header.sn + 1) % n.mod } : RxUm n) n.mod t.rxWindow
        (t.rxNextReassembly % n.mod)
      have hget' := hkeep header.sn info hget (snInReassemblyWindow_moved t header.sn)
      obtain ⟨hsub, hstay⟩ := updateRxNextReassembly_window
        ({ t with
          rxNextHighest := (header.sn + 1) % n.mod
          rxWindow := (({ t with rxNextHighest := (header.sn + 1) % n.mod } : RxUm n).cleanLoop
            n.mod t.rxWindow (t.rxNextReassembly % n.mod)).1 } : RxUm n)
        (({ t with rxNextHighest := (header.sn + 1) % n.mod } : RxUm n).cleanLoop
          n.mod t.rxWindow (t.rxNextReassembly % n.mod)).2
      exact .incomplete hfull (hstay header.sn info hget' hfull)
        (hwindow.of_shrinks (hclean.trans hsub))
    · exact .incomplete hfull hget hwindow

theorem onExpiredReassemblyTimer_window (s : RxUm n) :
    Shrinks s.rxWindow s.onExpiredReassemblyTimer.rxWindow := by
  obtain ⟨trigger, running, heq⟩ := startReassemblyTimer_eq s.passTrigger
  rw [onExpiredReassemblyTimer, heq]
  refine serialLoop_invariant (P := fun w _ => Shrinks s.rxWindow w)
    (fun w sn w' hw _ hbody => ?_) (.refl _)
  split at hbody
  · cases hbody
    exact hw.trans (shrinks_erase w sn)
  · split_ifs at hbody
    cases hbody
    exact hw.trans (shrinks_erase w sn)

/-! ## Deliveries -/

/-- The SNs that were delivered and are in the RX window since, behind a call. -/
def track (delivered : List Nat) (s : RxUm n) (out : Output) : List Nat :=
  ((out.sdu.bind Prod.fst).toList ++ delivered).filter (s.rxWindow.contains ·)

/-- None of them is delivered. -/
def Once (delivered : List Nat) (out : Output) : Prop :=
  ∀ sn sdu, out.sdu = some (some sn, sdu) → sn ∉ delivered

/-- They count as fully received: RX_Next_Reassembly moves past them. -/
def Complete (s : RxUm n) (delivered : List Nat) : Prop :=
  ∀ sn ∈ delivered, fullyReceivedAt s.rxWindow sn = true

/-- The PDU is no further segment of one of them. -/
def Fresh (s : RxUm n) (delivered : List Nat) : Event → Prop
  | .handlePdu buf => ∀ pdu ∈ readPdu n buf, pdu.1.si ≠ .fullSdu →
      s.snInvalidForRxBuffer pdu.1.sn = false → pdu.1.sn ∉ delivered
  | .reassemblyTimerExpired => True

instance (s : RxUm n) (delivered : List Nat) (ev : Event) : Decidable (Fresh s delivered ev) :=
  match ev with
  | .handlePdu buf => inferInstanceAs (Decidable (∀ pdu ∈ readPdu n buf, _))
  | .reassemblyTimerExpired => inferInstanceAs (Decidable True)

variable {delivered : List Nat} {out : Output}

theorem mem_track {sn : Nat} : sn ∈ track delivered s out ↔
    ((∃ sdu, out.sdu = some (some sn, sdu)) ∨ sn ∈ delivered) ∧
      s.rxWindow.contains sn = true := by
  rw [track, List.mem_filter, List.mem_append, Option.mem_toList, Option.bind_eq_some_iff]
  simp

/-- Their segments are released as well. -/
def Settled (s : RxUm n) (delivered : List Nat) : Prop :=
  ∀ sn ∈ delivered, ∃ info, s.rxWindow.get? sn = some info ∧ info.fullyReceived = true ∧
    info.segments = []

theorem Settled.complete (h : Settled s delivered) : Complete s delivered := by
  intro sn hsn
  obtain ⟨info, hget, hfull, -⟩ := h sn hsn
  simp only [fullyReceivedAt, hget, Option.any_some, hfull]

/-- What a call does to the delivered SNs, if `fresh` says that it has no segment of them. -/
structure Keeps (delivered : List Nat) (s' : RxUm n) (out : Output) (fresh : Prop) : Prop where
  iff : Once delivered out ∧ Complete s' (track delivered s' out) ↔ fresh
  settled : fresh → Settled s' (track delivered s' out)

/-- A call that delivers no SN of the window and only removes entries. -/
theorem keeps_of_shrinks {s' : RxUm n} {fresh : Prop} (h : Settled s delivered)
    (hw : Shrinks s.rxWindow s'.rxWindow) (hout : ∀ sn sdu, out.sdu ≠ some (some sn, sdu))
    (hfresh : fresh) : Keeps delivered s' out fresh := by
  have hsettled : Settled s' (track delivered s' out) := by
    intro sn hsn
    obtain ⟨⟨sdu, hsdu⟩ | hmem, hc⟩ := mem_track.1 hsn
    · exact absurd hsdu (hout sn sdu)
    · obtain ⟨info, hinfo⟩ := CircularMap.contains_iff.1 hc
      obtain ⟨info', hget, hmarks⟩ := h sn hmem
      obtain rfl := Option.some.inj (hget.symm.trans (hw sn info hinfo))
      exact ⟨info', hinfo, hmarks⟩
  exact ⟨iff_of_true ⟨fun sn sdu hsdu => absurd hsdu (hout sn sdu), hsettled.complete⟩ hfresh,
    fun _ => hsettled⟩

/-- A segment keeps the delivered SNs apart exactly if it is of none of them. -/
theorem keeps_placeSegment (h : Settled s delivered) (header : UmPduHeader)
    (payload : List UInt8)
    (hout : out.sdu = (s.placeSegment header payload).2.map fun sdu => (some header.sn, sdu))
    {s' : RxUm n} (hs' : s'.rxWindow = (s.placeSegment header payload).1.rxWindow) :
    Keeps delivered s' out (header.sn ∉ delivered) := by
  have hplaced := placed_placeSegment s header payload
  have hother (sn : Nat) (sdu : List UInt8) (hsdu : out.sdu = some (some sn, sdu)) :
      sn = header.sn := by
    rw [hout] at hsdu
    obtain ⟨_, _, heq⟩ := Option.map_eq_some_iff.1 hsdu
    exact (Option.some.inj (congrArg Prod.fst heq)).symm
  -- an entry of the window is the one of the segment or was there before
  have hkeep {info : SduInfo} (hwindow : PlacedWindow s header.sn info s'.rxWindow)
      (hnew : (∃ sdu, out.sdu = some (some header.sn, sdu)) →
        info.fullyReceived = true ∧ info.segments = [])
      (hsn : header.sn ∉ delivered) :
      Once delivered out ∧ Settled s' (track delivered s' out) := by
    refine ⟨fun sn sdu hsdu => hother sn sdu hsdu ▸ hsn, fun sn hmem => ?_⟩
    obtain ⟨hmem, hc⟩ := mem_track.1 hmem
    obtain ⟨i, hi⟩ := CircularMap.contains_iff.1 hc
    obtain ⟨rfl, rfl⟩ | ⟨hne, hold⟩ := hwindow sn i hi
    · exact ⟨i, hi, hnew (hmem.resolve_right hsn)⟩
    · obtain ⟨i', hget, hmarks⟩ := h sn (hmem.resolve_left fun ⟨sdu, hsdu⟩ =>
        hne (hother sn sdu hsdu))
      obtain rfl := Option.some.inj (hget.symm.trans hold)
      exact ⟨i', hi, hmarks⟩
  have hboth {info : SduInfo} (hwindow : PlacedWindow s header.sn info s'.rxWindow)
      (hnew : (∃ sdu, out.sdu = some (some header.sn, sdu)) →
        info.fullyReceived = true ∧ info.segments = [])
      (hbreaks : Once delivered out → Complete s' (track delivered s' out) →
        header.sn ∉ delivered) : Keeps delivered s' out (header.sn ∉ delivered) :=
    ⟨⟨fun hgood => hbreaks hgood.1 hgood.2, fun hsn => (hkeep hwindow hnew hsn).imp_right
      Settled.complete⟩, fun hsn => (hkeep hwindow hnew hsn).2⟩
  generalize s.placeSegment header payload = placed at hplaced hout hs'
  cases hplaced with
  | complete hfull hreleased hwindow =>
    rw [← hs'] at hwindow
    exact hboth hwindow (fun _ => ⟨hfull, hreleased⟩) fun honce _ => honce header.sn _ hout
  | dropped hheld hwindow =>
    rw [← hs'] at hwindow
    refine hboth hwindow (fun ⟨sdu, hsdu⟩ => nomatch hout.symm.trans hsdu) fun _ _ hmem => ?_
    -- the segments of a delivered SN are released
    obtain ⟨info, hget, -, hnil⟩ := h header.sn hmem
    exact hheld (by rw [sduInfo, hget, Option.getD_some, hnil])
  | incomplete hno hget hwindow =>
    rw [← hs'] at hwindow hget
    refine hboth hwindow (fun ⟨sdu, hsdu⟩ => nomatch hout.symm.trans hsdu)
      fun _ hcomplete hmem => ?_
    have hfull := hcomplete header.sn
      (mem_track.2 ⟨.inr hmem, CircularMap.contains_iff.2 ⟨_, hget⟩⟩)
    simp only [fullyReceivedAt, hget, Option.any_some, hno, Bool.false_eq_true] at hfull

/-- One call, while the delivered SNs are settled. -/
theorem step_keeps {cfg : Config} {s s' : Entity cfg} {ev : Event}
    (h : Settled s delivered) (hstep : step cfg s ev = some (s', out)) :
    Keeps delivered s' out (Fresh s delivered ev) := by
  cases ev with
  | handlePdu buf =>
    have hpdu : s.handlePdu buf = (s', out) := Option.some.inj hstep
    unfold handlePdu at hpdu
    cases hread : readPdu cfg.snFieldLength buf with
    | none =>
      rw [hread] at hpdu
      cases hpdu
      exact keeps_of_shrinks h (.refl _) (fun _ _ => nofun)
        (fun pdu hsome => nomatch hread.symm.trans hsome)
    | some pdu =>
      obtain ⟨header, payload⟩ := pdu
      have hfresh : Fresh s delivered (.handlePdu buf) ↔ (header.si ≠ .fullSdu →
          s.snInvalidForRxBuffer header.sn = false → header.sn ∉ delivered) := by
        refine ⟨fun hf => hf _ hread, fun hf pdu hpdu => ?_⟩
        obtain rfl := Option.some.inj (hread.symm.trans hpdu)
        exact hf
      rw [hread] at hpdu
      rw [hfresh]
      simp only at hpdu
      by_cases hsi : header.si = .fullSdu
      · rw [if_pos hsi] at hpdu
        cases hpdu
        exact keeps_of_shrinks h (.refl _) (fun _ _ => nofun) (fun hne => absurd hsi hne)
      · rw [if_neg hsi] at hpdu
        cases hinv : s.snInvalidForRxBuffer header.sn with
        | true =>
          rw [hinv, if_pos rfl] at hpdu
          cases hpdu
          exact keeps_of_shrinks h (.refl _) (fun _ _ => nofun) (by simp)
        | false =>
          rw [hinv, if_neg Bool.false_ne_true] at hpdu
          cases hpdu
          obtain ⟨trigger, running, heq⟩ :=
            updateReassemblyTimer_eq (s.placeSegment header payload).1
          have hsn : (header.si ≠ .fullSdu → false = false → header.sn ∉ delivered) ↔
              header.sn ∉ delivered := ⟨fun hsn => hsn hsi rfl, fun hsn _ _ => hsn⟩
          rw [hsn]
          exact keeps_placeSegment h header payload rfl (by rw [heq])
  | reassemblyTimerExpired =>
    rw [step] at hstep
    split_ifs at hstep
    cases hstep
    refine keeps_of_shrinks h ?_ (fun _ _ => nofun) trivial
    unfold reassemblyTimerExpired
    split
    · exact .refl _
    · exact onExpiredReassemblyTimer_window _

/-! ## Runs -/

/-- A call, next to the delivered SNs in the RX window. -/
def trackStep (cfg : Config) (x : Entity cfg × List Nat) (ev : Event) :
    Option (Entity cfg × List Nat) :=
  (step cfg x.1 ev).map fun r => (r.1, track x.2 r.1 r.2)

def FreshStep (cfg : Config) (x : Entity cfg × List Nat) (ev : Event) (y : Entity cfg × List Nat) :
    Prop :=
  trackStep cfg x ev = some y ∧ Fresh x.1 x.2 ev

theorem settled_run {cfg : Config} {es : List Event} {x : Entity cfg × List Nat}
    (hrun : Run (FreshStep cfg) (init cfg.snFieldLength, []) es x) : Settled x.1 x.2 := by
  refine hrun.invariant (P := fun x => Settled x.1 x.2) (fun x ev y h hstep => ?_) nofun
  obtain ⟨htrack, hfresh⟩ := hstep
  obtain ⟨⟨s', out⟩, hstep, rfl⟩ := Option.map_eq_some_iff.1 htrack
  exact (step_keeps h hstep).settled hfresh

/-- **SDUs are delivered once.** -/
theorem delivered_once {cfg : Config} {es : List Event} {x : Entity cfg × List Nat}
    (hrun : Run (FreshStep cfg) (init cfg.snFieldLength, []) es x) :
    Complete x.1 x.2 ∧ ∀ ev s' out, step cfg x.1 ev = some (s', out) →
      (Once x.2 out ∧ Complete s' (track x.2 s' out) ↔ Fresh x.1 x.2 ev) :=
  ⟨(settled_run hrun).complete, fun _ _ _ hstep => (step_keeps (settled_run hrun) hstep).iff⟩

def shortSnConfig : Config := { snFieldLength := .size6bits, tReassembly := 50 }

/-- The first and the last byte of SN 1, in two segments. -/
def firstOfSn1 : Event := .handlePdu [0x41, 7]

def lastOfSn1 : Event := .handlePdu [0x81, 0, 1, 8]

/-- SN 0 is missing, SN 1 is delivered and stays in the RX window while segments of SN 2 arrive. -/
theorem delivered_once_nextSdu : ∃ x s' out,
    Run (FreshStep shortSnConfig) (init .size6bits, []) [firstOfSn1, lastOfSn1] x ∧ x.2 = [1] ∧
    step shortSnConfig x.1 (.handlePdu [0x42, 9]) = some (s', out) ∧
    Complete s' (track x.2 s' out) := by
  have hexec : (exec (guarded (trackStep shortSnConfig) fun x ev => Fresh x.1 x.2 ev)
      (init .size6bits, []) [firstOfSn1, lastOfSn1]).map (fun x => (x.2,
        decide (Fresh x.1 x.2 (.handlePdu [0x42, 9])))) = some ([1], true) := by decide +kernel
  obtain ⟨x, hx, hfacts⟩ := Option.map_eq_some_iff.1 hexec
  obtain ⟨hsn, hfresh⟩ := Prod.mk.inj hfacts
  have hrun := run_of_guarded hx
  obtain ⟨⟨s', out⟩, hstep⟩ :
      ∃ r, step shortSnConfig x.1 (.handlePdu [0x42, 9]) = some r := ⟨_, rfl⟩
  exact ⟨x, s', out, hrun, hsn, hstep,
    (((delivered_once hrun).2 _ _ _ hstep).2 (of_decide_eq_true hfresh)).2⟩

/-- SN 0 is missing and SN 1 is delivered. Its first segment arrives again: SN 1 counts as
incomplete. Its last segment arrives again: SN 1 is delivered again. -/
theorem delivered_twice : ∃ x s' out,
    Run (fun x ev y => trackStep shortSnConfig x ev = some y) (init .size6bits, [])
      [firstOfSn1, lastOfSn1, firstOfSn1] x ∧
    1 ∈ x.2 ∧ fullyReceivedAt x.1.rxWindow 1 = false ∧
    step shortSnConfig x.1 lastOfSn1 = some (s', out) ∧ out.sdu = some (some 1, [7, 8]) := by
  have hexec : (exec (trackStep shortSnConfig) (init .size6bits, [])
      [firstOfSn1, lastOfSn1, firstOfSn1]).map (fun x => (x.2, fullyReceivedAt x.1.rxWindow 1,
        (step shortSnConfig x.1 lastOfSn1).bind (·.2.sdu))) =
      some ([1], false, some (some 1, [7, 8])) := by decide +kernel
  obtain ⟨x, hx, hfacts⟩ := Option.map_eq_some_iff.1 hexec
  obtain ⟨hsn, hfacts⟩ := Prod.mk.inj hfacts
  obtain ⟨hincomplete, hsdu⟩ := Prod.mk.inj hfacts
  obtain ⟨⟨s', out⟩, hstep, hout⟩ := Option.bind_eq_some_iff.1 hsdu
  exact ⟨x, s', out, run_of_exec hx, by simp [hsn], hincomplete, hstep, hout⟩

end RadioStack.Rlc.RxUm
