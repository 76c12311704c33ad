import RadioStack.Rlc.NackSet
import RadioStack.Rlc.ReportedNacks
import RadioStack.Rlc.SegmentStore

/-!
# A status report tells what is missing

The NACKs of a report are compared with what has been received. For each SN in the window the
segments received for it are logged (`record`); the log is a history variable, no function of the
entity reads it. The set of segments of an incomplete SDU is what `store_segment` makes of its log,
and the bytes that the NACKs denote (`denotesAll`) are those that no segment of the log holds.

**Theorem (`statusReport_exact`).** If the segments received for the incomplete SDUs of the window
end before byte 65535, a report is built, its NACKs denote exactly the missing bytes of
the SNs from `rx_next` up to ACK_SN, and ACK_SN is `rx_highest_status` or the limit of SNs a report
visits, whichever comes first.
-/

namespace RadioStack.Rlc

open RxAm StatusNack

/-! ## One SDU -/

variable {n : AmSnSize} {p : Nat × Nat}

theorem mem_denotes_gap {sn first last : Nat} :
    p ∈ ({ nackSn := sn, hasSo := true, soStart := first, soEnd := last } : StatusNack).denotes n ↔
      p.1 = sn % n.mod ∧ first ≤ p.2 ∧ (last = soEndOfSdu ∨ p.2 ≤ last) := by
  rw [mem_denotes]
  simp [span, CoversByte]

theorem denotesAll_flatMap {l : List Nat} {f : Nat → List StatusNack} :
    p ∈ denotesAll n (l.flatMap f) ↔ ∃ x ∈ l, p ∈ denotesAll n (f x) := by
  constructor
  · rintro ⟨y, hy, hp⟩
    obtain ⟨x, hx, hy⟩ := List.mem_flatMap.1 hy
    exact ⟨x, hx, y, hy, hp⟩
  · rintro ⟨x, hx, y, hy, hp⟩
    exact ⟨y, List.mem_flatMap.2 ⟨x, hx, hy⟩, hp⟩

theorem mem_denotesAll_gap {sn lastSo so : Nat} (hle : lastSo ≤ so) (hso : so ≤ 65535) :
    p ∈ denotesAll n (if so ≠ lastSo then
        [{ nackSn := sn, hasSo := true, soStart := lastSo % 2 ^ 16
           soEnd := (so + (2 ^ 16 - 1)) % 2 ^ 16 }]
      else []) ↔ p.1 = sn % n.mod ∧ lastSo ≤ p.2 ∧ p.2 < so := by
  by_cases hgap : so = lastSo
  · rw [if_neg (not_not_intro hgap)]
    simp only [denotesAll_nil, Set.mem_empty_iff_false, false_iff]
    omega
  · rw [if_pos hgap, denotesAll_singleton, mem_denotes_gap]
    have hfirst : lastSo % 2 ^ 16 = lastSo := Nat.mod_eq_of_lt (by omega)
    have hlast : (so + (2 ^ 16 - 1)) % 2 ^ 16 = so - 1 := by omega
    have hopen : so - 1 ≠ soEndOfSdu := by
      unfold soEndOfSdu
      omega
    rw [hfirst, hlast]
    constructor
    · rintro ⟨hsn, hge, hend | hend⟩
      · exact absurd hend hopen
      · exact ⟨hsn, hge, by omega⟩
    · rintro ⟨hsn, hge, hlt⟩
      exact ⟨hsn, hge, .inr (by omega)⟩

variable {set : List RxSegment}

theorem notMem_coverage_of_lt {segm : RxSegment} {b : Nat} (hbefore : ∀ s ∈ set, segm.Before s)
    (hb : b < segm.so) : b ∉ coverage (segm :: set) := by
  rintro ⟨s, hs, hhas⟩
  rcases List.mem_cons.1 hs with rfl | hs
  · unfold RxSegment.Has at hhas
    omega
  · have := hbefore s hs
    unfold RxSegment.Before RxSegment.Has at *
    omega

/-- **The gaps between sorted segments.** What lies in front of a segment is missing, and what
follows the last one unless it ends the SDU. -/
theorem mem_denotesAll_segmentNacks {sn lastSo : Nat} {haveLast : Bool} (h : SegmentSet set)
    (hstart : ∀ s ∈ set, lastSo ≤ s.so) (hend : ∀ s ∈ set, s.so + s.payload.length ≤ 65535)
    (hlast : lastSo ≤ 65535) :
    p ∈ denotesAll n (segmentNacks sn lastSo haveLast set) ↔
      p.1 = sn % n.mod ∧ lastSo ≤ p.2 ∧ p.2 ∉ coverage set ∧
        ((∃ s ∈ set, p.2 < s.so) ∨ haveLast = false ∧ ∀ s ∈ set, s.si ≠ .lastSegment) := by
  induction set generalizing lastSo haveLast with
  | nil =>
    cases haveLast with
    | true => simp [segmentNacks]
    | false =>
      have hsmall : lastSo % 2 ^ 16 = lastSo := Nat.mod_eq_of_lt (by omega)
      rw [segmentNacks, denotesAll_singleton, mem_denotes_gap, hsmall]
      simp
  | cons segm set ih =>
    obtain ⟨hbefore, -⟩ := List.pairwise_cons.1 h.ordered
    have hfirst := hstart segm List.mem_cons_self
    have hseg := hend segm List.mem_cons_self
    have hrest := @ih (segm.so + segm.payload.length) (haveLast || segm.si == .lastSegment)
      (h.sublist (List.sublist_cons_self segm set)) (fun s hs => hbefore s hs)
      (fun s hs => hend s (List.mem_cons_of_mem _ hs)) hseg
    rw [segmentNacks, denotesAll_append, Set.mem_union, mem_denotesAll_gap hfirst (by omega), hrest]
    have hflag : (haveLast || segm.si == .lastSegment) = false ↔
        haveLast = false ∧ segm.si ≠ .lastSegment := by
      rw [Bool.or_eq_false_iff, beq_eq_false_iff_ne]
    rw [hflag]
    constructor
    · rintro (⟨hsn, hge, hlt⟩ | ⟨hsn, hge, hout, hwhy⟩)
      · exact ⟨hsn, hge, notMem_coverage_of_lt hbefore hlt, .inl ⟨segm, List.mem_cons_self, hlt⟩⟩
      · refine ⟨hsn, by omega, fun hmem => ?_, ?_⟩
        · rcases mem_coverage_cons.1 hmem with hhas | hmem
          · unfold RxSegment.Has at hhas
            omega
          · exact hout hmem
        · rcases hwhy with ⟨s, hs, hlt⟩ | ⟨⟨hflag, hsi⟩, hall⟩
          · exact .inl ⟨s, List.mem_cons_of_mem _ hs, hlt⟩
          · exact .inr ⟨hflag, List.forall_mem_cons.2 ⟨hsi, hall⟩⟩
    · rintro ⟨hsn, hge, hout, hwhy⟩
      by_cases hlt : p.2 < segm.so
      · exact .inl ⟨hsn, hge, hlt⟩
      · -- neither in front of the segment nor inside of it
        have hbehind : segm.so + segm.payload.length ≤ p.2 := by
          by_contra hin
          exact hout (mem_coverage_cons.2 (.inl ⟨by omega, by omega⟩))
        refine .inr ⟨hsn, hbehind, fun hmem => hout (mem_coverage_cons.2 (.inr hmem)), ?_⟩
        rcases hwhy with ⟨s, hs, hlt'⟩ | ⟨hflag, hall⟩
        · rcases List.mem_cons.1 hs with rfl | hs
          · exact absurd hlt' hlt
          · exact .inl ⟨s, hs, hlt'⟩
        · obtain ⟨hsi, hall⟩ := List.forall_mem_cons.1 hall
          exact .inr ⟨⟨hflag, hsi⟩, hall⟩

/-- The segments of an SDU that is not complete. -/
def RxAm.SduInfo.segments (info : SduInfo) : List RxSegment :=
  match info.sduData with
  | .slice _ => []
  | .segments set => set

/-- A byte of an SDU that has not been received: all of them if the SN is not in the window, none
if the SDU is complete. Otherwise it was not among the received bytes and lies in front of one of
them, or behind all of them while no last segment is stored. -/
def Missing (entry : Option SduInfo) (received : Set Nat) (byte : Nat) : Prop :=
  match entry with
  | none => True
  | some info =>
    info.fullyReceived = false ∧ byte ∉ received ∧
      ((∃ c ∈ received, byte < c) ∨ ∀ s ∈ info.segments, s.si ≠ .lastSegment)

/-- The segments of an incomplete SDU hold the bytes received for it. -/
structure Holds (entry : Option SduInfo) (received : Set Nat) : Prop where
  segments : ∀ info, entry = some info → info.fullyReceived = false →
    ∃ set, info.sduData = .segments set ∧ SegmentSet set ∧ coverage set = received ∧
      ∀ s ∈ set, s.so + s.payload.length ≤ 65535

section

variable {n : AmSnSize} {sn : Nat} {entry : Option SduInfo} {received : Set Nat}

/-- In front of a segment or in front of a byte of it: for bytes outside it is the same. -/
theorem SegmentSet.exists_above_iff (h : SegmentSet set) {b : Nat} (hout : b ∉ coverage set) :
    (∃ s ∈ set, b < s.so) ↔ ∃ c ∈ coverage set, b < c := by
  constructor
  · rintro ⟨s, hs, hlt⟩
    have hpos := (h.valid s hs).pos
    exact ⟨s.so, ⟨s, hs, Nat.le_refl _, by omega⟩, hlt⟩
  · rintro ⟨c, ⟨s, hs, hge, hlt⟩, hbc⟩
    refine ⟨s, hs, ?_⟩
    by_contra hin
    exact hout ⟨s, hs, by omega, by omega⟩

/-- **The NACKs of one SN denote its missing bytes.** -/
theorem Holds.mem_sduNacks (h : Holds entry received) :
    p ∈ denotesAll n (sduNacks entry sn) ↔ p.1 = sn % n.mod ∧ Missing entry received p.2 := by
  cases entry with
  | none =>
    simp only [sduNacks, denotesAll_singleton, mem_denotes]
    simp [span, CoversByte, Missing]
  | some info =>
    simp only [sduNacks, Missing]
    by_cases hfull : info.fullyReceived = true
    · simp [hfull]
    · have hfull : info.fullyReceived = false := Bool.eq_false_iff.2 hfull
      obtain ⟨set, hdata, hset, rfl, hend⟩ := h.segments info rfl hfull
      have hstored : info.segments = set := by rw [SduInfo.segments, hdata]
      rw [if_neg (by simp [hfull]), hdata, hstored]
      rw [mem_denotesAll_segmentNacks hset (fun s _ => Nat.zero_le _) hend (Nat.zero_le _)]
      constructor
      · rintro ⟨hsn, -, hout, hwhy⟩
        exact ⟨hsn, hfull, hout, hwhy.imp (hset.exists_above_iff hout).1 And.right⟩
      · rintro ⟨hsn, -, hout, hwhy⟩
        exact ⟨hsn, Nat.zero_le _, hout, hwhy.imp (hset.exists_above_iff hout).2 (⟨rfl, ·⟩)⟩

theorem Holds.nackSdu (h : Holds entry received) (report : StatusPdu) :
    ∃ r, Core.nackSdu entry sn report = .ok r := by
  cases entry with
  | none => exact ⟨_, rfl⟩
  | some info =>
    unfold Core.nackSdu
    by_cases hfull : info.fullyReceived = true
    · exact ⟨report, if_pos hfull⟩
    · obtain ⟨set, hdata, hset, -, -⟩ := h.segments info rfl (Bool.eq_false_iff.2 hfull)
      obtain ⟨r, hr⟩ := hset.nackSegments (fun s _ => Nat.zero_le s.so) sn false report
      refine ⟨r, ?_⟩
      simp only [hfull, hdata]
      exact hr

end

/-! ## The report -/

namespace Receiver

variable {n : AmSnSize} {r : Receiver} {maxNofSn : Nat}

theorem exists_report (r : Receiver) (maxNofSn : Nat) (builder : StatusPdu)
    (h : ∀ x report, ∃ report', Core.nackSdu (r.window x) (x % n.mod) report = .ok report') :
    ∃ report, r.report n maxNofSn builder = .ok report := by
  have hall : Ensures (fun _ => False) _ (r.report n maxNofSn builder) :=
    report_ensures (P := fun _ _ => True) trivial fun x report _ _ => by
      obtain ⟨report', hok⟩ := h x report
      rw [hok]
      trivial
  obtain ⟨report, hreport, -⟩ := hall.exists_ok
  exact ⟨report, hreport⟩

/-- **What the pushed NACKs denote.** -/
theorem mem_pushed {received : Nat → Set Nat} (h : ∀ x, Holds (r.window x) (received x)) :
    p ∈ denotesAll n (r.pushed n maxNofSn) ↔
      ∃ x, r.next ≤ x ∧ x < r.stop maxNofSn ∧ p.1 = x % n.mod ∧
        Missing (r.window x) (received x) p.2 := by
  rw [pushed, denotesAll_flatMap]
  refine exists_congr fun x => ?_
  rw [(h x).mem_sduNacks, Nat.mod_mod, List.mem_range'_1]
  constructor
  · rintro ⟨⟨hge, hlt⟩, hp⟩
    exact ⟨hge, by omega, hp⟩
  · rintro ⟨hge, hlt, hp⟩
    exact ⟨⟨hge, by omega⟩, hp⟩

end Receiver

/-- A report denotes what was pushed. -/
theorem denotesAll_statusReport {rxNext ackSn : Nat} {pushed : List StatusNack}
    (h : Reported n rxNext ackSn pushed) :
    denotesAll n (statusReport n ackSn pushed).nacks = denotesAll n pushed := by
  have hempty : StatusPdu.SpansPos ({ snSize := n } : StatusPdu).nacks := nofun
  have hpushed : StatusPdu.SpansPos pushed := fun x hx => by simp [span, (h.single x hx).2]
  have hfold := StatusPdu.denotesAll_foldl hempty hpushed
  rw [denotesAll_nil, Set.empty_union] at hfold
  exact hfold

/-! ## The log -/

/-- The segments received for each SN. -/
abbrev Log := Nat → List RxSegment

/-- The header of a data PDU that is handled. -/
def dataHeader (n : AmSnSize) (buf : List UInt8) : Option AmPduHeader :=
  if buf.isEmpty || StatusPdu.isControlPdu buf then none
  else (readDataPduHeader n buf).filter fun header => header.packedSize < buf.length

section

variable {cfg : Config} {e e' : RxAm cfg} {ev : Event}

/-- The log after a call: a data PDU is added to the log of its SN, and the log of an SN that is
not in the window any more, or not yet, is empty. -/
def RxAm.record (e' : RxAm cfg) (log : Log) (ev : Event) : Log := fun sn =>
  if e'.core.rxWindow.get? sn = none then []
  else
    match ev with
    | .handlePdu buf =>
      match dataHeader cfg.snFieldLength buf with
      | some header =>
        if sn = header.sn then log sn ++ [⟨header.si, header.so, buf.drop header.packedSize⟩]
        else log sn
      | none => log sn
    | _ => log sn

def Recorded (s : RxAm cfg × Log) (ev : Event) (s' : RxAm cfg × Log) : Prop :=
  RxAm.Step s.1 ev s'.1 ∧ s'.2 = s'.1.record s.2 ev

theorem handlePdu_core {buf : List UInt8} (h : RxAm.Step e (.handlePdu buf) e') :
    match dataHeader cfg.snFieldLength buf with
    | some header => readDataPduHeader cfg.snFieldLength buf = some header ∧
        header.packedSize < buf.length ∧
        ∃ p, e.core.placePdu header (buf.drop header.packedSize) = .ok p ∧ e'.core = p.core
    | none => e'.core = e.core := by
  obtain ⟨out, h⟩ := h
  have h : e.handlePdu buf = .ok (e', out) := Option.some.inj h
  unfold RxAm.handlePdu at h
  unfold dataHeader
  by_cases hempty : buf.isEmpty = true
  · rw [if_pos hempty] at h
    rw [if_pos (by rw [hempty]; rfl)]
    cases h
    rfl
  · rw [if_neg hempty] at h
    by_cases hctrl : StatusPdu.isControlPdu buf = true
    · rw [if_pos hctrl] at h
      rw [if_pos (by rw [hctrl, Bool.or_true])]
      cases h
      rfl
    · rw [if_neg hctrl] at h
      rw [if_neg (by simp [hempty, hctrl])]
      unfold RxAm.handleDataPdu at h
      cases hread : readDataPduHeader cfg.snFieldLength buf with
      | none =>
        rw [hread] at h
        cases h
        rfl
      | some header =>
        rw [hread] at h
        simp only at h
        by_cases hlen : buf.length ≤ header.packedSize
        · rw [if_pos hlen] at h
          rw [Option.filter_some_neg (by simpa using hlen)]
          cases h
          rfl
        · rw [if_neg hlen] at h
          rw [Option.filter_some_pos (by simpa using hlen)]
          obtain ⟨p, hplace, h⟩ := exists_of_bind_ok h
          refine ⟨rfl, Nat.lt_of_not_le hlen, p, hplace, ?_⟩
          cases hch : p.statusChanged with
          | false =>
            rw [hch] at h
            cases h
            rfl
          | true =>
            rw [hch] at h
            obtain ⟨⟨e₁, report⟩, hrefresh, h⟩ := exists_of_bind_ok h
            obtain ⟨-, rfl⟩ := refreshStatusReport_ok hrefresh
            cases h
            rfl

end

variable {r : Receiver} {d : RxSegment}

/-- An incomplete SDU of the window after an arrival: one that was there before, or the one the
PDU was written to. -/
theorem Receiver.Inv.arrive_window {W : Nat} {x y : Nat} {info : SduInfo} (h : r.Inv W)
    (hw : (r.arrive W x d).1.window y = some info) (hinc : info.fullyReceived = false) :
    (y ≠ x ∧ r.window y = some info) ∨
      (y = x ∧ (r.next ≤ x ∧ x < r.next + W ∧ r.received x = false) ∧
        info = (r.placed x d).1) := by
  unfold Receiver.arrive at hw
  split at hw
  · next hin =>
    have hw : ((r.write x d).deliver x).1.window y = some info := by
      rw [(window_restartTimer (r := ((r.write x d).deliver x).1.stopTimer W)).1] at hw
      exact hw
    have hself : (r.write x d).window x = some (r.placed x d).1 := Function.update_self ..
    have hother : y ≠ x → (r.write x d).window y = r.window y := fun hne =>
      Function.update_of_ne hne ..
    unfold Receiver.deliver at hw
    rw [hself] at hw
    by_cases hfull : (r.placed x d).1.fullyReceived = true
    · simp only [if_pos hfull] at hw
      -- the SDU is released and may leave the window, the others stay as they are
      have hrel : ((r.write x d).release x).window y = some info := by
        unfold Receiver.updateNext at hw
        split at hw
        · simp only at hw
          split_ifs at hw
          unfold Receiver.updateHighestStatus at hw
          split at hw <;> exact hw
        · unfold Receiver.updateHighestStatus at hw
          split at hw <;> exact hw
      by_cases hyx : y = x
      · subst hyx
        have hrel : Function.update (r.write y d).window y
            (((r.write y d).window y).map SduInfo.release) y = some info := hrel
        rw [Function.update_self, hself] at hrel
        cases hrel
        exact absurd hfull (Bool.eq_false_iff.1 hinc)
      · have hrel : Function.update (r.write x d).window x _ y = some info := hrel
        rw [Function.update_of_ne hyx, hother hyx] at hrel
        exact .inl ⟨hyx, hrel⟩
    · simp only [if_neg hfull] at hw
      by_cases hyx : y = x
      · subst hyx
        rw [hself] at hw
        exact .inr ⟨rfl, hin, (Option.some.inj hw).symm⟩
      · rw [hother hyx] at hw
        exact .inl ⟨hyx, hw⟩
  · next hout =>
    have hw : r.window y = some info := hw
    refine .inl ⟨?_, hw⟩
    rintro rfl
    obtain ⟨hge, hlt⟩ := h.window_mem y (by simp [hw])
    have hmax := h.highest_le
    refine hout ⟨hge, by omega, ?_⟩
    simp [Receiver.received, hw, hinc]

/-- The entry of an SN and the SDU it stands for. -/
theorem Represents.get?_eq_some_iff {c : Core n} (h : Represents c r) (hinv : r.Inv n.window)
    {sn : Nat} {info : SduInfo} :
    c.rxWindow.get? sn = some info ↔ ∃ x, sn = x % n.mod ∧ r.window x = some info := by
  constructor
  · intro hget
    have hcontains : c.rxWindow.contains sn = true := by
      simp [CircularMap.contains, hget]
    obtain ⟨x, hge, hlt, rfl⟩ := h.within sn hcontains
    exact ⟨x, rfl, by rw [← h.get? hge hlt, hget]⟩
  · rintro ⟨x, rfl, hx⟩
    obtain ⟨hge, hlt⟩ := hinv.window_mem x (by simp [hx])
    have hmax := hinv.highest_le
    rw [h.get? hge (by omega), hx]

section

variable {cfg : Config}

/-- The log agrees with the window: the segments of an incomplete SDU are those of its log, stored
one after the other. -/
structure Logged (e : RxAm cfg) (log : Log) : Prop where
  tracked : Tracked e
  absent : ∀ sn, e.core.rxWindow.get? sn = none → log sn = []
  stored : ∀ sn info, e.core.rxWindow.get? sn = some info → info.fullyReceived = false →
    info.sduData = .segments (storeSegments (log sn)) ∧ ∀ d ∈ log sn, d.Valid

theorem logged_init : Logged (RxAm.init cfg) fun _ => [] where
  tracked := tracked_of_run (.nil _)
  absent := fun _ _ => rfl
  stored := by
    intro sn info hget
    cases hget

section

variable {e e' : RxAm cfg} {log : Log} {ev : Event}

theorem Logged.of_window_eq {log' : Log} (h : Logged e log) (ht : Tracked e')
    (hwin : e'.core.rxWindow = e.core.rxWindow)
    (hlog : ∀ sn, log' sn = if e'.core.rxWindow.get? sn = none then [] else log sn) :
    Logged e' log' where
  tracked := ht
  absent := fun sn hnone => by rw [hlog, if_pos hnone]
  stored := by
    intro sn info hget hinc
    rw [hlog, if_neg (by simp [hget])]
    rw [hwin] at hget
    exact h.stored sn info hget hinc

theorem onExpiredReassemblyTimer_window {c c' : Core n} {b : Bool}
    (h : c.onExpiredReassemblyTimer = .ok (c', b)) : c'.rxWindow = c.rxWindow := by
  unfold Core.onExpiredReassemblyTimer at h
  split at h
  · cases h
    rfl
  · split at h
    · cases h
      rfl
    · simp only at h
      split_ifs at h
      cases h
      unfold Core.startReassemblyTimer
      split <;> rfl

theorem window_of_ne_handlePdu (h : RxAm.Step e ev e') (hev : ∀ buf, ev ≠ .handlePdu buf) :
    e'.core.rxWindow = e.core.rxWindow := by
  obtain ⟨out, h⟩ := h
  cases ev with
  | handlePdu buf => exact absurd rfl (hev buf)
  | reassemblyTimerExpired =>
    cases step_transition h with
    | timerWithoutHandler => rfl
    | timerSkipped _ hexp | timerReport _ hexp _ =>
      have hwin := onExpiredReassemblyTimer_window hexp
      exact hwin
  | statusProhibitTimerExpired | getStatusPdu =>
    cases h
    rfl
  | trimStatusPdu grantLen =>
    cases h
    unfold RxAm.trimStatusPdu
    split <;> rfl

theorem placed_incomplete {x : Nat} (hinc : (r.placed x d).1.fullyReceived = false) :
    (r.placed x d).1.sduData = .segments (storeSegment ((r.window x).getD {}).segments d).1 := by
  unfold Receiver.placed SduInfo.place at hinc ⊢
  split_ifs at hinc with hsi
  rw [if_neg hsi]
  unfold SduInfo.store SduInfo.segments
  cases ((r.window x).getD {}).sduData <;> rfl

theorem Logged.segments {x : Nat} (h : Logged e log) (hrep : Represents e.core r)
    (hge : r.next ≤ x) (hlt : x < r.next + cfg.snFieldLength.window) (hx : r.received x = false) :
    ((r.window x).getD {}).segments = storeSegments (log (x % cfg.snFieldLength.mod)) ∧
      ∀ d ∈ log (x % cfg.snFieldLength.mod), d.Valid := by
  have hget := hrep.get? hge hlt
  cases hw : r.window x with
  | none =>
    rw [h.absent _ (hget.trans hw)]
    exact ⟨rfl, nofun⟩
  | some info =>
    have hinc : info.fullyReceived = false := by simpa [Receiver.received, hw] using hx
    obtain ⟨hdata, hvalid⟩ := h.stored _ info (hget.trans hw) hinc
    refine ⟨?_, hvalid⟩
    rw [Option.getD_some, SduInfo.segments, hdata]

theorem Logged.place {header : AmPduHeader} {payload : List UInt8}
    {p : Core.Placed cfg.snFieldLength} {log' : Log} (h : Logged e log) (ht : Tracked e')
    (hplace : e.core.placePdu header payload = .ok p) (hcore : e'.core = p.core)
    (hsn : header.sn < cfg.snFieldLength.mod)
    (hvalid : RxSegment.Valid ⟨header.si, header.so, payload⟩)
    (hlog : ∀ sn, log' sn = if e'.core.rxWindow.get? sn = none then []
      else if sn = header.sn then log sn ++ [⟨header.si, header.so, payload⟩] else log sn) :
    Logged e' log' := by
  have hmod := cfg.snFieldLength.mod_eq
  refine ⟨ht, fun sn hnone => by rw [hlog, if_pos hnone], fun sn info hget hinc => ?_⟩
  rw [hlog, if_neg (by simp [hget])]
  obtain ⟨r, hrep, hinv⟩ := h.tracked
  obtain ⟨hx, hxlt⟩ := hrep.exists_sdu hsn
  set x := r.next + e.core.rxModBase header.sn
  obtain ⟨p', hp', hrep', -⟩ := hrep.placePdu hinv header payload hx (by omega) (by omega)
  obtain rfl : p = p' := Except.ok.inj (hplace.symm.trans hp')
  rw [← hcore] at hrep'
  have hinv' : (r.arrive cfg.snFieldLength.window x ⟨header.si, header.so, payload⟩).1.Inv
      cfg.snFieldLength.window := hinv.arrive
  obtain ⟨y, rfl, hy⟩ := (hrep'.get?_eq_some_iff hinv').1 hget
  rcases hinv.arrive_window hy hinc with ⟨hne, hold⟩ | ⟨rfl, ⟨hge, hlt, hmiss⟩, rfl⟩
  · obtain ⟨hyge, hylt⟩ := hinv.window_mem y (by simp [hold])
    have hmax := hinv.highest_le
    have hother : y % cfg.snFieldLength.mod ≠ header.sn := by
      rw [hx]
      intro heq
      rcases Nat.lt_or_gt_of_ne hne with hlt | hgt
      · exact mod_ne_mod_of_lt hlt (by omega) heq
      · exact mod_ne_mod_of_lt hgt (by omega) heq.symm
    rw [if_neg hother]
    exact h.stored _ info ((hrep.get?_eq_some_iff hinv).2 ⟨y, rfl, hold⟩) hinc
  · obtain ⟨hsegments, hall⟩ := h.segments hrep hge hlt hmiss
    rw [if_pos hx.symm, placed_incomplete hinc, hsegments, storeSegments_concat]
    refine ⟨rfl, fun d hd => ?_⟩
    rcases List.mem_append.1 hd with hd | hd
    · exact hall d hd
    · rw [List.mem_singleton.1 hd]
      exact hvalid

end

variable {s s' : RxAm cfg × Log}

/-- **The log stays in step with the window.** -/
theorem Logged.step {ev : Event} (h : Logged s.1 s.2) (hs : Recorded s ev s') :
    Logged s'.1 s'.2 := by
  obtain ⟨hstep, hlog⟩ := hs
  have ht : Tracked s'.1 := h.tracked.step hstep
  cases ev with
  | handlePdu buf =>
    have hcore := handlePdu_core hstep
    cases hheader : dataHeader cfg.snFieldLength buf with
    | none =>
      rw [hheader] at hcore
      refine h.of_window_eq ht (congrArg Core.rxWindow hcore) fun sn => ?_
      simp [hlog, RxAm.record, hheader]
    | some header =>
      rw [hheader] at hcore
      obtain ⟨hread, hlen, p, hplace, hcore⟩ := hcore
      refine h.place ht hplace hcore (readDataPduHeader_sn_lt hread)
        ⟨(readDataPduHeader_fields hread).2, ?_⟩ fun sn => ?_
      · rw [List.length_drop]
        omega
      · simp [hlog, RxAm.record, hheader]
  | reassemblyTimerExpired | statusProhibitTimerExpired =>
    exact h.of_window_eq ht (window_of_ne_handlePdu hstep nofun) (congrFun hlog)
  | getStatusPdu => exact h.of_window_eq ht (window_of_ne_handlePdu hstep nofun) (congrFun hlog)
  | trimStatusPdu grantLen =>
    exact h.of_window_eq ht (window_of_ne_handlePdu hstep nofun) (congrFun hlog)

theorem logged_of_run {s : RxAm cfg × Log} {es : List Event}
    (hrun : Run Recorded (RxAm.init cfg, fun _ => []) es s) : Logged s.1 s.2 :=
  hrun.invariant (P := fun s => Logged s.1 s.2) (fun _ _ _ h hs => h.step hs) logged_init

/-! ## The theorem -/

theorem segmentSet_of_bounded {received : List RxSegment} (hvalid : ∀ d ∈ received, d.Valid)
    (hbound : ∀ d ∈ received, d.so + d.payload.length ≤ 65535) :
    SegmentSet (storeSegments received) ∧
      coverage (storeSegments received) = coverage received ∧
      ∀ s ∈ storeSegments received, s.so + s.payload.length ≤ 65535 := by
  obtain ⟨⟨hset, hcover⟩, -⟩ := storeSegments_of_covers hvalid fun pre new hpre =>
    .inl (not_overflows (hbound new (hpre.subset (by simp))))
  refine ⟨hset, hcover, fun s hs => ?_⟩
  -- the last byte of a stored segment was received
  have hpos := (hset.valid s hs).pos
  have hlast : s.so + s.payload.length - 1 ∈ coverage (storeSegments received) :=
    ⟨s, hs, by omega, by omega⟩
  rw [hcover] at hlast
  obtain ⟨d, hd, -, hlt⟩ := hlast
  have := hbound d hd
  omega

/-- The incomplete SDUs of the window hold what was received for them. -/
theorem Logged.holds {e : RxAm cfg} {log : Log} (h : Logged e log) (hrep : Represents e.core r)
    (hinv : r.Inv cfg.snFieldLength.window)
    (hbound : ∀ sn info, e.core.rxWindow.get? sn = some info → info.fullyReceived = false →
      ∀ d ∈ log sn, d.so + d.payload.length ≤ 65535) (x : Nat) :
    Holds (r.window x) (coverage (log (x % cfg.snFieldLength.mod))) where
  segments := by
    intro info hw hinc
    have hget := (hrep.get?_eq_some_iff hinv).2 ⟨x, rfl, hw⟩
    obtain ⟨hdata, hvalid⟩ := h.stored _ info hget hinc
    obtain ⟨hset, hcover, hend⟩ := segmentSet_of_bounded hvalid (hbound _ info hget hinc)
    exact ⟨_, hdata, hset, hcover, hend⟩

/-- **The status report is exact.** -/
theorem statusReport_exact {s : RxAm cfg × Log} {es : List Event}
    (hrun : Run Recorded (RxAm.init cfg, fun _ => []) es s)
    (hbound : ∀ sn info, s.1.core.rxWindow.get? sn = some info → info.fullyReceived = false →
      ∀ d ∈ s.2 sn, d.so + d.payload.length ≤ 65535) :
    ∃ report, s.1.Builds report ∧
      s.1.core.rxModBase report.ackSn =
        min (s.1.core.rxModBase s.1.core.rxHighestStatus) cfg.maxNofSnPerStatusReport ∧
      denotesAll cfg.snFieldLength report.nacks =
        {p | p.1 < cfg.snFieldLength.mod ∧
          s.1.core.rxModBase p.1 < s.1.core.rxModBase report.ackSn ∧
          Missing (s.1.core.rxWindow.get? p.1) (coverage (s.2 p.1)) p.2} := by
  have hlogged := logged_of_run hrun
  have hsized := sized_of_run (hrun.map Prod.fst fun _ _ _ h => h.1)
  obtain ⟨r, hrep, hinv⟩ := hlogged.tracked
  have hholds := hlogged.holds hrep hinv hbound
  have hmod := cfg.snFieldLength.mod_eq
  have hpos := cfg.snFieldLength.window_pos
  have hhigh := hinv.highest_le
  have hstatus := hinv.status_le
  have hnext := hinv.next_le
  have hmax := Config.maxNofSn_le cfg
  have hstop : r.stop cfg.maxNofSnPerStatusReport =
      min (r.next + cfg.maxNofSnPerStatusReport) r.highestStatus := rfl
  obtain ⟨report, hreport⟩ := r.exists_report cfg.maxNofSnPerStatusReport
    (s.1.statusBuf s.1.statusBuilder) fun x rep => (hholds x).nackSdu rep
  have hbuild : s.1.Builds report := (hrep.buildStatusReport hinv hmax _).trans hreport
  have heq := hbuild.eq_statusReport hrep hinv hsized
  have hack : s.1.core.rxModBase report.ackSn =
      r.stop cfg.maxNofSnPerStatusReport - r.next := by
    rw [heq]
    exact hrep.rxModBase (Nat.mod_modEq _ _) (by omega) (by omega)
  have hhs : s.1.core.rxModBase s.1.core.rxHighestStatus = r.highestStatus - r.next :=
    hrep.rxModBase (hrep.highestStatus ▸ Nat.mod_modEq _ _) hnext (by omega)
  refine ⟨report, hbuild, by omega, ?_⟩
  rw [hack, heq, denotesAll_statusReport (Receiver.Inv.reported hrep hinv)]
  ext ⟨sn, byte⟩
  rw [Receiver.mem_pushed hholds]
  constructor
  · rintro ⟨x, hge, hlt, rfl, hmissing⟩
    refine ⟨Nat.mod_lt _ cfg.snFieldLength.mod_pos, ?_, ?_⟩
    · rw [hrep.rxModBase (Nat.mod_modEq _ _) hge (by omega)]
      omega
    · rw [hrep.get? hge (by omega)]
      exact hmissing
  · rintro ⟨hsn, hlt, hmissing⟩
    change sn < cfg.snFieldLength.mod at hsn
    change s.1.core.rxModBase sn < _ at hlt
    obtain ⟨hx, hxlt⟩ := hrep.exists_sdu hsn
    refine ⟨r.next + s.1.core.rxModBase sn, by omega, by omega, hx, ?_⟩
    rw [← hrep.get? (by omega) (by omega), ← hx]
    exact hmissing

theorem mem_record {e' : RxAm cfg} {log : Log} {ev : Event} {sn : Nat}
    (h : d ∈ e'.record log ev sn) :
    d ∈ log sn ∨ ∃ buf header, ev = .handlePdu buf ∧
      dataHeader cfg.snFieldLength buf = some header ∧
      d = ⟨header.si, header.so, buf.drop header.packedSize⟩ := by
  unfold RxAm.record at h
  split at h
  · cases h
  · cases ev with
    | handlePdu buf =>
      simp only at h
      split at h
      · next header hheader =>
        split at h
        · rcases List.mem_append.1 h with h | h
          · exact .inl h
          · exact .inr ⟨buf, header, rfl, hheader, List.mem_singleton.1 h⟩
        · exact .inl h
      · exact .inl h
    | reassemblyTimerExpired | statusProhibitTimerExpired | getStatusPdu
    | trimStatusPdu grantLen => exact .inl h

/-- If all data PDUs end before byte 65535, so do the segments of the log. -/
theorem bounded_of_run {es : List Event} (hrun : Run Recorded s es s')
    (hes : ∀ buf header, .handlePdu buf ∈ es → dataHeader cfg.snFieldLength buf = some header →
      header.so + (buf.drop header.packedSize).length ≤ 65535)
    (hs : ∀ sn, ∀ d ∈ s.2 sn, d.so + d.payload.length ≤ 65535) :
    ∀ sn, ∀ d ∈ s'.2 sn, d.so + d.payload.length ≤ 65535 := by
  induction hrun with
  | nil => exact hs
  | @cons s t u ev es hstep _ ih =>
    refine ih (fun buf header hb => hes buf header (List.mem_cons_of_mem _ hb)) fun sn d hd => ?_
    rw [hstep.2] at hd
    rcases mem_record hd with hd | ⟨buf, header, rfl, hheader, rfl⟩
    · exact hs sn d hd
    · exact hes buf header List.mem_cons_self hheader

def recordedState (s : RxAm cfg × Log) (ev : Event) : Option (RxAm cfg × Log) :=
  (s.1.stepState ev).map fun e' => (e', e'.record s.2 ev)

theorem recorded_of_recordedState {ev : Event} (h : recordedState s ev = some s') :
    Recorded s ev s' := by
  obtain ⟨e', he, rfl⟩ := Option.map_eq_some_iff.1 h
  exact ⟨RxAm.step_of_stepState he, rfl⟩

/-- SN 0 is lost, one byte of SN 1 arrives, and the reassembly timer expires. -/
def segmentThenTimeout : List Event :=
  [.handlePdu [0xb0, 0x01, 0x00, 0x01, 0x22], .reassemblyTimerExpired]

theorem statusReport_exact_segment :
    ∃ (s : RxAm sampleConfig × Log) (report : StatusPdu),
      Run Recorded (RxAm.init sampleConfig, fun _ => []) segmentThenTimeout s ∧
      s.1.core.rxHighestStatus = 2 ∧ s.1.Builds report ∧
      denotesAll .size12bits report.nacks =
        {p | p.1 < 4096 ∧ s.1.core.rxModBase p.1 < s.1.core.rxModBase report.ackSn ∧
          Missing (s.1.core.rxWindow.get? p.1) (coverage (s.2 p.1)) p.2} := by
  have hexec : (exec recordedState (RxAm.init sampleConfig, fun _ => []) segmentThenTimeout).map
      (·.1.core.rxHighestStatus) = some 2 := by decide +kernel
  obtain ⟨s, hs, hhigh⟩ := Option.map_eq_some_iff.1 hexec
  have hrun : Run Recorded (RxAm.init sampleConfig, fun _ => []) segmentThenTimeout s :=
    (run_of_exec hs).mono fun _ _ _ h => recorded_of_recordedState h
  have hbound := bounded_of_run hrun ?_ nofun
  · obtain ⟨report, hbuild, -, hdenotes⟩ := statusReport_exact hrun fun sn _ _ _ => hbound sn
    exact ⟨s, report, hrun, hhigh, hbuild, hdenotes⟩
  · intro buf header hmem hheader
    obtain rfl : buf = [0xb0, 0x01, 0x00, 0x01, 0x22] := by simpa [segmentThenTimeout] using hmem
    have hall : (dataHeader .size12bits [0xb0, 0x01, 0x00, 0x01, 0x22]).all
        (fun header => header.so + (([0xb0, 0x01, 0x00, 0x01, 0x22] : List UInt8).drop
          header.packedSize).length ≤ 65535) = true := by decide
    rw [show dataHeader .size12bits _ = some header from hheader] at hall
    exact of_decide_eq_true hall

end

end RadioStack.Rlc
