import RadioStack.Rlc.PollOnStall

/-!
# Poll thresholds

`get_polling_bit` counts the new PDUs and the new bytes since the last poll, and polls when one of
the counters reaches `poll_pdu` or `poll_byte`. The caller passes the number of new bytes. A PDU
with a whole SDU is built after the SDU was moved into the TX window, and the caller passes the
length of the buffer that is left, which is 0.

`SincePoll` records what was really sent since the last poll.

**Theorem (`pollThresholds`).** In every run, fewer than `poll_pdu` new PDUs are sent without poll.
The new bytes stay below `poll_byte` in every run whose PDUs meet `BytesCounted`, and a PDU that
does not meet it takes them to `poll_byte`: a PDU that is, or follows, a whole SDU sent without poll
polls for another reason, or leaves the sum of BYTE_WITHOUT_POLL and of what was not counted below
the threshold.
-/

namespace RadioStack.Rlc.TxAm

variable {cfg : Config} {s s' : TxAm cfg}

/-! ## The next PDU with new data -/

section

variable (s : TxAm cfg)

/-- The SDU that is read from the queue next. -/
def nextSdu : Option RlcSdu :=
  (SduQueue.nextValid cfg.queue s.sduQueue.sduStates s.sduQueue.queue).map Prod.fst

variable (grantLen : Nat)

/-- A whole SDU fits the grant. -/
def sendsWholeSdu : Bool :=
  match s.underSegmentation, s.nextSdu with
  | none, some sdu => sdu.buf.length + cfg.headMinSize ≤ grantLen
  | _, _ => false

/-- Bytes of an SDU that fit the grant. -/
def newPayload : Nat :=
  match s.underSegmentation, s.nextSdu with
  | some info, _ => min (info.sdu.length - info.nextSo) (grantLen - cfg.headMaxSize)
  | none, some sdu => min sdu.buf.length (grantLen - cfg.headMinSize)
  | none, none => 0

/-- The bytes that `get_polling_bit` is told of. -/
def countedPayload : Nat :=
  if s.sendsWholeSdu grantLen then 0 else s.newPayload grantLen

def completesSdu : Bool :=
  match s.underSegmentation with
  | some info => info.sdu.length - info.nextSo + cfg.headMaxSize ≤ grantLen
  | none => s.sendsWholeSdu grantLen

/-- What makes a PDU with new data carry a poll. -/
def PollsNew : Prop :=
  (s.countPdu (s.countedPayload grantLen)).pollThresholdReached = true ∨
    (s.NothingBehind ∧ s.completesSdu grantLen = true) ∨
    s.isTxWindowFull = true ∨ s.TakesLastSlot ∨ s.isPollRetransmitTimerExpired = true

theorem counters_getPollingBit (sn : Nat) (isRetx : Bool) (size : Nat) :
    (s.getPollingBit sn isRetx size).1.counters =
      if (s.getPollingBit sn isRetx size).2 then (0, 0)
      else if isRetx then s.counters else (s.countPdu size).counters := by
  unfold getPollingBit
  cases isRetx with
  | true =>
    simp only [if_true]
    split <;> rfl
  | false =>
    simp only [Bool.false_eq_true, if_false]
    split <;> rfl

end

/-- A PDU with new data, its poll, and the counters behind it. -/
structure NewPdu (s : TxAm cfg) (grantLen : Nat) (s' : TxAm cfg) (pdu : List UInt8) : Prop where
  payload : ∃ header payload, pdu = writeDataPduHeader header ++ payload ∧ payload ≠ [] ∧
    payload.length = s.newPayload grantLen
  poll : pollBit pdu = true ↔ s.PollsNew grantLen
  counters : s'.counters =
    if pollBit pdu then (0, 0) else (s.countPdu (s.countedPayload grantLen)).counters

variable {pdu : List UInt8}

theorem NewPdu.ne_nil {grantLen : Nat} (h : NewPdu s grantLen s' pdu) :
    pdu ≠ [] := by
  obtain ⟨header, payload, rfl, hne, -⟩ := h.payload
  exact append_ne_nil hne _

/-- What a call without retransmissions yields: nothing, or a PDU with new data. -/
inductive Built (s : TxAm cfg) (grantLen : Nat) : TxAm cfg × List UInt8 → Prop
  | nothing {s' : TxAm cfg} (hcounters : s'.counters = s.counters)
      (hno : s.newPayload grantLen = 0 ∨ s.PollsNew grantLen) : Built s grantLen (s', [])
  | pdu {s' : TxAm cfg} {pdu : List UInt8} (hnew : NewPdu s grantLen s' pdu) :
      Built s grantLen (s', pdu)

/-- The poll is decided in a state `t` with the counters of `s`. -/
theorem NewPdu.of_getPollingBit {t : TxAm cfg} {grantLen sn sn' so size : Nat} {si : SiField}
    {payload : List UInt8} (ht : t.counters = s.counters) (hsize : size = s.countedPayload grantLen)
    (hne : payload ≠ []) (hlen : payload.length = s.newPayload grantLen)
    (hs' : s'.counters = (t.getPollingBit sn false size).1.counters)
    (hpoll : (t.getPollingBit sn false size).2 = true ↔ s.PollsNew grantLen) :
    NewPdu s grantLen s' (writeDataPduHeader
      (cfg.dataHeader sn' (t.getPollingBit sn false size).2 si so) ++ payload) := by
  subst hsize
  obtain ⟨hpdus, hbytes⟩ := Prod.mk.inj ht
  refine ⟨⟨_, payload, rfl, hne, hlen⟩, ?_, ?_⟩
  · rw [pollBit_write]
    exact hpoll
  · rw [hs', pollBit_write, counters_getPollingBit]
    simp only [Config.dataHeader, Bool.false_eq_true, if_false, TxAm.counters, countPdu, hpdus,
      hbytes]
    rfl

theorem Sound.built_of_segment (h : Sound s) (hretx : s.retxQueue = []) {info : SduInfo}
    (hinfo : s.underSegmentation = some info) (grantLen : Nat) :
    Built s grantLen (s.buildContinuedSduSegment grantLen info) := by
  obtain ⟨hne, hget⟩ := underSegmentation_eq_some.1 hinfo
  obtain ⟨hso, hlt⟩ := h.segment hne info hget
  have hnew : s.newPayload grantLen =
      min (info.sdu.length - info.nextSo) (grantLen - cfg.headMaxSize) := by
    simp [newPayload, hinfo]
  have hcounted : s.countedPayload grantLen = s.newPayload grantLen := by
    simp only [countedPayload, sendsWholeSdu, hinfo, Bool.false_eq_true, if_false]
  have hlast : s.TakesLastSlot ↔ False := by
    simp [TakesLastSlot, hinfo]
  have hbehind : s.NothingBehind ↔ s.sduQueue.queue = [] := by
    simp only [NothingBehind, hretx, hinfo, if_true]
  have hcompletes : s.completesSdu grantLen =
      decide (info.sdu.length - info.nextSo + cfg.headMaxSize ≤ grantLen) := by
    simp [completesSdu, hinfo]
  have hr := s.buildContinuedSduSegment_cases hso hlt grantLen
  generalize s.buildContinuedSduSegment grantLen info = r at hr
  cases hr with
  | nothing hgrant => exact .nothing rfl (.inl (by omega))
  | @middle len hlen hpos hend =>
    have hpay := length_payload info.sdu info.nextSo len (Nat.le_of_lt hend)
    refine .pdu (.of_getPollingBit (t := s) rfl (by omega)
      (payload_ne_nil hpos (Nat.le_of_lt hend)) (by omega) rfl ?_)
    rw [getPollingBit_iff, PollsNew, hcounted, hlast, hcompletes, decide_eq_false (by omega)]
    simp only [true_and, false_or, hne, and_false, Bool.false_eq_true]
    rw [show s.newPayload grantLen = len by omega]
  | @last len hlen hpos hend =>
    have hpay := length_payload info.sdu info.nextSo len (Nat.le_of_eq hend)
    refine .pdu (.of_getPollingBit (t := { s with snUnderSegmentation := invalidRlcSn }) rfl
      (by omega) (payload_ne_nil hpos (Nat.le_of_eq hend)) (by omega) rfl ?_)
    rw [getPollingBit_iff, PollsNew, hcounted, hlast, hbehind, hcompletes,
      decide_eq_true (by omega)]
    simp only [true_and, and_true, false_or, hretx]
    rw [show s.newPayload grantLen = len by omega]
    exact Iff.rfl

theorem Sane.built_of_new (h : Sane s) (hretx : s.retxQueue = [])
    (hinfo : s.underSegmentation = none) (grantLen : Nat) :
    Ensures (fun _ => True) (Built s grantLen)
      (({ s with snUnderSegmentation := invalidRlcSn } : TxAm cfg).buildNewPdu grantLen) := by
  have hbehind : s.NothingBehind ↔ s.sduQueue.behindNext cfg.queue = [] := by
    simp only [NothingBehind, hretx, hinfo, if_true]
  have hlast : s.TakesLastSlot ↔ s.txWindow.slots (s.txNext % cfg.window) = none ∧
      s.txWindow.count + 1 = cfg.window := by
    simp [TakesLastSlot, hretx, hinfo]
  have hcompletes : s.completesSdu grantLen = s.sendsWholeSdu grantLen := by
    simp [completesSdu, hinfo]
  obtain ⟨hread', hqueue⟩ := SduQueue.read_eq cfg.queue s.sduQueue
  have hread' : (SduQueue.read cfg.queue s.sduQueue).2 = s.nextSdu := hread'
  obtain ⟨-, hall⟩ := h.queue.read cfg.queue
  have hcases := buildNewPdu_cases (s := { s with snUnderSegmentation := invalidRlcSn })
    hall grantLen
  generalize TxAm.buildNewPdu _ grantLen = x at hcases
  cases x with
  | error f => trivial
  | ok r =>
    cases hcases with
    | nothing hno =>
      refine .nothing rfl (hno.imp (fun hgrant => ?_) fun hfull => .inr (.inr (.inl hfull)))
      cases hsdu : s.nextSdu with
      | none => simp [newPayload, hinfo, hsdu]
      | some sdu =>
        simp only [newPayload, hinfo, hsdu]
        omega
    | @noSdu queue hread =>
      rw [hread] at hread'
      exact .nothing rfl (.inl (by simp [newPayload, hinfo, ← hread']))
    | @segment queue sdu len hread hfull hlen hpos hend =>
      have hfull : s.isTxWindowFull = false := hfull
      rw [hread] at hread' hqueue
      have hwhole : s.sendsWholeSdu grantLen = false := by
        simp only [sendsWholeSdu, hinfo, ← hread', decide_eq_false_iff_not]
        omega
      have hnew : s.newPayload grantLen = len := by
        simp only [newPayload, hinfo, ← hread']
        omega
      have hcounted : s.countedPayload grantLen = len := by
        rw [countedPayload, hwhole, if_neg Bool.false_ne_true, hnew]
      have hle : 0 + len ≤ sdu.buf.length := by omega
      refine .pdu (.of_getPollingBit rfl hcounted.symm (payload_ne_nil hpos hle)
        ((length_payload sdu.buf 0 len hle).trans hnew.symm) rfl ?_)
      refine (getPollingBit_of_new hretx hfull hqueue sdu _ s.txNext _).trans ?_
      rw [PollsNew, hbehind, hlast, hcompletes, hwhole, hcounted, hfull]
      simp [h.txNext_ne_invalid]
    | @whole queue sdu hread hfull hfits =>
      have hfull : s.isTxWindowFull = false := hfull
      rw [hread] at hread' hqueue hall
      have hwhole : s.sendsWholeSdu grantLen = true := by
        simp only [sendsWholeSdu, hinfo, ← hread', decide_eq_true_eq]
        exact hfits
      have hcounted : s.countedPayload grantLen = 0 := by
        rw [countedPayload, hwhole, if_pos rfl]
      refine .pdu (.of_getPollingBit rfl hcounted.symm (hall sdu rfl) ?_ rfl ?_)
      · simp only [newPayload, hinfo, ← hread']
        omega
      · refine (getPollingBit_of_new hretx hfull hqueue sdu _ invalidRlcSn 0).trans ?_
        rw [PollsNew, hbehind, hlast, hcompletes, hwhole, hcounted, hfull]
        simp

theorem Sound.built (h : Sound s) (hretx : s.retxQueue = []) (grantLen : Nat) :
    Ensures (fun _ => True) (Built s grantLen) (s.pullPdu none grantLen) := by
  cases hinfo : s.underSegmentation with
  | some info =>
    rw [pullPdu_of_segment hretx hinfo]
    exact h.built_of_segment hretx hinfo grantLen
  | none =>
    rw [pullPdu_of_new hretx hinfo]
    refine .ite (fun hempty => .nothing rfl (.inl ?_)) fun _ =>
      h.toSane.built_of_new hretx hinfo grantLen
    have hqueue : s.sduQueue.queue = [] := List.isEmpty_iff.1 hempty
    simp [newPayload, hinfo, nextSdu, hqueue, SduQueue.nextValid]

/-! ## The counters in the other calls -/

/-- A retransmission is not counted, but its poll resets the counters. -/
theorem Sound.counters_buildRetxPdu (h : Sound s) (hne : s.retxQueue ≠ []) (grantLen : Nat) :
    Ensures (fun _ => True) (fun r => r.1.counters = if pollBit r.2 then (0, 0) else s.counters)
      (s.buildRetxPdu grantLen) := by
  obtain ⟨retx, rest, hq⟩ := List.exists_cons_of_ne_nil hne
  refine (h.buildRetxPdu_cases hq grantLen).mono ?_
  rintro r (⟨-, rfl⟩ | ⟨info, len, -, -, -, -, rfl⟩)
  · rfl
  · simp only [sendRetx, pollBit_write, counters_getPollingBit]
    rfl

section

variable (s : TxAm cfg)

theorem counters_ackLoop (stop fuel : Nat) (s : TxAm cfg) (sn : Nat) (d : Delivered) :
    (ackLoop stop fuel s sn d).1.counters = s.counters := by
  induction fuel generalizing s sn d with
  | zero => rfl
  | succ fuel ih =>
    unfold ackLoop
    split
    · split
      · exact ih _ _ _
      · rfl
    · rfl

theorem counters_processAcks (status : StatusPdu) :
    (s.processAcks status).counters = s.counters :=
  (clearRetxQueue_spec _ _).1.counters.trans
    ((counters_ackLoop _ _ _ _ _).trans (s.quiet_stopPollRetransmit status.ackSn).counters)

theorem counters_processNack (prev : Nat) (nack : StatusNack) :
    Ensures (fun _ => True) (fun r => r.1.counters = s.counters) (s.processNack prev nack) := by
  have hnack : Ensures (fun _ => True) (fun r => r.1.counters = s.counters)
      (s.handleNack nack) := by
    cases hok : s.handleNack nack with
    | error f => trivial
    | ok r =>
      rcases (handleNack_cases s nack).of_ok hok with rfl | ⟨info, soStart, -, rfl⟩
      · rfl
      · exact (scheduleRetx_spec s _ _ _ _).1.counters
  refine hnack.bind fun r hr => .ite (fun _ => ?_) fun _ => hr
  exact (incrementRetxCount_quiet r.1 nack.nackSn).bind fun t ht => ht.1.counters.trans hr

theorem counters_handleStatusPdu {status : StatusPdu}
    (hwf : status.WellFormed cfg.snFieldLength) :
    Ensures (fun _ => True) (fun s' => s'.counters = s.counters) (s.handleStatusPdu status) := by
  rcases handleStatusPdu_cases s status with ⟨s', hok, hf, -⟩ | ⟨-, hproc⟩
  · rw [hok]
    exact hf.counters
  · rw [hproc]
    exact (processNacks_ensures status.ackSn (fun nack hn => (hwf.nacks nack hn).sn_lt)
      (fun _ _ item _ t prev ht => (counters_processNack t prev item).mono fun _ hr => hr.trans ht)
      (I := fun t => t.counters = s.counters) (r := (s.processAcks status, invalidRlcSn))
      (counters_processAcks s status)).map fun _ => id

end

/-- Only `pull_pdu` for data changes the counters. -/
theorem counters_of_step {ev : Event} (hstep : s.step ev = some (.ok (s', pdu)))
    (hev : ∀ grantLen, ev ≠ .pullPdu none grantLen) :
    s'.counters = s.counters := by
  cases ev with
  | handleSdu sdu | discardSdu sn =>
    cases hstep
    rfl
  | pullPdu report grantLen =>
    cases report with
    | none => exact absurd rfl (hev grantLen)
    | some report =>
      cases hstep
      rfl
  | statusPdu buf =>
    simp only [TxAm.step] at hstep
    split at hstep
    · next status hu =>
      obtain ⟨t, ht, heq⟩ := exists_of_map_ok (Option.some.inj hstep)
      cases heq
      exact (counters_handleStatusPdu s (StatusPdu.unpack_wellFormed hu)).of_ok ht
    · cases hstep
  | pollRetransmitTimerExpired =>
    simp only [TxAm.step] at hstep
    split_ifs at hstep
    obtain ⟨t, ht, heq⟩ := exists_of_map_ok (Option.some.inj hstep)
    cases heq
    exact ((pollRetransmitTimerExpired_spec s).of_ok ht).1.counters

/-! ## What was sent since the last poll -/

/-- New PDUs without poll, and the new bytes in them: of segments and of whole SDUs. -/
structure SincePoll where
  pdus : Nat := 0
  segments : Nat := 0
  whole : Nat := 0
  deriving DecidableEq

def SincePoll.bytes (g : SincePoll) : Nat := g.segments + g.whole

/-- A data PDU is sent in state `s`; a retransmission is not new. -/
def SincePoll.send (g : SincePoll) (s : TxAm cfg) (grantLen : Nat) (pdu : List UInt8) : SincePoll :=
  if pdu = [] then g
  else if pollBit pdu then {}
  else if s.retxQueue ≠ [] then g
  else if s.sendsWholeSdu grantLen then
    { g with pdus := g.pdus + 1, whole := g.whole + s.newPayload grantLen }
  else { g with pdus := g.pdus + 1, segments := g.segments + s.newPayload grantLen }

def SincePoll.observe (g : SincePoll) (s : TxAm cfg) : Event → List UInt8 → SincePoll
  | .pullPdu none grantLen, pdu => g.send s grantLen pdu
  | _, _ => g

/-- Grants have less than 2³¹ bytes. -/
def Event.SmallGrant : Event → Prop
  | .pullPdu _ grantLen => grantLen < 2 ^ 31
  | _ => True

instance : DecidablePred Event.SmallGrant
  | .pullPdu _ grantLen => inferInstanceAs (Decidable (grantLen < 2 ^ 31))
  | .handleSdu _ | .discardSdu _ | .statusPdu _ | .pollRetransmitTimerExpired => isTrue trivial

/-- A call, with the record of what was sent. -/
def RecordedStep (x : TxAm cfg × SincePoll) (ev : Event) (x' : TxAm cfg × SincePoll) : Prop :=
  ev.NonEmpty ∧ ev.SmallGrant ∧
    ∃ pdu, x.1.step ev = some (.ok (x'.1, pdu)) ∧ x'.2 = x.2.observe x.1 ev pdu

/-- A PDU that is a whole SDU, or that follows one sent without poll, polls for some reason or
leaves what was counted and what was not below the threshold. -/
def BytesCounted (x : TxAm cfg × SincePoll) : Event → Prop
  | .pullPdu none grantLen =>
    x.1.retxQueue = [] → (0 < x.2.whole ∨ x.1.sendsWholeSdu grantLen = true) →
      x.1.PollsNew grantLen ∨
        x.1.byteWithoutPoll + x.2.whole + x.1.newPayload grantLen < cfg.pollByte
  | _ => True

/-- A recorded call that meets `BytesCounted`. -/
def CountedStep (x : TxAm cfg × SincePoll) (ev : Event) (x' : TxAm cfg × SincePoll) : Prop :=
  BytesCounted x ev ∧ RecordedStep x ev x'

/-- The counters are right, apart from the bytes of whole SDUs. -/
structure Recorded (x : TxAm cfg × SincePoll) : Prop where
  sound : Sound x.1
  counters : x.1.counters = (x.2.pdus, x.2.segments)
  pdus_lt : x.2.pdus < cfg.pollPdu
  segments_lt : x.2.segments < cfg.pollByte

section Thresholds

variable {x x' : TxAm cfg × SincePoll} {ev : Event}
  (hpdu : 0 < cfg.pollPdu) (hpdu' : cfg.pollPdu < 2 ^ 31)
  (hbyte : 0 < cfg.pollByte) (hbyte' : cfg.pollByte < 2 ^ 31)

theorem newPayload_le (s : TxAm cfg) (grantLen : Nat) : s.newPayload grantLen ≤ grantLen := by
  unfold newPayload
  split <;> omega

include hpdu hbyte in
theorem recorded_init : Recorded (init cfg, {}) := ⟨sound_init, rfl, hpdu, hbyte⟩

include hpdu hbyte in
/-- A new PDU without poll leaves both counters below their thresholds. -/
theorem Recorded.count_lt (h : Recorded x) {size : Nat} (hsize : size < 2 ^ 31)
    (hpdu' : cfg.pollPdu < 2 ^ 31) (hbyte' : cfg.pollByte < 2 ^ 31)
    (hno : ¬ (x.1.countPdu size).pollThresholdReached = true) :
    (x.1.countPdu size).counters = (x.2.pdus + 1, x.2.segments + size) ∧
      x.2.pdus + 1 < cfg.pollPdu ∧ x.2.segments + size < cfg.pollByte := by
  obtain ⟨hp, hb⟩ := Prod.mk.inj h.counters
  have hp' := h.pdus_lt
  have hb' := h.segments_lt
  simp only [pollThresholdReached, countPdu, Bool.or_eq_true, Bool.and_eq_true, decide_eq_true_eq,
    not_or, not_and, Nat.not_le, hp, hb] at hno
  simp only [TxAm.counters, countPdu, hp, hb]
  have hmod₁ : (x.2.pdus + 1) % 2 ^ 32 = x.2.pdus + 1 := Nat.mod_eq_of_lt (by omega)
  have hmod₂ : (x.2.segments + size) % 2 ^ 32 = x.2.segments + size := Nat.mod_eq_of_lt (by omega)
  rw [hmod₁, hmod₂] at hno ⊢
  exact ⟨rfl, hno.1 hpdu, hno.2 hbyte⟩

include hpdu hpdu' hbyte hbyte' in
theorem Recorded.built (h : Recorded x) (hretx : x.1.retxQueue = []) {grantLen : Nat}
    (hgrant : grantLen < 2 ^ 31) (hsound : Sound s') (hbuilt : Built x.1 grantLen (s', pdu)) :
    Recorded (s', x.2.send x.1 grantLen pdu) ∧ (x.2.bytes < cfg.pollByte →
      ((x.2.send x.1 grantLen pdu).bytes < cfg.pollByte ↔
        BytesCounted x (.pullPdu none grantLen))) := by
  obtain ⟨-, hbytes⟩ := Prod.mk.inj h.counters
  cases hbuilt with
  | nothing hcounters hno =>
    refine ⟨⟨hsound, hcounters.trans h.counters, h.pdus_lt, h.segments_lt⟩, fun hlt => ?_⟩
    refine iff_of_true hlt fun _ _ => hno.symm.imp id fun h0 => ?_
    rw [h0, hbytes]
    exact hlt
  | pdu hnew =>
    have hle := newPayload_le x.1 grantLen
    unfold SincePoll.send
    rw [if_neg hnew.ne_nil]
    by_cases hpoll : pollBit pdu = true
    · have hcounters := hnew.counters
      rw [if_pos hpoll] at hcounters
      rw [if_pos hpoll]
      refine ⟨⟨hsound, hcounters, hpdu, hbyte⟩, fun _ => ?_⟩
      exact iff_of_true hbyte fun _ _ => .inl (hnew.poll.1 hpoll)
    · have hno : ¬ x.1.PollsNew grantLen := fun hp => hpoll (hnew.poll.2 hp)
      have hcounters := hnew.counters
      rw [if_neg hpoll] at hcounters
      rw [if_neg hpoll, if_neg (not_not.2 hretx)]
      have hsize : x.1.countedPayload grantLen < 2 ^ 31 := by
        unfold countedPayload
        split <;> omega
      obtain ⟨hcount, hp, hb⟩ := h.count_lt hpdu hbyte hsize hpdu' hbyte' fun hr => hno (.inl hr)
      rw [hcount] at hcounters
      by_cases hwhole : x.1.sendsWholeSdu grantLen = true
      · have h0 : x.1.countedPayload grantLen = 0 := if_pos hwhole
        rw [h0] at hcounters hb
        rw [if_pos hwhole]
        refine ⟨⟨hsound, hcounters, hp, hb⟩, fun _ => ⟨fun hlt _ _ => .inr ?_, fun hc => ?_⟩⟩
        · rw [hbytes, Nat.add_assoc]
          exact hlt
        · have := (hc hretx (.inr hwhole)).resolve_left hno
          rw [hbytes, Nat.add_assoc] at this
          exact this
      · have hall : x.1.countedPayload grantLen = x.1.newPayload grantLen := if_neg hwhole
        rw [hall] at hcounters hb
        rw [if_neg hwhole]
        refine ⟨⟨hsound, hcounters, hp, hb⟩, fun _ => ⟨fun hlt _ _ => .inr ?_, fun hc => ?_⟩⟩
        · have hlt : x.2.segments + x.1.newPayload grantLen + x.2.whole < cfg.pollByte := hlt
          omega
        · show x.2.segments + x.1.newPayload grantLen + x.2.whole < cfg.pollByte
          by_cases h0 : 0 < x.2.whole
          · have := (hc hretx (.inl h0)).resolve_left hno
            omega
          · omega

include hpdu hpdu' hbyte hbyte' in
theorem Recorded.step (h : Recorded x) (hstep : RecordedStep x ev x') :
    Recorded x' ∧ (x.2.bytes < cfg.pollByte → (x'.2.bytes < cfg.pollByte ↔ BytesCounted x ev)) := by
  obtain ⟨s', g'⟩ := x'
  obtain ⟨hne, hgrant, pdu, hok, hg⟩ := hstep
  obtain rfl : g' = x.2.observe x.1 ev pdu := hg
  have hsound : Sound s' := h.sound.step ⟨hne, pdu, hok⟩
  -- all but `pull_pdu` for data
  have hother (hev : ∀ grantLen, ev ≠ .pullPdu none grantLen)
      (hobserve : x.2.observe x.1 ev pdu = x.2) (hcounted : BytesCounted x ev) :
      Recorded (s', x.2.observe x.1 ev pdu) ∧ (x.2.bytes < cfg.pollByte →
        ((x.2.observe x.1 ev pdu).bytes < cfg.pollByte ↔ BytesCounted x ev)) := by
    rw [hobserve]
    exact ⟨⟨hsound, (counters_of_step hok hev).trans h.counters, h.pdus_lt, h.segments_lt⟩,
      fun hlt => iff_of_true hlt hcounted⟩
  cases ev with
  | handleSdu sdu | discardSdu sn | statusPdu buf
  | pollRetransmitTimerExpired => exact hother nofun rfl trivial
  | pullPdu report grantLen =>
    cases report with
    | some report => exact hother nofun rfl trivial
    | none =>
      have hpull : x.1.pullPdu none grantLen = .ok (s', pdu) := Option.some.inj hok
      by_cases hretx : x.1.retxQueue = []
      · exact h.built hpdu hpdu' hbyte hbyte' hretx hgrant hsound
          ((h.sound.built hretx grantLen).of_ok hpull)
      · rw [pullPdu_of_retx hretx] at hpull
        have hcounters := (h.sound.counters_buildRetxPdu hretx grantLen).of_ok hpull
        have hcond : BytesCounted x (.pullPdu none grantLen) := fun hnil => absurd hnil hretx
        simp only [SincePoll.observe, SincePoll.send]
        by_cases hpoll : pollBit pdu = true
        · have hnil : pdu ≠ [] := by
            rintro rfl
            cases hpoll
          rw [if_neg hnil, if_pos hpoll]
          rw [if_pos hpoll] at hcounters
          exact ⟨⟨hsound, hcounters, hpdu, hbyte⟩, fun _ => iff_of_true hbyte hcond⟩
        · rw [if_neg hpoll, if_pos hretx, ite_self]
          rw [if_neg hpoll] at hcounters
          exact ⟨⟨hsound, hcounters.trans h.counters, h.pdus_lt, h.segments_lt⟩,
            fun hlt => iff_of_true hlt hcond⟩

include hpdu hpdu' hbyte hbyte' in
theorem recorded_of_run {es : List Event} (hrun : Run RecordedStep (init cfg, {}) es x) :
    Recorded x :=
  hrun.invariant (fun _ _ _ h hstep => (h.step hpdu hpdu' hbyte hbyte' hstep).1)
    (recorded_init hpdu hbyte)

include hpdu hpdu' hbyte hbyte' in
theorem pollThresholds :
    (∀ es (x : TxAm cfg × SincePoll), Run RecordedStep (init cfg, {}) es x →
      x.2.pdus < cfg.pollPdu) ∧
    ∀ es (x : TxAm cfg × SincePoll), Run CountedStep (init cfg, {}) es x →
      x.2.bytes < cfg.pollByte ∧
      ∀ ev x', RecordedStep x ev x' → (x'.2.bytes < cfg.pollByte ↔ BytesCounted x ev) := by
  refine ⟨fun es x hrun => (recorded_of_run hpdu hpdu' hbyte hbyte' hrun).pdus_lt,
    fun es x hrun => ?_⟩
  have hinv : Recorded x ∧ x.2.bytes < cfg.pollByte := by
    refine Run.invariant (P := fun y => Recorded y ∧ y.2.bytes < cfg.pollByte)
      (fun y ev y' hy hstep => ?_) hrun ⟨recorded_init hpdu hbyte, hbyte⟩
    obtain ⟨hrec, hiff⟩ := hy.1.step hpdu hpdu' hbyte hbyte' hstep.2
    exact ⟨hrec, (hiff hy.2).2 hstep.1⟩
  exact ⟨hinv.2, fun ev x' hstep => (hinv.1.step hpdu hpdu' hbyte hbyte' hstep).2 hinv.2⟩

end Thresholds

def recordedState (x : TxAm cfg × SincePoll) (ev : Event) : Option (TxAm cfg × SincePoll) :=
  match x.1.step ev with
  | some (.ok (s', pdu)) => some (s', x.2.observe x.1 ev pdu)
  | _ => none

theorem recordedStep_of_recordedState {x x' : TxAm cfg × SincePoll} {ev : Event}
    (h : recordedState x ev = some x') (hne : ev.NonEmpty) (hgrant : ev.SmallGrant) :
    RecordedStep x ev x' := by
  unfold recordedState at h
  split at h
  · next s' pdu hok =>
    cases h
    exact ⟨hne, hgrant, pdu, hok, rfl⟩
  · cases h

/-- Calls with SDUs of at least one byte and small grants, whose PDUs leave the new bytes below the
threshold. -/
def staysBelow (x : TxAm cfg × SincePoll) : Event → Bool
  | .handleSdu sdu => !sdu.buf.isEmpty
  | .pullPdu _ grantLen => grantLen < 2 ^ 31 &&
    x.1.byteWithoutPoll + x.2.whole + x.1.newPayload grantLen < cfg.pollByte
  | _ => true

theorem countedStep_of_staysBelow {x x' : TxAm cfg × SincePoll} {ev : Event}
    (h : recordedState x ev = some x') (hev : staysBelow x ev = true) : CountedStep x ev x' := by
  cases ev with
  | handleSdu sdu =>
    refine ⟨trivial, recordedStep_of_recordedState h (fun hnil => ?_) trivial⟩
    simp [staysBelow, hnil] at hev
  | pullPdu report grantLen =>
    simp only [staysBelow, Bool.and_eq_true, decide_eq_true_eq] at hev
    refine ⟨?_, recordedStep_of_recordedState h trivial hev.1⟩
    cases report with
    | none => exact fun _ _ => .inr hev.2
    | some report => trivial
  | discardSdu sn
  | statusPdu buf => exact ⟨trivial, recordedStep_of_recordedState h trivial trivial⟩
  | pollRetransmitTimerExpired =>
    exact ⟨trivial, recordedStep_of_recordedState h trivial trivial⟩

/-- A poll is due after 15 bytes. -/
def pollByteConfig : Config := { sampleConfig with pollPdu := 100, pollByte := 15 }

def tenBytes : RlcSdu := { buf := [0, 1, 2, 3, 4, 5, 6, 7, 8, 9], pdcpSn := none }

/-- A whole SDU of ten bytes and a segment of three. -/
theorem pollThresholds_wholeAndSegment :
    ∃ x : TxAm pollByteConfig × SincePoll,
      Run CountedStep (init pollByteConfig, {}) [.handleSdu tenBytes, .handleSdu tenBytes,
        .pullPdu none 12, .pullPdu none 5] x ∧
      x.2 = { pdus := 2, segments := 3, whole := 10 } ∧ x.2.bytes < pollByteConfig.pollByte := by
  have hexec : (exec (guarded recordedState fun x ev => staysBelow x ev = true)
      (init pollByteConfig, {}) [.handleSdu tenBytes, .handleSdu tenBytes, .pullPdu none 12,
        .pullPdu none 5]).map Prod.snd = some { pdus := 2, segments := 3, whole := 10 } := by
    decide +kernel
  obtain ⟨x, hx, hsent⟩ := Option.map_eq_some_iff.1 hexec
  have hrun := (run_of_guarded hx).mono fun _ _ _ h => countedStep_of_staysBelow h.1 h.2
  exact ⟨x, hrun, hsent,
    ((pollThresholds (by decide) (by decide) (by decide) (by decide)).2 _ x hrun).1⟩

/-- Two whole SDUs of ten bytes go without poll, as a third one is queued. -/
theorem pollByte_exceeded :
    ∃ x : TxAm pollByteConfig × SincePoll,
      Run RecordedStep (init pollByteConfig, {}) [.handleSdu tenBytes, .handleSdu tenBytes,
        .handleSdu tenBytes, .pullPdu none 12, .pullPdu none 12] x ∧
      x.1.byteWithoutPoll = 0 ∧ x.2.bytes = 20 ∧ pollByteConfig.pollByte = 15 := by
  have hexec : (exec (guarded recordedState fun _ ev => ev.NonEmpty ∧ ev.SmallGrant)
      (init pollByteConfig, {}) [.handleSdu tenBytes, .handleSdu tenBytes, .handleSdu tenBytes,
        .pullPdu none 12, .pullPdu none 12]).map (fun x => (x.1.byteWithoutPoll, x.2)) =
      some (0, { pdus := 2, segments := 0, whole := 20 }) := by
    decide +kernel
  obtain ⟨x, hx, hsent⟩ := Option.map_eq_some_iff.1 hexec
  obtain ⟨hcounted, hsent⟩ := Prod.mk.inj hsent
  refine ⟨x, (run_of_guarded hx).mono fun _ _ _ h => ?_, hcounted, by rw [hsent]; rfl, rfl⟩
  exact recordedStep_of_recordedState h.1 h.2.1 h.2.2

end RadioStack.Rlc.TxAm
