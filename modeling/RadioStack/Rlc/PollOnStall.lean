import RadioStack.Rlc.TxInvariant

/-!
# Polls when the transmitter stalls

A data PDU after which no other one can be sent should carry a poll, or nothing asks the peer for
a status report. `get_polling_bit` decides before `tx_next` moves on and tests whether the SDU
queue is empty, not whether it holds an SDU that was not discarded.

Any status PDU may arrive, also one that acknowledges the SDU under segmentation, so the invariant
of the TX window does not hold here. What holds in every run is `Sound`: queued retransmissions lie
within SDUs of the window, and the SDU under segmentation has bytes left.

**Theorem (`pollBit_of_stalled`).** If a call of `pull_pdu` yields a data PDU and no other one can
be sent afterwards, the PDU carries a poll if and only if the stall can be seen beforehand
(`SeesStall`): a poll is due anyhow, the TX window is full or becomes full, `tx_next` has already
passed `max_window`, or nothing at all is left in the queues.
-/

namespace RadioStack.Rlc.TxAm

variable {cfg : Config} {s s' : TxAm cfg}

/-! ## The invariant -/

/-- A queued retransmission: bytes of an SDU of the window. -/
def Pending (s : TxAm cfg) (retx : Retx) : Prop :=
  ∃ info, s.txWindow.get? retx.sn = some info ∧ 0 < retx.length ∧
    retx.so + retx.length ≤ info.sdu.length

/-- TX_NEXT is an SN, and there are no empty SDUs. -/
structure Sane (s : TxAm cfg) : Prop where
  next : s.txNext < cfg.mod
  queue : s.sduQueue.All fun sdu => sdu.buf ≠ []
  window : ∀ k info, s.txWindow.get? k = some info → info.sdu ≠ []

/-- Retransmissions are `Pending`, and the SDU under segmentation has been sent in part. -/
structure Sound (s : TxAm cfg) : Prop extends Sane s where
  retx : ∀ r ∈ s.retxQueue, s.Pending r
  segment : s.snUnderSegmentation ≠ invalidRlcSn → ∀ info,
    s.txWindow.get? s.snUnderSegmentation = some info →
      0 < info.nextSo ∧ info.nextSo < info.sdu.length

theorem sound_init : Sound (init cfg) :=
  ⟨⟨cfg.mod_pos, ⟨nofun, nofun, nofun, nofun⟩, nofun⟩, nofun, nofun⟩

theorem Frame.symm (h : Frame s s') : Frame s' s :=
  ⟨h.ack.symm, h.next.symm, h.seg.symm, h.queue.symm, h.count.symm, fun k => (h.entries k).symm⟩

theorem Pending.frame (hf : Frame s s') {retx : Retx} (h : s.Pending retx) : s'.Pending retx := by
  obtain ⟨info, hget, hpos, hle⟩ := h
  obtain ⟨info', hget', hsdu, -⟩ := hf.get hget
  exact ⟨info', hget', hpos, by rw [hsdu]; exact hle⟩

theorem Sane.frame (h : Sane s) (hf : Frame s s') : Sane s' where
  next := hf.next ▸ h.next
  queue := hf.queue ▸ h.queue
  window := by
    intro k info hget
    obtain ⟨info', hget', hsdu, -⟩ := hf.symm.get hget
    rw [← hsdu]
    exact h.window k info' hget'

/-- What leaves the SDUs alone keeps the invariant, if it queues sound retransmissions. -/
theorem Sound.frame (h : Sound s) (hf : Frame s s')
    (hretx : ∀ r ∈ s'.retxQueue, s.Pending r) : Sound s' where
  toSane := h.toSane.frame hf
  retx := fun r hr => (hretx r hr).frame hf
  segment := by
    intro hne info hget
    rw [hf.seg] at hne hget
    obtain ⟨info', hget', hsdu, hso⟩ := hf.symm.get hget
    rw [← hsdu, ← hso]
    exact h.segment hne info' hget'

/-! ## Status reports -/

variable {info : SduInfo}

/-- Whatever offsets a NACK has, the sanity checks leave bytes of the SDU. -/
theorem Sound.scheduleRetx (h : Sound s) {sn soStart soEnd : Nat}
    (hget : s.txWindow.get? sn = some info) (hend : soEnd < 2 ^ 16) :
    Sound (s.scheduleRetx sn info.sdu.length soStart soEnd).1 := by
  have hpos : 0 < info.sdu.length := List.length_pos_iff.2 (h.window sn info hget)
  obtain ⟨hframe, hqueue⟩ := scheduleRetx_spec s sn info.sdu.length soStart soEnd
  refine h.frame hframe.toFrame fun r hr => ?_
  rcases hqueue with ⟨-, hqueue⟩ | ⟨retx, hqueue, rfl, hretx⟩
  · exact h.retx r (hqueue ▸ hr)
  · rw [hqueue] at hr
    rcases List.mem_append.1 hr with hr | hr
    · exact h.retx r hr
    · obtain rfl := List.mem_singleton.1 hr
      obtain ⟨hlen, hlast⟩ := hretx hpos hend
      exact ⟨info, hget, hlen, by omega⟩

theorem Sound.handleNack (h : Sound s) {nack : StatusNack} (hend : nack.soEnd < 2 ^ 16) :
    Ensures (fun _ => True) (fun r => Sound r.1) (s.handleNack nack) := by
  cases hok : s.handleNack nack with
  | error f => trivial
  | ok r =>
    rcases (handleNack_cases s nack).of_ok hok with rfl | ⟨info, soStart, hget, rfl⟩
    · exact h
    · exact h.scheduleRetx hget (lastWanted_lt hend info)

theorem incrementRetxCount_quiet (s : TxAm cfg) (sn : Nat) :
    Ensures (fun _ => True) (fun s' => Quiet s s' ∧ s'.retxQueue = s.retxQueue)
      (s.incrementRetxCount sn) := by
  cases hs : s.incrementRetxCount sn with
  | error f => trivial
  | ok s' =>
    cases hin : s.txWindow.contains sn with
    | true => exact (incrementRetxCount_spec hin).of_ok hs
    | false =>
      have hnone : s.txWindow.get? sn = none := by simpa [CircularMap.contains] using hin
      simp only [incrementRetxCount, access, hnone, Except.map] at hs
      cases hs

theorem Sound.processNack (h : Sound s) {nack : StatusNack} (hend : nack.soEnd < 2 ^ 16)
    (prev : Nat) : Ensures (fun _ => True) (fun r => Sound r.1) (s.processNack prev nack) := by
  refine (h.handleNack hend).bind fun r hr => .ite (fun _ => ?_) fun _ => hr
  refine (incrementRetxCount_quiet r.1 nack.nackSn).bind fun t ⟨hf, hq⟩ => ?_
  exact hr.frame hf.toFrame fun retx hmem => hr.retx retx (hq ▸ hmem)

/-- The offsets of a range end at the one of the NACK, or at the end of an SDU. -/
theorem Handles.end_lt {nack item : StatusNack} (h : Handles cfg nack item)
    (hend : nack.soEnd < 2 ^ 16) : item.soEnd < 2 ^ 16 := by
  unfold Handles at h
  split at h
  · obtain ⟨k, -, rfl⟩ := h
    simp only [rangeItem]
    split
    · exact hend
    · decide
  · rw [h]
    exact hend

/-- ACKs remove SDUs, and with them the guarantees on their retransmissions. -/
theorem ackLoop_get (stop fuel : Nat) (s : TxAm cfg) (sn : Nat) (d : Delivered) :
    (ackLoop stop fuel s sn d).1.txNext = s.txNext ∧
      (ackLoop stop fuel s sn d).1.snUnderSegmentation = s.snUnderSegmentation ∧
      (ackLoop stop fuel s sn d).1.sduQueue = s.sduQueue ∧
      ∀ k info, (ackLoop stop fuel s sn d).1.txWindow.get? k = some info →
        s.txWindow.get? k = some info := by
  induction fuel generalizing s sn d with
  | zero => exact ⟨rfl, rfl, rfl, fun _ _ => id⟩
  | succ fuel ih =>
    unfold ackLoop
    split
    · split
      · obtain ⟨hnext, hseg, hqueue, hget⟩ := ih { s with
          txWindow := s.txWindow.erase sn, txNextAck := (sn + 1) % cfg.mod }
          ((sn + 1) % cfg.mod) (d.add ‹_›)
        refine ⟨hnext, hseg, hqueue, fun k info hk => ?_⟩
        have := hget k info hk
        rw [CircularMap.get?_erase] at this
        split at this
        · cases this
        · exact this
      · exact ⟨rfl, rfl, rfl, fun _ _ => id⟩
    · exact ⟨rfl, rfl, rfl, fun _ _ => id⟩

/-- The part of `handle_status_pdu` before the NACKs: the ACKs, and the old RETX queue cleared. -/
def processAcks (s : TxAm cfg) (status : StatusPdu) : TxAm cfg :=
  let s := s.stopPollRetransmit status.ackSn
  let acked := ackLoop (stopSn status) cfg.mod s s.txNextAck {}
  let s := acked.1.notify acked.2.notifications
  clearRetxQueue s.retxQueue s

theorem Sound.processAcks (h : Sound s) (status : StatusPdu) : Sound (s.processAcks status) := by
  unfold TxAm.processAcks
  have hf := s.quiet_stopPollRetransmit status.ackSn
  set s₁ := s.stopPollRetransmit status.ackSn
  obtain ⟨hnext, hseg, hqueue, hget⟩ := ackLoop_get (stopSn status) cfg.mod s₁ s₁.txNextAck {}
  set acked := ackLoop (stopSn status) cfg.mod s₁ s₁.txNextAck {}
  set s₂ := acked.1.notify acked.2.notifications
  obtain ⟨hclear, hempty⟩ := clearRetxQueue_spec s₂.retxQueue s₂
  have h₁ : Sound { s₁ with retxQueue := [] } := h.frame { hf with } nofun
  have h₂ : Sound { s₂ with retxQueue := [] } := by
    refine ⟨⟨?_, ?_, fun k info hk => h₁.window k info (hget k info hk)⟩, nofun,
      fun hne info hk => ?_⟩
    · exact (show s₂.txNext = s₁.txNext from hnext) ▸ h₁.next
    · exact (show s₂.sduQueue = s₁.sduQueue from hqueue) ▸ h₁.queue
    · have hsn : s₂.snUnderSegmentation = s₁.snUnderSegmentation := hseg
      simp only [hsn] at hne hk
      exact h₁.segment hne info (hget _ info hk)
  exact h₂.frame { hclear with } fun r hr => by rw [hempty] at hr; cases hr

theorem Sound.processStatus (h : Sound s) {status : StatusPdu}
    (hwf : status.WellFormed cfg.snFieldLength) :
    Ensures (fun _ => True) Sound (s.processStatus status) :=
  (processNacks_ensures status.ackSn (fun nack hn => (hwf.nacks nack hn).sn_lt)
    (fun nack hn _ hitem _ prev ht =>
      ht.processNack (hitem.end_lt (hwf.nacks nack hn).end_lt) prev)
    (r := (s.processAcks status, invalidRlcSn)) (h.processAcks status)).map fun _ => id

theorem Sound.handleStatusPdu (h : Sound s) {status : StatusPdu}
    (hwf : status.WellFormed cfg.snFieldLength) :
    Ensures (fun _ => True) Sound (s.handleStatusPdu status) := by
  rcases handleStatusPdu_cases s status with ⟨s', hok, hf, hq⟩ | ⟨-, hproc⟩
  · rw [hok]
    exact h.frame hf.toFrame fun r hr => h.retx r (hq ▸ hr)
  · rw [hproc]
    exact h.processStatus hwf

theorem Sound.pollRetransmitTimerExpired (h : Sound s) :
    Ensures (fun _ => False) Sound s.pollRetransmitTimerExpired := by
  refine (pollRetransmitTimerExpired_spec s).mono fun s' ⟨hf, hq⟩ =>
    h.frame hf.toFrame fun r hr => ?_
  rcases hq with hq | ⟨-, info, hget, hq⟩
  · exact h.retx r (hq ▸ hr)
  · rw [hq] at hr
    rcases List.mem_append.1 hr with hr | hr
    · exact h.retx r hr
    · obtain rfl := List.mem_singleton.1 hr
      exact ⟨info, hget, List.length_pos_iff.2 (h.window _ info hget), by simp only; omega⟩

/-! ## The stall, seen beforehand -/

def pollBit : List UInt8 → Bool
  | [] => false
  | b :: _ => (b.toNat >>> 6) &&& 0x01 != 0

theorem pollBit_write (h : AmPduHeader) (payload : List UInt8) :
    pollBit (writeDataPduHeader h ++ payload) = h.p := by
  obtain ⟨dc, p, si, n, sn, so⟩ := h
  cases n with
  | size12bits =>
    have hlt : (sn >>> 8) &&& 0x0f < 16 := Nat.lt_succ_of_le Nat.and_le_right
    exact (fixedPart_fields dc p si ⟨_, hlt⟩).2.1
  | size18bits =>
    have hlt : (sn >>> 16) &&& 0x3 < 16 := Nat.lt_of_le_of_lt Nat.and_le_right (by decide)
    exact (fixedPart_fields dc p si ⟨_, hlt⟩).2.1

section

variable (s : TxAm cfg)

/-- The SDU under segmentation, unless it has left the window. -/
def underSegmentation : Option SduInfo :=
  if s.snUnderSegmentation = invalidRlcSn then none else s.txWindow.get? s.snUnderSegmentation

/-- The bytes counted for a PDU that completes an SDU: none, if it is the only one of its SDU. -/
def countedBytes : Nat :=
  match s.underSegmentation with
  | some info => info.sdu.length - info.nextSo
  | none => 0

/-- The timer has expired, or the next new PDU reaches a threshold. -/
def PollDue : Prop :=
  s.isPollRetransmitTimerExpired = true ∨
    s.retxQueue = [] ∧ (s.countPdu s.countedBytes).pollThresholdReached = true

/-- The next PDU is of a new SDU, which takes the last free slot of the TX window. -/
def TakesLastSlot : Prop :=
  s.retxQueue = [] ∧ s.underSegmentation = none ∧
    s.txWindow.slots (s.txNext % cfg.window) = none ∧ s.txWindow.count + 1 = cfg.window

/-- Nothing is queued behind what is sent next, not even discarded SDUs, and no SN is kept as under
segmentation. -/
def NothingBehind : Prop :=
  if s.retxQueue = [] then
    match s.underSegmentation with
    | some _ => s.sduQueue.queue = []
    | none => s.sduQueue.behindNext cfg.queue = []
  else s.sduQueue.queue = [] ∧ s.snUnderSegmentation = invalidRlcSn

/-- What makes the transmitter poll with the last PDU it can send. -/
def SeesStall : Prop :=
  s.PollDue ∨ s.isTxWindowFull = true ∨ s.TakesLastSlot ∨ s.NothingBehind

end

theorem seesStall_of_retx (h : s.retxQueue ≠ []) : s.SeesStall ↔
    (s.sduQueue.queue = [] ∧ s.snUnderSegmentation = invalidRlcSn) ∨ s.isTxWindowFull = true ∨
      s.isPollRetransmitTimerExpired = true := by
  simp only [SeesStall, PollDue, TakesLastSlot, NothingBehind, h, false_and, or_false, false_or,
    if_false]
  tauto

theorem seesStall_of_segment (h : s.retxQueue = []) (hinfo : s.underSegmentation = some info) :
    s.SeesStall ↔
    (s.countPdu (info.sdu.length - info.nextSo)).pollThresholdReached = true ∨
      s.sduQueue.queue = [] ∨ s.isTxWindowFull = true ∨ s.isPollRetransmitTimerExpired = true := by
  simp only [SeesStall, PollDue, TakesLastSlot, NothingBehind, countedBytes, h, hinfo, true_and,
    reduceCtorEq, false_and, false_or, if_true]
  tauto

theorem seesStall_of_new (h : s.retxQueue = []) (hinfo : s.underSegmentation = none) :
    s.SeesStall ↔ (s.countPdu 0).pollThresholdReached = true ∨
      s.sduQueue.behindNext cfg.queue = [] ∨ (s.isTxWindowFull = true ∨
      s.txWindow.slots (s.txNext % cfg.window) = none ∧ s.txWindow.count + 1 = cfg.window) ∨
      s.isPollRetransmitTimerExpired = true := by
  simp only [SeesStall, PollDue, TakesLastSlot, NothingBehind, countedBytes, h, hinfo, true_and,
    if_true]
  tauto

/-- No data PDU is sent, however large the grant. -/
def Stalled (s : TxAm cfg) : Prop := ∀ grantLen, ∃ s', s.pullPdu none grantLen = .ok (s', [])

theorem getPollingBit_iff (s : TxAm cfg) (sn : Nat) (isRetx : Bool) (size : Nat) :
    (s.getPollingBit sn isRetx size).2 = true ↔
      (isRetx = false ∧ (s.countPdu size).pollThresholdReached = true) ∨
        (s.sduQueue.queue = [] ∧ s.retxQueue = [] ∧ s.snUnderSegmentation = invalidRlcSn) ∨
        s.isTxWindowFull = true ∨ s.isPollRetransmitTimerExpired = true := by
  have hbit : (s.getPollingBit sn isRetx size).2 =
      ((!isRetx && (s.countPdu size).pollThresholdReached) || s.buffersEmpty ||
        s.isTxWindowFull || s.isPollRetransmitTimerExpired) := by
    unfold getPollingBit
    cases isRetx with
    | true =>
      simp only [if_true]
      split
      · next h => exact h.symm
      · next h => exact (Bool.eq_false_iff.2 h).symm
    | false =>
      simp only [Bool.false_eq_true, if_false]
      split
      · next h => exact h.symm
      · next h => exact (Bool.eq_false_iff.2 h).symm
  rw [hbit]
  simp [buffersEmpty, SduQueue.State.isEmpty, and_assoc, or_assoc]

/-! ## PDUs -/

/-- What a PDU tells about the stall after it: a retransmission polls if it is the last one and
nothing else is left, a segment that does not complete its SDU leaves something to send, and any
other PDU polls if the stall is seen. -/
inductive Emitted (s s' : TxAm cfg) (pdu : List UInt8) : Prop
  | retx (hs : s.retxQueue ≠ [])
      (hpoll : pollBit pdu = true ↔ (s.sduQueue.queue = [] ∧ s'.retxQueue = [] ∧
        s.snUnderSegmentation = invalidRlcSn) ∨ s.isTxWindowFull = true ∨
        s.isPollRetransmitTimerExpired = true)
  | segment (hretx : s'.retxQueue = []) (hmore : s'.underSegmentation ≠ none)
  | complete (hpoll : pollBit pdu = true ↔ s.SeesStall)

theorem append_ne_nil {payload : List UInt8} (h : payload ≠ []) (header : List UInt8) :
    header ++ payload ≠ [] := fun hnil => h (List.append_eq_nil_iff.1 hnil).2

theorem payload_ne_nil {sdu : List UInt8} {so len : Nat} (hpos : 0 < len)
    (hle : so + len ≤ sdu.length) : (sdu.drop (so % 2 ^ 16)).take len ≠ [] := by
  rwa [← List.length_pos_iff, length_payload sdu so len hle]

/-- A queued retransmission is sent as far as the grant allows. -/
theorem Sound.buildRetxPdu_cases (h : Sound s) {retx : Retx} {rest : List Retx}
    (hq : s.retxQueue = retx :: rest) (grantLen : Nat) :
    Ensures (fun _ => True) (fun r =>
        (grantLen ≤ cfg.headMaxSize ∧ r = ({ s with retxSn := retx.sn }, [])) ∨
        ∃ info len, s.txWindow.get? retx.sn = some info ∧ 0 < len ∧ len ≤ retx.length ∧
          retx.so + retx.length ≤ info.sdu.length ∧ r = s.sendRetx retx rest info len)
      (s.buildRetxPdu grantLen) := by
  obtain ⟨info, hget, hpos, hle⟩ := h.retx retx (hq ▸ List.mem_cons_self)
  have hin : s.txWindow.contains retx.sn = true := CircularMap.contains_iff.2 ⟨info, hget⟩
  have hdrop : s.retxQueue.dropWhile (fun retx => !s.txWindow.contains retx.sn) = retx :: rest := by
    rw [hq, List.dropWhile_cons_of_neg (by simp [hin])]
  have hhdr : retxExpectedHdrLen cfg retx ≤ cfg.headMaxSize := by
    unfold retxExpectedHdrLen Config.headMinSize Config.headMaxSize amPduHeaderMaxSize
    split <;> omega
  cases hok : s.buildRetxPdu grantLen with
  | error f => trivial
  | ok r =>
    rcases (TxAm.buildRetxPdu_cases hdrop hget grantLen).of_ok hok with
      ⟨hlt, -⟩ | ⟨hgrant, rfl⟩ | ⟨-, hgrant, rfl⟩
    · omega
    · exact .inl ⟨by omega, by rw [← hq]⟩
    · set len := min retx.length (grantLen - retxExpectedHdrLen cfg retx) with hlen
      rw [if_neg (by omega)]
      exact .inr ⟨info, len, hget, by omega, min_le_left _ _, hle, rfl⟩

theorem Sound.buildRetxPdu (h : Sound s) (hne : s.retxQueue ≠ []) (grantLen : Nat) :
    Ensures (fun _ => True) (fun r => Sound r.1 ∧ (r.2 ≠ [] → Emitted s r.1 r.2) ∧
      (cfg.headMaxSize < grantLen → r.2 ≠ [])) (s.buildRetxPdu grantLen) := by
  obtain ⟨retx, rest, hq⟩ := List.exists_cons_of_ne_nil hne
  have hmem : ∀ r ∈ retx :: rest, s.Pending r := hq ▸ h.retx
  refine (h.buildRetxPdu_cases hq grantLen).mono ?_
  rintro r (⟨hgrant, rfl⟩ | ⟨info, len, hget, hpos, hlen, hle, rfl⟩)
  · refine ⟨h.frame ⟨rfl, rfl, rfl, rfl, rfl, fun _ => rfl⟩ h.retx, fun hn => absurd rfl hn, ?_⟩
    omega
  · have hf := frame_sendRetx s retx rest info len
    refine ⟨h.frame hf fun r hr => ?_, fun _ => .retx hne ?_, fun _ => append_ne_nil ?_ _⟩
    · rcases mem_retxQueue_sendRetx info hr with hr | ⟨hlt, rfl⟩
      · exact hmem r (List.mem_cons_of_mem _ hr)
      · exact ⟨info, hget, by simp only; omega, by simp only; omega⟩
    · simp only [sendRetx, pollBit_write, Config.dataHeader, getPollingBit_iff,
        retxQueue_getPollingBit, Bool.true_eq_false, false_and, false_or]
      exact Iff.rfl
    · exact payload_ne_nil hpos (by omega)

theorem Sane.sent (h : Sane s) (sn len : Nat) :
    Sane (s.modifySdu sn fun info => { info with nextSo := info.nextSo + len }) where
  next := h.next
  queue := h.queue
  window := by
    intro k info hget
    simp only [modifySdu, CircularMap.get?_modify] at hget
    split at hget
    · obtain ⟨info', hget', rfl⟩ := Option.map_eq_some_iff.1 hget
      exact h.window sn info' hget'
    · exact h.window k info hget

theorem Sane.sound (h : Sane s) (hretx : s.retxQueue = [])
    (hseg : s.snUnderSegmentation = invalidRlcSn) : Sound s := by
  refine ⟨h, fun r hr => ?_, fun hn => absurd hseg hn⟩
  rw [hretx] at hr
  cases hr

theorem Sane.advance (h : Sane s) : Sane { s with txNext := (s.txNext + 1) % cfg.mod } :=
  ⟨Nat.mod_lt _ cfg.mod_pos, h.queue, h.window⟩

theorem underSegmentation_eq_some :
    s.underSegmentation = some info ↔ s.snUnderSegmentation ≠ invalidRlcSn ∧
      s.txWindow.get? s.snUnderSegmentation = some info := by
  unfold underSegmentation
  split
  · next h => exact iff_of_false nofun fun hn => hn.1 h
  · next h => exact ⟨fun hget => ⟨h, hget⟩, And.right⟩

/-- A segment of the SDU under segmentation is sent, and not the last one. -/
theorem Sane.sendSegment (h : Sane s) (hretx : s.retxQueue = [])
    (hinfo : s.underSegmentation = some info) (si : SiField) {len : Nat} (hpos : 0 < len)
    (hlt : info.nextSo + len < info.sdu.length) :
    let s' := (s.sendSegment s.snUnderSegmentation info si len).1
    Sound s' ∧ s'.retxQueue = [] ∧ s'.underSegmentation ≠ none := by
  obtain ⟨hne, hget⟩ := underSegmentation_eq_some.1 hinfo
  set s' := (s.sendSegment s.snUnderSegmentation info si len).1 with hs'
  have hseg : s'.snUnderSegmentation = s.snUnderSegmentation := seg_sendSegment ..
  have hretx' : s'.retxQueue = [] := (retxQueue_sendSegment ..).trans hretx
  have hget' : s'.txWindow.get? s'.snUnderSegmentation =
      some { info with nextSo := info.nextSo + len } := by
    rw [hseg]
    simp only [hs', TxAm.sendSegment, modifySdu, txWindow_getPollingBit]
    rw [CircularMap.get?_modify, if_pos rfl, hget, Option.map_some]
  refine ⟨⟨(h.frame (frame_getPollingBit s s.txNext false len)).sent _ len, ?_, ?_⟩, hretx', ?_⟩
  · simp [hretx']
  · intro _ info' hk
    obtain rfl := Option.some.inj (hget'.symm.trans hk)
    exact ⟨by simp only; omega, hlt⟩
  · intro hnone
    rw [← hseg] at hne
    simp [underSegmentation, hne, hget'] at hnone

theorem Sound.buildContinuedSduSegment (h : Sound s) (hretx : s.retxQueue = [])
    (hinfo : s.underSegmentation = some info) (grantLen : Nat) :
    let r := s.buildContinuedSduSegment grantLen info
    Sound r.1 ∧ (r.2 ≠ [] → Emitted s r.1 r.2) ∧ (cfg.headMaxSize < grantLen → r.2 ≠ []) := by
  obtain ⟨hne, hget⟩ := underSegmentation_eq_some.1 hinfo
  obtain ⟨hso, hlt⟩ := h.segment hne info hget
  have hr := s.buildContinuedSduSegment_cases hso hlt grantLen
  generalize s.buildContinuedSduSegment grantLen info = r at hr
  cases hr with
  | nothing hgrant => exact ⟨h, fun hn => absurd rfl hn, fun hbig => by omega⟩
  | @middle len _ hpos hend =>
    obtain ⟨hsound, hretx', hmore⟩ := h.toSane.sendSegment hretx hinfo .middleSegment hpos hend
    exact ⟨hsound, fun _ => .segment hretx' hmore,
      fun _ => append_ne_nil (payload_ne_nil hpos (Nat.le_of_lt hend)) _⟩
  | @last len _ hpos hend =>
    set s₁ : TxAm cfg := { s with snUnderSegmentation := invalidRlcSn } with hs₁
    have hf := frame_getPollingBit s₁ s.txNext false len
    have h₁ : Sane s₁ := { h with }
    refine ⟨?_, fun _ => .complete ?_,
      fun _ => append_ne_nil (payload_ne_nil hpos (Nat.le_of_eq hend)) _⟩
    · exact ((h₁.frame hf).sent s.snUnderSegmentation len).advance.sound
        ((retxQueue_getPollingBit s₁ s.txNext false len).trans hretx) hf.seg
    · obtain rfl : len = info.sdu.length - info.nextSo := by omega
      simp only [sendLastSegment, sendSegment]
      rw [pollBit_write, Config.dataHeader, getPollingBit_iff, seesStall_of_segment hretx hinfo]
      simp only [hretx, true_and, and_true]
      exact Iff.rfl

theorem Sane.txNext_ne_invalid (h : Sane s) : s.txNext ≠ invalidRlcSn := by
  have hlt := h.next
  have hinv : cfg.mod < invalidRlcSn := cfg.snFieldLength.mod_lt_invalid
  omega

/-- The poll of the first PDU of an SDU: whole, or a segment with SN `seg`. -/
theorem getPollingBit_of_new (hretx : s.retxQueue = []) (hfull : s.isTxWindowFull = false)
    {queue : SduQueue.State} (hqueue : queue.queue = s.sduQueue.behindNext cfg.queue)
    (sdu : RlcSdu) (sn seg size : Nat) :
    (({ s.enterSdu queue sdu with snUnderSegmentation := seg } : TxAm cfg).getPollingBit
        sn false size).2 = true ↔
      (s.countPdu size).pollThresholdReached = true ∨
      (s.sduQueue.behindNext cfg.queue = [] ∧ seg = invalidRlcSn) ∨
      (s.txWindow.slots (s.txNext % cfg.window) = none ∧ s.txWindow.count + 1 = cfg.window) ∨
      s.isPollRetransmitTimerExpired = true := by
  obtain ⟨hwin, hvirtual⟩ := Bool.or_eq_false_iff.1 hfull
  have hN : 1 < cfg.window := Nat.lt_trans (by decide) cfg.window_gt
  have hlast := CircularMap.full_overwrite hN hwin (k := s.txNext) (newInfo sdu)
  set t : TxAm cfg := { s.enterSdu queue sdu with snUnderSegmentation := seg }
  have hfull' : t.isTxWindowFull = ((s.txWindow.overwrite s.txNext (newInfo sdu)).full || false) :=
    congrArg _ hvirtual
  have hempty : (t.sduQueue.queue = [] ∧ t.retxQueue = [] ∧ t.snUnderSegmentation = invalidRlcSn) ↔
      s.sduQueue.behindNext cfg.queue = [] ∧ seg = invalidRlcSn := by
    rw [← hqueue]
    exact ⟨fun h => ⟨h.1, h.2.2⟩, fun h => ⟨h.1, hretx, h.2⟩⟩
  rw [getPollingBit_iff, hfull', Bool.or_false, hlast, hempty]
  simp only [true_and]
  exact Iff.rfl

theorem Sane.enterSdu (h : Sane s) {queue : SduQueue.State} {sdu : RlcSdu}
    (hq : queue.All fun sdu => sdu.buf ≠ []) (hsdu : sdu.buf ≠ []) :
    Sane (s.enterSdu queue sdu) := by
  refine ⟨h.next, hq, fun k info hk => ?_⟩
  simp only [TxAm.enterSdu, notify, CircularMap.get?_overwrite] at hk
  split at hk
  · cases hk
    exact hsdu
  · split_ifs at hk
    exact h.window k info hk

theorem Sane.buildNewPdu (h : Sane s) (hretx : s.retxQueue = [])
    (hinfo : s.underSegmentation = none) (grantLen : Nat) :
    Ensures (fun _ => True) (fun r => Sound r.1 ∧ (r.2 ≠ [] → Emitted s r.1 r.2))
      (({ s with snUnderSegmentation := invalidRlcSn } : TxAm cfg).buildNewPdu grantLen) := by
  set s₁ : TxAm cfg := { s with snUnderSegmentation := invalidRlcSn } with hs₁
  have h₁ : Sane s₁ := { h with }
  obtain ⟨hq', hall⟩ := h.queue.read cfg.queue
  obtain ⟨-, hbehind⟩ := SduQueue.read_eq cfg.queue s.sduQueue
  have hcases := s₁.buildNewPdu_cases hall grantLen
  generalize s₁.buildNewPdu grantLen = x at hcases
  cases x with
  | error f => trivial
  | ok r =>
    cases hcases with
    | nothing => exact ⟨h₁.sound hretx rfl, fun hn => absurd rfl hn⟩
    | @noSdu queue hread =>
      rw [hread] at hq'
      exact ⟨Sane.sound ⟨h.next, hq', h.window⟩ hretx rfl, fun hn => absurd rfl hn⟩
    | @segment queue sdu len hread _ _ hpos hend =>
      rw [hread] at hq' hall
      have h₂ := h₁.enterSdu hq' (hall sdu rfl)
      have h₃ : Sane ({ s₁.enterSdu queue sdu with snUnderSegmentation := s.txNext } : TxAm cfg) :=
        { h₂ with }
      have hinfo' : ({ s₁.enterSdu queue sdu with snUnderSegmentation := s.txNext } :
          TxAm cfg).underSegmentation = some (newInfo sdu) := by
        refine underSegmentation_eq_some.2 ⟨h.txNext_ne_invalid, ?_⟩
        simp only [TxAm.enterSdu, notify, CircularMap.get?_overwrite, hs₁, if_true]
      have hend : (newInfo sdu).nextSo + len < (newInfo sdu).sdu.length := by
        rwa [newInfo, Nat.zero_add]
      obtain ⟨hsound, hretx', hmore⟩ := h₃.sendSegment hretx hinfo' .firstSegment hpos hend
      exact ⟨hsound, fun _ => .segment hretx' hmore⟩
    | @whole queue sdu hread hfull =>
      rw [hread] at hq' hall hbehind
      have h₂ := h₁.enterSdu hq' (hall sdu rfl)
      have hf := frame_getPollingBit (s₁.enterSdu queue sdu) s.txNext false 0
      refine ⟨?_, fun _ => .complete ?_⟩
      · exact (h₂.frame hf).advance.sound ((retxQueue_getPollingBit _ _ _ _).trans hretx) hf.seg
      · have hfull : s.isTxWindowFull = false := hfull
        rw [sendSdu, pollBit_write, seesStall_of_new hretx hinfo]
        refine (getPollingBit_of_new hretx hfull hbehind sdu s.txNext invalidRlcSn 0).trans ?_
        simp [hfull]

theorem pullPdu_of_retx (h : s.retxQueue ≠ []) (grantLen : Nat) :
    s.pullPdu none grantLen = s.buildRetxPdu grantLen :=
  if_pos (by simpa using h)

theorem pullPdu_of_segment (h : s.retxQueue = []) (hinfo : s.underSegmentation = some info)
    (grantLen : Nat) :
    s.pullPdu none grantLen = .ok (s.buildContinuedSduSegment grantLen info) := by
  unfold underSegmentation at hinfo
  simp only [TxAm.pullPdu, h, hinfo, List.isEmpty_nil, Bool.not_true, Bool.false_eq_true, if_false]

theorem pullPdu_of_new (h : s.retxQueue = []) (hinfo : s.underSegmentation = none)
    (grantLen : Nat) : s.pullPdu none grantLen =
      if s.sduQueue.isEmpty then .ok ({ s with snUnderSegmentation := invalidRlcSn }, [])
      else ({ s with snUnderSegmentation := invalidRlcSn } : TxAm cfg).buildNewPdu grantLen := by
  unfold underSegmentation at hinfo
  simp only [TxAm.pullPdu, h, hinfo, List.isEmpty_nil, Bool.not_true, Bool.false_eq_true, if_false]

/-- A call of `pull_pdu` keeps the invariant, and a PDU it yields is as `Emitted` says. -/
theorem Sound.pullPdu (h : Sound s) (grantLen : Nat) :
    Ensures (fun _ => True) (fun r => Sound r.1 ∧ (r.2 ≠ [] → Emitted s r.1 r.2))
      (s.pullPdu none grantLen) := by
  by_cases hretx : s.retxQueue = []
  · cases hinfo : s.underSegmentation with
    | some info =>
      rw [pullPdu_of_segment hretx hinfo]
      have hr := h.buildContinuedSduSegment hretx hinfo grantLen
      exact ⟨hr.1, hr.2.1⟩
    | none =>
      rw [pullPdu_of_new hretx hinfo]
      refine .ite (fun _ => ⟨?_, fun hn => absurd rfl hn⟩) fun _ => ?_
      · exact Sane.sound { h with } hretx rfl
      · exact h.toSane.buildNewPdu hretx hinfo grantLen
  · rw [pullPdu_of_retx hretx]
    exact (h.buildRetxPdu hretx grantLen).mono fun r hr => ⟨hr.1, hr.2.1⟩

/-- A transmitter with a retransmission or a segment to send is not stalled. -/
theorem Sound.stalled (h : Sound s) (hs : s.Stalled) :
    s.retxQueue = [] ∧ s.underSegmentation = none := by
  obtain ⟨s', hs'⟩ := hs (cfg.headMaxSize + 1)
  have hretx : s.retxQueue = [] := by
    by_contra hne
    rw [pullPdu_of_retx hne] at hs'
    exact ((h.buildRetxPdu hne _).of_ok hs').2.2 (Nat.lt_succ_self _) rfl
  refine ⟨hretx, ?_⟩
  cases hinfo : s.underSegmentation with
  | none => rfl
  | some info =>
    rw [pullPdu_of_segment hretx hinfo] at hs'
    have hne := (h.buildContinuedSduSegment hretx hinfo (cfg.headMaxSize + 1)).2.2
      (Nat.lt_succ_self _)
    rw [Except.ok.inj hs'] at hne
    exact absurd rfl hne

/-- An SDU that is not discarded is sent, if the grant is large enough and the window not full. -/
theorem Sound.buildNewPdu_ne_nil (h : Sound s) (hfull : s.isTxWindowFull = false)
    {sdu : RlcSdu} {rest : List RlcSdu}
    (hnext : SduQueue.nextValid cfg.queue s.sduQueue.sduStates s.sduQueue.queue =
      some (sdu, rest)) :
    Ensures (fun _ => True) (fun r => r.2 ≠ [])
      (s.buildNewPdu (sdu.buf.length + cfg.headMinSize)) := by
  obtain ⟨hread, -⟩ := SduQueue.read_eq cfg.queue s.sduQueue
  have hsdu := (h.queue.read cfg.queue).2 sdu (by rw [hread, hnext]; rfl)
  have hlen : 0 < sdu.buf.length := List.length_pos_iff.2 hsdu
  have hcases := s.buildNewPdu_cases (h.queue.read cfg.queue).2 (sdu.buf.length + cfg.headMinSize)
  generalize s.buildNewPdu (sdu.buf.length + cfg.headMinSize) = x at hcases
  cases x with
  | error f => trivial
  | ok r =>
    rw [hnext, Option.map_some] at hread
    cases hcases with
    | nothing hno =>
      rcases hno with hgrant | hfull'
      · omega
      · exact nomatch hfull.symm.trans hfull'
    | noSdu hread' => exact nomatch hread.symm.trans (congrArg Prod.snd hread')
    | segment hread' _ hlen' _ hend =>
      obtain rfl : sdu = _ := Option.some.inj (hread.symm.trans (congrArg Prod.snd hread'))
      omega
    | whole hread' =>
      obtain rfl : sdu = _ := Option.some.inj (hread.symm.trans (congrArg Prod.snd hread'))
      exact append_ne_nil hsdu _

/-- When nothing can be sent: no retransmission is queued, no SDU is under segmentation, and the
window is full or all queued SDUs are discarded. -/
theorem Sound.stalled_iff (h : Sound s) : s.Stalled ↔
    s.retxQueue = [] ∧ s.underSegmentation = none ∧ (s.isTxWindowFull = true ∨
      SduQueue.nextValid cfg.queue s.sduQueue.sduStates s.sduQueue.queue = none) := by
  constructor
  · intro hs
    obtain ⟨hretx, hinfo⟩ := h.stalled hs
    refine ⟨hretx, hinfo, or_iff_not_imp_left.2 fun hfull => ?_⟩
    have hfull : s.isTxWindowFull = false := Bool.eq_false_iff.2 hfull
    by_contra hnext
    obtain ⟨⟨sdu, rest⟩, hnext⟩ := Option.ne_none_iff_exists'.1 hnext
    obtain ⟨s', hs'⟩ := hs (sdu.buf.length + cfg.headMinSize)
    have hempty : ¬ s.sduQueue.isEmpty = true := by
      intro hempty
      rw [List.isEmpty_iff.1 hempty] at hnext
      cases hnext
    rw [pullPdu_of_new hretx hinfo, if_neg hempty] at hs'
    have h₁ : Sound ({ s with snUnderSegmentation := invalidRlcSn } : TxAm cfg) :=
      Sane.sound { h with } hretx rfl
    exact (h₁.buildNewPdu_ne_nil hfull hnext).of_ok hs' rfl
  · rintro ⟨hretx, hinfo, hnone⟩ grantLen
    rw [pullPdu_of_new hretx hinfo]
    split
    · exact ⟨_, rfl⟩
    · unfold TxAm.buildNewPdu
      split
      · exact ⟨_, rfl⟩
      · split
        · exact ⟨_, rfl⟩
        · next hfull =>
          have hnone := hnone.resolve_left hfull
          obtain ⟨hread, -⟩ := SduQueue.read_eq cfg.queue s.sduQueue
          simp only [hread, hnone, Option.map_none]
          exact ⟨_, rfl⟩

/-! ## Runs -/

theorem Sound.step (h : Sound s) {ev : Event} (hstep : s.Step ev s') : Sound s' := by
  obtain ⟨hne, pdu, hstep⟩ := hstep
  cases ev with
  | handleSdu sdu =>
    cases hstep
    exact { h with queue := h.queue.write cfg.queue hne }
  | discardSdu sn =>
    cases hstep
    exact { h with queue := h.queue.tryDiscard cfg.queue sn }
  | pullPdu report grantLen =>
    cases report with
    | some report =>
      cases hstep
      exact h
    | none => exact ((h.pullPdu grantLen).of_ok (Option.some.inj hstep)).1
  | statusPdu buf =>
    simp only [TxAm.step] at hstep
    split at hstep
    · next status hu =>
      obtain ⟨t, ht, heq⟩ := exists_of_map_ok (Option.some.inj hstep)
      cases heq
      exact (h.handleStatusPdu (StatusPdu.unpack_wellFormed hu)).of_ok ht
    · cases hstep
  | pollRetransmitTimerExpired =>
    simp only [TxAm.step] at hstep
    split_ifs at hstep
    obtain ⟨t, ht, heq⟩ := exists_of_map_ok (Option.some.inj hstep)
    cases heq
    exact h.pollRetransmitTimerExpired.of_ok ht

theorem sound_of_run {es : List Event} (hrun : Run Step (init cfg) es s) : Sound s :=
  hrun.invariant (fun _ _ _ h hstep => h.step hstep) sound_init

/-- **The poll before a stall.** -/
theorem pollBit_of_stalled {es : List Event} (hrun : Run Step (init cfg) es s) {grantLen : Nat}
    {pdu : List UInt8} (hpull : s.pullPdu none grantLen = .ok (s', pdu)) (hpdu : pdu ≠ [])
    (hstalled : s'.Stalled) : pollBit pdu = true ↔ s.SeesStall := by
  have h : Sound s := sound_of_run hrun
  obtain ⟨hsound, hemitted⟩ := (h.pullPdu grantLen).of_ok hpull
  obtain ⟨hretx, hseg⟩ := hsound.stalled hstalled
  cases hemitted hpdu with
  | retx hs hpoll =>
    rw [hpoll, seesStall_of_retx hs]
    simp only [show s'.retxQueue = [] from hretx, true_and]
  | segment _ hmore => exact absurd hseg hmore
  | complete hpoll => exact hpoll

/-- The PDU a call yields, if nothing can be sent afterwards. -/
def lastPdu (s : TxAm cfg) (grantLen : Nat) : Option (List UInt8) :=
  match s.pullPdu none grantLen with
  | .ok (s', pdu) =>
    if s'.retxQueue = [] ∧ s'.underSegmentation = none ∧ (s'.isTxWindowFull = true ∨
      SduQueue.nextValid cfg.queue s'.sduQueue.sduStates s'.sduQueue.queue = none) then some pdu
    else none
  | .error _ => none

theorem stalled_of_lastPdu {es : List Event} {grantLen : Nat} {pdu : List UInt8}
    (hpdu : (exec (guarded stepState fun _ ev => ev.NonEmpty) (init cfg) es).bind
      (·.lastPdu grantLen) = some pdu) :
    ∃ s s' : TxAm cfg, Run Step (init cfg) es s ∧ s.pullPdu none grantLen = .ok (s', pdu) ∧
      s'.Stalled := by
  obtain ⟨s, hs, hpdu⟩ := Option.bind_eq_some_iff.1 hpdu
  have hrun := run_of_stepState hs
  unfold lastPdu at hpdu
  split at hpdu
  · next s' _ hpull =>
    split_ifs at hpdu with hidle
    cases hpdu
    have hsound := (((sound_of_run hrun).pullPdu grantLen).of_ok hpull).1
    exact ⟨s, s', hrun, hpull, hsound.stalled_iff.2 hidle⟩
  · cases hpdu

def unpolledConfig (maxWindow : Nat) : Config :=
  { sampleConfig with pollPdu := 0, pollByte := 0, maxWindow }

def oneSdu : List Event := [.handleSdu { buf := [1, 2, 3], pdcpSn := none }]

/-- A single SDU: the queue is empty afterwards. -/
theorem pollBit_of_stalled_oneSdu :
    ∃ s s' : TxAm (unpolledConfig 0), ∃ pdu, Run Step (init (unpolledConfig 0)) oneSdu s ∧
      s.pullPdu none 10 = .ok (s', pdu) ∧ pdu ≠ [] ∧ s'.Stalled ∧ pollBit pdu = true ∧
      s.SeesStall := by
  obtain ⟨s, s', hrun, hpull, hstalled⟩ := @stalled_of_lastPdu (unpolledConfig 0) oneSdu 10
    [0xc0, 0x00, 1, 2, 3] (by decide +kernel)
  exact ⟨s, s', _, hrun, hpull, nofun, hstalled, rfl,
    (pollBit_of_stalled hrun hpull nofun hstalled).1 rfl⟩

/-- Three SDUs, of which one has been sent. -/
def sduOfThree : List Event :=
  [.handleSdu { buf := [1], pdcpSn := none }, .handleSdu { buf := [2], pdcpSn := none },
    .handleSdu { buf := [3], pdcpSn := none }, .pullPdu none 10]

/-- Two SDUs, of which the second is discarded. -/
def discardBehind : List Event :=
  [.handleSdu { buf := [1], pdcpSn := none },
    .handleSdu { buf := [0x80, 0x05, 2], pdcpSn := some ⟨5, by decide⟩ },
    .discardSdu ⟨5, by decide⟩]

/-- No poll, though nothing else can be sent: with `max_window` 1, SN 1 moves TX_NEXT past the
virtual window; and behind SN 0 the queue holds only a discarded SDU. -/
theorem stalled_without_poll :
    (∃ s s' : TxAm (unpolledConfig 1), ∃ pdu, Run Step (init (unpolledConfig 1)) sduOfThree s ∧
      s.pullPdu none 10 = .ok (s', pdu) ∧ pdu ≠ [] ∧ s'.Stalled ∧ pollBit pdu = false) ∧
    ∃ s s' : TxAm (unpolledConfig 0), ∃ pdu, Run Step (init (unpolledConfig 0)) discardBehind s ∧
      s.pullPdu none 10 = .ok (s', pdu) ∧ pdu ≠ [] ∧ s'.Stalled ∧ pollBit pdu = false := by
  constructor
  · obtain ⟨s, s', hrun, hpull, hstalled⟩ := @stalled_of_lastPdu (unpolledConfig 1) sduOfThree 10
      [0x80, 0x01, 2] (by decide +kernel)
    exact ⟨s, s', _, hrun, hpull, nofun, hstalled, rfl⟩
  · obtain ⟨s, s', hrun, hpull, hstalled⟩ := @stalled_of_lastPdu (unpolledConfig 0) discardBehind
      10 [0x80, 0x00, 1] (by decide +kernel)
    exact ⟨s, s', _, hrun, hpull, nofun, hstalled, rfl⟩

end RadioStack.Rlc.TxAm
