import RadioStack.Lib.SerialLoop
import RadioStack.Lib.SerialWindow
import RadioStack.Rlc.SduQueue
import RadioStack.Rlc.StatusPdu

/-!
# The AM transmitter

`rlc_tx_am_entity`: SDUs are read from the SDU queue, numbered, segmented to the grants of the
lower layer, kept in the TX window until they are acknowledged, and retransmitted on a NACK or
when the poll retransmit timer expires. An assertion of the source that fails ends the run: the
functions return `Except Fault`. Notifications to the upper layer are kept in a log.
-/

namespace RadioStack.Rlc.TxAm

/-- RETX has not started. -/
def retxCountNotStarted : Nat := 0xffffffff

/-- An SDU for transmission, its segmentation progress and retransmission counter. -/
structure SduInfo where
  sdu : List UInt8
  isRetx : Bool
  pdcpSn : Option PdcpSn
  nextSo : Nat := 0
  retxCount : Nat := retxCountNotStarted
  deriving DecidableEq

/-- A retransmission (`rlc_tx_amd_retx`). -/
structure Retx where
  sn : Nat
  so : Nat
  length : Nat
  deriving DecidableEq

/-- Parameters; 0 disables a poll threshold, the timer and the window limit. -/
structure Config where
  snFieldLength : AmSnSize
  tPollRetx : Nat
  maxRetxThresh : Nat
  pollPdu : Nat
  pollByte : Nat
  maxWindow : Nat
  queue : SduQueue.Config

namespace Config

variable (cfg : Config)

def mod : Nat := cfg.snFieldLength.mod

def window : Nat := cfg.snFieldLength.window

def headMinSize : Nat := amPduHeaderMinSize cfg.snFieldLength

def headMaxSize : Nat := amPduHeaderMaxSize cfg.snFieldLength

/-- Header of a data PDU; the segment offset is a `uint16_t`. -/
def dataHeader (sn : Nat) (p : Bool) (si : SiField) (so : Nat) : AmPduHeader :=
  { dc := .data, p, si, snSize := cfg.snFieldLength, sn, so := so % 2 ^ 16 }

end Config

inductive Fault where
  /-- `(*tx_window)[sn]` for an SN that is not in the window. -/
  | windowAccess (sn : Nat)
  /-- `add_sn` for an SN that is in the window. -/
  | snPresent (sn : Nat)
  /-- The header of a retransmission has not the expected length. -/
  | retxHeaderLen (sn : Nat)
  deriving DecidableEq

inductive Notification where
  | transmittedSdu (sn : PdcpSn)
  | retransmittedSdu (sn : PdcpSn)
  | deliveredSdu (sn : PdcpSn)
  | deliveredRetransmittedSdu (sn : PdcpSn)
  | protocolFailure
  | maxRetx
  deriving DecidableEq

end RadioStack.Rlc.TxAm

namespace RadioStack.Rlc

open TxAm

structure TxAm (cfg : Config) where
  txNextAck : Nat
  txNext : Nat
  pollSn : Nat
  pduWithoutPoll : Nat
  byteWithoutPoll : Nat
  sduQueue : SduQueue.State
  /-- SN of the SDU currently being segmented. -/
  snUnderSegmentation : Nat
  retxQueue : List Retx
  /-- SN of the most recent RETX since the last status report. -/
  retxSn : Nat
  txWindow : CircularMap cfg.window SduInfo
  /-- `poll_retransmit_timer.is_running()`. -/
  pollRetransmitTimer : Bool
  isPollRetransmitTimerExpired : Bool
  notifications : List Notification

namespace TxAm

variable {cfg : Config}

def init (cfg : Config) : TxAm cfg :=
  { txNextAck := 0, txNext := 0, pollSn := 0, pduWithoutPoll := 0, byteWithoutPoll := 0
    sduQueue := {}, snUnderSegmentation := invalidRlcSn, retxQueue := [], retxSn := invalidRlcSn
    txWindow := .empty, pollRetransmitTimer := false, isPollRetransmitTimerExpired := false
    notifications := [] }

def notify (s : TxAm cfg) (l : List Notification) : TxAm cfg :=
  { s with notifications := s.notifications ++ l }

/-! ## Window helpers -/

def txModBase (s : TxAm cfg) (x : Nat) : Nat := serialSub cfg.mod x s.txNextAck

def insideTxWindow (s : TxAm cfg) (sn : Nat) : Bool := s.txModBase sn < cfg.window

def validAckSn (s : TxAm cfg) (sn : Nat) : Bool :=
  0 < s.txModBase sn && s.txModBase sn ≤ cfg.window

/-- The TX window is full, or the virtual maximum window size is reached. -/
def isTxWindowFull (s : TxAm cfg) : Bool :=
  s.txWindow.full || (cfg.maxWindow != 0 && cfg.maxWindow < s.txModBase s.txNext)

/-- `(*tx_window)[sn]`. -/
def access (s : TxAm cfg) (sn : Nat) : Except Fault SduInfo :=
  match s.txWindow.get? sn with
  | some info => .ok info
  | none => .error (.windowAccess sn)

def modifySdu (s : TxAm cfg) (sn : Nat) (f : SduInfo → SduInfo) : TxAm cfg :=
  { s with txWindow := s.txWindow.modify sn f }

/-! ## SDUs from the upper layer -/

def handleSdu (s : TxAm cfg) (sdu : RlcSdu) : TxAm cfg :=
  { s with sduQueue := SduQueue.write cfg.queue s.sduQueue sdu }

def discardSdu (s : TxAm cfg) (pdcpSn : PdcpSn) : TxAm cfg :=
  { s with sduQueue := SduQueue.tryDiscard cfg.queue s.sduQueue pdcpSn }

/-! ## Polling -/

/-- Nothing is left to send, apart from SDUs awaiting acknowledgement. -/
def buffersEmpty (s : TxAm cfg) : Bool :=
  s.sduQueue.isEmpty && s.retxQueue.isEmpty && s.snUnderSegmentation == invalidRlcSn

/-- Counts a newly transmitted PDU. -/
def countPdu (s : TxAm cfg) (payloadSize : Nat) : TxAm cfg :=
  { s with
    pduWithoutPoll := (s.pduWithoutPoll + 1) % 2 ^ 32
    byteWithoutPoll := (s.byteWithoutPoll + payloadSize) % 2 ^ 32 }

/-- PDU_WITHOUT_POLL or BYTE_WITHOUT_POLL has reached its threshold. -/
def pollThresholdReached (s : TxAm cfg) : Bool :=
  (0 < cfg.pollPdu && cfg.pollPdu ≤ s.pduWithoutPoll) ||
    (0 < cfg.pollByte && cfg.pollByte ≤ s.byteWithoutPoll)

def getPollingBit (s : TxAm cfg) (sn : Nat) (isRetx : Bool) (payloadSize : Nat) :
    TxAm cfg × Bool :=
  let s := if isRetx then s else s.countPdu payloadSize
  let poll := (!isRetx && s.pollThresholdReached) || s.buffersEmpty || s.isTxWindowFull ||
    s.isPollRetransmitTimerExpired
  let s := { s with isPollRetransmitTimerExpired := false }
  if poll then
    ({ s with
        pduWithoutPoll := 0
        byteWithoutPoll := 0
        pollSn := if isRetx then s.pollSn else sn
        pollRetransmitTimer := s.pollRetransmitTimer || 0 < cfg.tPollRetx }, true)
  else (s, false)

/-! ## PDUs for the lower layer -/

def buildFirstSduSegment (s : TxAm cfg) (grantLen : Nat) (info : SduInfo) :
    TxAm cfg × List UInt8 :=
  if info.sdu.length + cfg.headMinSize ≤ grantLen then (s, [])
  else if grantLen ≤ cfg.headMinSize then (s, [])
  else
    let len := grantLen - cfg.headMinSize
    let s := { s with snUnderSegmentation := s.txNext }
    let (s, p) := s.getPollingBit s.txNext false len
    let header := cfg.dataHeader s.txNext p .firstSegment info.nextSo
    let payload := (info.sdu.drop header.so).take len
    if payload.length = 0 ∨ payload.length ≠ len then (s, [])
    else
      (s.modifySdu s.txNext fun info => { info with nextSo := info.nextSo + len },
        writeDataPduHeader header ++ payload)

/-- `build_continued_sdu_segment`, of the SDU under segmentation. -/
def buildContinuedSduSegment (s : TxAm cfg) (grantLen : Nat) (info : SduInfo) :
    TxAm cfg × List UInt8 :=
  if info.nextSo = 0 then ({ s with snUnderSegmentation := invalidRlcSn }, [])
  else if info.sdu.length ≤ info.nextSo then ({ s with snUnderSegmentation := invalidRlcSn }, [])
  else if grantLen ≤ cfg.headMaxSize then (s, [])
  else
    let isLast := info.sdu.length - info.nextSo + cfg.headMaxSize ≤ grantLen
    let len := if isLast then info.sdu.length - info.nextSo else grantLen - cfg.headMaxSize
    let si := if isLast then SiField.lastSegment else .middleSegment
    let sn := s.snUnderSegmentation
    let s := if isLast then { s with snUnderSegmentation := invalidRlcSn } else s
    let (s, p) := s.getPollingBit s.txNext false len
    let header := cfg.dataHeader s.txNext p si info.nextSo
    let payload := (info.sdu.drop header.so).take len
    if payload.length = 0 ∨ payload.length ≠ len then (s, [])
    else
      let s := s.modifySdu sn fun info => { info with nextSo := info.nextSo + len }
      let s := if isLast then { s with txNext := (s.txNext + 1) % cfg.mod } else s
      (s, writeDataPduHeader header ++ payload)

/-- The beginning of the transfer of an SDU, for the upper layer. -/
def transferNotification (sdu : RlcSdu) : List Notification :=
  match sdu.pdcpSn with
  | some sn => if sdu.isRetx then [.retransmittedSdu sn] else [.transmittedSdu sn]
  | none => []

def buildNewPdu (s : TxAm cfg) (grantLen : Nat) : Except Fault (TxAm cfg × List UInt8) :=
  if grantLen ≤ cfg.headMinSize then .ok (s, [])
  else if s.isTxWindowFull then .ok (s, [])
  else
    let r := SduQueue.read cfg.queue s.sduQueue
    let s := { s with sduQueue := r.1 }
    match r.2 with
    | none => .ok (s, [])
    | some sdu =>
      if s.txWindow.contains s.txNext then .error (.snPresent s.txNext)
      else
        let info : SduInfo := { sdu := sdu.buf, isRetx := sdu.isRetx, pdcpSn := sdu.pdcpSn }
        let s := { s with txWindow := s.txWindow.overwrite s.txNext info }
        let s := s.notify (transferNotification sdu)
        if grantLen < info.sdu.length + cfg.headMinSize then
          .ok (s.buildFirstSduSegment grantLen info)
        else
          -- the SDU was moved into the window, so the length of the local buffer is 0
          let (s, p) := s.getPollingBit s.txNext false 0
          let header := cfg.dataHeader s.txNext p .fullSdu 0
          if info.sdu.length = 0 then .ok (s, [])
          else
            .ok ({ s with txNext := (s.txNext + 1) % cfg.mod },
              writeDataPduHeader header ++ info.sdu)

/-- `get_retx_expected_hdr_len`. -/
def retxExpectedHdrLen (cfg : Config) (retx : Retx) : Nat :=
  if retx.so = 0 then cfg.headMinSize else cfg.headMaxSize

def retxSi (so : Nat) (sduComplete : Bool) : SiField :=
  if so = 0 then (if sduComplete then .fullSdu else .firstSegment)
  else if sduComplete then .lastSegment else .middleSegment

def buildRetxPdu (s : TxAm cfg) (grantLen : Nat) : Except Fault (TxAm cfg × List UInt8) :=
  -- drop any RETX whose SN is not in the window
  match s.retxQueue.dropWhile fun retx => !s.txWindow.contains retx.sn with
  | [] => .ok ({ s with retxQueue := [] }, [])
  | retx :: rest => do
    let s := { s with retxQueue := retx :: rest, retxSn := retx.sn }
    let info ← s.access retx.sn
    if info.sdu.length < retx.so + retx.length then .ok ({ s with retxQueue := rest }, [])
    else if grantLen ≤ retxExpectedHdrLen cfg retx then .ok (s, [])
    else
      let len := min retx.length (grantLen - retxExpectedHdrLen cfg retx)
      let si := retxSi retx.so (info.sdu.length ≤ retx.so + len)
      let remainder := { retx with so := retx.so + len, length := retx.length - len }
      let s := { s with retxQueue := if len = retx.length then rest else remainder :: rest }
      let (s, p) := s.getPollingBit retx.sn true 0
      let header := cfg.dataHeader retx.sn p si retx.so
      let payload := (info.sdu.drop header.so).take len
      if (writeDataPduHeader header).length ≠ retxExpectedHdrLen cfg retx then
        .error (.retxHeaderLen retx.sn)
      else if payload.length = 0 ∨ payload.length ≠ len then .ok (s, [])
      else .ok (s, writeDataPduHeader header ++ payload)

/-- The status PDU for a grant. -/
def packStatus (report : StatusPdu) (grantLen : Nat) : List UInt8 :=
  if grantLen < 3 then []
  else
    match report.trim grantLen with
    | some report => report.pack
    | none => []

/-- `pull_pdu`; `report` is what the status provider returns if a status report is required. -/
def pullPdu (s : TxAm cfg) (report : Option StatusPdu) (grantLen : Nat) :
    Except Fault (TxAm cfg × List UInt8) :=
  match report with
  | some report => .ok (s, packStatus report grantLen)
  | none =>
    if !s.retxQueue.isEmpty then s.buildRetxPdu grantLen
    else
      match if s.snUnderSegmentation = invalidRlcSn then none
          else s.txWindow.get? s.snUnderSegmentation with
      | some info => .ok (s.buildContinuedSduSegment grantLen info)
      | none =>
        let s := { s with snUnderSegmentation := invalidRlcSn }
        if s.sduQueue.isEmpty then .ok (s, []) else s.buildNewPdu grantLen

/-! ## Status PDUs -/

/-- What `valid_nack` makes of a NACK. -/
inductive NackVerdict where
  | valid
  | ignore
  | protocolFailure
  deriving DecidableEq

def validNack (s : TxAm cfg) (ackSn : Nat) (nack : StatusNack) : NackVerdict :=
  -- `nack_sn + nack_range - 1`, on `uint32_t`
  let lastSn := nack.nackSn + nack.nackRange + (2 ^ 32 - 1)
  if s.txModBase ackSn ≤ s.txModBase nack.nackSn then .ignore
  else if nack.hasNackRange && s.txModBase ackSn ≤ s.txModBase lastSn then .ignore
  else if !s.insideTxWindow nack.nackSn then .ignore
  else if nack.hasNackRange && !s.insideTxWindow lastSn then .ignore
  else if s.txModBase s.txNext < s.txModBase nack.nackSn then .protocolFailure
  else if nack.hasNackRange && s.txModBase s.txNext < s.txModBase lastSn then .protocolFailure
  else .valid

/-- The verdict on the first NACK that is not valid. -/
def firstVerdict (s : TxAm cfg) (ackSn : Nat) : List StatusNack → NackVerdict
  | [] => .valid
  | nack :: nacks =>
    match s.validNack ackSn nack with
    | .valid => s.firstVerdict ackSn nacks
    | verdict => verdict

/-- The PDCP SNs reported as delivered: of first transmissions and of PDCP retransmissions. -/
structure Delivered where
  sn : Option PdcpSn := none
  retxSn : Option PdcpSn := none

/-- An acknowledged SDU updates the PDCP SNs to report. -/
def Delivered.add (d : Delivered) (info : SduInfo) : Delivered :=
  match info.pdcpSn with
  | none => d
  | some sn => if info.isRetx then { d with retxSn := some sn } else { d with sn := some sn }

def Delivered.notifications (d : Delivered) : List Notification :=
  (d.sn.map Notification.deliveredSdu).toList ++
    (d.retxSn.map Notification.deliveredRetransmittedSdu).toList

/-- The loop over acknowledged SNs. Each round moves `tx_next_ack`, the base of the comparison. -/
def ackLoop (stopSn : Nat) : Nat → TxAm cfg → Nat → Delivered → TxAm cfg × Delivered
  | 0, s, _, d => (s, d)
  | fuel + 1, s, sn, d =>
    if s.txModBase sn < s.txModBase stopSn then
      match s.txWindow.get? sn with
      | some info =>
        ackLoop stopSn fuel
          { s with txWindow := s.txWindow.erase sn, txNextAck := (sn + 1) % cfg.mod }
          ((sn + 1) % cfg.mod) (d.add info)
      | none => (s, d)
    else (s, d)

/-- `decrement_retx_count`, for an SN in the window. -/
def decrementRetxCount (s : TxAm cfg) (sn : Nat) : TxAm cfg :=
  s.modifySdu sn fun info =>
    if info.retxCount = retxCountNotStarted then info
    else if info.retxCount = 0 then { info with retxCount := retxCountNotStarted }
    else { info with retxCount := info.retxCount - 1 }

/-- Clears the RETX queue and rewinds the counters, once for each SN whose RETX has not started. -/
def clearRetxQueue : List Retx → TxAm cfg → TxAm cfg
  | [], s => { s with retxQueue := [], retxSn := invalidRlcSn }
  | retx :: queue, s =>
    if s.retxSn = retx.sn then clearRetxQueue queue s
    else
      let s := if s.txWindow.contains retx.sn then s.decrementRetxCount retx.sn else s
      clearRetxQueue queue { s with retxSn := retx.sn }

section

variable (s : TxAm cfg)

/-- `increment_retx_count` and `check_sn_reached_max_retx`. -/
def incrementRetxCount (sn : Nat) : Except Fault (TxAm cfg) :=
  (s.access sn).map fun info =>
    let count :=
      if info.retxCount = retxCountNotStarted then 0 else (info.retxCount + 1) % 2 ^ 32
    let s := s.modifySdu sn fun info => { info with retxCount := count }
    if count = cfg.maxRetxThresh then s.notify [.maxRetx] else s

/-- Schedules the RETX of bytes `soStart..soEnd`, after the sanity checks of `handle_nack`. -/
def scheduleRetx (sn sduLength soStart soEnd : Nat) : TxAm cfg × Bool :=
  let s := if soEnd < soStart then s.notify [.protocolFailure] else s
  let soStart := if soEnd < soStart then 0 else soStart
  let s := if sduLength ≤ soStart then s.notify [.protocolFailure] else s
  let soStart := if sduLength ≤ soStart then 0 else soStart
  let s := if sduLength ≤ soEnd then s.notify [.protocolFailure, .protocolFailure] else s
  let soEnd := if sduLength ≤ soEnd then (sduLength - 1) % 2 ^ 16 else soEnd
  if s.retxQueue.length < cfg.window then
    ({ s with retxQueue := s.retxQueue ++ [⟨sn, soStart, soEnd + 1 - soStart⟩] }, true)
  else (s, false)

def handleNack (nack : StatusNack) : Except Fault (TxAm cfg × Bool) :=
  if nack.hasNackRange then .ok (s, false)
  else if ¬ (s.txModBase s.txNextAck ≤ s.txModBase nack.nackSn ∧
      s.txModBase nack.nackSn ≤ s.txModBase s.txNext) then .ok (s, false)
  else
    (s.access nack.nackSn).map fun info =>
      let lastByte := (info.sdu.length + (2 ^ 16 - 1)) % 2 ^ 16
      let soStart := if nack.hasSo then nack.soStart else 0
      let soEnd := if nack.hasSo then nack.soEnd else lastByte
      if soEnd ≠ soEndOfSdu then s.scheduleRetx nack.nackSn info.sdu.length soStart soEnd
      else if nack.nackSn ≠ s.snUnderSegmentation then
        s.scheduleRetx nack.nackSn info.sdu.length soStart lastByte
      -- under segmentation: only what was already sent
      else if info.nextSo = 0 then (s, false)
      else if info.nextSo ≤ soStart then (s, false)
      else s.scheduleRetx nack.nackSn info.sdu.length soStart ((info.nextSo - 1) % 2 ^ 16)

/-- Handles one NACK and counts the RETX, once for each SN. -/
def processNack (prevRetxSn : Nat) (nack : StatusNack) :
    Except Fault (TxAm cfg × Nat) := do
  let (s, scheduled) ← s.handleNack nack
  if scheduled ∧ prevRetxSn ≠ nack.nackSn then
    let s ← s.incrementRetxCount nack.nackSn
    .ok (s, nack.nackSn)
  else .ok (s, prevRetxSn)

/-- The NACK for one SN of a range: `so_start` counts for the first and `so_end` for the last. -/
def rangeItem (cfg : Config) (nack : StatusNack) (rangeSn : Nat) : StatusNack :=
  let soStart := if nack.hasSo ∧ rangeSn = nack.nackSn then nack.soStart else 0
  let soEnd :=
    if nack.hasSo ∧ rangeSn = (nack.nackSn + nack.nackRange - 1) % cfg.mod then nack.soEnd
    else soEndOfSdu
  { nackSn := rangeSn, soStart, soEnd
    hasSo := nack.hasSo && (soStart != 0 || soEnd != soEndOfSdu) }

def rangeLoop (ackSn : Nat) (nack : StatusNack) :
    Nat → Nat → TxAm cfg × Nat → Except Fault (TxAm cfg × Nat)
  | 0, _, r => .ok r
  | fuel + 1, rangeSn, r =>
    if rangeSn = (nack.nackSn + nack.nackRange) % cfg.mod then .ok r
    else if rangeSn = ackSn then .ok r
    else do
      let r ← r.1.processNack r.2 (rangeItem cfg nack rangeSn)
      rangeLoop ackSn nack fuel ((rangeSn + 1) % cfg.mod) r

/-- Rebuilds the RETX queue from the NACKs. -/
def processNacks (ackSn : Nat) : List StatusNack → TxAm cfg × Nat → Except Fault (TxAm cfg × Nat)
  | [], r => .ok r
  | nack :: nacks, r => do
    let r ←
      if nack.hasNackRange then rangeLoop ackSn nack cfg.mod nack.nackSn r
      else r.1.processNack r.2 nack
    processNacks ackSn nacks r

/-- A status report comprises an acknowledgement of POLL_SN: the timer stops. -/
def stopPollRetransmit (ackSn : Nat) : TxAm cfg :=
  if s.txModBase s.pollSn < s.txModBase ackSn then { s with pollRetransmitTimer := false } else s

/-- The SN at which the processing of ACKs stops. -/
def stopSn (status : StatusPdu) : Nat :=
  match status.nacks with
  | [] => status.ackSn
  | nack :: _ => nack.nackSn

/-- `handle_status_pdu`, once the report has passed the sanity checks. -/
def processStatus (status : StatusPdu) : Except Fault (TxAm cfg) :=
  let s := s.stopPollRetransmit status.ackSn
  let acked := ackLoop (stopSn status) cfg.mod s s.txNextAck {}
  let s := acked.1.notify acked.2.notifications
  let s := clearRetxQueue s.retxQueue s
  (processNacks status.ackSn status.nacks (s, invalidRlcSn)).map (·.1)

def handleStatusPdu (status : StatusPdu) : Except Fault (TxAm cfg) :=
  if !s.validAckSn status.ackSn then .ok s
  else if s.txModBase (s.txNext + 1) < s.txModBase status.ackSn then
    .ok (s.notify [.protocolFailure])
  else
    match s.firstVerdict status.ackSn status.nacks with
    | .ignore => .ok s
    | .protocolFailure => .ok (s.notify [.protocolFailure])
    | .valid => s.processStatus status

/-! ## Expiry of the poll retransmit timer -/

def onExpiredPollRetransmitTimer : Except Fault (TxAm cfg) :=
  if s.buffersEmpty || s.isTxWindowFull then
    if s.txWindow.isEmpty then .ok s
    else
      match s.txWindow.get? s.txNextAck with
      | none => .ok s
      | some info =>
        if s.retxQueue.length < cfg.window then
          let retx : Retx := ⟨s.txNextAck, 0, info.sdu.length⟩
          let s := { s with retxQueue := s.retxQueue ++ [retx] }
          (s.incrementRetxCount s.txNextAck).map
            fun s => { s with isPollRetransmitTimerExpired := true }
        else .ok { s with isPollRetransmitTimerExpired := true }
  else .ok { s with isPollRetransmitTimerExpired := true }

/-- The poll retransmit timer stops running and calls its handler. -/
def pollRetransmitTimerExpired : Except Fault (TxAm cfg) :=
  let s := { s with pollRetransmitTimer := false }
  if cfg.tPollRetx = 0 then .ok s else s.onExpiredPollRetransmitTimer

/-! ## Calls -/

inductive Event where
  | handleSdu (sdu : RlcSdu)
  | discardSdu (pdcpSn : PdcpSn)
  | pullPdu (report : Option StatusPdu) (grantLen : Nat)
  /-- A control PDU, as the RX entity passes it on. -/
  | statusPdu (buf : List UInt8)
  | pollRetransmitTimerExpired

/-- One call of the entity, with the PDU it yields; the timer expires only while it is running. -/
def step : Event → Option (Except Fault (TxAm cfg × List UInt8))
  | .handleSdu sdu => some (.ok (s.handleSdu sdu, []))
  | .discardSdu pdcpSn => some (.ok (s.discardSdu pdcpSn, []))
  | .pullPdu report grantLen => some (s.pullPdu report grantLen)
  | .statusPdu buf =>
    match StatusPdu.unpack cfg.snFieldLength buf with
    | some status => some ((s.handleStatusPdu status).map fun s => (s, []))
    | none => none
  | .pollRetransmitTimerExpired =>
    if s.pollRetransmitTimer then some (s.pollRetransmitTimerExpired.map fun s => (s, []))
    else none

end

end TxAm

end RadioStack.Rlc
