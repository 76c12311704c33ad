import RadioStack.Lib.Run
import RadioStack.Lib.SerialLoop
import RadioStack.Lib.SerialWindow
import RadioStack.Pdcp.Base
import RadioStack.Support.BitEncoding

/-!
# The transmitting PDCP entity

`pdcp_entity_tx`: SDUs get the next COUNT, are protected and passed to the lower layer. With a
discard timer they stay in a circular window until they are delivered, discarded or reported as
received; for RLC AM with a copy of the SDU, from which data recovery and re-establishment
retransmit. A failed assertion, a loop that does not end, or reading the result of a failed security
engine ends the run: the functions return `Except TxFault`.

Allocations may fail where the source checks for it (`Memory`).
-/

namespace RadioStack.Pdcp

inductive DiscardTimer where
  | ms (duration : Nat)
  | infinity
  deriving DecidableEq

structure TxConfig extends Bearer where
  discardTimer : Option DiscardTimer
  statusReportRequired : Bool
  maxCount : MaxCount
  rlcSduQueue : Nat
  testMode : Bool
  /-- Checked by the constructor of the entity. -/
  srb_ok : rbType = .srb → snSize = .size12bits ∧ rlcMode = .am

structure TxSduInfo where
  count : Nat
  /-- Copy of the SDU, only for AM. -/
  sdu : List UInt8
  /-- The discard timer is running: only for finite durations. -/
  discardTimer : Bool
  deriving DecidableEq

/-- Calls to the neighbouring components, in order. -/
inductive TxAction where
  /-- The security engine returned a protected PDU for this SDU and COUNT. -/
  | secured (count : Nat) (sdu : List UInt8)
  /-- A data PDU to the lower layer, with the SDU it carries. -/
  | dataPdu (count : Nat) (sdu pdu : List UInt8) (isRetx : Bool)
  | controlPdu (pdu : List UInt8)
  /-- `lower_dn.on_discard_pdu`. -/
  | discardPdu (sn : Nat)
  | protocolFailure
  | maxCountReached
  /-- A new security engine has been installed. -/
  | keyConfigured
  deriving DecidableEq

inductive TxFault where
  /-- Adding a COUNT that is in the window, or removing or reading one that is not. -/
  | windowAccess
  | endlessLoop
  /-- `value()` of a failed security result. -/
  | securityResult
  /-- An assertion on the bearer or on the security configuration. -/
  | assertion
  deriving DecidableEq

/-- Which of the allocations for one PDU succeed. -/
structure Memory where
  copy : Bool := true
  header : Bool := true
  mac : Bool := true

structure TxEntity (cfg : TxConfig) where
  /-- COUNT of the next SDU to be transmitted. -/
  txNext : Nat := 0
  /-- Lower bound of the SDUs handed to the lower layer and not transmitted yet. -/
  txTrans : Nat := 0
  /-- Lower edge of the TX window. -/
  txNextAck : Nat := 0
  txWindow : CircularMap cfg.snSize.windowSize TxSduInfo := .empty
  security : Security := {}
  maxCountNotified : Bool := false
  maxCountOverflow : Bool := false
  actions : List TxAction := []

namespace TxEntity

variable {cfg : TxConfig}

section

variable (s : TxEntity cfg)

def act (a : TxAction) : TxEntity cfg :=
  { s with actions := s.actions ++ [a] }

/-! ## TX window -/

def addSn (count : Nat) (info : TxSduInfo) : Except TxFault (TxEntity cfg) :=
  if s.txWindow.contains count then .error .windowAccess
  else .ok { s with txWindow := s.txWindow.overwrite count info }

def removeSn (count : Nat) : Except TxFault (TxEntity cfg) :=
  if s.txWindow.contains count then .ok { s with txWindow := s.txWindow.erase count }
  else .error .windowAccess

/-- Removes a COUNT after checking that it is in the window. -/
def removeStored (count : Nat) : Except TxFault (TxEntity cfg) :=
  if s.txWindow.contains count then s.removeSn count else .ok s

/-- Moves TX_TRANS up to TX_NEXT_ACK if it falls out of the window. -/
def raiseTxTrans : TxEntity cfg :=
  if s.txTrans < s.txNextAck then { s with txTrans := s.txNextAck } else s

def discardPdu (count : Nat) : Except TxFault (TxEntity cfg) :=
  if cfg.discardTimer.isNone then .ok s
  else if count < s.txNextAck ∨ s.txNext ≤ count then .ok s
  else if !s.txWindow.contains count then .ok s
  else do
    let s ← (s.act (.discardPdu (computeSn cfg.snSize count))).removeSn count
    -- TX_NEXT_ACK moves to the oldest element of the window
    let oldest := firstFail (fun c => !s.txWindow.contains c) s.txNextAck s.txNext
    .ok (raiseTxTrans { s with txNextAck := oldest })

end

def stopLoop (highest : Nat) : Nat → TxEntity cfg → Except TxFault (TxEntity cfg)
  | 0, _ => .error .endlessLoop
  | fuel + 1, s =>
    if s.txNextAck ≤ highest then do
      let s ← s.removeStored s.txNextAck
      stopLoop highest fuel { s with txNextAck := (s.txNextAck + 1) % 2 ^ 32 }
    else .ok s

section

variable (s : TxEntity cfg)

def stopDiscardTimer (highest : Nat) : Except TxFault (TxEntity cfg) :=
  if cfg.discardTimer.isNone then .ok s
  else if highest < s.txNextAck ∨ s.txNext ≤ highest then .ok s
  else (stopLoop highest (2 ^ 32) s).map raiseTxTrans

/-! ## Notifications of the lower layer -/

def notificationCountEstimation (sn : Nat) : Nat :=
  estimateCount cfg.snSize (if cfg.discardTimer.isSome then s.txNextAck else s.txTrans) sn

def handleTransmitNotification (sn : Nat) : Except TxFault (TxEntity cfg) :=
  if cfg.snSize.cardinality ≤ sn then .ok s
  else
    let count := s.notificationCountEstimation sn
    if count < s.txTrans then .ok s
    else if s.txNext ≤ count then .ok s
    else
      let s := { s with txTrans := (count + 1) % 2 ^ 32 }
      if cfg.discardTimer.isSome && cfg.isUm then s.stopDiscardTimer count else .ok s

def handleDeliveryNotification (sn : Nat) : Except TxFault (TxEntity cfg) :=
  if cfg.snSize.cardinality ≤ sn then .ok s
  else
    let count := s.notificationCountEstimation sn
    if s.txNext ≤ count then .ok s
    else if cfg.discardTimer.isSome && cfg.isAm then s.stopDiscardTimer count
    else .ok s

/-- `handle_retransmit_notification` and `handle_delivery_retransmitted_notification`. -/
def handleRetransmitNotification (_sn : Nat) : TxEntity cfg := s

/-! ## Data PDUs -/

/-- The bytes of the header written by `write_data_pdu_header`. -/
def dataPduHeader (b : Bearer) (sn : Nat) : List UInt8 :=
  let dc := if b.isDrb then 0x80 else 0x00
  match b.snSize with
  | .size12bits => [UInt8.ofNat (dc ||| (sn &&& 0xf00) >>> 8), UInt8.ofNat (sn &&& 0xff)]
  | .size18bits =>
    [UInt8.ofNat (dc ||| (sn &&& 0x30000) >>> 16), UInt8.ofNat ((sn &&& 0xff00) >>> 8),
      UInt8.ofNat (sn &&& 0xff)]

/-- `write_data_pdu_header`: 18-bit SNs are not allowed for SRBs. -/
def writeDataPduHeader (cfg : TxConfig) (sn : Nat) (sdu : List UInt8) :
    Except TxFault (List UInt8) :=
  if cfg.isSrb && cfg.snSize = .size18bits then .error .assertion
  else .ok (dataPduHeader cfg.toBearer sn ++ sdu)

/-- `apply_ciphering_and_integrity_protection` of the PDU that carries `sdu`; `none` if the MAC-I
cannot be appended. -/
def applyCipheringAndIntegrityProtection (crypto : Crypto) (mem : Memory) (s : TxEntity cfg)
    (sdu buf : List UInt8) (count : Nat) :
    Except TxFault (TxEntity cfg × Option (List UInt8)) :=
  match s.security.secEngine with
  | none =>
    if cfg.isSrb then
      .ok (s, if mem.mac then some (buf ++ List.replicate 4 0) else none)
    else .ok (s, some buf)
  | some e =>
    match e.encryptAndProtectIntegrity crypto buf cfg.snSize.headerSize count with
    | .ok buf => .ok (s.act (.secured count sdu), some buf)
    | .error _ => .error .securityResult

/-- Header, protection and transmission of the PDU for an SDU; `false` if an allocation fails, which
the upper layers are notified of. -/
def transmit (crypto : Crypto) (mem : Memory) (s : TxEntity cfg) (count : Nat) (sdu : List UInt8) :
    Except TxFault (TxEntity cfg × Option (List UInt8)) :=
  if !mem.copy then .ok (s.act .protocolFailure, none)
  else do
    let buf ← writeDataPduHeader cfg (computeSn cfg.snSize count) sdu
    if !mem.header then .ok (s.act .protocolFailure, none)
    else
      match ← s.applyCipheringAndIntegrityProtection crypto mem sdu buf count with
      | (s, none) => .ok (s.act .protocolFailure, none)
      | (s, some pdu) => .ok (s, some pdu)

/-- Puts the SDU with COUNT TX_NEXT in the window, if there is a discard timer. -/
def addToWindow (sdu : List UInt8) : Except TxFault (TxEntity cfg) :=
  if cfg.discardTimer.isNone then .ok s
  else do
    let s ←
      match s.txWindow.get? s.txNext with
      | some old => s.discardPdu old.count
      | none => .ok s
    s.addSn s.txNext
      { count := s.txNext
        sdu := if cfg.isAm then sdu else []
        discardTimer := cfg.discardTimer != some .infinity }

/-- The checks of `handle_sdu` on the COUNT limits; `true` if the SDU is refused. -/
def checkMaxCount : TxEntity cfg × Bool :=
  if cfg.maxCount.hard ≤ s.txNext then
    (if !s.maxCountOverflow then { s.act .protocolFailure with maxCountOverflow := true } else s,
      true)
  else if cfg.maxCount.notify ≤ s.txNext && !s.maxCountNotified then
    ({ s.act .maxCountReached with maxCountNotified := true }, false)
  else (s, false)

/-- `handle_sdu`. A copy of the SDU is only made for AM with a discard timer. -/
def handleSdu (crypto : Crypto) (s : TxEntity cfg) (sdu : List UInt8) (mem : Memory) :
    Except TxFault (TxEntity cfg) :=
  if s.txNext < s.txTrans then .ok s
  else if cfg.rlcSduQueue ≤ s.txNext - s.txTrans then .ok s
  else if cfg.snSize.windowSize - 1 ≤ s.txNext - s.txTrans then .ok s
  else
    let (s, refused) := s.checkMaxCount
    if refused then .ok s
    else do
      let mem := { mem with copy := mem.copy || !(cfg.discardTimer.isSome && cfg.isAm) }
      let (s, pdu) ← s.transmit crypto mem s.txNext sdu
      match pdu with
      | none => .ok s
      | some pdu => do
        let s ← s.addToWindow sdu
        let s := s.act (.dataPdu s.txNext sdu pdu false)
        let count := s.txNext
        let s := { s with txNext := (s.txNext + 1) % 2 ^ 32 }
        if cfg.testMode then s.handleTransmitNotification (computeSn cfg.snSize count) else .ok s

/-! ## Status report -/

def discardPdus (counts : List Nat) : Except TxFault (TxEntity cfg) :=
  counts.foldlM discardPdu s

end

/-- The loop over the bitmap: the next bit stands for COUNT `fmc + 1`. -/
def bitmapLoop : Nat → TxEntity cfg → BitDecoder → Nat → Except TxFault (TxEntity cfg)
  | 0, _, _, _ => .error .endlessLoop
  | fuel + 1, s, dec, fmc =>
    match dec.unpack 1 with
    | (_, _, false) => .ok s
    | (dec, bit, true) => do
      let fmc := (fmc + 1) % 2 ^ 32
      let s ← if bit = 1 then s.discardPdu fmc else .ok s
      bitmapLoop fuel s dec fmc

variable (s : TxEntity cfg)

def handleStatusReport (status : List UInt8) : Except TxFault (TxEntity cfg) :=
  let (dec, dc, _) := BitDecoder.unpack { rest := status } 1
  if dc ≠ 0 then .ok s
  else
    let (dec, cpt, _) := dec.unpack 3
    if cpt ≠ 0 then .ok s
    else
      let (dec, reserved, _) := dec.unpack 4
      if reserved ≠ 0 then .ok s
      else do
        let (dec, fmc, _) := dec.unpack 32
        let s ← s.discardPdus (List.range' s.txNextAck (fmc - s.txNextAck))
        bitmapLoop (8 * status.length + 1) s dec fmc

/-! ## Re-establishment and data recovery -/

def reset : TxEntity cfg :=
  { s with txNext := 0, txTrans := 0, txNextAck := 0, txWindow := .empty }

/-- Retransmits the stored SDUs of a list of COUNTs; stops at the first failure. -/
def retransmit (crypto : Crypto) (mem : Nat → Memory) (s : TxEntity cfg) :
    List Nat → Except TxFault (TxEntity cfg)
  | [] => .ok s
  | count :: counts =>
    match s.txWindow.get? count with
    | none => retransmit crypto mem s counts
    | some info => do
      let (s, pdu) ← s.transmit crypto (mem count) info.count info.sdu
      match pdu with
      | none => .ok s
      | some pdu => retransmit crypto mem (s.act (.dataPdu info.count info.sdu pdu true)) counts

section

variable (crypto : Crypto)

def retransmitAllPdus (mem : Nat → Memory) (s : TxEntity cfg) :
    Except TxFault (TxEntity cfg) :=
  if cfg.discardTimer.isNone || !cfg.isAm then .ok s
  else
    retransmit crypto mem { s with txTrans := s.txNextAck }
      (List.range' s.txNextAck (s.txNext - s.txNextAck))

def configure (sec : Sec128AsConfig) (integrity ciphering : Bool) :
    Except TxFault (TxEntity cfg) :=
  match configureSecurity cfg.toBearer sec integrity ciphering with
  | .assertion => .error .assertion
  | .refused => .ok s
  | .installed security => .ok { s.act .keyConfigured with security }

def reestablish (mem : Nat → Memory) (s : TxEntity cfg) (sec : Sec128AsConfig) :
    Except TxFault (TxEntity cfg) := do
  let s := if cfg.isSrb || cfg.isUm then s.reset else s
  let s ← s.configure sec s.security.integrityEnabled s.security.cipheringEnabled
  if cfg.isAm then s.retransmitAllPdus crypto mem else .ok s

/-- `data_recovery`, with the status report compiled by the receiving side. -/
def dataRecovery (mem : Nat → Memory) (s : TxEntity cfg)
    (statusReport : List UInt8) : Except TxFault (TxEntity cfg) :=
  if !(cfg.isDrb && cfg.isAm) then .error .assertion
  else
    let s := if cfg.statusReportRequired then s.act (.controlPdu statusReport) else s
    s.retransmitAllPdus crypto mem

/-! ## Runs -/

inductive Event where
  | sdu (sdu : List UInt8) (mem : Memory)
  | transmitNotification (sn : Nat)
  | deliveryNotification (sn : Nat)
  | retransmitNotification (sn : Nat)
  | statusReport (status : List UInt8)
  /-- The discard timer of a COUNT expires. -/
  | discardExpiry (count : Nat)
  | dataRecovery (statusReport : List UInt8) (mem : Nat → Memory)
  | configureSecurity (sec : Sec128AsConfig) (integrity ciphering : Bool)
  | reestablish (sec : Sec128AsConfig) (mem : Nat → Memory)

/-- The discard timer of a COUNT is running. -/
def discardTimerRunning (count : Nat) : Bool :=
  (s.txWindow.get? count).any (·.discardTimer)

def handle (s : TxEntity cfg) : Event → Except TxFault (TxEntity cfg)
  | .sdu sdu mem => s.handleSdu crypto sdu mem
  | .transmitNotification sn => s.handleTransmitNotification sn
  | .deliveryNotification sn => s.handleDeliveryNotification sn
  | .retransmitNotification sn => .ok (s.handleRetransmitNotification sn)
  | .statusReport status => s.handleStatusReport status
  | .discardExpiry count => s.discardPdu count
  | .dataRecovery statusReport mem => s.dataRecovery crypto mem statusReport
  | .configureSecurity sec integrity ciphering => s.configure sec integrity ciphering
  | .reestablish sec mem => s.reestablish crypto mem sec

/-- A discard timer expires only while it is running; the other events can always occur. -/
def Enabled : Event → Bool
  | .discardExpiry count => s.discardTimerRunning count
  | _ => true

/-- A step; `none` if the event cannot occur or the run ends with a fault. -/
def step (s : TxEntity cfg) (e : Event) : Option (TxEntity cfg) :=
  if s.Enabled e then (s.handle crypto e).toOption else none

end

end TxEntity

end RadioStack.Pdcp
