import RadioStack.Lib.Reordering
import RadioStack.Lib.Run
import RadioStack.Pdcp.Base
import RadioStack.Support.BitEncoding

/-!
# The receiving PDCP entity

`pdcp_entity_rx`: data PDUs are deciphered, placed in a circular window by their COUNT, and their
SDUs are passed to the upper layer in order; t-Reordering bounds how long a missing COUNT is waited
for. The state variables are 32-bit numbers. A failed assertion, or a loop that would go through all
32-bit numbers without ending, ends the run: the functions return `Except Fault`.

t-Reordering can only expire while it is running: stopping or restarting a timer invalidates an
expiry that has not been handled yet.
-/

namespace RadioStack.Pdcp

inductive TReordering where
  | ms (duration : Nat)
  | infinity
  deriving DecidableEq

structure RxConfig extends Bearer where
  tReordering : TReordering
  maxCount : MaxCount

structure RxSduInfo where
  sdu : List UInt8
  count : Nat
  deriving DecidableEq

/-- Calls of the upper-layer control notifier, and status reports for the transmitting side. -/
inductive RxNotification where
  | integrityFailure
  | protocolFailure
  | maxCountReached
  | statusReport (pdu : List UInt8)
  deriving DecidableEq

inductive RxFault where
  /-- Trimming more bytes than the buffer has. -/
  | trim
  /-- `(*rx_window)[count]` for a COUNT that is not in the window. -/
  | windowAccess
  /-- A loop over COUNT values that does not end. -/
  | endlessLoop
  /-- An assertion of `configure_security`. -/
  | security
  deriving DecidableEq

structure RxEntity (cfg : RxConfig) where
  /-- COUNT of the next PDCP SDU expected to be received. -/
  rxNext : Nat := 0
  /-- COUNT of the first PDCP SDU not delivered to the upper layers, but still waited for. -/
  rxDeliv : Nat := 0
  /-- COUNT following that of the PDCP Data PDU which triggered t-Reordering. -/
  rxReord : Nat := 0
  rxWindow : CircularMap cfg.snSize.windowSize RxSduInfo := .empty
  /-- `reordering_timer.is_running()`. -/
  reorderingTimer : Bool := false
  security : Security := {}
  maxCountNotified : Bool := false
  maxCountOverflow : Bool := false
  /-- SDUs passed to the upper layer, with their COUNT. -/
  delivered : List (Nat × RxSduInfo) := []
  notifications : List RxNotification := []

namespace RxEntity

variable {cfg : RxConfig}

section

variable (s : RxEntity cfg)

def notify (n : RxNotification) : RxEntity cfg :=
  { s with notifications := s.notifications ++ [n] }

/-! ## Data PDU header -/

/-- `read_data_pdu_header`: the sequence number. -/
def readDataPduHeader (n : SnSize) (buf : List UInt8) : Option Nat :=
  if buf.length ≤ n.headerSize then none
  else
    match n, buf with
    | .size12bits, b₀ :: b₁ :: _ => some ((b₀.toNat &&& 0x0f) <<< 8 ||| b₁.toNat)
    | .size18bits, b₀ :: b₁ :: b₂ :: _ =>
      some ((b₀.toNat &&& 0x03) <<< 16 ||| b₁.toNat <<< 8 ||| b₂.toNat)
    | _, _ => none

/-! ## Delivery -/

/-- The rounds after which a loop over COUNT values is back where it started. -/
def allCounts : Nat := 2 ^ 32

/-- Runs one of the delivery loops from RX_DELIV to `stop`. -/
def deliverUntil
    (body : CircularMap cfg.snSize.windowSize RxSduInfo × List (Nat × RxSduInfo) → Nat →
      Option (CircularMap cfg.snSize.windowSize RxSduInfo × List (Nat × RxSduInfo)))
    (fuel stop : Nat) : Except RxFault (RxEntity cfg) :=
  match loopUntil (2 ^ 32) stop body fuel (s.rxWindow, s.delivered) s.rxDeliv with
  | some ((window, delivered), deliv) =>
    .ok { s with rxWindow := window, delivered, rxDeliv := deliv }
  | none => .error .endlessLoop

def deliverAllConsecutiveCounts : Except RxFault (RxEntity cfg) :=
  s.deliverUntil CircularMap.popNext allCounts s.rxNext

/-- The loop of `handle_t_reordering_expire`, with the number of rounds it may take. -/
def deliverBelowReord (fuel : Nat) : Except RxFault (RxEntity cfg) :=
  s.deliverUntil CircularMap.popAny fuel s.rxReord

def handleTReorderingExpire : Except RxFault (RxEntity cfg) := do
  let s ← s.deliverBelowReord allCounts
  let s ← s.deliverAllConsecutiveCounts
  if s.rxDeliv < s.rxNext then
    if cfg.tReordering = .ms 0 then .ok s
    else .ok { s with rxReord := s.rxNext, reorderingTimer := true }
  else .ok s

/-- `deliver_all_sdus`: RX_DELIV stays. -/
def deliverAllSdus : Except RxFault (RxEntity cfg) :=
  if s.rxDeliv < s.rxNext then
    (s.deliverUntil CircularMap.popAny allCounts s.rxNext).map fun t =>
      { t with rxDeliv := s.rxDeliv }
  else .ok s

def discardAllSdus : Except RxFault (RxEntity cfg) :=
  (s.deliverUntil CircularMap.popAny allCounts s.rxNext).map fun t =>
    { t with delivered := s.delivered }

/-! ## Data PDUs -/

def rcvdCount (sn : Nat) : Nat := estimateCount cfg.snSize s.rxDeliv sn

/-- Notifies the upper layers, once each, of a COUNT above the limits; `true` if it is refused. -/
def checkMaxCount (count : Nat) : RxEntity cfg × Bool :=
  let s :=
    if cfg.maxCount.notify < count && !s.maxCountNotified then
      { s.notify .maxCountReached with maxCountNotified := true }
    else s
  if cfg.maxCount.hard ≤ count then
    (if !s.maxCountOverflow then { s.notify .protocolFailure with maxCountOverflow := true } else s,
      true)
  else (s, false)

def secMacLen : Nat := 4

def applyDecipheringAndIntegrityCheck (crypto : Crypto) (s : RxEntity cfg) (buf : List UInt8)
    (count : Nat) : RxEntity cfg × Option (List UInt8) :=
  match s.security.secEngine with
  | none =>
    if cfg.isSrb then
      if buf.length ≤ secMacLen then (s, none) else (s, some (buf.take (buf.length - secMacLen)))
    else (s, some buf)
  | some e =>
    match e.decryptAndVerifyIntegrity crypto buf cfg.snSize.headerSize count with
    | .error .integrityFailure => (s.notify .integrityFailure, none)
    | .error .cipheringFailure => (s.notify .protocolFailure, none)
    | .error .bufferFailure => (s.notify .protocolFailure, none)
    | .ok buf => (s, some buf)

/-- Stores an SDU; an entry of another COUNT under this one would be removed first. -/
def storeSdu (count : Nat) (sdu : List UInt8) : RxEntity cfg :=
  { s with
    rxWindow := s.rxWindow.overwrite count { sdu, count }
    rxNext := if s.rxNext ≤ count then count + 1 else s.rxNext }

/-- Stops t-Reordering once RX_DELIV has reached RX_REORD, and starts it if COUNTs are missing. -/
def updateReorderingTimer : Except RxFault (RxEntity cfg) :=
  let s :=
    if s.reorderingTimer && s.rxReord ≤ s.rxDeliv then { s with reorderingTimer := false } else s
  if cfg.tReordering = .infinity then .ok s
  else if cfg.tReordering = .ms 0 then handleTReorderingExpire { s with rxReord := s.rxNext }
  else if !s.reorderingTimer && s.rxDeliv < s.rxNext then
    .ok { s with rxReord := s.rxNext, reorderingTimer := true }
  else .ok s

/-- The SDU of a PDU that passed the integrity check: from the check of RCVD_COUNT on. -/
def placeSdu (count : Nat) (sdu : List UInt8) :
    Except RxFault (RxEntity cfg) :=
  if count < s.rxDeliv then .ok s
  else if s.rxWindow.contains count then
    match s.rxWindow.get? count with
    | none => .error .windowAccess
    | some info =>
      if info.count = count then .ok s
      else place { s with rxWindow := s.rxWindow.erase count }
  else place s
where
  place (s : RxEntity cfg) : Except RxFault (RxEntity cfg) := do
    let s := s.storeSdu count sdu
    let s ← if count = s.rxDeliv then s.deliverAllConsecutiveCounts else .ok s
    s.updateReorderingTimer

def handleDataPdu (crypto : Crypto) (s : RxEntity cfg) (pdu : List UInt8) :
    Except RxFault (RxEntity cfg) :=
  match readDataPduHeader cfg.snSize pdu with
  | none => .ok s
  | some sn =>
    let count := s.rcvdCount sn
    let (s, refused) := s.checkMaxCount count
    if refused then .ok s
    else
      let (s, buf) := s.applyDecipheringAndIntegrityCheck crypto pdu count
      match buf with
      | none => .ok s
      | some buf =>
        if buf.length < cfg.snSize.headerSize then .error .trim
        else s.placeSdu count (buf.drop cfg.snSize.headerSize)

/-- `handle_control_pdu`: only status reports are supported. -/
def handleControlPdu (pdu : List UInt8) : RxEntity cfg :=
  match pdu with
  | [] => s
  | b :: _ => if (b.toNat >>> 4) &&& 7 = 0 then s.notify (.statusReport pdu) else s

/-- Every PDU of an SRB, and those of a DRB with the D/C field set. -/
def isDataPdu (cfg : RxConfig) (firstByte : UInt8) : Bool :=
  cfg.isSrb || (firstByte.toNat >>> 7) &&& 1 = 1

def handlePdu (crypto : Crypto) (s : RxEntity cfg) (pdu : List UInt8) :
    Except RxFault (RxEntity cfg) :=
  match pdu with
  | [] => .ok s
  | b :: _ =>
    if isDataPdu cfg b then s.handleDataPdu crypto pdu else .ok (s.handleControlPdu pdu)

/-! ## Status report -/

/-- `max_bits`: the bitmap of a control PDU of at most 9000 bytes. -/
def maxBitmapBits : Nat := (9000 - 5) * 8

/-- The COUNT behind the last one of the bitmap. -/
def bitmapEnd : Nat :=
  let bitmapBegin := (s.rxDeliv + 1) % 2 ^ 32
  if bitmapBegin < s.rxNext ∧ maxBitmapBits < s.rxNext - bitmapBegin then
    (bitmapBegin + maxBitmapBits) % 2 ^ 32
  else s.rxNext

def compileStatusReport : List UInt8 :=
  let enc : BitEncoder := {}
  -- D/C field, control PDU type, reserved bits
  let enc := ((enc.pack 0 1).pack 0 3).pack 0 4
  let enc := enc.pack s.rxDeliv 32
  let bitmapBegin := (s.rxDeliv + 1) % 2 ^ 32
  let enc := (List.range' bitmapBegin (s.bitmapEnd - bitmapBegin)).foldl
    (fun enc i => enc.pack (if s.rxWindow.contains i then 1 else 0) 1) enc
  enc.bytes

/-! ## Re-establishment -/

def configure (sec : Sec128AsConfig) (integrity ciphering : Bool) :
    Except RxFault (RxEntity cfg) :=
  match configureSecurity cfg.toBearer sec integrity ciphering with
  | .assertion => .error .security
  | .refused => .ok s
  | .installed security => .ok { s with security }

def reestablish (sec : Sec128AsConfig) : Except RxFault (RxEntity cfg) := do
  let s ← if cfg.isSrb then s.discardAllSdus else .ok s
  let s := if cfg.isSrb || cfg.isUm then { s with reorderingTimer := false } else s
  let s ← if cfg.isUm then s.deliverAllSdus else .ok s
  let s := if cfg.isSrb || cfg.isUm then { s with rxNext := 0, rxDeliv := 0, rxReord := 0 } else s
  s.configure sec s.security.integrityEnabled s.security.cipheringEnabled

end

/-! ## Runs -/

inductive Event where
  | pdu (pdu : List UInt8)
  /-- t-Reordering expires. -/
  | reorderingExpiry
  | configureSecurity (sec : Sec128AsConfig) (integrity ciphering : Bool)
  | reestablish (sec : Sec128AsConfig)

/-- One event; `none` if it cannot occur or an assertion fails. -/
def step (crypto : Crypto) (s : RxEntity cfg) : Event → Option (RxEntity cfg)
  | .pdu pdu => (s.handlePdu crypto pdu).toOption
  | .reorderingExpiry =>
    if s.reorderingTimer then
      (handleTReorderingExpire { s with reorderingTimer := false }).toOption
    else none
  | .configureSecurity sec integrity ciphering => (s.configure sec integrity ciphering).toOption
  | .reestablish sec => (s.reestablish sec).toOption

end RxEntity

end RadioStack.Pdcp
