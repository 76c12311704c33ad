import RadioStack.Lib.Reordering
import RadioStack.Lib.Run

/-!
# The receiving side of a GTP-U tunnel on N3

`gtpu_tunnel_ngu_rx_impl`: PDUs with a sequence number are put in order in a window of 32768 before
their SDUs are passed to the lower layer, and t-Reordering bounds how long a missing one is waited
for. The state variables are 16-bit numbers, compared relative to RX_DELIV. The functions return
`none` where a loop over sequence numbers does not end.
-/

namespace RadioStack.Gtpu

/-- `gtpu_sn_mod`. -/
def snMod : Nat := 65536

/-- `gtpu_rx_window_size`. -/
def rxWindowSize : Nat := 32768

inductive ExtensionHeaderType where
  | pduSessionContainer
  | other (type : Nat)
  deriving DecidableEq

structure ExtensionHeader where
  extensionHeaderType : ExtensionHeaderType
  container : List UInt8
  deriving DecidableEq

/-- `gtpu_dissected_pdu`, with the header fields that are read. -/
structure DissectedPdu where
  buf : List UInt8
  hdrLen : Nat
  hdrLen_le : hdrLen ≤ buf.length
  /-- `flags.seq_number`. -/
  hasSeqNumber : Bool
  seqNumber : UInt16
  extList : List ExtensionHeader
  testMode : Bool

/-- `gtpu_rx_sdu_info`. -/
structure RxSduInfo where
  sdu : List UInt8
  qosFlowId : Nat
  sn : Option Nat := none
  deriving DecidableEq

/-- `psup_packing::unpack` of a DL PDU session information: the QoS flow. Bits behind the end of the
container read as zero. -/
def unpackQosFlowId (container : List UInt8) : Option Nat :=
  if (container.getD 0 0).toNat >>> 4 = 0 then some ((container.getD 1 0).toNat &&& 0x3f) else none

/-- The QoS flow of the first PDU session container that can be unpacked. -/
def pduSessionInfo (extList : List ExtensionHeader) : Option Nat :=
  extList.findSome? fun ext =>
    match ext.extensionHeaderType with
    | .pduSessionContainer => unpackQosFlowId ext.container
    | .other _ => none

/-- `gtpu_extract_msg`. -/
def extractMsg (pdu : DissectedPdu) : List UInt8 := pdu.buf.drop pdu.hdrLen

/-- A call of `lower_dn.on_new_sdu`: for a PDU as it arrives, or from the window. -/
inductive Delivery where
  | direct (info : RxSduInfo)
  | window (sn : Nat) (info : RxSduInfo)
  deriving DecidableEq

def Delivery.info : Delivery → RxSduInfo
  | direct info => info
  | window _ info => info

structure NguRxConfig where
  /-- `t_reordering` in milliseconds. -/
  tReordering : Nat

structure NguRx (cfg : NguRxConfig) where
  /-- SN of the next GTP-U SDU expected to be received. -/
  rxNext : Nat := 0
  /-- SN of the first GTP-U SDU not delivered, but still waited for. -/
  rxDeliv : Nat := 0
  /-- SN following that of the GTP-U PDU which triggered t-Reordering. -/
  rxReord : Nat := 0
  rxWindow : CircularMap rxWindowSize RxSduInfo := .empty
  /-- `reordering_timer.is_running()`: until a pending expiry has been handled. -/
  reorderingTimer : Bool := false
  stopped : Bool := false
  delivered : List Delivery := []
  /-- PDUs dropped as duplicates, each with the buffered one of the same SN. -/
  dropped : List (RxSduInfo × RxSduInfo) := []

namespace NguRx

variable {cfg : NguRxConfig}

section

variable (s : NguRx cfg)

def rxModBase (sn : Nat) : Nat := serialSub snMod sn s.rxDeliv

def insideRxWindow (sn : Nat) : Bool := s.rxModBase sn < rxWindowSize

/-- `deliver_sdu` of a PDU that does not go through the window. -/
def deliverSdu (info : RxSduInfo) : NguRx cfg :=
  { s with delivered := s.delivered ++ [.direct info] }

/-- Runs one of the delivery loops from RX_DELIV to `stop`. -/
def deliverUntil (body : CircularMap rxWindowSize RxSduInfo × List (Nat × RxSduInfo) → Nat →
      Option (CircularMap rxWindowSize RxSduInfo × List (Nat × RxSduInfo)))
    (stop : Nat) : Option (NguRx cfg) :=
  (loopUntil snMod stop body snMod (s.rxWindow, []) s.rxDeliv).map fun r =>
    { s with
      rxWindow := r.1.1
      delivered := s.delivered ++ r.1.2.map fun p => .window p.1 p.2
      rxDeliv := r.2 }

def deliverAllConsecutiveSdus : Option (NguRx cfg) :=
  s.deliverUntil CircularMap.popNext s.rxNext

def handleTReorderingExpire : Option (NguRx cfg) :=
  if s.reorderingTimer then some s
  else if !s.insideRxWindow s.rxReord then some s
  else do
    let s ← s.deliverUntil CircularMap.popAny s.rxReord
    let s ← s.deliverAllConsecutiveSdus
    if s.rxModBase s.rxDeliv < s.rxModBase s.rxNext then
      if cfg.tReordering = 0 then some s
      else some { s with rxReord := s.rxNext, reorderingTimer := true }
    else some s

/-- Adds an SDU to the window and updates RX_NEXT. -/
def storeSdu (sn : Nat) (info : RxSduInfo) : NguRx cfg :=
  { s with
    rxWindow := s.rxWindow.overwrite sn info
    rxNext := if s.rxModBase s.rxNext ≤ s.rxModBase sn then (sn + 1) % snMod else s.rxNext }

/-- Stops t-Reordering once RX_REORD is behind the window, and starts it if SNs are missing. -/
def updateReorderingTimer : Option (NguRx cfg) :=
  let s :=
    if s.reorderingTimer && !s.insideRxWindow s.rxReord then { s with reorderingTimer := false }
    else s
  if cfg.tReordering = 0 then handleTReorderingExpire { s with rxReord := s.rxNext }
  else if !s.reorderingTimer && s.rxModBase s.rxDeliv < s.rxModBase s.rxNext then
    some { s with rxReord := s.rxNext, reorderingTimer := true }
  else some s

/-- The part of `handle_pdu` for a PDU with a sequence number. -/
def handleSn (sn : Nat) (info : RxSduInfo) : Option (NguRx cfg) :=
  if !s.insideRxWindow sn then some (s.deliverSdu info)
  else if s.rxModBase sn < s.rxModBase s.rxDeliv then some (s.deliverSdu info)
  else
    match s.rxWindow.get? sn with
    | some buffered => some { s with dropped := s.dropped ++ [(info, buffered)] }
    | none => do
      let s := s.storeSdu sn info
      let s ←
        if s.rxModBase sn = s.rxModBase s.rxDeliv then s.deliverAllConsecutiveSdus else some s
      s.updateReorderingTimer

/-- The SDU of a PDU; `none` without a valid PDU session container. -/
def sduInfo (cfg : NguRxConfig) (pdu : DissectedPdu) : Option RxSduInfo :=
  if pdu.testMode then
    -- QoS Flow ID for test DRB
    some { sdu := pdu.buf, qosFlowId := 1 }
  else
    (pduSessionInfo pdu.extList).map fun qosFlowId =>
      if !pdu.hasSeqNumber || cfg.tReordering = 0 then { sdu := extractMsg pdu, qosFlowId }
      else { sdu := extractMsg pdu, qosFlowId, sn := some pdu.seqNumber.toNat }

def handlePdu (pdu : DissectedPdu) : Option (NguRx cfg) :=
  if s.stopped then some s
  else
    match sduInfo cfg pdu with
    | none => some s
    | some info =>
      match info.sn with
      | none => some (s.deliverSdu info)
      | some sn => s.handleSn sn info

def stop : NguRx cfg :=
  if !s.stopped then { s with reorderingTimer := false, stopped := true } else s

/-! ## Runs -/

inductive Event where
  | pdu (pdu : DissectedPdu)
  /-- The expiry of t-Reordering is handled. -/
  | reorderingExpiry
  | stop

/-- One event; `none` if it cannot occur. The timer stays running until its expiry is handled, which
a stop or a restart in between cancels. -/
def step : Event → Option (NguRx cfg)
  | .pdu pdu => s.handlePdu pdu
  | .reorderingExpiry =>
    if s.reorderingTimer then handleTReorderingExpire { s with reorderingTimer := false } else none
  | .stop => some s.stop

end

end NguRx

end RadioStack.Gtpu
