import RadioStack.Lib.Outcome
import RadioStack.Lib.SerialLoop
import RadioStack.Lib.SerialWindow
import RadioStack.Rlc.Segments
import RadioStack.Rlc.StatusPdu

/-!
# The AM receiver

`rlc_rx_am_entity`: data PDUs are placed in the RX window, complete SDUs are handed to the upper
layer, and the state variables follow TS 38.322. Status reports are built into one of three
buffers, stored and taken by swapping pointers. An assertion of the source that fails ends the
run: the functions return `Except Fault`.
-/

namespace RadioStack.Rlc.RxAm

/-- Either a full SDU or a set of SDU segments. -/
inductive SduData where
  | slice (payload : List UInt8)
  | segments (set : List RxSegment)
  deriving DecidableEq

/-- Received SDUs or SDU segments until fully received. -/
structure SduInfo where
  fullyReceived : Bool := false
  hasGap : Bool := false
  sduData : SduData := .slice []
  deriving DecidableEq

/-- `store_segment` followed by `update_segment_inventory`. -/
def SduInfo.store (info : SduInfo) (segment : RxSegment) :
    SduInfo × Bool :=
  let segments := match info.sduData with
    | .segments set => set
    | .slice _ => []
  let stored := storeSegment segments segment
  let inventory := segmentInventory 0 stored.1
  ({ fullyReceived := inventory.1, hasGap := inventory.2, sduData := .segments stored.1 },
    stored.2)

/-- `reassemble_sdu`; `none` if the chain of the slices has no place for them. -/
def SduInfo.reassemble (info : SduInfo) : Option (List UInt8) :=
  match info.sduData with
  | .slice payload => (appendSlice [] payload).map List.flatten
  | .segments set => chainSegments set

structure Config where
  snFieldLength : AmSnSize
  tReassembly : Nat
  tStatusProhibit : Nat
  maxSnPerStatus : Option Nat
  /-- Asserted by the constructor of the entity. -/
  maxSnPerStatus_ok : ∀ n, maxSnPerStatus = some n → 0 < n ∧ n ≤ snFieldLength.window

def Config.maxNofSnPerStatusReport (cfg : Config) : Nat :=
  cfg.maxSnPerStatus.getD cfg.snFieldLength.window

inductive Fault where
  /-- `(*rx_window)[sn]` for an SN that is not in the window. -/
  | windowAccess (sn : Nat)
  /-- `valid_ack_sn(sn_upd)` when the reassembly timer expires. -/
  | highestStatus (snUpd : Nat)
  /-- An incomplete SDU without a set of segments. -/
  | sduDataVariant (sn : Nat)
  /-- `nack.so_start <= nack.so_end`. -/
  | nackOffsets (sn : Nat)
  deriving DecidableEq

/-- The RX window: SNs of `n` with at most one SDU per residue modulo the window size. -/
abbrev Window (n : AmSnSize) := CircularMap n.window SduInfo

/-- State variables, RX window and reassembly timer. -/
structure Core (n : AmSnSize) where
  rxNext : Nat
  rxNextStatusTrigger : Nat
  rxHighestStatus : Nat
  rxNextHighest : Nat
  rxWindow : Window n
  /-- `reassembly_timer.is_running()`. -/
  reassemblyTimer : Bool

/-- `has_sn(sn) && (*rx_window)[sn].fully_received`. -/
def fullyReceivedAt {n : AmSnSize} (w : Window n) (sn : Nat) : Bool :=
  (w.get? sn).any (·.fullyReceived)

/-- `has_sn(sn) && (*rx_window)[sn].has_gap`. -/
def hasGapAt {n : AmSnSize} (w : Window n) (sn : Nat) : Bool :=
  (w.get? sn).any (·.hasGap)

namespace Core

variable {n : AmSnSize}

def init (n : AmSnSize) : Core n :=
  { rxNext := 0, rxNextStatusTrigger := 0, rxHighestStatus := 0, rxNextHighest := 0
    rxWindow := .empty, reassemblyTimer := false }

section

variable (c : Core n)

def rxModBase (sn : Nat) : Nat := serialSub n.mod sn c.rxNext

def insideRxWindow (sn : Nat) : Bool := c.rxModBase sn < n.window

def validAckSn (sn : Nat) : Bool :=
  0 < c.rxModBase sn && c.rxModBase sn ≤ n.window

/-! ## Data PDUs -/

/-- Writes the SDU info of `sn`, adding the SN if it is not in the window. -/
def putSdu (sn : Nat) (info : SduInfo) : Core n :=
  { c with
    rxWindow :=
      if c.rxWindow.contains sn then c.rxWindow.modify sn fun _ => info
      else c.rxWindow.overwrite sn info }

/-- The SDU info of `sn`: a new one if the SN is not in the window. -/
def sduInfo (sn : Nat) : SduInfo := (c.rxWindow.get? sn).getD {}

variable (header : AmPduHeader)

variable (payload : List UInt8)

def handleFullDataSdu :
    Core n × Bool :=
  (c.putSdu header.sn { fullyReceived := true, hasGap := false, sduData := .slice payload }, true)

def handleSegmentDataSdu :
    Core n × Bool :=
  let stored := (c.sduInfo header.sn).store { si := header.si, so := header.so, payload }
  (c.putSdu header.sn stored.1, stored.2)

/-- Writes a full SDU or an SDU segment to the RX window; `true` if that changed it. -/
def store : Core n × Bool :=
  if header.si = .fullSdu then c.handleFullDataSdu header payload
  else c.handleSegmentDataSdu header payload

def updateRxNextHighest (sn : Nat) : Core n :=
  if c.rxModBase c.rxNextHighest ≤ c.rxModBase sn then
    { c with rxNextHighest := (sn + 1) % n.mod }
  else c

/-- Releases the buffers, keeping the flags for the status report. -/
def releaseSdu (sn : Nat) : Core n :=
  { c with rxWindow := c.rxWindow.modify sn fun info => { info with sduData := .slice [] } }

/-- The first SN from `start` on, below `rx_next_highest`, that is not fully received. -/
def firstMissing (start : Nat) : Nat :=
  (serialLoop n.mod c.rxNext c.rxNextHighest
    (fun (_ : Unit) sn => if fullyReceivedAt c.rxWindow sn then some () else none)
    n.mod () start).2

def updateRxHighestStatus (sn : Nat) : Core n :=
  if c.rxModBase sn = c.rxModBase c.rxHighestStatus then
    { c with rxHighestStatus := c.firstMissing ((c.rxHighestStatus + 1) % n.mod) }
  else c

/-- Moves `rx_next` forward and removes the fully received SDUs it passes. -/
def updateRxNext (sn : Nat) : Core n :=
  if c.rxModBase sn = c.rxModBase c.rxNext then
    let r := serialLoop n.mod c.rxNext c.rxNextHighest
      (fun w sn => if fullyReceivedAt w sn then some (w.erase sn) else none)
      n.mod c.rxWindow (c.rxNext % n.mod)
    { c with rxWindow := r.1, rxNext := r.2 }
  else c

/-- Hands a fully received SDU to the upper layer, or drops it if it cannot be reassembled, and
updates the state variables. -/
def deliver (sn : Nat) : Core n × Option (List UInt8) :=
  match c.rxWindow.get? sn with
  | some info =>
    if info.fullyReceived then
      (((c.releaseSdu sn).updateRxHighestStatus sn).updateRxNext sn, info.reassemble)
    else (c, none)
  | none => (c, none)

def stopReassemblyTimer : Except Fault (Core n) :=
  if !c.reassemblyTimer then .ok c
  else
    let gapFree : Except Fault Bool :=
      if c.rxModBase c.rxNextStatusTrigger = c.rxModBase (c.rxNext + 1) then
        -- read without a check that the SN is present
        match c.rxWindow.get? c.rxNext with
        | some info => .ok !info.hasGap
        | none => .error (.windowAccess c.rxNext)
      else .ok false
    gapFree.map fun gapFree =>
      { c with
        reassemblyTimer := !(c.rxNextStatusTrigger == c.rxNext || gapFree ||
          !c.insideRxWindow c.rxNextStatusTrigger) }

/-- Starts the reassembly timer if SDUs behind `sn`, or bytes of it, are missing. -/
def startReassemblyTimer (sn : Nat) : Core n :=
  if c.rxModBase (sn + 1) < c.rxModBase c.rxNextHighest ∨
      (c.rxModBase c.rxNextHighest = c.rxModBase (sn + 1) ∧ hasGapAt c.rxWindow sn) then
    { c with reassemblyTimer := true, rxNextStatusTrigger := c.rxNextHighest }
  else c

/-- What a data PDU does to the window: the report has to be rebuilt, an SDU is handed up. -/
structure Placed (n : AmSnSize) where
  core : Core n
  statusChanged : Bool
  sdu : Option (List UInt8)

/-- `handle_data_pdu`, from the check of the RX window on. -/
def placePdu :
    Except Fault (Placed n) :=
  if !c.insideRxWindow header.sn then .ok ⟨c, false, none⟩
  else if fullyReceivedAt c.rxWindow header.sn then .ok ⟨c, false, none⟩
  else
    let stored := c.store header payload
    let delivered := (stored.1.updateRxNextHighest header.sn).deliver header.sn
    delivered.1.stopReassemblyTimer.map fun c =>
      ⟨if c.reassemblyTimer then c else c.startReassemblyTimer c.rxNext, stored.2, delivered.2⟩

/-! ## Expiry of the reassembly timer -/

/-- `on_expired_reassembly_timer`; `true` if a status report is triggered. -/
def onExpiredReassemblyTimer : Except Fault (Core n × Bool) :=
  -- restarted between the expiry and this handler
  if c.reassemblyTimer then .ok (c, false)
  else if !c.validAckSn c.rxNextStatusTrigger then .ok (c, false)
  else
    let snUpd := c.firstMissing c.rxNextStatusTrigger
    if !c.validAckSn snUpd then .error (.highestStatus snUpd)
    else
      let c := { c with rxHighestStatus := snUpd }
      .ok (c.startReassemblyTimer c.rxHighestStatus, true)

/-! ## Status report -/

/-- NACKs for the missing bytes of a partly received SDU. -/
def nackSegments (sn : Nat) :
    (lastSo : Nat) → (haveLastSegment : Bool) → List RxSegment → StatusPdu →
    Except Fault StatusPdu
  | _, true, [], report => .ok report
  | lastSo, false, [], report =>
    .ok (report.pushNack
      { nackSn := sn, hasSo := true, soStart := lastSo % 2 ^ 16, soEnd := soEndOfSdu })
  | lastSo, haveLastSegment, segm :: set, report =>
    let nack : StatusNack :=
      { nackSn := sn, hasSo := true, soStart := lastSo % 2 ^ 16
        soEnd := (segm.so + (2 ^ 16 - 1)) % 2 ^ 16 }
    if segm.so ≠ lastSo ∧ nack.soEnd < nack.soStart then .error (.nackOffsets sn)
    else
      nackSegments sn (segm.so + segm.payload.length)
        (haveLastSegment || segm.si == .lastSegment) set
        (if segm.so ≠ lastSo then report.pushNack nack else report)

/-- NACKs for one SN, given its entry in the window. -/
def nackSdu (entry : Option SduInfo) (sn : Nat) (report : StatusPdu) : Except Fault StatusPdu :=
  match entry with
  | none => .ok (report.pushNack { nackSn := sn })
  | some info =>
    if info.fullyReceived then .ok report
    else
      match info.sduData with
      | .slice _ => .error (.sduDataVariant sn)
      | .segments set => nackSegments sn 0 false set report

/-- The SN up to which a report looks: at most `maxNofSn` SNs are visited. -/
def stopSn (maxNofSn : Nat) : Nat :=
  let limit := (c.rxNext + maxNofSn) % n.mod
  if c.rxModBase limit < c.rxModBase c.rxHighestStatus then limit else c.rxHighestStatus

/-- `refresh_status_report`, on the emptied builder. -/
def buildStatusReport (maxNofSn : Nat) (builder : StatusPdu) :
    Except Fault StatusPdu :=
  let stop := c.stopSn maxNofSn
  let r := serialLoop n.mod c.rxNext stop
    (fun (r : Except Fault StatusPdu) sn => some (r.bind (nackSdu (c.rxWindow.get? sn) sn)))
    n.mod (.ok builder.reset) c.rxNext
  r.1.map fun report => { report with ackSn := stop }

end

end Core

end RadioStack.Rlc.RxAm

namespace RadioStack.Rlc

open RxAm

structure RxAm (cfg : Config) where
  core : Core cfg.snFieldLength
  /-- A status report is required. -/
  doStatus : Bool
  statusProhibitTimerIsRunning : Bool
  /-- Status reports for building, caching and sharing with the TX entity. -/
  statusBuf : Fin 3 → StatusPdu
  statusBuilder : Fin 3
  statusCached : Fin 3
  statusShared : Fin 3
  /-- Size of the cached status report. -/
  statusReportSize : Nat

namespace RxAm

variable {cfg : Config}

section

local instance neZeroBuf : NeZero 3 := ⟨by decide⟩

def init (cfg : Config) : RxAm cfg :=
  { core := .init _, doStatus := false, statusProhibitTimerIsRunning := false
    statusBuf := fun i =>
      if i = 1 then { snSize := cfg.snFieldLength, ackSn := 0 } else { snSize := cfg.snFieldLength }
    statusBuilder := 0, statusCached := 1, statusShared := 2
    statusReportSize := ({ snSize := cfg.snFieldLength } : StatusPdu).packedSize }

end

section

variable (e : RxAm cfg)

def storeStatusReport : RxAm cfg :=
  { e with
    statusBuilder := e.statusCached
    statusCached := e.statusBuilder
    statusReportSize := (e.statusBuf e.statusBuilder).packedSize }

/-- The builder holds `report` and is stored. -/
def install (report : StatusPdu) : RxAm cfg :=
  { e with statusBuf := Function.update e.statusBuf e.statusBuilder report }.storeStatusReport

def refreshStatusReport : Except Fault (RxAm cfg × StatusPdu) :=
  (e.core.buildStatusReport cfg.maxNofSnPerStatusReport (e.statusBuf e.statusBuilder)).map
    fun report => (e.install report, report)

/-- `get_status_pdu`: the shared report, for the TX entity. -/
def getStatusPdu : RxAm cfg × StatusPdu :=
  ({ e with
      doStatus := false
      statusProhibitTimerIsRunning := e.statusProhibitTimerIsRunning || 0 < cfg.tStatusProhibit
      statusShared := e.statusCached
      statusCached := e.statusShared },
    e.statusBuf e.statusCached)

/-- The TX entity trims the shared report in place. -/
def trimStatusPdu (grantLen : Nat) : RxAm cfg :=
  match (e.statusBuf e.statusShared).trim grantLen with
  | some report => { e with statusBuf := Function.update e.statusBuf e.statusShared report }
  | none => e

def getStatusPduLength : Nat := e.statusReportSize

def statusReportRequired : Bool := e.doStatus && !e.statusProhibitTimerIsRunning

structure Output where
  /-- SDU handed to the upper layer. -/
  sdu : Option (List UInt8) := none
  /-- Status PDU handed to the TX entity. -/
  status : Option StatusPdu := none
  /-- Report built by `refresh_status_report`. -/
  built : Option StatusPdu := none
  /-- Report returned by `get_status_pdu`. -/
  report : Option StatusPdu := none
  deriving DecidableEq

def handleDataPdu (buf : List UInt8) : Except Fault (RxAm cfg × Output) :=
  match readDataPduHeader cfg.snFieldLength buf with
  | none => .ok (e, {})
  | some header =>
    -- there must be at least one payload byte
    if buf.length ≤ header.packedSize then .ok (e, {})
    else do
      let placed ← e.core.placePdu header (buf.drop header.packedSize)
      let e := { e with core := placed.core }
      -- the poll bit counts for PDUs that are discarded, too
      if placed.statusChanged then
        let (e, report) ← e.refreshStatusReport
        .ok ({ e with doStatus := e.doStatus || header.p },
          { sdu := placed.sdu, built := some report })
      else .ok ({ e with doStatus := e.doStatus || header.p }, { sdu := placed.sdu })

def handlePdu (buf : List UInt8) : Except Fault (RxAm cfg × Output) :=
  if buf.isEmpty then .ok (e, {})
  else if StatusPdu.isControlPdu buf then
    .ok (e, { status := StatusPdu.unpack cfg.snFieldLength buf })
  else e.handleDataPdu buf

/-- The reassembly timer stops running and calls its handler. -/
def reassemblyTimerExpired : Except Fault (RxAm cfg × Output) := do
  let core := { e.core with reassemblyTimer := false }
  -- without a configured duration the timer has no handler
  if cfg.tReassembly = 0 then .ok ({ e with core }, {})
  else
    let r ← core.onExpiredReassemblyTimer
    if r.2 then
      let (e, report) ← { e with core := r.1 }.refreshStatusReport
      .ok ({ e with doStatus := true }, { built := some report })
    else .ok ({ e with core := r.1 }, {})

def onExpiredStatusProhibitTimer : RxAm cfg :=
  { e with statusProhibitTimerIsRunning := false }

inductive Event where
  | handlePdu (buf : List UInt8)
  | reassemblyTimerExpired
  | statusProhibitTimerExpired
  | getStatusPdu
  | trimStatusPdu (grantLen : Nat)

/-- One call of the entity; a timer expires only while it is running. -/
def step : Event → Option (Except Fault (RxAm cfg × Output))
  | .handlePdu buf => some (e.handlePdu buf)
  | .reassemblyTimerExpired =>
    if e.core.reassemblyTimer then some e.reassemblyTimerExpired else none
  | .statusProhibitTimerExpired => some (.ok (e.onExpiredStatusProhibitTimer, {}))
  | .getStatusPdu =>
    let r := e.getStatusPdu
    some (.ok (r.1, { report := some r.2 }))
  | .trimStatusPdu grantLen => some (.ok (e.trimStatusPdu grantLen, {}))

def Step (ev : Event) (e' : RxAm cfg) : Prop :=
  ∃ out, e.step ev = some (.ok (e', out))

/-! ## What a call does -/

/-- The report a refresh of `e` builds. -/
def Builds (report : StatusPdu) : Prop :=
  e.core.buildStatusReport cfg.maxNofSnPerStatusReport (e.statusBuf e.statusBuilder) = .ok report

end

/-- Every way a call can return. -/
inductive Transition (e : RxAm cfg) : Event → RxAm cfg → Output → Prop
  | dropped (buf : List UInt8) : Transition e (.handlePdu buf) e {}
  | control (buf : List UInt8) (hc : StatusPdu.isControlPdu buf = true) :
    Transition e (.handlePdu buf) e { status := StatusPdu.unpack cfg.snFieldLength buf }
  | data {buf : List UInt8} {header : AmPduHeader} {p : Core.Placed cfg.snFieldLength}
    (hread : readDataPduHeader cfg.snFieldLength buf = some header)
    (hlen : header.packedSize < buf.length)
    (hplace : e.core.placePdu header (buf.drop header.packedSize) = .ok p)
    (hsame : p.statusChanged = false) :
    Transition e (.handlePdu buf) { e with core := p.core, doStatus := e.doStatus || header.p }
      { sdu := p.sdu }
  | dataReport {buf : List UInt8} {header : AmPduHeader} {p : Core.Placed cfg.snFieldLength}
    {report : StatusPdu}
    (hread : readDataPduHeader cfg.snFieldLength buf = some header)
    (hlen : header.packedSize < buf.length)
    (hplace : e.core.placePdu header (buf.drop header.packedSize) = .ok p)
    (hchanged : p.statusChanged = true) (hbuild : { e with core := p.core }.Builds report) :
    Transition e (.handlePdu buf)
      { { e with core := p.core }.install report with doStatus := e.doStatus || header.p }
      { sdu := p.sdu, built := some report }
  | timerWithoutHandler (hrun : e.core.reassemblyTimer = true) (ht : cfg.tReassembly = 0) :
    Transition e .reassemblyTimerExpired
      { e with core := { e.core with reassemblyTimer := false } } {}
  | timerSkipped {c : Core cfg.snFieldLength} (hrun : e.core.reassemblyTimer = true)
    (hexp : { e.core with reassemblyTimer := false }.onExpiredReassemblyTimer = .ok (c, false)) :
    Transition e .reassemblyTimerExpired { e with core := c } {}
  | timerReport {c : Core cfg.snFieldLength} {report : StatusPdu}
    (hrun : e.core.reassemblyTimer = true)
    (hexp : { e.core with reassemblyTimer := false }.onExpiredReassemblyTimer = .ok (c, true))
    (hbuild : { e with core := c }.Builds report) :
    Transition e .reassemblyTimerExpired
      { { e with core := c }.install report with doStatus := true } { built := some report }
  | prohibit : Transition e .statusProhibitTimerExpired e.onExpiredStatusProhibitTimer {}
  | get : Transition e .getStatusPdu e.getStatusPdu.1 { report := some e.getStatusPdu.2 }
  | trim (grantLen : Nat) : Transition e (.trimStatusPdu grantLen) (e.trimStatusPdu grantLen) {}

variable {e e' : RxAm cfg}

theorem refreshStatusReport_ok {report : StatusPdu} (h : e.refreshStatusReport = .ok (e', report)) :
    e.Builds report ∧ e' = e.install report := by
  obtain ⟨built, hb, heq⟩ := exists_of_map_ok h
  cases heq
  exact ⟨hb, rfl⟩

variable {out : Output}

theorem handleDataPdu_transition {buf : List UInt8} (h : e.handleDataPdu buf = .ok (e', out)) :
    Transition e (.handlePdu buf) e' out := by
  unfold handleDataPdu at h
  split at h
  · cases h
    exact .dropped buf
  · next header hread =>
    split at h
    · cases h
      exact .dropped buf
    · next hlen =>
      obtain ⟨p, hplace, h⟩ := exists_of_bind_ok h
      split at h
      · next hch =>
        obtain ⟨⟨_, report⟩, hr, h⟩ := exists_of_bind_ok h
        cases h
        obtain ⟨hb, rfl⟩ := refreshStatusReport_ok hr
        exact .dataReport hread (Nat.lt_of_not_le hlen) hplace hch hb
      · next hch =>
        cases h
        exact .data hread (Nat.lt_of_not_le hlen) hplace (Bool.eq_false_of_not_eq_true hch)

theorem reassemblyTimerExpired_transition (hrun : e.core.reassemblyTimer = true)
    (h : e.reassemblyTimerExpired = .ok (e', out)) :
    Transition e .reassemblyTimerExpired e' out := by
  unfold reassemblyTimerExpired at h
  split at h
  · next ht =>
    cases h
    exact .timerWithoutHandler hrun ht
  · obtain ⟨⟨c, updated⟩, hexp, h⟩ := exists_of_bind_ok h
    cases updated with
    | false =>
      cases h
      exact .timerSkipped hrun hexp
    | true =>
      obtain ⟨⟨_, report⟩, hr, h⟩ := exists_of_bind_ok h
      cases h
      obtain ⟨hb, rfl⟩ := refreshStatusReport_ok hr
      exact .timerReport hrun hexp hb

theorem step_transition {ev : Event} (h : e.step ev = some (.ok (e', out))) :
    Transition e ev e' out := by
  cases ev with
  | handlePdu buf =>
    have h : e.handlePdu buf = .ok (e', out) := Option.some.inj h
    unfold handlePdu at h
    split at h
    · cases h
      exact .dropped buf
    · split at h
      · next hc =>
        cases h
        exact .control buf hc
      · exact handleDataPdu_transition h
  | reassemblyTimerExpired =>
    simp only [step] at h
    split_ifs at h with hrun
    exact reassemblyTimerExpired_transition hrun (Option.some.inj h)
  | statusProhibitTimerExpired =>
    cases h
    exact .prohibit
  | getStatusPdu =>
    cases h
    exact .get
  | trimStatusPdu grantLen =>
    cases h
    exact .trim grantLen

end RxAm

end RadioStack.Rlc
