import RadioStack.Lib.Run
import RadioStack.Lib.SerialLoop
import RadioStack.Lib.SerialWindow
import RadioStack.Rlc.Segments
import RadioStack.Rlc.UmPdu

/-!
# The UM receiver

`rlc_rx_um_entity`: a PDU with a full SDU is handed to the upper layer at once, segments are placed
in the RX window. The higher edge of the reassembly window is RX_Next_Highest, its lower edge lies
one window size behind; sequence numbers are compared by their distance from the lower edge.
-/

namespace RadioStack.Rlc.RxUm

/-- Received SDU segments until fully received. -/
structure SduInfo where
  fullyReceived : Bool := false
  hasGap : Bool := false
  segments : List RxSegment := []
  deriving DecidableEq

/-- `store_segment` followed by `update_segment_inventory`. -/
def SduInfo.store (info : SduInfo) (segment : RxSegment) : SduInfo :=
  let segments := (storeSegment info.segments segment).1
  let inventory := segmentInventory 0 segments
  { fullyReceived := inventory.1, hasGap := inventory.2, segments }

structure Config where
  snFieldLength : UmSnSize
  tReassembly : Nat

abbrev Window (n : UmSnSize) := CircularMap n.window SduInfo

/-- `has_sn(sn) && (*rx_window)[sn].fully_received`. -/
def fullyReceivedAt {n : UmSnSize} (w : Window n) (sn : Nat) : Bool :=
  (w.get? sn).any (·.fullyReceived)

/-- `has_sn(sn) && (*rx_window)[sn].has_gap`. -/
def hasGapAt {n : UmSnSize} (w : Window n) (sn : Nat) : Bool := (w.get? sn).any (·.hasGap)

end RadioStack.Rlc.RxUm

namespace RadioStack.Rlc

open RxUm

/-- State variables, RX window and reassembly timer of the receiving UM entity. -/
structure RxUm (n : UmSnSize) where
  rxNextReassembly : Nat
  rxTimerTrigger : Nat
  rxNextHighest : Nat
  rxWindow : Window n
  /-- `reassembly_timer.is_running()`. -/
  reassemblyTimer : Bool

namespace RxUm

variable {n : UmSnSize}

def init (n : UmSnSize) : RxUm n :=
  { rxNextReassembly := 0, rxTimerTrigger := 0, rxNextHighest := 0, rxWindow := .empty
    reassemblyTimer := false }

/-! ## Window helpers -/

/-- `rx_mod_base`: the distance from the lower edge of the reassembly window. -/
def rxModBase (s : RxUm n) (x : Nat) : Nat := serialSub n.mod x (s.rxNextHighest + n.window)

/-- `st.rx_next_highest - um_window_size`, on `uint32_t`. -/
def lowerEdge (s : RxUm n) : Nat := s.rxNextHighest + (2 ^ 32 - n.window)

def snInReassemblyWindow (s : RxUm n) (sn : Nat) : Bool :=
  s.rxModBase s.lowerEdge ≤ s.rxModBase sn && s.rxModBase sn < s.rxModBase s.rxNextHighest

def snInvalidForRxBuffer (s : RxUm n) (sn : Nat) : Bool :=
  s.rxModBase s.lowerEdge ≤ s.rxModBase sn && s.rxModBase sn < s.rxModBase s.rxNextReassembly

/-! ## Segments -/

/-- The SDU info of `sn`: a new one if the SN is not in the window. -/
def sduInfo (s : RxUm n) (sn : Nat) : SduInfo := (s.rxWindow.get? sn).getD {}

/-- Writes the SDU info of `sn`, adding the SN if it is not in the window. -/
def putSdu (s : RxUm n) (sn : Nat) (info : SduInfo) : RxUm n :=
  { s with
    rxWindow :=
      if s.rxWindow.contains sn then s.rxWindow.modify sn fun _ => info
      else s.rxWindow.overwrite sn info }

def handleSegmentDataSdu (s : RxUm n) (header : UmPduHeader) (payload : List UInt8) : RxUm n :=
  s.putSdu header.sn ((s.sduInfo header.sn).store { si := header.si, so := header.so, payload })

/-- Moves `rx_next_reassembly` to the first SN from `start` on, below `rx_next_highest`, that is not
fully received, and removes the SDUs it passes. -/
def updateRxNextReassembly (s : RxUm n) (start : Nat) : RxUm n :=
  let r := serialLoop n.mod (s.rxNextHighest + n.window) s.rxNextHighest
    (fun w sn => if fullyReceivedAt w sn then some (w.erase sn) else none) n.mod s.rxWindow start
  { s with rxWindow := r.1, rxNextReassembly := r.2 }

/-- All segments with SN = `sn` are received: they are released. -/
def releaseSdu (s : RxUm n) (sn : Nat) : RxUm n :=
  let s := { s with rxWindow := s.rxWindow.modify sn fun info => { info with segments := [] } }
  if sn = s.rxNextReassembly then s.updateRxNextReassembly (s.rxNextReassembly % n.mod) else s

/-- The loop that removes what is not in the reassembly window, from `sn` on. -/
def cleanLoop (s : RxUm n) : Nat → Window n → Nat → Window n × Nat
  | 0, w, sn => (w, sn)
  | fuel + 1, w, sn =>
    if !s.snInReassemblyWindow sn then cleanLoop s fuel (w.erase sn) ((sn + 1) % n.mod)
    else (w, sn)

section

variable (s : RxUm n)

/-- `sn` falls outside of the reassembly window and becomes its highest SN. -/
def moveWindow (sn : Nat) : RxUm n :=
  let s := { s with rxNextHighest := (sn + 1) % n.mod }
  let r := s.cleanLoop n.mod s.rxWindow (s.rxNextReassembly % n.mod)
  { s with rxWindow := r.1 }.updateRxNextReassembly r.2

/-- Places a segment in the RX window, up to the timer; the SDU it completes is handed up, or
dropped if it cannot be reassembled. -/
def placeSegment (header : UmPduHeader) (payload : List UInt8) :
    RxUm n × Option (List UInt8) :=
  let s := s.handleSegmentDataSdu header payload
  if fullyReceivedAt s.rxWindow header.sn then
    (s.releaseSdu header.sn, chainSegments (s.sduInfo header.sn).segments)
  else if !s.snInReassemblyWindow header.sn then (s.moveWindow header.sn, none)
  else (s, none)

/-! ## The reassembly timer -/

/-- The three tests that stop the running reassembly timer. -/
def stopsReassemblyTimer : Bool :=
  s.rxTimerTrigger ≤ s.rxNextReassembly ||
    (!s.snInReassemblyWindow s.rxTimerTrigger && s.rxTimerTrigger != s.rxNextHighest) ||
    (s.rxNextHighest == s.rxNextReassembly + 1 && s.rxWindow.contains s.rxNextHighest &&
      !hasGapAt s.rxWindow s.rxNextHighest)

/-- Starts the reassembly timer if SDUs or bytes are missing. -/
def startReassemblyTimer : RxUm n :=
  if s.rxModBase (s.rxNextReassembly + 1) < s.rxModBase s.rxNextHighest ∨
      (s.rxModBase s.rxNextHighest = s.rxModBase (s.rxNextReassembly + 1) ∧
        hasGapAt s.rxWindow s.rxNextHighest) then
    { s with reassemblyTimer := true, rxTimerTrigger := s.rxNextHighest }
  else s

/-- The end of `handle_pdu`; `true` if the timer was stopped. -/
def updateReassemblyTimer : RxUm n × Bool :=
  let stopped := s.reassemblyTimer && s.stopsReassemblyTimer
  let s := { s with reassemblyTimer := s.reassemblyTimer && !stopped }
  (if s.reassemblyTimer then s else s.startReassemblyTimer, stopped)

/-! ## Calls -/

/-- Header and payload of a PDU, if it has both. -/
def readPdu (n : UmSnSize) (buf : List UInt8) : Option (UmPduHeader × List UInt8) :=
  match Um.readDataPduHeader n buf with
  | none => none
  | some (header, _) =>
    if buf.length ≤ Um.packedLength header then none
    else some (header, buf.drop (Um.packedLength header))

/-- What a call does besides changing the state. -/
structure Output where
  /-- The SDU handed to the upper layer, with its SN if it has one. -/
  sdu : Option (Option Nat × List UInt8) := none
  timerStopped : Bool := false
  deriving DecidableEq

def handlePdu (buf : List UInt8) : RxUm n × Output :=
  match readPdu n buf with
  | none => (s, {})
  | some (header, payload) =>
    if header.si = .fullSdu then (s, { sdu := some (none, payload) })
    else if s.snInvalidForRxBuffer header.sn then (s, {})
    else
      let placed := s.placeSegment header payload
      let timed := placed.1.updateReassemblyTimer
      (timed.1, { sdu := placed.2.map fun sdu => (some header.sn, sdu), timerStopped := timed.2 })

/-- Moves `rx_next_reassembly` to the first SN from the trigger on that is not fully received. -/
def passTrigger : RxUm n :=
  let r := serialLoop n.mod (s.rxNextHighest + n.window) s.rxNextHighest
    (fun w sn =>
      -- anything below the trigger is removed, from there on what is fully received
      if s.rxModBase sn < s.rxModBase s.rxTimerTrigger then some (w.erase sn)
      else if fullyReceivedAt w sn then some (w.erase sn) else none)
    n.mod s.rxWindow s.rxNextReassembly
  { s with rxWindow := r.1, rxNextReassembly := r.2 }

def onExpiredReassemblyTimer : RxUm n := s.passTrigger.startReassemblyTimer

end

end RxUm

abbrev RxUm.Entity (cfg : RxUm.Config) := RxUm cfg.snFieldLength

namespace RxUm

/-- The reassembly timer stops running and calls its handler, if it has a duration. -/
def reassemblyTimerExpired (cfg : Config) (s : Entity cfg) : Entity cfg :=
  let s := { s with reassemblyTimer := false }
  if cfg.tReassembly = 0 then s else s.onExpiredReassemblyTimer

inductive Event where
  | handlePdu (buf : List UInt8)
  | reassemblyTimerExpired

/-- One call of the entity; the timer expires only while it is running. -/
def step (cfg : Config) (s : Entity cfg) : Event → Option (Entity cfg × Output)
  | .handlePdu buf => some (s.handlePdu buf)
  | .reassemblyTimerExpired =>
    if s.reassemblyTimer then some (reassemblyTimerExpired cfg s, {}) else none

def Step (cfg : Config) (s : Entity cfg) (ev : Event) (s' : Entity cfg) : Prop :=
  ∃ out, step cfg s ev = some (s', out)

/-! ## Distances from the lower edge -/

variable {s : RxUm n}

theorem mod_dvd (n : UmSnSize) : n.mod ∣ 2 ^ 32 := by cases n <;> decide

theorem rxModBase_rxNextHighest (s : RxUm n) : s.rxModBase s.rxNextHighest = n.window := by
  have hmod := n.mod_eq
  have hpos := n.window_pos
  have hturn : s.rxNextHighest ≡ s.rxNextHighest + n.mod [MOD n.mod] := by
    rw [Nat.ModEq, Nat.add_mod_right]
  have h := serialSub_eq (mod_dvd n) hturn (Nat.ModEq.refl (s.rxNextHighest + n.window))
    (by omega) (by omega)
  rw [rxModBase, h]
  omega

theorem rxModBase_lowerEdge (s : RxUm n) : s.rxModBase s.lowerEdge = 0 := by
  have hmod := n.mod_eq
  have hle : n.mod ≤ 2 ^ 32 := Nat.le_of_dvd (by decide) (mod_dvd n)
  obtain ⟨k, hk⟩ := mod_dvd n
  have hedge : s.lowerEdge ≡ s.rxNextHighest + n.window [MOD n.mod] := by
    have hsum : s.lowerEdge + n.mod = s.rxNextHighest + n.window + n.mod * k := by
      rw [← hk, lowerEdge]
      omega
    rw [Nat.ModEq, ← Nat.add_mod_right, hsum, Nat.add_mul_mod_self_left]
  have h := serialSub_eq (mod_dvd n) hedge (Nat.ModEq.refl (s.rxNextHighest + n.window)) le_rfl
    (by rw [Nat.sub_self]; exact n.mod_pos)
  rw [rxModBase, h, Nat.sub_self]

theorem snInReassemblyWindow_iff {sn : Nat} :
    s.snInReassemblyWindow sn = true ↔ s.rxModBase sn < n.window := by
  rw [snInReassemblyWindow, rxModBase_lowerEdge, rxModBase_rxNextHighest]
  simp

/-- The window behind the SN that moved it. -/
theorem snInReassemblyWindow_moved (s : RxUm n) (sn : Nat) :
    ({ s with rxNextHighest := (sn + 1) % n.mod } : RxUm n).snInReassemblyWindow sn = true := by
  have hmod := n.mod_eq
  have hpos := n.window_pos
  rw [snInReassemblyWindow_iff]
  have hbase : (sn + 1) % n.mod + n.window ≡ sn + 1 + n.window [MOD n.mod] :=
    (Nat.mod_modEq _ _).add_right _
  have hturn : sn ≡ sn + n.mod [MOD n.mod] := by rw [Nat.ModEq, Nat.add_mod_right]
  have h := serialSub_eq (mod_dvd n) hturn hbase (by omega) (by omega)
  show serialSub n.mod sn ((sn + 1) % n.mod + n.window) < n.window
  omega

/-! ## Entries -/

theorem get?_putSdu (s : RxUm n) (sn : Nat) (info : SduInfo) :
    (s.putSdu sn info).rxWindow.get? sn = some info := by
  unfold putSdu
  cases hc : s.rxWindow.contains sn with
  | true =>
    obtain ⟨old, hold⟩ := CircularMap.contains_iff.1 hc
    simp only [if_true, CircularMap.get?_modify, hold, Option.map_some]
  | false => simp only [Bool.false_eq_true, if_false, CircularMap.get?_overwrite, if_true]

theorem get?_putSdu_of_ne {sn x : Nat} (hne : x ≠ sn) {info info' : SduInfo}
    (h : (s.putSdu sn info).rxWindow.get? x = some info') : s.rxWindow.get? x = some info' := by
  unfold putSdu at h
  cases hc : s.rxWindow.contains sn with
  | true =>
    simp only [hc, if_true, CircularMap.get?_modify, if_neg hne] at h
    exact h
  | false =>
    simp only [hc, Bool.false_eq_true, if_false, CircularMap.get?_overwrite, if_neg hne] at h
    split_ifs at h
    exact h

theorem startReassemblyTimer_eq (s : RxUm n) : ∃ trigger running,
    s.startReassemblyTimer =
      { s with rxTimerTrigger := trigger, reassemblyTimer := running } := by
  unfold startReassemblyTimer
  split
  · exact ⟨_, _, rfl⟩
  · exact ⟨_, _, rfl⟩

/-- The end of `handle_pdu` is about the timer only. -/
theorem updateReassemblyTimer_eq (s : RxUm n) : ∃ trigger running,
    s.updateReassemblyTimer.1 =
      { s with rxTimerTrigger := trigger, reassemblyTimer := running } := by
  unfold updateReassemblyTimer
  simp only
  split
  · exact ⟨_, _, rfl⟩
  · exact startReassemblyTimer_eq _

end RxUm

end RadioStack.Rlc
