import RadioStack.Rlc.RxUm
import RadioStack.Rlc.SegmentStore

/-!
# The reassembly timer in unacknowledged mode

t-Reassembly should run while SDUs below RX_Next_Highest are missing: more than one of them, or one
of which a byte is missing before the last received one (`Required`). `handle_pdu` looks for the
missing byte in the SDU with SN = RX_Next_Highest, and compares RX_Timer_Trigger with
RX_Next_Reassembly, and RX_Next_Highest with RX_Next_Reassembly + 1, as plain numbers.

In every reachable state RX_Next_Reassembly lies in the reassembly window or at its end, and
incomplete SDUs lie from there on below RX_Next_Highest (`Inv`). So there is never a missing byte in
the SDU with SN = RX_Next_Highest, and the timer is not started for a single incomplete SDU.

**Theorem (`reassemblyTimer_iff`).** After a segment is placed the timer is as it should be exactly
in the states that meet `Agrees`.
-/

namespace RadioStack.Rlc.RxUm

variable {n : UmSnSize} {s t : RxUm n}

/-! ## Where incomplete SDUs are -/

/-- Entries of the RX window: incomplete SDUs start at `y` and end before the distance `top`. -/
def Entries (s : RxUm n) (w : Window n) (y top : Nat) : Prop :=
  ∀ x info, w.get? x = some info → x < n.mod ∧
    (info.fullyReceived = false → s.rxModBase y ≤ s.rxModBase x ∧ s.rxModBase x < top) ∧
    (info.fullyReceived = true → info.hasGap = false)

/-- `y` is in the reassembly window or at its end, and incomplete SDUs are in the window from `y`
on. -/
structure Bounded (s : RxUm n) (w : Window n) (y : Nat) : Prop where
  lt_mod : y < n.mod
  le_window : s.rxModBase y ≤ n.window
  entries : Entries s w y n.window

structure Inv (s : RxUm n) : Prop where
  highest_lt : s.rxNextHighest < n.mod
  bounded : Bounded s s.rxWindow s.rxNextReassembly

variable {w : Window n}

theorem Bounded.of_highest {y : Nat} (h : Bounded s w y)
    (hhigh : t.rxNextHighest = s.rxNextHighest) : Bounded t w y := by
  have hbase : t.rxModBase = s.rxModBase := by
    funext x
    rw [rxModBase, rxModBase, hhigh]
  have hentries := h.entries
  have hle := h.le_window
  rw [← hbase] at hle
  unfold Entries at hentries
  rw [← hbase] at hentries
  exact ⟨h.lt_mod, hle, hentries⟩

theorem two_le_window (n : UmSnSize) : 2 ≤ n.window := by cases n <;> decide

theorem rxModBase_lt (s : RxUm n) (x : Nat) : s.rxModBase x < n.mod := serialSub_lt n.mod_pos

theorem rxModBase_succ {x y : Nat} (hx : x ≡ y + 1 [MOD n.mod]) (h : s.rxModBase y + 1 < n.mod) :
    s.rxModBase x = s.rxModBase y + 1 :=
  serialSub_of_add (mod_dvd n) hx h

theorem Entries.erase {y top : Nat} (h : Entries s w y top) (hy : y < n.mod)
    (hnext : s.rxModBase y + 1 < n.mod) : Entries s (w.erase y) ((y + 1) % n.mod) top := by
  intro x info hx
  rw [CircularMap.get?_erase] at hx
  split_ifs at hx with hne
  obtain ⟨hlt, hno, hyes⟩ := h x info hx
  refine ⟨hlt, fun hincomplete => ?_, hyes⟩
  obtain ⟨hle, htop⟩ := hno hincomplete
  have hdiff : s.rxModBase y ≠ s.rxModBase x := fun heq =>
    hne (eq_of_serialSub_eq (mod_dvd n) hy hlt heq).symm
  rw [rxModBase_succ (Nat.mod_modEq _ _) hnext]
  omega

theorem bounded_serialLoop {body : Window n → Nat → Option (Window n)}
    (hbody : ∀ w y w', body w y = some w' → w' = w.erase y) {y fuel : Nat} (h : Bounded s w y) :
    let r := serialLoop n.mod (s.rxNextHighest + n.window) s.rxNextHighest body fuel w y
    Bounded s r.1 r.2 := by
  refine serialLoop_invariant (P := Bounded s) (fun w y w' hw hlt hround => ?_) h
  obtain rfl := hbody w y w' hround
  have hlt' : s.rxModBase y < n.window := s.rxModBase_rxNextHighest ▸ hlt
  have hmod := n.mod_eq
  refine ⟨Nat.mod_lt _ n.mod_pos, ?_, hw.entries.erase hw.lt_mod (by omega)⟩
  rw [rxModBase_succ (Nat.mod_modEq _ _) (by omega)]
  omega

theorem inv_updateRxNextReassembly (hhigh : s.rxNextHighest < n.mod) {start : Nat}
    (h : Bounded s s.rxWindow start) : Inv (s.updateRxNextReassembly start) := by
  refine ⟨hhigh, (bounded_serialLoop (fun w y w' hround => ?_) h).of_highest rfl⟩
  split_ifs at hround
  exact (Option.some.inj hround).symm

theorem inv_passTrigger (h : Inv s) : Inv s.passTrigger := by
  refine ⟨h.highest_lt, (bounded_serialLoop (fun w y w' hround => ?_) h.bounded).of_highest rfl⟩
  split at hround
  · exact (Option.some.inj hround).symm
  · split_ifs at hround
    exact (Option.some.inj hround).symm

/-! ## A segment is placed -/

theorem segmentInventory_complete {next : Nat} {l : List RxSegment}
    (h : (segmentInventory next l).1 = true) : (segmentInventory next l).2 = false := by
  induction l generalizing next with
  | nil => rfl
  | cons segment l ih =>
    unfold segmentInventory at h ⊢
    split at h
    · cases h
    · split at h
      · next hso hlast => rw [if_neg hso, if_pos hlast]
      · next hso hlast =>
        rw [if_neg hso, if_neg hlast]
        exact ih h

theorem Entries.mono {y top top' : Nat} (h : Entries s w y top) (hle : top ≤ top') :
    Entries s w y top' := by
  intro x info hx
  obtain ⟨hlt, hno, hyes⟩ := h x info hx
  exact ⟨hlt, fun hi => ⟨(hno hi).1, Nat.lt_of_lt_of_le (hno hi).2 hle⟩, hyes⟩

theorem Entries.putSdu {sn y top : Nat} {info : SduInfo} (h : Entries s s.rxWindow y top)
    (hsn : sn < n.mod)
    (hno : info.fullyReceived = false → s.rxModBase y ≤ s.rxModBase sn ∧ s.rxModBase sn < top)
    (hyes : info.fullyReceived = true → info.hasGap = false) :
    Entries s (s.putSdu sn info).rxWindow y top := by
  intro x info' hx
  by_cases hne : x = sn
  · subst hne
    rw [get?_putSdu] at hx
    cases hx
    exact ⟨hsn, hno, hyes⟩
  · exact h x info' (get?_putSdu_of_ne hne hx)

theorem Entries.release {y top : Nat} (h : Entries s w y top) (sn : Nat) :
    Entries s (w.modify sn fun info => { info with segments := [] }) y top := by
  intro x info hx
  rw [CircularMap.get?_modify] at hx
  split at hx
  · next heq =>
    obtain ⟨old, hold, rfl⟩ := Option.map_eq_some_iff.1 hx
    exact h x old (heq ▸ hold)
  · exact h x info hx

/-- Distances after `sn`, at the end of the window or beyond it, became the highest SN. -/
theorem rxModBase_moved (s : RxUm n) {sn : Nat} (hsn : n.window ≤ s.rxModBase sn) (x : Nat) :
    ({ s with rxNextHighest := (sn + 1) % n.mod } : RxUm n).rxModBase x =
      if s.rxModBase sn + 1 - n.window ≤ s.rxModBase x then
        s.rxModBase x - (s.rxModBase sn + 1 - n.window)
      else s.rxModBase x + n.mod - (s.rxModBase sn + 1 - n.window) := by
  have hmod := n.mod_eq
  have hx := s.rxModBase_lt x
  have hlt := s.rxModBase_lt sn
  have hserial (z : Nat) : z ≡ s.rxNextHighest + n.window + s.rxModBase z [MOD n.mod] :=
    exists_serial (mod_dvd n) (Nat.ModEq.refl _)
  have hedge : (sn + 1) % n.mod + n.window ≡
      s.rxNextHighest + n.window + (s.rxModBase sn + 1 - n.window) [MOD n.mod] := by
    have hsum : s.rxNextHighest + n.window + s.rxModBase sn + 1 + n.window =
        s.rxNextHighest + n.window + (s.rxModBase sn + 1 - n.window) + n.mod := by omega
    have hend := ((Nat.mod_modEq (sn + 1) n.mod).trans ((hserial sn).add_right 1)).add_right
      n.window
    rw [hsum] at hend
    exact hend.trans (Nat.add_mod_right _ _)
  show serialSub n.mod x ((sn + 1) % n.mod + n.window) = _
  split
  · rw [serialSub_eq (mod_dvd n) (hserial x) hedge (by omega) (by omega)]
    omega
  · rw [serialSub_eq_of_lt (mod_dvd n) (hserial x) hedge (by omega) (by omega)]
    omega

section Move

variable {d : Nat} (hd : d ≤ n.window)
  (hbase : ∀ x, t.rxModBase x =
    if d ≤ s.rxModBase x then s.rxModBase x - d else s.rxModBase x + n.mod - d)

include hd hbase

/-- The window has moved by `d`, and incomplete SDUs are past its lower edge. -/
theorem Entries.bounded {y : Nat} (h : Entries s w y (d + n.window)) (hy : y < n.mod)
    (hlow : d ≤ s.rxModBase y) (htop : s.rxModBase y < d + n.window) :
    Bounded t w y := by
  have hy' := hbase y
  rw [if_pos hlow] at hy'
  refine ⟨hy, by omega, fun x info hx => ?_⟩
  obtain ⟨hlt, hno, hyes⟩ := h x info hx
  refine ⟨hlt, fun hincomplete => ?_, hyes⟩
  obtain ⟨hle, hend⟩ := hno hincomplete
  have hx' := hbase x
  rw [if_pos (by omega)] at hx'
  omega

/-- The loop ends at the first SN of the window, as it needs at most `d` rounds to get there. -/
theorem bounded_cleanLoop {fuel : Nat} {y : Nat} (h : Entries s w y (d + n.window))
    (hy : y < n.mod) (htop : s.rxModBase y < d + n.window) (hfuel : d ≤ s.rxModBase y + fuel) :
    Bounded t (t.cleanLoop fuel w y).1 (t.cleanLoop fuel w y).2 := by
  have hmod := n.mod_eq
  induction fuel generalizing w y with
  | zero => exact h.bounded hd hbase hy hfuel htop
  | succ fuel ih =>
    have hy' := hbase y
    unfold cleanLoop
    split
    · next hout =>
      rw [Bool.not_eq_true', ← Bool.not_eq_true, snInReassemblyWindow_iff] at hout
      have hlow : s.rxModBase y < d := by
        split at hy' <;> omega
      have hnext := rxModBase_succ (s := s) (Nat.mod_modEq (y + 1) n.mod) (by omega)
      exact ih (h.erase hy (by omega)) (Nat.mod_lt _ n.mod_pos) (by omega) (by omega)
    · next hin =>
      rw [Bool.not_eq_true', Bool.not_eq_false, snInReassemblyWindow_iff] at hin
      have hlow : d ≤ s.rxModBase y := by
        split at hy' <;> omega
      exact h.bounded hd hbase hy hlow htop

end Move

theorem inv_releaseSdu (h : Inv s) (sn : Nat) : Inv (s.releaseSdu sn) := by
  have hbounded : Bounded s (s.rxWindow.modify sn fun info => { info with segments := [] })
      s.rxNextReassembly :=
    ⟨h.bounded.lt_mod, h.bounded.le_window, h.bounded.entries.release sn⟩
  unfold releaseSdu
  simp only
  split
  · rw [Nat.mod_eq_of_lt h.bounded.lt_mod]
    apply inv_updateRxNextReassembly
    · exact h.highest_lt
    · exact hbounded.of_highest rfl
  · exact ⟨h.highest_lt, hbounded.of_highest rfl⟩

/-- An incomplete SDU beyond the window moves the window. -/
theorem inv_moveWindow {sn : Nat} (hnext : s.rxNextReassembly < n.mod)
    (hle : s.rxModBase s.rxNextReassembly ≤ n.window) (hsn : n.window ≤ s.rxModBase sn)
    (h : Entries s s.rxWindow s.rxNextReassembly (s.rxModBase sn + 1)) :
    Inv (s.moveWindow sn) := by
  have hmod := n.mod_eq
  have hlt := s.rxModBase_lt sn
  have htop : s.rxModBase sn + 1 = s.rxModBase sn + 1 - n.window + n.window := by omega
  rw [htop] at h
  unfold moveWindow
  simp only
  rw [Nat.mod_eq_of_lt hnext]
  apply inv_updateRxNextReassembly
  · exact Nat.mod_lt _ n.mod_pos
  · have hfuel : s.rxModBase sn + 1 - n.window ≤ s.rxModBase s.rxNextReassembly + n.mod := by omega
    exact (bounded_cleanLoop (by omega) (rxModBase_moved s hsn) h hnext (by omega) hfuel).of_highest
      rfl

theorem inv_placeSegment (h : Inv s) (header : UmPduHeader) (payload : List UInt8)
    (hsn : header.sn < n.mod) (hvalid : s.snInvalidForRxBuffer header.sn = false) :
    Inv (s.placeSegment header payload).1 := by
  have hle : s.rxModBase s.rxNextReassembly ≤ s.rxModBase header.sn := by
    simpa [snInvalidForRxBuffer, rxModBase_lowerEdge] using hvalid
  unfold placeSegment handleSegmentDataSdu
  generalize hinfo :
    (s.sduInfo header.sn).store { si := header.si, so := header.so, payload } = info
  have hyes : info.fullyReceived = true → info.hasGap = false := by
    rw [← hinfo]
    exact segmentInventory_complete
  -- the new entry may be beyond the window
  have hput {top : Nat} (htop : n.window ≤ top)
      (hno : info.fullyReceived = false → s.rxModBase header.sn < top) :
      Entries s (s.putSdu header.sn info).rxWindow s.rxNextReassembly top :=
    (h.bounded.entries.mono htop).putSdu hsn (fun hi => ⟨hle, hno hi⟩) hyes
  -- and if it is not, nothing but the entry has changed
  have hinside (hno : info.fullyReceived = false → s.rxModBase header.sn < n.window) :
      Inv (s.putSdu header.sn info) := by
    have hbounded : Bounded s (s.putSdu header.sn info).rxWindow s.rxNextReassembly :=
      ⟨h.bounded.lt_mod, h.bounded.le_window, hput (Nat.le_refl _) hno⟩
    exact ⟨h.highest_lt, hbounded.of_highest rfl⟩
  simp only [fullyReceivedAt, get?_putSdu, Option.any_some]
  cases hfull : info.fullyReceived with
  | true => exact inv_releaseSdu (hinside (by rw [hfull]; nofun)) header.sn
  | false =>
    simp only [Bool.false_eq_true, if_false]
    split
    · next hout =>
      rw [Bool.not_eq_true', ← Bool.not_eq_true, snInReassemblyWindow_iff] at hout
      have hout' : n.window ≤ s.rxModBase header.sn := Nat.le_of_not_lt hout
      exact inv_moveWindow h.bounded.lt_mod h.bounded.le_window hout'
        (hput (by omega) fun _ => Nat.lt_succ_self _)
    · next hin =>
      rw [Bool.not_eq_true', Bool.not_eq_false, snInReassemblyWindow_iff] at hin
      exact hinside fun _ => hin

/-! ## Runs -/

theorem Inv.of_timer (h : Inv s) (trigger : Nat) (running : Bool) :
    Inv { s with rxTimerTrigger := trigger, reassemblyTimer := running } :=
  ⟨h.highest_lt, h.bounded.of_highest rfl⟩

theorem sn_lt_of_readPdu {buf payload : List UInt8} {header : UmPduHeader}
    (h : readPdu n buf = some (header, payload)) : header.sn < n.mod := by
  unfold readPdu at h
  split at h
  · cases h
  · next hread =>
    split_ifs at h
    cases h
    exact (Um.read_of_readDataPduHeader hread).sn_lt

theorem inv_handlePdu (h : Inv s) (buf : List UInt8) : Inv (s.handlePdu buf).1 := by
  unfold handlePdu
  split
  · exact h
  · next header payload hread =>
    split
    · exact h
    · split
      · exact h
      · next hvalid =>
        obtain ⟨trigger, running, heq⟩ := updateReassemblyTimer_eq (s.placeSegment header payload).1
        have hplaced := inv_placeSegment h header payload (sn_lt_of_readPdu hread)
          (Bool.not_eq_true _ ▸ hvalid)
        simp only [heq]
        exact hplaced.of_timer trigger running

theorem inv_run {cfg : Config} {es : List Event} {s : Entity cfg}
    (hrun : Run (Step cfg) (init cfg.snFieldLength) es s) : Inv s := by
  refine hrun.invariant (P := Inv) (fun s ev s' h hstep => ?_) ⟨UmSnSize.mod_pos _, ?_⟩
  · obtain ⟨out, hstep⟩ := hstep
    cases ev with
    | handlePdu buf =>
      have hpdu : s.handlePdu buf = (s', out) := Option.some.inj hstep
      have hinv := inv_handlePdu h buf
      rwa [hpdu] at hinv
    | reassemblyTimerExpired =>
      rw [step] at hstep
      split_ifs at hstep
      obtain ⟨rfl, -⟩ := Prod.mk.inj (Option.some.inj hstep)
      have hstopped := h.of_timer s.rxTimerTrigger false
      unfold reassemblyTimerExpired
      split
      · exact hstopped
      · have hpassed := inv_passTrigger hstopped
        obtain ⟨trigger, running, heq⟩ := startReassemblyTimer_eq (passTrigger
          { s with reassemblyTimer := false })
        rw [onExpiredReassemblyTimer, heq]
        exact hpassed.of_timer trigger running
  · exact ⟨UmSnSize.mod_pos _, (rxModBase_rxNextHighest _).le, nofun⟩

/-! ## The timer -/

/-- A byte of the SDU is missing before the last received one. -/
def MissingByte (s : RxUm n) (sn : Nat) : Prop :=
  ∃ info, s.rxWindow.get? sn = some info ∧
    ∃ i j, i < j ∧ i ∉ coverage info.segments ∧ j ∈ coverage info.segments

/-- RX_Next_Highest = RX_Next_Reassembly + 1, modulo the sequence number space. -/
def OneBelowHighest (s : RxUm n) : Prop :=
  s.rxModBase s.rxNextHighest = s.rxModBase (s.rxNextReassembly + 1)

/-- t-Reassembly should run: RX_Next_Highest > RX_Next_Reassembly + 1, or a byte of the one SDU in
between is missing. -/
def Required (s : RxUm n) : Prop :=
  s.rxModBase (s.rxNextReassembly + 1) < s.rxModBase s.rxNextHighest ∨
    s.OneBelowHighest ∧ s.MissingByte s.rxNextReassembly

/-- RX_Timer_Trigger left the reassembly window and is not RX_Next_Highest. -/
def TriggerLeft (s : RxUm n) : Prop :=
  s.snInReassemblyWindow s.rxTimerTrigger = false ∧ s.rxTimerTrigger ≠ s.rxNextHighest

/-- A running t-Reassembly may be stopped. -/
def MayStop (s : RxUm n) : Prop :=
  s.rxModBase s.rxTimerTrigger ≤ s.rxModBase s.rxNextReassembly ∨ s.TriggerLeft ∨
    s.OneBelowHighest ∧ ¬ s.MissingByte s.rxNextReassembly

/-- The comparisons of the code, on plain numbers, that stop a running t-Reassembly. -/
def PlainStop (s : RxUm n) : Prop :=
  s.rxTimerTrigger ≤ s.rxNextReassembly ∨ s.TriggerLeft ∨
    s.rxNextHighest = s.rxNextReassembly + 1 ∧ s.rxWindow.contains s.rxNextHighest = true

/-- The states in which the timer logic does what it should. With one SDU below RX_Next_Highest a
byte of it is missing exactly if t-Reassembly is left running, without any it is not left running,
and where it is stopped it may be stopped. -/
structure Agrees (s : RxUm n) : Prop where
  one : s.OneBelowHighest →
    (s.MissingByte s.rxNextReassembly ↔ s.reassemblyTimer = true ∧ ¬ s.PlainStop)
  none : s.rxNextReassembly = s.rxNextHighest → s.reassemblyTimer = true → s.PlainStop
  stop : s.reassemblyTimer = true → s.PlainStop → s.MayStop

theorem Inv.hasGapAt_highest (h : Inv s) : hasGapAt s.rxWindow s.rxNextHighest = false := by
  unfold hasGapAt
  cases hget : s.rxWindow.get? s.rxNextHighest with
  | none => rfl
  | some info =>
    obtain ⟨-, hno, hyes⟩ := h.bounded.entries _ _ hget
    refine hyes (Bool.not_eq_false _ ▸ fun hincomplete => ?_)
    have hlt := (hno hincomplete).2
    rw [rxModBase_rxNextHighest] at hlt
    exact Nat.lt_irrefl _ hlt

theorem Inv.stopsReassemblyTimer_iff (h : Inv s) :
    s.stopsReassemblyTimer = true ↔ s.PlainStop := by
  unfold stopsReassemblyTimer PlainStop TriggerLeft
  simp [h.hasGapAt_highest, or_assoc]

theorem Inv.running_iff (h : Inv s) : s.updateReassemblyTimer.1.reassemblyTimer = true ↔
    s.reassemblyTimer = true ∧ ¬ s.PlainStop ∨
      s.rxModBase (s.rxNextReassembly + 1) < s.rxModBase s.rxNextHighest := by
  rw [← h.stopsReassemblyTimer_iff]
  unfold updateReassemblyTimer startReassemblyTimer
  have hgap := h.hasGapAt_highest
  cases hr : s.reassemblyTimer <;> cases hs : s.stopsReassemblyTimer <;>
    simp [hgap, rxModBase] <;> split <;> simp_all

/-- Below RX_Next_Highest there are several SNs from RX_Next_Reassembly on, one, or none. -/
theorem Inv.below_highest (h : Inv s) :
    (s.rxModBase (s.rxNextReassembly + 1) < s.rxModBase s.rxNextHighest ∧ ¬ s.OneBelowHighest ∧
      s.rxNextReassembly ≠ s.rxNextHighest) ∨
    (¬ s.rxModBase (s.rxNextReassembly + 1) < s.rxModBase s.rxNextHighest ∧ s.OneBelowHighest ∧
      s.rxNextReassembly ≠ s.rxNextHighest) ∨
    (¬ s.rxModBase (s.rxNextReassembly + 1) < s.rxModBase s.rxNextHighest ∧ ¬ s.OneBelowHighest ∧
      s.rxNextReassembly = s.rxNextHighest) := by
  have hmod := n.mod_eq
  have hwindow := two_le_window n
  have hle := h.bounded.le_window
  have hhigh := s.rxModBase_rxNextHighest
  have hnext := rxModBase_succ (Nat.ModEq.refl (s.rxNextReassembly + 1))
    (show s.rxModBase s.rxNextReassembly + 1 < n.mod by omega)
  have hsame : s.rxNextReassembly = s.rxNextHighest ↔ s.rxModBase s.rxNextReassembly = n.window :=
    ⟨fun heq => heq ▸ hhigh, fun heq =>
      eq_of_serialSub_eq (mod_dvd n) h.bounded.lt_mod h.highest_lt (heq.trans hhigh.symm)⟩
  unfold OneBelowHighest
  omega

/-- In a state with the segment placed, the timer logic does what it should or not. -/
theorem Inv.updateReassemblyTimer_iff (h : Inv s) :
    ((s.updateReassemblyTimer.1.reassemblyTimer = true ↔ s.Required) ∧
      (s.updateReassemblyTimer.2 = true → s.MayStop)) ↔ s.Agrees := by
  have hstopped : s.updateReassemblyTimer.2 = true ↔ s.reassemblyTimer = true ∧ s.PlainStop := by
    rw [← h.stopsReassemblyTimer_iff]
    exact Bool.and_eq_true_iff
  rw [h.running_iff, hstopped, and_imp]
  unfold Required
  constructor
  · rintro ⟨hrunning, hstop⟩
    obtain ⟨hsome, hone, hne⟩ | ⟨hsome, hone, hne⟩ | ⟨hsome, hone, heq⟩ := h.below_highest
    · exact ⟨fun ho => absurd ho hone, fun he => absurd he hne, hstop⟩
    · simp only [hsome, hone, or_false, false_or, true_and] at hrunning
      exact ⟨fun _ => hrunning.symm, fun he => absurd he hne, hstop⟩
    · simp only [hsome, hone, or_false, false_and, iff_false, not_and, not_not] at hrunning
      exact ⟨fun ho => absurd ho hone, fun _ => hrunning, hstop⟩
  · rintro ⟨hone', hnone, hstop⟩
    refine ⟨?_, hstop⟩
    obtain ⟨hsome, hone, hne⟩ | ⟨hsome, hone, hne⟩ | ⟨hsome, hone, heq⟩ := h.below_highest
    · exact iff_of_true (.inr hsome) (.inl hsome)
    · simp only [hsome, hone, or_false, false_or, true_and]
      exact (hone' hone).symm
    · simp only [hsome, hone, or_false, false_and, iff_false, not_and, not_not]
      exact hnone heq

/-- **When t-Reassembly is as it should be.** -/
theorem reassemblyTimer_iff {cfg : Config} {es : List Event} {s : Entity cfg}
    (hrun : Run (Step cfg) (init cfg.snFieldLength) es s) {buf payload : List UInt8}
    {header : UmPduHeader} (hread : readPdu cfg.snFieldLength buf = some (header, payload))
    (hsegment : header.si ≠ .fullSdu) (hvalid : s.snInvalidForRxBuffer header.sn = false) :
    let placed := (s.placeSegment header payload).1
    let after := s.handlePdu buf
    ((after.1.reassemblyTimer = true ↔ after.1.Required) ∧
      (after.2.timerStopped = true → placed.MayStop)) ↔ placed.Agrees := by
  have hplaced := inv_placeSegment (inv_run hrun) header payload (sn_lt_of_readPdu hread) hvalid
  have hpdu : s.handlePdu buf = ((s.placeSegment header payload).1.updateReassemblyTimer.1,
      { sdu := (s.placeSegment header payload).2.map fun sdu => (some header.sn, sdu)
        timerStopped := (s.placeSegment header payload).1.updateReassemblyTimer.2 }) := by
    unfold handlePdu
    rw [hread]
    simp only
    rw [if_neg hsegment, hvalid, if_neg Bool.false_ne_true]
  have hiff := hplaced.updateReassemblyTimer_iff
  obtain ⟨trigger, running, heq⟩ := updateReassemblyTimer_eq (s.placeSegment header payload).1
  simp only [hpdu]
  rw [heq] at hiff ⊢
  exact hiff

def sixBitConfig : Config := { snFieldLength := .size6bits, tReassembly := 50 }

/-- The first segment of SN 1 arrives: SN 0 is missing as well, and the timer runs. -/
theorem reassemblyTimer_twoMissing :
    ∃ s, Run (Step sixBitConfig) (init .size6bits) [.handlePdu [0x41, 7]] s ∧
      s.reassemblyTimer = true ∧ s.Required := by
  have hread : readPdu .size6bits [0x41, 7] =
      some ((⟨.firstSegment, .size6bits, 1, 0⟩ : UmPduHeader), [7]) := by decide +kernel
  have hrun : Run (Step sixBitConfig) (init .size6bits) [] (init .size6bits) := .nil _
  have hiff := reassemblyTimer_iff hrun hread (by decide) (by decide +kernel)
  obtain ⟨hrunning, -⟩ := hiff.2
    ⟨fun hone => absurd hone (by unfold OneBelowHighest; decide +kernel),
      fun heq => absurd heq (by decide +kernel), fun hr => absurd hr (by decide +kernel)⟩
  have htimer : ((init .size6bits).handlePdu [0x41, 7]).1.reassemblyTimer = true := by
    decide +kernel
  exact ⟨_, .single ⟨_, rfl⟩, htimer, hrunning.1 htimer⟩

/-- The last byte of SN 0 arrives first. All bytes before it are missing, but the timer does not
run. -/
theorem reassemblyTimer_notStarted :
    ∃ s, Run (Step sixBitConfig) (init .size6bits) [.handlePdu [0x80, 0, 5, 7]] s ∧
      s.Required ∧ s.reassemblyTimer = false := by
  have hget : ((init .size6bits).handlePdu [0x80, 0, 5, 7]).1.rxWindow.get? 0 =
      some { hasGap := true, segments := [⟨.lastSegment, 5, [7]⟩] } := by decide +kernel
  refine ⟨_, .single ⟨_, rfl⟩, .inr ⟨?_, _, hget, 0, 5, by decide, ?_, ?_⟩, ?_⟩
  · unfold OneBelowHighest
    decide +kernel
  · simp [mem_coverage, RxSegment.Has]
  · simp [mem_coverage, RxSegment.Has]
  · decide +kernel

end RadioStack.Rlc.RxUm
