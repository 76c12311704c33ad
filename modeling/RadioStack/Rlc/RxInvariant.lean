import RadioStack.Lib.Outcome
import RadioStack.Rlc.RxRefinement

/-!
# State invariant of the AM receiver

**Theorem (`rxAm_window_invariant`).** In every state reached by any sequence of PDUs, timer
expiries and status requests, relative to `rx_next`: `rx_highest_status ≤ rx_next_highest ≤
AM_Window_Size`, the RX window holds SNs below `rx_next_highest` only, SN `rx_next` is not fully
received, no SN is delivered twice while it stays in the window, and the assertions about the
window and about `rx_highest_status` hold.
-/

namespace RadioStack.Rlc

open RxAm

/-! ## What arrivals do to received SDUs -/

namespace Receiver

variable {W : Nat} {r : Receiver} {x y : Nat} {d : RxSegment}

theorem received_stopTimer : (r.stopTimer W).received y = r.received y := rfl

theorem window_startTimer : (r.startTimer x).window = r.window ∧
    (r.startTimer x).next = r.next ∧ (r.startTimer x).nextHighest = r.nextHighest := by
  unfold startTimer
  split <;> exact ⟨rfl, rfl, rfl⟩

theorem window_restartTimer : r.restartTimer.window = r.window ∧
    r.restartTimer.next = r.next ∧ r.restartTimer.nextHighest = r.nextHighest := by
  unfold restartTimer
  split
  · exact ⟨rfl, rfl, rfl⟩
  · exact window_startTimer

/-- What delivering leaves: SDUs from the new `next` on keep their flags, and `next` moves within
the old window. -/
theorem deliver_spec (h : r.Ordered W (· = x)) :
    r.next ≤ (r.deliver x).1.next ∧ (r.deliver x).1.next ≤ r.nextHighest ∧
      (r.deliver x).1.nextHighest = r.nextHighest ∧
      ∀ y, (r.deliver x).1.next ≤ y → (r.deliver x).1.received y = r.received y := by
  have hH : r.next ≤ r.nextHighest := Nat.le_trans h.next_le h.status_le
  unfold Receiver.deliver
  cases hw : r.window x with
  | none => exact ⟨Nat.le_refl _, hH, rfl, fun _ _ => rfl⟩
  | some info =>
    by_cases hfull : info.fullyReceived = true
    · simp only [if_pos hfull]
      have hx : r.received x = true := by simp [received, hw, hfull]
      have hx' : (r.release x).received x = true := received_release.trans hx
      obtain ⟨hst, -⟩ := (h.release hx).updateHighestStatus hx'
      have hsame : ((r.release x).updateHighestStatus x).next = r.next ∧
          ((r.release x).updateHighestStatus x).nextHighest = r.nextHighest ∧
          ((r.release x).updateHighestStatus x).window = (r.release x).window := by
        unfold Receiver.updateHighestStatus
        split <;> exact ⟨rfl, rfl, rfl⟩
      obtain ⟨hge, hle, hnh, hwin⟩ := next_updateNext (x := x) hst
      rw [hsame.1] at hge
      rw [hsame.2.1] at hle hnh
      refine ⟨hge, hle, hnh, fun y hy => ?_⟩
      rw [received_congr (hwin y hy), received_congr (congrFun hsame.2.2 y), received_release]
    · simp only [if_neg hfull]
      exact ⟨Nat.le_refl _, hH, trivial, fun _ _ => trivial⟩

/-- After an arrival: `next` has moved within the old window; behind it received SDUs stay
received. -/
theorem Inv.arrive_spec (h : r.Inv W) :
    r.next ≤ (r.arrive W x d).1.next ∧ (r.arrive W x d).1.next ≤ r.next + W ∧
      ∀ y, r.received y = true → (r.arrive W x d).1.next ≤ y →
        (r.arrive W x d).1.received y = true := by
  unfold Receiver.arrive
  split
  · next hin =>
    obtain ⟨hle, hlt, hx⟩ := hin
    have hord := h.write (d := d) hle hlt
    obtain ⟨hge, hle', -, hrec⟩ := deliver_spec hord
    have hw := window_restartTimer (r := ((r.write x d).deliver x).1.stopTimer W)
    simp only [hw.2.1]
    have hhi := hord.highest_le
    refine ⟨hge, Nat.le_trans hle' hhi, fun y hy hyn => ?_⟩
    rw [received_congr (congrFun hw.1 y), received_stopTimer, hrec y hyn]
    show (r.put x (r.placed x d).1).received y = true
    rw [received_put, if_neg]
    · exact hy
    · rintro rfl
      rw [hx] at hy
      cases hy
  · exact ⟨Nat.le_refl _, Nat.le_add_right _ _, fun y hy _ => hy⟩

/-- An SDU that is handed up was missing and is received afterwards, or `next` has passed it. -/
theorem Inv.arrive_sdu (h : r.Inv W) (hsdu : (r.arrive W x d).2.2 ≠ none) :
    r.next ≤ x ∧ x < r.next + W ∧ r.received x = false ∧
      ((r.arrive W x d).1.next ≤ x → (r.arrive W x d).1.received x = true) := by
  unfold Receiver.arrive at hsdu ⊢
  split at hsdu
  · next hin =>
    obtain ⟨hle, hlt, hx⟩ := hin
    rw [if_pos ⟨hle, hlt, hx⟩]
    refine ⟨hle, hlt, hx, fun hn => ?_⟩
    have hord := h.write (d := d) hle hlt
    obtain ⟨-, -, -, hrec⟩ := deliver_spec hord
    have hw := window_restartTimer (r := ((r.write x d).deliver x).1.stopTimer W)
    simp only [hw.2.1] at hn
    rw [received_congr (congrFun hw.1 x), received_stopTimer, hrec x hn]
    unfold Receiver.deliver at hsdu
    cases hwx : (r.write x d).window x with
    | none =>
      rw [hwx] at hsdu
      exact absurd rfl hsdu
    | some info =>
      rw [hwx] at hsdu
      by_cases hfull : info.fullyReceived = true
      · simp [received, hwx, hfull]
      · simp [hfull] at hsdu
  · exact absurd rfl hsdu

end Receiver

/-! ## Calls of the entity -/

section Entity

variable {cfg : Config} {e e' : RxAm cfg} {ev : Event} {out : Output} {r : Receiver}

/-- The abstract steps a call stands for. -/
inductive Receiver.Move (W : Nat) (r : Receiver) : Receiver → Prop
  | stay : Move W r r
  | arrive (x : Nat) (d : RxSegment) : Move W r (r.arrive W x d).1
  | stop : Move W r { r with running := false }
  | expire (hrun : r.running = true) : Move W r r.expire

theorem Receiver.Move.inv {W : Nat} {r' : Receiver} (hm : Move W r r') (h : r.Inv W) :
    r'.Inv W := by
  cases hm with
  | stay => exact h
  | arrive x d => exact h.arrive
  | stop => exact { h with trigger_ok := nofun }
  | expire hrun => exact h.expire hrun

/-- SDUs stay received until `next` passes them. -/
theorem Receiver.Move.received {W : Nat} {r' : Receiver} (hm : Move W r r') (h : r.Inv W) :
    r.next ≤ r'.next ∧ r'.next ≤ r.next + W ∧
      ∀ y, r.received y = true → r'.next ≤ y → r'.received y = true := by
  cases hm with
  | stay => exact ⟨Nat.le_refl _, Nat.le_add_right _ _, fun _ hy _ => hy⟩
  | arrive x d => exact h.arrive_spec
  | stop => exact ⟨Nat.le_refl _, Nat.le_add_right _ _, fun _ hy _ => hy⟩
  | expire hrun =>
    unfold Receiver.expire
    obtain ⟨hw, hn, -⟩ := Receiver.window_startTimer
      (r := { r with
        highestStatus := firstFail r.received r.trigger r.nextHighest, running := false })
      (x := firstFail r.received r.trigger r.nextHighest)
    refine ⟨hn.ge, hn.le.trans (Nat.le_add_right _ _), fun y hy _ => ?_⟩
    rw [Receiver.received_congr (congrFun hw y)]
    exact hy

variable {n : AmSnSize}

/-- The SDU of the receiving window, or right behind it, that an SN stands for. -/
theorem Represents.exists_sdu {c : Core n} (h : Represents c r) {sn : Nat} (hsn : sn < n.mod) :
    sn = (r.next + c.rxModBase sn) % n.mod ∧ c.rxModBase sn < n.mod := by
  constructor
  · have := exists_serial (a := sn) n.mod_dvd h.next_modEq
    rw [Nat.ModEq, Nat.mod_eq_of_lt hsn] at this
    exact this
  · exact serialSub_lt n.mod_pos

/-- A data PDU that is not dropped arrives at the SDU its SN stands for. -/
theorem RxAm.Transition.arrive {buf : List UInt8} (ht : Transition e (.handlePdu buf) e' out)
    (h : Represents e.core r) (hinv : r.Inv cfg.snFieldLength.window) :
    (e'.core = e.core ∧ out.sdu = none) ∨
      ∃ header, readDataPduHeader cfg.snFieldLength buf = some header ∧
        header.packedSize < buf.length ∧
        ∀ x, header.sn = x % cfg.snFieldLength.mod → r.next ≤ x + cfg.snFieldLength.window →
          x < r.next + cfg.snFieldLength.mod →
          Represents e'.core (r.arrive cfg.snFieldLength.window x
            ⟨header.si, header.so, buf.drop header.packedSize⟩).1 ∧
          out.sdu = (r.arrive cfg.snFieldLength.window x
            ⟨header.si, header.so, buf.drop header.packedSize⟩).2.2 := by
  cases ht with
  | dropped | control => exact .inl ⟨rfl, rfl⟩
  | @data _ header p hread hlen hplace _ | @dataReport _ header p report hread hlen hplace _ _ =>
    refine .inr ⟨header, hread, hlen, fun x hx hge hlt => ?_⟩
    obtain ⟨p', hp', hrep, hout⟩ := h.placePdu hinv header _ hx hge hlt
    obtain rfl : p = p' := Except.ok.inj (hplace.symm.trans hp')
    exact ⟨hrep, congrArg Prod.snd hout⟩

/-- Each call is an abstract step. -/
theorem RxAm.Transition.move (ht : Transition e ev e' out) (h : Represents e.core r)
    (hinv : r.Inv cfg.snFieldLength.window) :
    ∃ r', r.Move cfg.snFieldLength.window r' ∧ Represents e'.core r' := by
  cases ev with
  | handlePdu buf =>
    rcases ht.arrive h hinv with ⟨hcore, -⟩ | ⟨header, hread, -, harr⟩
    · exact ⟨r, .stay, hcore ▸ h⟩
    · obtain ⟨hsn, hlt⟩ := h.exists_sdu (readDataPduHeader_sn_lt hread)
      exact ⟨_, .arrive _ _, (harr _ hsn (by omega) (by omega)).1⟩
  | reassemblyTimerExpired =>
    have hexpired := fun hrun : e.core.reassemblyTimer = true =>
      h.expired hinv (h.running ▸ hrun)
    cases ht with
    | timerWithoutHandler hrun _ => exact ⟨_, .stop, { h with running := rfl }⟩
    | timerSkipped hrun hexp =>
      obtain ⟨c', hc', -⟩ := hexpired hrun
      have := hexp.symm.trans hc'
      cases this
    | timerReport hrun hexp _ =>
      obtain ⟨c', hc', hrep⟩ := hexpired hrun
      obtain ⟨rfl⟩ : c' = _ := congrArg Prod.fst (Except.ok.inj (hc'.symm.trans hexp))
      exact ⟨_, .expire (h.running ▸ hrun), hrep⟩
  | statusProhibitTimerExpired | getStatusPdu =>
    cases ht
    exact ⟨r, .stay, h⟩
  | trimStatusPdu grantLen =>
    cases ht
    refine ⟨r, .stay, ?_⟩
    have : (e.trimStatusPdu grantLen).core = e.core := by
      unfold RxAm.trimStatusPdu
      split <;> rfl
    exact this ▸ h

/-- The entity stands for an abstract receiver in which the invariant holds. -/
def Tracked (e : RxAm cfg) : Prop :=
  ∃ r, Represents e.core r ∧ r.Inv cfg.snFieldLength.window

theorem Tracked.step (ht : Tracked e) (hstep : RxAm.Step e ev e') : Tracked e' := by
  obtain ⟨r, h, hinv⟩ := ht
  obtain ⟨out, hstep⟩ := hstep
  obtain ⟨r', hm, h'⟩ := (step_transition hstep).move h hinv
  exact ⟨r', h', hm.inv hinv⟩

theorem tracked_of_run {es : List Event} (hrun : Run RxAm.Step (RxAm.init cfg) es e) :
    Tracked e :=
  hrun.invariant (fun _ _ _ ht hs => ht.step hs) ⟨_, Represents.init, Receiver.inv_init⟩

/-! ## Assertions -/

variable {f : Fault}

theorem nackSegments_error {sn lastSo : Nat} {haveLast : Bool} {set : List RxSegment}
    {report : StatusPdu} (h : Core.nackSegments sn lastSo haveLast set report = .error f) :
    f = .nackOffsets sn := by
  induction set generalizing lastSo haveLast report with
  | nil => cases haveLast <;> cases h
  | cons segm set ih =>
    simp only [Core.nackSegments] at h
    split at h
    · cases h
      rfl
    · exact ih h

/-- Incomplete SDUs of the window hold segments, so only segment offsets can fail. -/
theorem Receiver.Inv.report_error (hinv : r.Inv n.window) {maxNofSn : Nat} {builder : StatusPdu}
    (herr : r.report n maxNofSn builder = .error f) :
    ∃ sn, f = .nackOffsets sn := by
  have hall : Ensures (fun f => ∃ sn, f = Fault.nackOffsets sn) _ (r.report n maxNofSn builder) :=
    Receiver.report_ensures (P := fun _ _ => True) trivial fun x report _ _ => ?_
  · exact hall.of_error herr
  cases hf : Core.nackSdu (r.window x) (x % n.mod) report with
  | ok report => trivial
  | error g =>
    unfold Core.nackSdu at hf
    cases hw : r.window x with
    | none =>
      rw [hw] at hf
      cases hf
    | some info =>
      simp only [hw] at hf
      split at hf
      · cases hf
      · next hfull =>
        obtain ⟨set, hset⟩ := hinv.incomplete x info hw (by simpa using hfull)
        rw [hset] at hf
        exact ⟨_, nackSegments_error hf⟩

theorem Config.maxNofSn_le (cfg : Config) :
    cfg.maxNofSnPerStatusReport ≤ cfg.snFieldLength.window := by
  unfold Config.maxNofSnPerStatusReport
  cases h : cfg.maxSnPerStatus with
  | none => exact Nat.le_refl _
  | some m => exact (cfg.maxSnPerStatus_ok m h).2

/-- If there is a failure, it is the assertion on the offsets of a NACK. -/
def OffsetsOnly {α : Type} : Except Fault α → Prop :=
  Ensures (fun f => ∃ sn, f = .nackOffsets sn) fun _ => True

theorem refreshStatusReport_offsetsOnly (h : Represents e.core r)
    (hinv : r.Inv cfg.snFieldLength.window) : OffsetsOnly e.refreshStatusReport := by
  rw [RxAm.refreshStatusReport, h.buildStatusReport hinv (Config.maxNofSn_le cfg)]
  cases hr : r.report cfg.snFieldLength cfg.maxNofSnPerStatusReport
      (e.statusBuf e.statusBuilder) with
  | error g => exact hinv.report_error hr
  | ok report => trivial

/-- The only assertion a call can run into is the one on the offsets of a NACK. -/
theorem Tracked.step_error (ht : Tracked e) (herr : e.step ev = some (.error f)) :
    ∃ sn, f = .nackOffsets sn := by
  obtain ⟨r, h, hinv⟩ := ht
  cases ev with
  | handlePdu buf =>
    refine (show OffsetsOnly (e.handlePdu buf) from ?_).of_error (Option.some.inj herr)
    unfold RxAm.handlePdu RxAm.handleDataPdu
    split
    · trivial
    · split
      · trivial
      · split
        · trivial
        · next header hread =>
          split
          · trivial
          · obtain ⟨hsn, hlt⟩ := h.exists_sdu (readDataPduHeader_sn_lt hread)
            obtain ⟨p, hp, hrep, -⟩ :=
              h.placePdu hinv header (buf.drop header.packedSize) hsn (by omega) (by omega)
            rw [bind_of_ok hp]
            refine .ite (fun _ => ?_) fun _ => trivial
            exact (refreshStatusReport_offsetsOnly hrep hinv.arrive).bind fun _ _ => trivial
  | reassemblyTimerExpired =>
    simp only [RxAm.step] at herr
    split_ifs at herr with hrun
    have hrun' : r.running = true := h.running ▸ hrun
    obtain ⟨c, hc, hrep⟩ := h.expired hinv hrun'
    refine (show OffsetsOnly e.reassemblyTimerExpired from ?_).of_error (Option.some.inj herr)
    refine .ite (fun _ => trivial) fun _ => ?_
    rw [bind_of_ok hc]
    exact (refreshStatusReport_offsetsOnly hrep (hinv.expire hrun')).bind fun _ _ => trivial
  | statusProhibitTimerExpired | getStatusPdu | trimStatusPdu grantLen => cases herr

/-! ## Invariant of the entity -/

/-- The call `ev` hands the SDU with this SN to the upper layer. -/
def Delivers (e : RxAm cfg) (ev : Event) (sn : Nat) (e' : RxAm cfg) : Prop :=
  ∃ buf header out, ev = .handlePdu buf ∧
    readDataPduHeader cfg.snFieldLength buf = some header ∧ header.sn = sn ∧
    e.step ev = some (.ok (e', out)) ∧ out.sdu ≠ none

/-- Calls after which the SN is inside the receiving window. -/
def StepInside (sn : Nat) (e : RxAm cfg) (ev : Event) (e' : RxAm cfg) : Prop :=
  e.Step ev e' ∧ e'.core.insideRxWindow sn = true

/-- The receiver's state, with all SNs relative to `rx_next`. -/
structure WindowInvariant (e : RxAm cfg) : Prop where
  status_le : e.core.rxModBase e.core.rxHighestStatus ≤ e.core.rxModBase e.core.rxNextHighest
  highest_le : e.core.rxModBase e.core.rxNextHighest ≤ cfg.snFieldLength.window
  window_mem : ∀ sn, e.core.rxWindow.contains sn →
    sn < cfg.snFieldLength.mod ∧ e.core.rxModBase sn < e.core.rxModBase e.core.rxNextHighest
  next_missing : fullyReceivedAt e.core.rxWindow e.core.rxNext = false
  delivered_once : ∀ ev sn e₁ es e₂ ev' e₃, Delivers e ev sn e₁ →
    e₁.core.insideRxWindow sn = true → Run (StepInside sn) e₁ es e₂ → ¬ Delivers e₂ ev' sn e₃
  access_ok : ∀ ev sn, e.step ev ≠ some (.error (.windowAccess sn))
  highestStatus_ok : ∀ ev sn, e.step ev ≠ some (.error (.highestStatus sn))

theorem Represents.inside {c : Core n} (h : Represents c r) {x : Nat}
    (hle : r.next ≤ x + n.window) (hin : c.insideRxWindow (x % n.mod) = true) :
    r.next ≤ x := by
  have hmod := n.mod_eq
  by_contra hx
  have hbase := h.rxModBase_of_lt (Nat.mod_modEq x n.mod) (Nat.lt_of_not_le hx) (by omega)
  unfold Core.insideRxWindow at hin
  rw [hbase, decide_eq_true_eq] at hin
  omega

/-- The SDU that SN `x` stands for is received and in the window. -/
def HasReceived (x : Nat) (e : RxAm cfg) : Prop :=
  ∃ r, Represents e.core r ∧ r.Inv cfg.snFieldLength.window ∧ r.received x = true

theorem HasReceived.step {x : Nat} (hx : HasReceived x e)
    (hs : StepInside (x % cfg.snFieldLength.mod) e ev e') : HasReceived x e' := by
  obtain ⟨r, h, hinv, hrec⟩ := hx
  obtain ⟨⟨out, hstep⟩, hin⟩ := hs
  obtain ⟨r', hm, h'⟩ := (step_transition hstep).move h hinv
  obtain ⟨hge, hle, hkeep⟩ := hm.received hinv
  obtain ⟨hlo, hhi⟩ := hinv.lt_nextHighest hrec
  exact ⟨r', h', hm.inv hinv, hkeep x hrec (h'.inside (by omega) hin)⟩

/-- Duplicates of a received SDU are not handed up. -/
theorem HasReceived.not_delivers {x : Nat} (hx : HasReceived x e) :
    ¬ Delivers e ev (x % cfg.snFieldLength.mod) e' := by
  rintro ⟨buf, header, out, rfl, hread, hsn, hstep, hsdu⟩
  obtain ⟨r, h, hinv, hrec⟩ := hx
  obtain ⟨hlo, hhi⟩ := hinv.lt_nextHighest hrec
  have hH := hinv.highest_le
  have hmod := cfg.snFieldLength.mod_eq
  rcases (step_transition hstep).arrive h hinv with ⟨-, hnone⟩ | ⟨header', hread', -, harr⟩
  · exact hsdu hnone
  · obtain rfl : header = header' := Option.some.inj (hread.symm.trans hread')
    obtain ⟨-, hout⟩ := harr x hsn (by omega) (by omega)
    rw [hout] at hsdu
    have := (hinv.arrive_sdu hsdu).2.2.1
    rw [hrec] at this
    cases this

theorem Delivers.hasReceived {sn : Nat} (ht : Tracked e) (hd : Delivers e ev sn e')
    (hin : e'.core.insideRxWindow sn = true) :
    ∃ x, sn = x % cfg.snFieldLength.mod ∧ HasReceived x e' := by
  obtain ⟨r, h, hinv⟩ := ht
  obtain ⟨buf, header, out, rfl, hread, rfl, hstep, hsdu⟩ := hd
  rcases (step_transition hstep).arrive h hinv with ⟨-, hnone⟩ | ⟨header', hread', -, harr⟩
  · exact absurd hnone hsdu
  · obtain rfl : header = header' := Option.some.inj (hread.symm.trans hread')
    obtain ⟨hsn, hlt⟩ := h.exists_sdu (readDataPduHeader_sn_lt hread)
    obtain ⟨hrep, hout⟩ := harr _ hsn (by omega) (by omega)
    rw [hout] at hsdu
    obtain ⟨hlo, hhi, -, hrec⟩ := hinv.arrive_sdu hsdu
    obtain ⟨hge, hle, -⟩ := hinv.arrive_spec (x := r.next + e.core.rxModBase header.sn)
      (d := ⟨header.si, header.so, buf.drop header.packedSize⟩)
    refine ⟨_, hsn, _, hrep, hinv.arrive, hrec (hrep.inside (by omega) ?_)⟩
    rw [← hsn]
    exact hin

theorem Tracked.windowInvariant (ht : Tracked e) : WindowInvariant e := by
  have ht' := ht
  obtain ⟨r, h, hinv⟩ := ht
  have hmod := cfg.snFieldLength.mod_eq
  have hpos := cfg.snFieldLength.window_pos
  have hN := hinv.next_le
  have hS := hinv.status_le
  have hH := hinv.highest_le
  have hs := h.rxModBase (h.highestStatus ▸ Nat.mod_modEq r.highestStatus _) hN (by omega)
  have hh := h.rxModBase (h.nextHighest ▸ Nat.mod_modEq r.nextHighest _) (by omega) (by omega)
  refine ⟨?_, ?_, ?_, ?_, ?_, ?_, ?_⟩
  · omega
  · omega
  · intro sn hsn
    obtain ⟨x, hx, hx', rfl⟩ := h.within sn hsn
    obtain ⟨info, hinfo⟩ := CircularMap.contains_iff.1 hsn
    rw [h.get? hx hx'] at hinfo
    have hmem := hinv.window_mem x (by rw [hinfo]; exact Option.some_ne_none _)
    rw [hh, h.rxModBase (Nat.mod_modEq x _) hx (by omega)]
    exact ⟨Nat.mod_lt _ cfg.snFieldLength.mod_pos, by omega⟩
  · rw [h.next, h.received (Nat.le_refl _) (by omega)]
    by_contra hrec
    exact hinv.next_missing (by simpa using hrec)
  · intro ev sn e₁ es e₂ ev' e₃ hd hin hrun
    obtain ⟨x, rfl, hx⟩ := hd.hasReceived ht' hin
    exact (hrun.invariant (P := HasReceived x) (fun _ _ _ hx hs => hx.step hs) hx).not_delivers
  · intro ev sn herr
    obtain ⟨_, hf⟩ := ht'.step_error herr
    cases hf
  · intro ev sn herr
    obtain ⟨_, hf⟩ := ht'.step_error herr
    cases hf

/-- The state invariant of the AM receiver, for PDUs with arbitrary bytes. -/
theorem rxAm_window_invariant {es : List Event} (hrun : Run RxAm.Step (RxAm.init cfg) es e) :
    WindowInvariant e :=
  (tracked_of_run hrun).windowInvariant

end Entity

/-! ## A run -/

def sampleConfig : Config :=
  { snFieldLength := .size12bits, tReassembly := 35, tStatusProhibit := 0, maxSnPerStatus := none
    maxSnPerStatus_ok := nofun }

def RxAm.stepState {cfg : Config} (e : RxAm cfg) (ev : Event) : Option (RxAm cfg) :=
  match e.step ev with
  | some (.ok (e', _)) => some e'
  | _ => none

theorem RxAm.step_of_stepState {cfg : Config} {e e' : RxAm cfg} {ev : Event}
    (h : e.stepState ev = some e') : RxAm.Step e ev e' := by
  unfold RxAm.stepState at h
  split at h
  · next out heq =>
    cases h
    exact ⟨_, heq⟩
  · cases h

theorem RxAm.run_of_stepState {cfg : Config} {e e' : RxAm cfg} {es : List Event}
    (h : exec RxAm.stepState e es = some e') : Run RxAm.Step e es e' :=
  (run_of_exec h).mono fun _ _ _ hs => RxAm.step_of_stepState hs

/-- SN 1 arrives first, then a segment of SN 0, the timer expires, and SN 0 is completed. -/
def sampleEvents : List Event :=
  [.handlePdu [0x80, 0x01, 0xaa], .handlePdu [0x90, 0x00, 0x11], .reassemblyTimerExpired,
    .handlePdu [0xa0, 0x00, 0x00, 0x01, 0x22]]

theorem rxAm_window_invariant_sample :
    ∃ e : RxAm sampleConfig, Run RxAm.Step (RxAm.init sampleConfig) sampleEvents e ∧
      e.core.rxNext = 2 ∧ WindowInvariant e := by
  have hexec : (exec RxAm.stepState (RxAm.init sampleConfig) sampleEvents).map
      (·.core.rxNext) = some 2 := by decide +kernel
  obtain ⟨e, he, hnext⟩ := Option.map_eq_some_iff.1 hexec
  have hrun := RxAm.run_of_stepState he
  exact ⟨e, hrun, hnext, rxAm_window_invariant hrun⟩

end RadioStack.Rlc
