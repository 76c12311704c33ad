import RadioStack.Lib.Outcome
import RadioStack.Rlc.RxAm

/-!
# The AM receiver over unbounded sequence numbers

What the AM receiver is for, said without wrap-around: SDUs are numbered by natural numbers, the
window is a partial map from these numbers, and the state variables are compared as numbers.

**Theorem (`Inv.arrive`, `Inv.expire`).** A data PDU and the expiry of the reassembly timer keep
`Inv`: `next ≤ highestStatus ≤ nextHighest ≤ next + W`, the window holds SDUs of
`[next, nextHighest)` only, and neither SDU `next` nor SDU `highestStatus` is complete. The
trigger of a running timer lies behind an SDU that is in the window, which is why the source may
read the SDU info of `next` when the trigger is `next + 1`.
-/

namespace RadioStack.Rlc

open RxAm

/-- What a full SDU or an SDU segment does to the SDU info it is written to. -/
def RxAm.SduInfo.place (info : SduInfo) (d : RxSegment) : SduInfo × Bool :=
  if d.si = .fullSdu then
    ({ fullyReceived := true, hasGap := false, sduData := .slice d.payload }, true)
  else info.store d

def RxAm.SduInfo.release (info : SduInfo) : SduInfo := { info with sduData := .slice [] }

structure Receiver where
  next : Nat
  trigger : Nat
  highestStatus : Nat
  nextHighest : Nat
  window : Nat → Option SduInfo
  /-- The reassembly timer is running. -/
  running : Bool

namespace Receiver

def init : Receiver := ⟨0, 0, 0, 0, fun _ => none, false⟩

section

variable (r : Receiver)

section

variable (x : Nat)

def received : Bool := (r.window x).any (·.fullyReceived)

def hasGap : Bool := (r.window x).any (·.hasGap)

/-! ## Steps -/

def put (info : SduInfo) : Receiver :=
  { r with window := Function.update r.window x (some info) }

def raise : Receiver :=
  { r with nextHighest := max r.nextHighest (x + 1) }

def release : Receiver :=
  { r with window := Function.update r.window x ((r.window x).map SduInfo.release) }

def updateHighestStatus : Receiver :=
  if x = r.highestStatus then
    { r with highestStatus := firstFail r.received (r.highestStatus + 1) r.nextHighest }
  else r

def updateNext : Receiver :=
  if x = r.next then
    { r with
      next := firstFail r.received r.next r.nextHighest
      window := fun y =>
        if y < firstFail r.received r.next r.nextHighest then none else r.window y }
  else r

def deliver : Receiver × Option (List UInt8) :=
  match r.window x with
  | some info =>
    if info.fullyReceived then
      (((r.release x).updateHighestStatus x).updateNext x, info.reassemble)
    else (r, none)
  | none => (r, none)

def stopTimer (W : Nat) (r : Receiver) : Receiver :=
  { r with
    running := r.running &&
      !(r.trigger ≤ r.next || (r.trigger = r.next + 1 && !r.hasGap r.next) ||
        !decide (r.trigger < r.next + W)) }

def startTimer : Receiver :=
  if x + 1 < r.nextHighest ∨ (r.nextHighest = x + 1 ∧ r.hasGap x) then
    { r with running := true, trigger := r.nextHighest }
  else r

def restartTimer : Receiver :=
  if r.running then r else r.startTimer r.next

/-- The info of SDU `x` with `d` written to it, and whether that changed it. -/
def placed (d : RxSegment) : SduInfo × Bool :=
  ((r.window x).getD {}).place d

/-- `d` is written to SDU `x` of the window. -/
def write (d : RxSegment) : Receiver :=
  (r.put x (r.placed x d).1).raise x

end

/-- PDU `d` of SDU `x` arrives. -/
def arrive (W : Nat) (r : Receiver) (x : Nat) (d : RxSegment) :
    Receiver × Bool × Option (List UInt8) :=
  if r.next ≤ x ∧ x < r.next + W ∧ r.received x = false then
    let delivered := (r.write x d).deliver x
    ((delivered.1.stopTimer W).restartTimer, (r.placed x d).2, delivered.2)
  else (r, false, none)

/-- The handler of the expired reassembly timer. -/
def expire : Receiver :=
  let r := { r with highestStatus := firstFail r.received r.trigger r.nextHighest }
  { r with running := false }.startTimer r.highestStatus

/-- The SDU up to which a status report looks. -/
def stop (maxNofSn : Nat) : Nat := min (r.next + maxNofSn) r.highestStatus

end

/-- The status report: one NACK after the other for the SDUs from `next` to `stop`. -/
def report (n : AmSnSize) (r : Receiver) (maxNofSn : Nat) (builder : StatusPdu) :
    Except Fault StatusPdu :=
  (countLoop (fun (report : Except Fault StatusPdu) x =>
      some (report.bind (Core.nackSdu (r.window x) (x % n.mod))))
    (r.stop maxNofSn - r.next) (.ok builder.reset) r.next).1.map
    fun report => { report with ackSn := r.stop maxNofSn % n.mod }

/-- The rule for the loop of the report. -/
theorem report_ensures {n : AmSnSize} {r : Receiver} {maxNofSn : Nat} {builder : StatusPdu}
    {bad : Fault → Prop} {P : Nat → StatusPdu → Prop} (hstart : P r.next builder.reset)
    (hstep : ∀ x report, r.next ≤ x → P x report →
      Ensures bad (P (x + 1)) (Core.nackSdu (r.window x) (x % n.mod) report)) :
    Ensures bad (fun report => ∃ before, P (r.next + (r.stop maxNofSn - r.next)) before ∧
      report = { before with ackSn := r.stop maxNofSn % n.mod }) (r.report n maxNofSn builder) := by
  set body := fun (report : Except Fault StatusPdu) x =>
    some (report.bind (Core.nackSdu (r.window x) (x % n.mod)))
  have hloop := countLoop_invariant (f := body) (k := r.stop maxNofSn - r.next)
    (s := .ok builder.reset) (a := r.next) (P := fun report x => Ensures bad (P x) report) ?_ hstart
  · rw [countLoop_snd_eq fun _ _ => Option.some_ne_none _] at hloop
    exact hloop.map fun before h => ⟨before, h, rfl⟩
  · rintro report x _ hle - h ⟨⟩
    exact h.bind fun before => hstep x before hle

/-! ## Invariant -/

/-- The SDUs up to `nextHighest` without their reassembly timer; `done` are SDUs that may be
complete although a state variable points to them. -/
structure Ordered (W : Nat) (r : Receiver) (done : Nat → Prop) : Prop where
  next_le : r.next ≤ r.highestStatus
  status_le : r.highestStatus ≤ r.nextHighest
  highest_le : r.nextHighest ≤ r.next + W
  window_mem : ∀ x, r.window x ≠ none → r.next ≤ x ∧ x < r.nextHighest
  next_missing : r.received r.next = true → done r.next
  status_missing : r.received r.highestStatus = true → done r.highestStatus
  top_mem : ∀ x, r.nextHighest = x + 1 → r.next ≤ x → r.window x ≠ none
  incomplete : ∀ x info, r.window x = some info → info.fullyReceived = false →
    ∃ set, info.sduData = .segments set

/-- The trigger follows an SDU of the window. -/
def TriggerOk (r : Receiver) : Prop :=
  ∃ x, r.trigger = x + 1 ∧ r.next ≤ x ∧ x < r.nextHighest ∧ r.window x ≠ none

structure Inv (W : Nat) (r : Receiver) : Prop extends Ordered W r fun _ => False where
  trigger_ok : r.running = true → r.TriggerOk

section Received

variable {r : Receiver} {x y : Nat} {info : SduInfo}

theorem received_put : (r.put x info).received y =
    if y = x then info.fullyReceived else r.received y := by
  unfold received put
  by_cases h : y = x
  · subst h
    simp
  · simp [h]

theorem received_release : (r.release x).received y = r.received y := by
  unfold received release
  by_cases h : y = x
  · subst h
    cases r.window y <;> simp [SduInfo.release]
  · simp [h]

theorem window_put_ne_none : (r.put x info).window y ≠ none ↔ y = x ∨ r.window y ≠ none := by
  unfold put
  by_cases h : y = x
  · simp [h]
  · simp [h]

theorem window_release_ne_none : (r.release x).window y ≠ none ↔ r.window y ≠ none := by
  unfold release
  by_cases h : y = x
  · subst h
    simp
  · simp [h]

theorem received_congr {r' : Receiver} (h : r.window y = r'.window y) :
    r.received y = r'.received y := by
  unfold received
  rw [h]

theorem received_of_window_none (h : r.window y = none) : r.received y = false := by
  simp [received, h]

end Received

theorem place_incomplete {info : SduInfo} {d : RxSegment}
    (h : (info.place d).1.fullyReceived = false) :
    ∃ set, (info.place d).1.sduData = .segments set := by
  unfold SduInfo.place at h ⊢
  split_ifs at h with hsi
  rw [if_neg hsi]
  exact ⟨_, rfl⟩

variable {W : Nat} {r : Receiver} {x : Nat} {d : RxSegment}

/-! ## Writing -/

theorem Inv.write (h : r.Inv W) (hle : r.next ≤ x) (hlt : x < r.next + W) :
    (r.write x d).Ordered W (· = x) where
  next_le := h.next_le
  status_le := Nat.le_trans h.status_le (Nat.le_max_left ..)
  highest_le := Nat.max_le.2 ⟨h.highest_le, hlt⟩
  window_mem := by
    intro y hy
    show r.next ≤ y ∧ y < max r.nextHighest (x + 1)
    rcases window_put_ne_none.1 hy with rfl | hy
    · exact ⟨hle, Nat.lt_of_lt_of_le (Nat.lt_succ_self y) (Nat.le_max_right ..)⟩
    · obtain ⟨hy, hy'⟩ := h.window_mem y hy
      exact ⟨hy, Nat.lt_of_lt_of_le hy' (Nat.le_max_left ..)⟩
  next_missing := by
    intro hrec
    have hrec : (r.put x (r.placed x d).1).received r.next = true := hrec
    rw [received_put] at hrec
    by_contra hne
    have hne : r.next ≠ x := hne
    rw [if_neg hne] at hrec
    exact h.next_missing hrec
  status_missing := by
    intro hrec
    have hrec : (r.put x (r.placed x d).1).received r.highestStatus = true := hrec
    rw [received_put] at hrec
    by_contra hne
    have hne : r.highestStatus ≠ x := hne
    rw [if_neg hne] at hrec
    exact h.status_missing hrec
  top_mem := by
    intro y hy hley
    have hy : max r.nextHighest (x + 1) = y + 1 := hy
    refine window_put_ne_none.2 ?_
    by_cases hyx : y = x
    · exact .inl hyx
    · exact .inr (h.top_mem y (by omega) hley)
  incomplete := by
    intro y info hy hfull
    have hy : Function.update r.window x (some (r.placed x d).1) y = some info := hy
    by_cases hyx : y = x
    · subst hyx
      rw [Function.update_self, Option.some.injEq] at hy
      subst hy
      exact place_incomplete hfull
    · rw [Function.update_of_ne hyx] at hy
      exact h.incomplete y info hy hfull

theorem TriggerOk.write (h : r.TriggerOk) : (r.write x d).TriggerOk := by
  obtain ⟨y, hy, hle, hlt, hw⟩ := h
  exact ⟨y, hy, hle, Nat.lt_of_lt_of_le hlt (Nat.le_max_left ..),
    window_put_ne_none.2 (.inr hw)⟩

/-! ## Delivering -/

variable {done : Nat → Prop}

theorem Ordered.release (h : r.Ordered W done) (hx : r.received x = true) :
    (r.release x).Ordered W done where
  next_le := h.next_le
  status_le := h.status_le
  highest_le := h.highest_le
  window_mem := fun y hy => h.window_mem y (window_release_ne_none.1 hy)
  next_missing := fun hrec => h.next_missing (received_release ▸ hrec)
  status_missing := fun hrec => h.status_missing (received_release ▸ hrec)
  top_mem := fun y hy hle => window_release_ne_none.2 (h.top_mem y hy hle)
  incomplete := by
    intro y info hy hfull
    by_cases hyx : y = x
    · subst hyx
      -- only complete SDUs are released
      have : (r.release y).received y = info.fullyReceived := by simp [received, hy]
      rw [received_release, hx, hfull] at this
      cases this
    · have hy : Function.update r.window x ((r.window x).map SduInfo.release) y = some info := hy
      rw [Function.update_of_ne hyx] at hy
      exact h.incomplete y info hy hfull

theorem Ordered.lt_nextHighest (h : r.Ordered W done) (hx : r.received x = true) :
    r.next ≤ x ∧ x < r.nextHighest := by
  refine h.window_mem x fun hnone => ?_
  rw [received_of_window_none hnone] at hx
  cases hx

theorem Ordered.received_nextHighest (h : r.Ordered W done) :
    r.received r.nextHighest = false := by
  by_contra hrec
  have := (h.lt_nextHighest (by simpa using hrec)).2
  omega

theorem Ordered.firstFail_missing (h : r.Ordered W done) {a : Nat} (ha : a ≤ r.nextHighest) :
    r.received (firstFail r.received a r.nextHighest) = false := by
  rcases Nat.lt_or_eq_of_le (firstFail_le (p := r.received) ha) with hlt | heq
  · exact firstFail_fails hlt
  · rw [heq]
    exact h.received_nextHighest

theorem Ordered.updateHighestStatus (h : r.Ordered W (· = x)) (hx : r.received x = true) :
    (r.updateHighestStatus x).Ordered W (· = x) ∧
      (r.updateHighestStatus x).received (r.updateHighestStatus x).highestStatus = false := by
  unfold Receiver.updateHighestStatus
  by_cases hxs : x = r.highestStatus
  · rw [if_pos hxs]
    have hlt := (h.lt_nextHighest hx).2
    have hmiss := h.firstFail_missing (a := r.highestStatus + 1) (by omega)
    refine ⟨{ h with
      next_le := ?_, status_le := firstFail_le (by omega), status_missing := ?_ }, hmiss⟩
    · exact Nat.le_trans h.next_le (Nat.le_of_succ_le le_firstFail)
    · intro hrec
      have hrec : r.received (firstFail r.received (r.highestStatus + 1) r.nextHighest) = true :=
        hrec
      rw [hmiss] at hrec
      cases hrec
  · rw [if_neg hxs]
    refine ⟨h, ?_⟩
    by_contra hrec
    exact hxs (h.status_missing (by simpa using hrec)).symm

theorem received_updateNext {y : Nat} (hy : (r.updateNext x).received y = true) :
    r.received y = true := by
  unfold Receiver.updateNext at hy
  split at hy
  · set m := firstFail r.received r.next r.nextHighest
    by_cases hlt : y < m
    · rw [received_of_window_none (if_pos hlt)] at hy
      cases hy
    · rwa [received_congr (show _ = r.window y from if_neg hlt)] at hy
  · exact hy

theorem Ordered.updateNext (h : r.Ordered W (· = x))
    (hs : r.received r.highestStatus = false) : (r.updateNext x).Ordered W fun _ => False := by
  have hs' : (r.updateNext x).highestStatus = r.highestStatus := by
    unfold Receiver.updateNext
    split <;> rfl
  have hstatus : (r.updateNext x).received (r.updateNext x).highestStatus = true → False := by
    intro hrec
    have := received_updateNext hrec
    rw [hs', hs] at this
    cases this
  by_cases hxn : x = r.next
  · have hle := h.highest_le
    have hH : r.next ≤ r.nextHighest := Nat.le_trans h.next_le h.status_le
    have hnext : (r.updateNext x).next = firstFail r.received r.next r.nextHighest := by
      rw [Receiver.updateNext, if_pos hxn]
    have hge : r.next ≤ firstFail r.received r.next r.nextHighest := le_firstFail
    -- `highestStatus` is missing, so the search stops there at the latest
    have hns : firstFail r.received r.next r.nextHighest ≤ r.highestStatus := by
      by_contra hlt
      have := of_lt_firstFail h.next_le (Nat.lt_of_not_le hlt)
      rw [hs] at this
      cases this
    have hmiss := h.firstFail_missing hH
    have hw : ∀ y, (r.updateNext x).window y =
        if y < firstFail r.received r.next r.nextHighest then none else r.window y := by
      intro y
      rw [Receiver.updateNext, if_pos hxn]
    have hnh : (r.updateNext x).nextHighest = r.nextHighest := by
      rw [Receiver.updateNext, if_pos hxn]
    refine ⟨?_, ?_, ?_, ?_, ?_, hstatus, ?_, ?_⟩
    · rw [hnext, hs']
      exact hns
    · rw [hs', hnh]
      exact h.status_le
    · omega
    · intro y hy
      rw [hw] at hy
      rw [hnext, hnh]
      split at hy
      · exact absurd rfl hy
      · next hlt => exact ⟨Nat.le_of_not_lt hlt, (h.window_mem y hy).2⟩
    · intro hrec
      have := received_updateNext hrec
      rw [hnext, hmiss] at this
      cases this
    · intro y hy hley
      rw [hnext] at hley
      rw [hnh] at hy
      rw [hw, if_neg (Nat.not_lt_of_le hley)]
      exact h.top_mem y hy (Nat.le_trans hge hley)
    · intro y info hy hfull
      rw [hw] at hy
      split_ifs at hy
      exact h.incomplete y info hy hfull
  · rw [Receiver.updateNext, if_neg hxn]
    exact { h with
      next_missing := fun hrec => hxn (h.next_missing hrec).symm
      status_missing := fun hrec => by rw [hs] at hrec; cases hrec }

/-- `next` moves, by at most the window size, past complete SDUs. -/
theorem next_updateNext (h : r.Ordered W (· = x)) :
    r.next ≤ (r.updateNext x).next ∧ (r.updateNext x).next ≤ r.nextHighest ∧
      (r.updateNext x).nextHighest = r.nextHighest ∧
      ∀ y, (r.updateNext x).next ≤ y → (r.updateNext x).window y = r.window y := by
  have hH : r.next ≤ r.nextHighest := Nat.le_trans h.next_le h.status_le
  unfold Receiver.updateNext
  by_cases hxn : x = r.next
  · rw [if_pos hxn]
    exact ⟨le_firstFail, firstFail_le hH, rfl, fun y hy => if_neg (Nat.not_lt_of_le hy)⟩
  · rw [if_neg hxn]
    exact ⟨Nat.le_refl _, hH, rfl, fun _ _ => rfl⟩

/-! ## The timer -/

/-- The trigger of a running timer before the stop conditions are checked: `next` may have passed
it. -/
def TriggerLate (W : Nat) (r : Receiver) : Prop :=
  (r.trigger ≤ r.next ∧ r.next < r.trigger + W) ∨ r.TriggerOk

theorem Inv.deliver (h : r.Inv W) (hle : r.next ≤ x) (hlt : x < r.next + W) :
    ((r.write x d).deliver x).1.Ordered W (fun _ => False) ∧
      (r.running = true → ((r.write x d).deliver x).1.TriggerLate W) ∧
      ((r.write x d).deliver x).1.running = r.running := by
  have hord := h.write (d := d) hle hlt
  set w := r.write x d
  have htrig : r.running = true → w.TriggerOk := fun hrun => (h.trigger_ok hrun).write
  have hrun : w.running = r.running := rfl
  unfold Receiver.deliver
  cases hw : w.window x with
  | none =>
    have hmiss : w.received x = false := received_of_window_none hw
    refine ⟨{ hord with next_missing := ?_, status_missing := ?_ }, fun hr => .inr (htrig hr),
      hrun⟩
    · intro hrec
      rw [hord.next_missing hrec, hmiss] at hrec
      cases hrec
    · intro hrec
      rw [hord.status_missing hrec, hmiss] at hrec
      cases hrec
  | some info =>
    have hx : w.received x = info.fullyReceived := by simp [received, hw]
    by_cases hfull : info.fullyReceived = true
    · rw [hfull] at hx
      simp only [if_pos hfull]
      have hrel := hord.release hx
      have hx' : (w.release x).received x = true := received_release.trans hx
      obtain ⟨hst, hmiss⟩ := hrel.updateHighestStatus hx'
      set s := (w.release x).updateHighestStatus x
      have hsame : s.next = w.next ∧ s.trigger = w.trigger ∧ s.nextHighest = w.nextHighest ∧
          s.window = (w.release x).window ∧ s.running = w.running := by
        simp only [s, Receiver.updateHighestStatus]
        split <;> exact ⟨rfl, rfl, rfl, rfl, rfl⟩
      obtain ⟨hsn, hst', hsh, hsw, hsr⟩ := hsame
      obtain ⟨hge, hle', hnh, hwin⟩ := next_updateNext (x := x) hst
      have htr : (s.updateNext x).trigger = s.trigger ∧
          (s.updateNext x).running = s.running := by
        unfold Receiver.updateNext
        split <;> exact ⟨rfl, rfl⟩
      refine ⟨hst.updateNext hmiss, ?_, htr.2.trans (hsr.trans hrun)⟩
      intro hr
      obtain ⟨y, hy, hyle, hylt, hyw⟩ := htrig hr
      by_cases hpast : (s.updateNext x).next ≤ y
      · refine .inr ⟨y, htr.1.trans (hst'.trans hy), hpast, ?_, ?_⟩
        · rw [hnh, hsh]
          exact hylt
        · rw [hwin y hpast, hsw]
          exact window_release_ne_none.2 hyw
      · have := hst.highest_le
        exact .inl ⟨by omega, by omega⟩
    · simp only [if_neg hfull]
      refine ⟨{ hord with next_missing := ?_, status_missing := ?_ }, fun hr => .inr (htrig hr),
        hrun⟩
      · intro hrec
        rw [hord.next_missing hrec, hx] at hrec
        exact hfull hrec
      · intro hrec
        rw [hord.status_missing hrec, hx] at hrec
        exact hfull hrec

theorem inv_stopTimer (h : r.Ordered W fun _ => False) (ht : r.running = true → r.TriggerLate W) :
    (r.stopTimer W).Inv W := by
  refine { h with trigger_ok := ?_ }
  intro hrun
  have hrun : (r.running && !(r.trigger ≤ r.next ||
    (r.trigger = r.next + 1 && !r.hasGap r.next) || !decide (r.trigger < r.next + W))) = true :=
      hrun
  simp only [Bool.and_eq_true, Bool.not_eq_true', Bool.or_eq_false_iff,
    decide_eq_false_iff_not] at hrun
  rcases ht hrun.1 with hlate | hok
  · exact absurd hlate.1 hrun.2.1.1
  · exact hok

theorem inv_startTimer (h : r.Inv W) {y : Nat} (hy : r.next ≤ y) : (r.startTimer y).Inv W := by
  unfold startTimer
  split
  · next hcond =>
    refine { h with trigger_ok := fun _ => ?_ }
    obtain ⟨z, hz⟩ : ∃ z, r.nextHighest = z + 1 := ⟨r.nextHighest - 1, by omega⟩
    have hle : r.next ≤ z := by omega
    exact ⟨z, hz, hle, hz ▸ Nat.lt_succ_self z, h.top_mem z hz hle⟩
  · exact h

theorem inv_restartTimer (h : r.Inv W) : r.restartTimer.Inv W := by
  unfold restartTimer
  split
  · exact h
  · exact inv_startTimer h (Nat.le_refl _)

/-! ## Runs -/

theorem inv_init : init.Inv W where
  next_le := Nat.le_refl _
  status_le := Nat.le_refl _
  highest_le := Nat.zero_le _
  window_mem := fun _ hx => absurd rfl hx
  next_missing := nofun
  status_missing := nofun
  top_mem := nofun
  incomplete := nofun
  trigger_ok := nofun

theorem Inv.arrive (h : r.Inv W) : (r.arrive W x d).1.Inv W := by
  unfold Receiver.arrive
  split
  · next hin =>
    obtain ⟨hle, hlt, -⟩ := hin
    obtain ⟨hord, hlate, hrun⟩ := h.deliver (d := d) hle hlt
    exact inv_restartTimer (inv_stopTimer hord fun hr => hlate (hrun ▸ hr))
  · exact h

theorem Inv.expire (h : r.Inv W) (hrun : r.running = true) : r.expire.Inv W := by
  obtain ⟨y, hy, hley, hlty, -⟩ := h.trigger_ok hrun
  have hle : r.trigger ≤ r.nextHighest := by omega
  have hge : r.trigger ≤ firstFail r.received r.trigger r.nextHighest := le_firstFail
  have hmiss := h.firstFail_missing hle
  have hinv : ({ r with
      highestStatus := firstFail r.received r.trigger r.nextHighest
      running := false } : Receiver).Inv W :=
    { h with
      next_le := by simp only; omega
      status_le := firstFail_le hle
      status_missing := fun hrec => by
        have hrec : r.received (firstFail r.received r.trigger r.nextHighest) = true := hrec
        rw [hmiss] at hrec
        cases hrec
      trigger_ok := nofun }
  exact inv_startTimer hinv hinv.next_le

end Receiver

end RadioStack.Rlc
