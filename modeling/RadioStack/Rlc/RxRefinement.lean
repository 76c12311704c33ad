import RadioStack.Lib.Run
import RadioStack.Rlc.Receiver

/-!
# The AM receiver refines the receiver over unbounded sequence numbers

`Represents c r` relates the state of the source, with sequence numbers modulo `2 ^ sn`, to the
abstract receiver `r`. Each part of `handle_data_pdu` and the expiry handler is the corresponding
abstract step (`Represents.placePdu`, `Represents.expired`), and none of their assertions fails.
-/

namespace RadioStack.Rlc

open RxAm

/-- The state of the source stands for the abstract receiver. -/
structure Represents {n : AmSnSize} (c : Core n) (r : Receiver) : Prop where
  next : c.rxNext = r.next % n.mod
  trigger : c.rxNextStatusTrigger = r.trigger % n.mod
  highestStatus : c.rxHighestStatus = r.highestStatus % n.mod
  nextHighest : c.rxNextHighest = r.nextHighest % n.mod
  running : c.reassemblyTimer = r.running
  window : c.rxWindow.view n.mod r.next = r.window
  within : c.rxWindow.Within n.mod r.next

namespace Represents

variable {n : AmSnSize} {c : Core n} {r : Receiver} {x : Nat}

theorem init : Represents (Core.init n) Receiver.init where
  next := (Nat.zero_mod _).symm
  trigger := (Nat.zero_mod _).symm
  highestStatus := (Nat.zero_mod _).symm
  nextHighest := (Nat.zero_mod _).symm
  running := rfl
  window := funext fun _ => CircularMap.view_empty
  within := CircularMap.within_empty

/-! ## Reading the state -/

section Reading

variable (h : Represents c r)
include h

theorem next_modEq : c.rxNext ≡ r.next [MOD n.mod] := by
  rw [h.next]
  exact Nat.mod_modEq _ _

theorem rxModBase {sn : Nat} (hsn : sn ≡ x [MOD n.mod]) (hle : r.next ≤ x)
    (hlt : x < r.next + n.mod) : c.rxModBase sn = x - r.next :=
  serialSub_eq n.mod_dvd hsn h.next_modEq hle (by omega)

theorem rxModBase_of_lt {sn : Nat} (hsn : sn ≡ x [MOD n.mod]) (hlt : x < r.next)
    (hle : r.next ≤ x + n.mod) : c.rxModBase sn = x + n.mod - r.next :=
  serialSub_eq_of_lt n.mod_dvd hsn h.next_modEq hlt hle

theorem get? (hle : r.next ≤ x) (hlt : x < r.next + n.window) :
    c.rxWindow.get? (x % n.mod) = r.window x := by
  rw [← h.window, CircularMap.view_of_mem hle hlt]

theorem received (hle : r.next ≤ x) (hlt : x < r.next + n.window) :
    fullyReceivedAt c.rxWindow (x % n.mod) = r.received x := by
  unfold fullyReceivedAt Receiver.received
  rw [h.get? hle hlt]

theorem hasGap (hle : r.next ≤ x) (hlt : x < r.next + n.window) :
    hasGapAt c.rxWindow (x % n.mod) = r.hasGap x := by
  unfold hasGapAt Receiver.hasGap
  rw [h.get? hle hlt]

theorem firstMissing {a : Nat} (hle : r.next ≤ a) (ha : a ≤ r.nextHighest)
    (hH : r.nextHighest ≤ r.next + n.window) :
    c.firstMissing (a % n.mod) = firstFail r.received a r.nextHighest % n.mod := by
  have hmod := n.mod_eq
  have hpos := n.window_pos
  have hstop : c.rxNextHighest ≡ r.nextHighest [MOD n.mod] := by
    rw [h.nextHighest]
    exact Nat.mod_modEq _ _
  unfold Core.firstMissing
  rw [serialLoop_eq n.mod_dvd h.next_modEq hstop (by omega) hle ha (by omega)]
  show firstFail (fun k => fullyReceivedAt c.rxWindow (k % n.mod)) a r.nextHighest % n.mod = _
  congr 1
  exact firstFail_congr ha fun k hk hk' => h.received (by omega) (by omega)

end Reading

/-! ## Data PDUs -/

section

variable (h : Represents c r)

include h

section

variable (hle : r.next ≤ x)

include hle

section

variable (hlt : x < r.next + n.window)

include hlt

theorem putSdu (info : SduInfo) : Represents (c.putSdu (x % n.mod) info) (r.put x info) := by
  by_cases hc : c.rxWindow.contains (x % n.mod)
  · have hput : c.putSdu (x % n.mod) info =
        { c with rxWindow := c.rxWindow.modify (x % n.mod) fun _ => info } := by
      simp [Core.putSdu, if_pos hc]
    rw [hput]
    refine { h with window := ?_, within := CircularMap.within_modify h.within _ _ }
    obtain ⟨v, hv⟩ := CircularMap.contains_iff.1 hc
    show CircularMap.view _ n.mod r.next = Function.update r.window x (some info)
    rw [CircularMap.view_modify (.of_eq n.mod_eq) hle hlt, h.window, ← h.get? hle hlt, hv]
    rfl
  · have hput : c.putSdu (x % n.mod) info =
        { c with rxWindow := c.rxWindow.overwrite (x % n.mod) info } := by
      simp [Core.putSdu, if_neg hc]
    rw [hput]
    refine { h with
      window := ?_, within := CircularMap.within_overwrite h.within hle hlt _ }
    show CircularMap.view _ n.mod r.next = Function.update r.window x (some info)
    rw [CircularMap.view_overwrite (.of_eq n.mod_eq) hle hlt, h.window]

theorem store {header : AmPduHeader} (hsn : header.sn = x % n.mod) (payload : List UInt8) :
    c.store header payload =
      (c.putSdu (x % n.mod) (r.placed x ⟨header.si, header.so, payload⟩).1,
        (r.placed x ⟨header.si, header.so, payload⟩).2) := by
  unfold Core.store Receiver.placed SduInfo.place
  by_cases hsi : header.si = .fullSdu
  · rw [if_pos hsi, if_pos hsi, Core.handleFullDataSdu, hsn]
  · rw [if_neg hsi, if_neg hsi, Core.handleSegmentDataSdu, Core.sduInfo, hsn, h.get? hle hlt]

theorem updateRxNextHighest
    (hH : r.next ≤ r.nextHighest) (hH' : r.nextHighest ≤ r.next + n.window) :
    Represents (c.updateRxNextHighest (x % n.mod)) (r.raise x) := by
  have hmod := n.mod_eq
  have hx := h.rxModBase (Nat.mod_modEq x n.mod) hle (by omega)
  have hy := h.rxModBase (h.nextHighest ▸ Nat.mod_modEq r.nextHighest n.mod) hH (by omega)
  unfold Core.updateRxNextHighest
  by_cases hge : r.nextHighest ≤ x
  · rw [if_pos (by omega)]
    refine { h with nextHighest := ?_ }
    show (x % n.mod + 1) % n.mod = max r.nextHighest (x + 1) % n.mod
    rw [Nat.mod_add_mod, Nat.max_eq_right (by omega)]
  · rw [if_neg (by omega)]
    refine { h with nextHighest := ?_ }
    show c.rxNextHighest = max r.nextHighest (x + 1) % n.mod
    rw [Nat.max_eq_left (by omega), h.nextHighest]

theorem releaseSdu :
    Represents (c.releaseSdu (x % n.mod)) (r.release x) := by
  refine { h with window := ?_, within := CircularMap.within_modify h.within _ _ }
  show CircularMap.view _ n.mod r.next =
    Function.update r.window x ((r.window x).map SduInfo.release)
  rw [Core.releaseSdu, CircularMap.view_modify (.of_eq n.mod_eq) hle hlt, h.window]
  rfl

end

theorem updateRxHighestStatus (hlt : x < r.nextHighest)
    (hs : r.next ≤ r.highestStatus) (hs' : r.highestStatus ≤ r.nextHighest)
    (hH : r.nextHighest ≤ r.next + n.window) :
    Represents (c.updateRxHighestStatus (x % n.mod)) (r.updateHighestStatus x) := by
  have hmod := n.mod_eq
  have hx := h.rxModBase (Nat.mod_modEq x n.mod) hle (by omega)
  have hy := h.rxModBase (h.highestStatus ▸ Nat.mod_modEq r.highestStatus n.mod) hs (by omega)
  unfold Core.updateRxHighestStatus Receiver.updateHighestStatus
  by_cases heq : x = r.highestStatus
  · rw [if_pos (by omega), if_pos heq]
    refine { h with highestStatus := ?_ }
    show c.firstMissing ((c.rxHighestStatus + 1) % n.mod) = _
    rw [h.highestStatus, Nat.mod_add_mod, h.firstMissing (by omega) (by omega) hH]
  · rw [if_neg (by omega), if_neg heq]
    exact h

theorem updateRxNext (hlt : x < r.nextHighest)
    (hH : r.nextHighest ≤ r.next + n.window) :
    Represents (c.updateRxNext (x % n.mod)) (r.updateNext x) := by
  have hmod := n.mod_eq
  have hpos := n.window_pos
  have hx := h.rxModBase (Nat.mod_modEq x n.mod) hle (by omega)
  have hy := h.rxModBase h.next_modEq (Nat.le_refl _) (by omega)
  unfold Core.updateRxNext Receiver.updateNext
  by_cases heq : x = r.next
  swap
  · rw [if_neg (by omega), if_neg heq]
    exact h
  rw [if_pos (by omega), if_pos heq]
  have hstop : c.rxNextHighest ≡ r.nextHighest [MOD n.mod] := by
    rw [h.nextHighest]
    exact Nat.mod_modEq _ _
  have hstart : c.rxNext % n.mod = r.next % n.mod := by rw [h.next, Nat.mod_mod]
  rw [hstart, serialLoop_eq n.mod_dvd h.next_modEq hstop (by omega) (Nat.le_refl _) (by omega)
    (by omega)]
  set body := fun (w : Window n) k =>
    if fullyReceivedAt w (k % n.mod) then some (w.erase (k % n.mod)) else none with hbody
  have hget : ∀ (w : Window n) m, (w.view n.mod m = fun y => if y < m then none else r.window y) →
      w.get? (m % n.mod) = r.window m := fun w m hview => by
    rw [← CircularMap.view_of_mem (Nat.le_refl m) (Nat.lt_add_of_pos_right hpos), hview]
    exact if_neg (Nat.lt_irrefl m)
  -- after each round the SDUs passed are gone and were complete, the others are unchanged
  have hinv := countLoop_invariant (f := body) (k := r.nextHighest - r.next)
    (s := c.rxWindow) (a := r.next)
    (P := fun w m => (w.view n.mod m = fun y => if y < m then none else r.window y) ∧
      w.Within n.mod m ∧ ∀ y, r.next ≤ y → y < m → r.received y = true) ?_ ?_
  · generalize hres : countLoop body (r.nextHighest - r.next) c.rxWindow r.next = res at hinv ⊢
    obtain ⟨hlo, hhi, hbreak⟩ := countLoop_end hres
    obtain ⟨w, m⟩ := res
    obtain ⟨hview, hwithin, hall⟩ := hinv
    have hm : firstFail r.received r.next r.nextHighest = m := by
      refine firstFail_unique hlo (by omega) hall fun hlt => ?_
      have hnone := hbreak (by omega)
      by_contra hrec
      have hfull : fullyReceivedAt w (m % n.mod) = true := by
        unfold fullyReceivedAt
        rw [hget w m hview]
        exact (Bool.not_eq_false _).mp hrec
      simp [hbody, hfull] at hnone
    rw [hm]
    exact { h with next := rfl, window := hview, within := hwithin }
  · rintro w k w' hk hk' ⟨hview, hwithin, hall⟩ hround
    by_cases hfull : fullyReceivedAt w (k % n.mod) = true
    · have hw' : w.erase (k % n.mod) = w' := by simpa [hbody, hfull] using hround
      subst hw'
      obtain ⟨hwithin', hview'⟩ := CircularMap.eraseFirst (.of_eq n.mod_eq) hpos hwithin
      refine ⟨hview'.trans (funext fun y => ?_), hwithin', fun y hy hy' => ?_⟩
      · rw [hview]
        split
        · rfl
        · exact if_neg (by omega)
      · rcases Nat.lt_or_eq_of_le (Nat.le_of_lt_succ hy') with hlt | rfl
        · exact hall y hy hlt
        · unfold fullyReceivedAt at hfull
          rw [hget w y hview] at hfull
          exact hfull
    · simp [hbody, hfull] at hround
  · refine ⟨funext fun y => ?_, h.within, fun y hy hy' => by omega⟩
    rw [← h.window]
    split
    · next hlt => exact CircularMap.view_of_not_mem (.inl hlt)
    · rfl

end

/-! ## The timer -/

theorem stopReassemblyTimer (hord : r.Ordered n.window fun _ => False)
    (hlate : r.running = true → r.TriggerLate n.window) :
    ∃ c', c.stopReassemblyTimer = .ok c' ∧ Represents c' (r.stopTimer n.window) := by
  have hmod := n.mod_eq
  have hpos := n.range_lt_window
  unfold Core.stopReassemblyTimer
  cases hrun : r.running with
  | false =>
    rw [h.running, hrun]
    refine ⟨c, rfl, { h with running := ?_ }⟩
    show c.reassemblyTimer = (r.running && _)
    rw [h.running, hrun]
    rfl
  | true =>
    rw [h.running, hrun]
    have hone := h.rxModBase (x := r.next + 1) (h.next_modEq.add_right 1) (by omega) (by omega)
    rw [if_neg (by simp), hone]
    have htrig : c.rxNextStatusTrigger ≡ r.trigger [MOD n.mod] := by
      rw [h.trigger]
      exact Nat.mod_modEq _ _
    rcases hlate hrun with ⟨hle, hlt⟩ | ⟨y, hy, hle, hlt, hw⟩
    · -- `next` has reached or passed the trigger: one of the stop conditions holds
      have hstop : ∀ b, (c.rxNextStatusTrigger == c.rxNext || b ||
          !c.insideRxWindow c.rxNextStatusTrigger) = true := by
        intro b
        rcases Nat.lt_or_eq_of_le hle with hlt' | heq
        · have hbase := h.rxModBase_of_lt htrig hlt' (by omega)
          simp [Core.insideRxWindow, hbase]
          omega
        · simp [h.trigger, h.next, heq]
      have hbase : c.rxModBase c.rxNextStatusTrigger ≠ r.next + 1 - r.next := by
        rcases Nat.lt_or_eq_of_le hle with hlt' | heq
        · rw [h.rxModBase_of_lt htrig hlt' (by omega)]
          omega
        · rw [h.rxModBase (x := r.next) (heq ▸ htrig) (Nat.le_refl _) (by omega)]
          omega
      rw [if_neg hbase]
      refine ⟨_, rfl, { h with running := ?_ }⟩
      show (!_) = (r.running && !_)
      rw [hstop, hrun]
      simp [hle]
    · have hH := hord.highest_le
      rw [hy] at htrig
      have hbase := h.rxModBase (x := y + 1) htrig (by omega) (by omega)
      have hne : (c.rxNextStatusTrigger == c.rxNext) = false := by
        rw [beq_eq_false_iff_ne]
        intro heq
        have hzero := h.rxModBase h.next_modEq (Nat.le_refl _) (by omega)
        rw [heq, hzero] at hbase
        omega
      have hinside : c.insideRxWindow c.rxNextStatusTrigger =
          decide (y + 1 < r.next + n.window) := by
        exact decide_eq_decide.2 (by omega)
      rw [hbase, hne, hinside]
      by_cases hyn : y = r.next
      · subst hyn
        obtain ⟨info, hinfo⟩ := Option.ne_none_iff_exists'.1 hw
        have hget : c.rxWindow.get? c.rxNext = some info := by
          rw [h.next, h.get? (Nat.le_refl _) (by omega), hinfo]
        rw [if_pos rfl, hget]
        refine ⟨_, rfl, { h with running := ?_ }⟩
        show (!_) = (r.running && !_)
        have hgap : r.hasGap r.next = info.hasGap := by simp [Receiver.hasGap, hinfo]
        have hgt : ¬ (r.next + 1 ≤ r.next) := by omega
        rw [hrun, hy, hgap]
        simp [hgt]
      · rw [if_neg (by omega)]
        refine ⟨_, rfl, { h with running := ?_ }⟩
        show (!_) = (r.running && !_)
        rw [hrun, hy]
        have hgt : ¬ (y + 1 ≤ r.next) := by omega
        simp [hgt, hyn]

theorem startReassemblyTimer (hle : r.next ≤ x)
    (hlt : x ≤ r.nextHighest) (hH : r.nextHighest ≤ r.next + n.window) :
    Represents (c.startReassemblyTimer (x % n.mod)) (r.startTimer x) := by
  have hmod := n.mod_eq
  have hpos := n.range_lt_window
  have hx := h.rxModBase (x := x + 1) ((Nat.mod_modEq x n.mod).add_right 1) (by omega) (by omega)
  have hy := h.rxModBase (h.nextHighest ▸ Nat.mod_modEq r.nextHighest n.mod) (by omega) (by omega)
  unfold Core.startReassemblyTimer Receiver.startTimer
  rw [hx, hy]
  have hcond : (x + 1 - r.next < r.nextHighest - r.next ∨
      (r.nextHighest - r.next = x + 1 - r.next ∧ hasGapAt c.rxWindow (x % n.mod))) ↔
      (x + 1 < r.nextHighest ∨ (r.nextHighest = x + 1 ∧ r.hasGap x)) := by
    by_cases heq : r.nextHighest = x + 1
    · rw [h.hasGap hle (by omega)]
      constructor <;> rintro (hc | ⟨-, hg⟩)
      · omega
      · exact .inr ⟨heq, hg⟩
      · omega
      · exact .inr ⟨by omega, hg⟩
    · constructor <;> rintro (hc | ⟨hc, -⟩) <;> omega
  by_cases hc : x + 1 < r.nextHighest ∨ (r.nextHighest = x + 1 ∧ r.hasGap x)
  · rw [if_pos (hcond.2 hc), if_pos hc]
    exact { h with running := rfl, trigger := h.nextHighest }
  · rw [if_neg (mt hcond.1 hc), if_neg hc]
    exact h

/-! ## Complete steps -/

theorem deliver (hord : r.Ordered n.window (· = x)) (hle : r.next ≤ x)
    (hlt : x < r.nextHighest) :
    Represents (c.deliver (x % n.mod)).1 (r.deliver x).1 ∧
      (c.deliver (x % n.mod)).2 = (r.deliver x).2 := by
  have hH := hord.highest_le
  unfold Core.deliver Receiver.deliver
  rw [h.get? hle (by omega)]
  cases hw : r.window x with
  | none => exact ⟨h, rfl⟩
  | some info =>
    by_cases hfull : info.fullyReceived = true
    · simp only [if_pos hfull]
      have hrel := h.releaseSdu hle (by omega)
      have hst := hrel.updateRxHighestStatus hle hlt hord.next_le hord.status_le hH
      have hsame : ((r.release x).updateHighestStatus x).next = r.next ∧
          ((r.release x).updateHighestStatus x).nextHighest = r.nextHighest := by
        unfold Receiver.updateHighestStatus
        split <;> exact ⟨rfl, rfl⟩
      exact ⟨hst.updateRxNext (hsame.1 ▸ hle) (hsame.2 ▸ hlt) (by rw [hsame.1, hsame.2]; exact hH),
        trivial⟩
    · simp only [if_neg hfull]
      exact ⟨h, trivial⟩

/-- A data PDU is the arrival of its SDU, whichever SDU close to the window its SN stands for. -/
theorem placePdu (hinv : r.Inv n.window) (header : AmPduHeader)
    (payload : List UInt8) (hsn : header.sn = x % n.mod) (hge : r.next ≤ x + n.window)
    (hlt : x < r.next + n.mod) :
    ∃ p, c.placePdu header payload = .ok p ∧
      Represents p.core (r.arrive n.window x ⟨header.si, header.so, payload⟩).1 ∧
      (p.statusChanged, p.sdu) = (r.arrive n.window x ⟨header.si, header.so, payload⟩).2 := by
  have hmod := n.mod_eq
  unfold Core.placePdu Receiver.arrive
  by_cases hin : r.next ≤ x ∧ x < r.next + n.window
  · obtain ⟨hle, hlt⟩ := hin
    have hbase := h.rxModBase (Nat.mod_modEq x n.mod) hle (by omega)
    have hinside : c.insideRxWindow (x % n.mod) = true := by
      unfold Core.insideRxWindow
      rw [hbase, decide_eq_true_eq]
      omega
    rw [hsn, hinside, h.received hle hlt, if_neg (by simp)]
    by_cases hrec : r.received x = true
    · rw [if_pos hrec, if_neg (by simp [hrec])]
      exact ⟨_, rfl, h, rfl⟩
    · have hrec : r.received x = false := by simpa using hrec
      rw [if_neg (by simp [hrec]), if_pos ⟨hle, hlt, hrec⟩, h.store hle hlt hsn]
      have hH : r.next ≤ r.nextHighest := Nat.le_trans hinv.next_le hinv.status_le
      have hput := h.putSdu hle hlt (r.placed x ⟨header.si, header.so, payload⟩).1
      have hwrite : Represents _ (r.write x ⟨header.si, header.so, payload⟩) :=
        hput.updateRxNextHighest hle hlt hH hinv.highest_le
      have hord := hinv.write (d := ⟨header.si, header.so, payload⟩) hle hlt
      obtain ⟨hdel, hsdu⟩ := hwrite.deliver hord hle (Nat.lt_of_lt_of_le (Nat.lt_succ_self x)
        (Nat.le_max_right ..))
      obtain ⟨hord', hlate, hrun⟩ := hinv.deliver (d := ⟨header.si, header.so, payload⟩) hle hlt
      obtain ⟨c', hstop, hc'⟩ := hdel.stopReassemblyTimer hord' fun hr => hlate (hrun ▸ hr)
      simp only [hstop]
      have hinv' := Receiver.inv_stopTimer hord' fun hr => hlate (hrun ▸ hr)
      refine ⟨_, rfl, ?_, by rw [hsdu]⟩
      simp only [Receiver.restartTimer, hc'.running]
      by_cases hr : ((((r.write x ⟨header.si, header.so, payload⟩).deliver x).1.stopTimer
          n.window)).running = true
      · rw [if_pos hr, if_pos hr]
        exact hc'
      · rw [if_neg hr, if_neg hr, hc'.next]
        exact hc'.startReassemblyTimer (Nat.le_refl _)
          (Nat.le_trans hinv'.next_le hinv'.status_le) hinv'.highest_le
  · -- SDUs behind the window have a distance of at least its size, too
    have hinside : c.insideRxWindow (x % n.mod) = false := by
      unfold Core.insideRxWindow
      rw [decide_eq_false_iff_not]
      by_cases hle : r.next ≤ x
      · rw [h.rxModBase (Nat.mod_modEq x n.mod) hle hlt]
        omega
      · rw [h.rxModBase_of_lt (Nat.mod_modEq x n.mod) (by omega) (by omega)]
        omega
    rw [hsn, hinside, if_pos (by simp), if_neg fun hc => hin ⟨hc.1, hc.2.1⟩]
    exact ⟨_, rfl, h, rfl⟩

/-- The expiry handler of the reassembly timer. -/
theorem expired (hinv : r.Inv n.window) (hrun : r.running = true) :
    ∃ c', { c with reassemblyTimer := false }.onExpiredReassemblyTimer = .ok (c', true) ∧
      Represents c' r.expire := by
  have hmod := n.mod_eq
  have hH := hinv.highest_le
  obtain ⟨y, hy, hle, hlt, -⟩ := hinv.trigger_ok hrun
  have hstopped : Represents { c with reassemblyTimer := false } { r with running := false } :=
    { h with running := rfl }
  have hvalid : ∀ {sn z : Nat}, sn = z % n.mod → r.next < z → z ≤ r.nextHighest →
      ({ c with reassemblyTimer := false } : Core n).validAckSn sn = true := by
    intro sn z hsn hz hz'
    have hbase := hstopped.rxModBase (x := z) (hsn ▸ Nat.mod_modEq z n.mod)
      (Nat.le_of_lt hz) (by simp only; omega)
    unfold Core.validAckSn
    rw [hbase]
    simp only [Bool.and_eq_true, decide_eq_true_eq]
    omega
  have hmiss : ({ c with reassemblyTimer := false } : Core n).firstMissing
      c.rxNextStatusTrigger = firstFail r.received r.trigger r.nextHighest % n.mod := by
    rw [h.trigger]
    exact hstopped.firstMissing (by simp only; omega) (by simp only; omega) hH
  have hge : r.trigger ≤ firstFail r.received r.trigger r.nextHighest := le_firstFail
  have hle' : firstFail r.received r.trigger r.nextHighest ≤ r.nextHighest :=
    firstFail_le (by omega)
  unfold Core.onExpiredReassemblyTimer
  rw [if_neg (by simp), if_neg (by simp [hvalid h.trigger (by omega) (by omega)])]
  simp only [hmiss]
  rw [if_neg (by simp [hvalid rfl (by omega) hle'])]
  refine ⟨_, rfl, ?_⟩
  have hupd : Represents
      { c with
        reassemblyTimer := false
        rxHighestStatus := firstFail r.received r.trigger r.nextHighest % n.mod }
      { r with
        running := false
        highestStatus := firstFail r.received r.trigger r.nextHighest } :=
    { hstopped with highestStatus := rfl }
  exact hupd.startReassemblyTimer (by simp only; omega) hle' hH

/-! ## Status report -/

theorem stopSn (hinv : r.Inv n.window) {maxNofSn : Nat}
    (hmax : maxNofSn ≤ n.window) : c.stopSn maxNofSn = r.stop maxNofSn % n.mod := by
  have hmod := n.mod_eq
  have hpos := n.window_pos
  have hH := hinv.highest_le
  have hS := hinv.status_le
  have hlimit : (c.rxNext + maxNofSn) % n.mod = (r.next + maxNofSn) % n.mod := by
    rw [h.next, Nat.mod_add_mod]
  have hx := h.rxModBase (Nat.mod_modEq (r.next + maxNofSn) n.mod) (by omega) (by omega)
  have hy := h.rxModBase (h.highestStatus ▸ Nat.mod_modEq r.highestStatus n.mod)
    hinv.next_le (by omega)
  simp only [Core.stopSn, Receiver.stop, hlimit, hx, hy]
  by_cases hlt : r.next + maxNofSn < r.highestStatus
  · rw [if_pos (by omega), Nat.min_eq_left (by omega)]
  · rw [if_neg (by omega), Nat.min_eq_right (by omega), h.highestStatus]

theorem buildStatusReport (hinv : r.Inv n.window) {maxNofSn : Nat}
    (hmax : maxNofSn ≤ n.window) (builder : StatusPdu) :
    c.buildStatusReport maxNofSn builder = r.report n maxNofSn builder := by
  have hmod := n.mod_eq
  have hpos := n.window_pos
  have hH := hinv.highest_le
  have hS := hinv.status_le
  have hle : r.next ≤ r.stop maxNofSn := Nat.le_min.2 ⟨by omega, hinv.next_le⟩
  have hle' : r.stop maxNofSn ≤ r.highestStatus := Nat.min_le_right ..
  unfold Core.buildStatusReport Receiver.report
  simp only [h.stopSn hinv hmax]
  have hloop := serialLoop_eq (t := r.stop maxNofSn % n.mod)
    (f := fun (report : Except Fault StatusPdu) sn =>
      some (report.bind (Core.nackSdu (c.rxWindow.get? sn) sn)))
    n.mod_dvd h.next_modEq (Nat.mod_modEq _ _) (by omega) (k := n.mod) (Nat.le_refl _) hle
    (by omega) (.ok builder.reset)
  rw [← h.next] at hloop
  rw [hloop, Prod.map_fst, id_eq]
  congr 2
  refine countLoop_congr fun report x hx hx' => ?_
  rw [h.get? hx (by omega)]

end

end Represents

end RadioStack.Rlc
