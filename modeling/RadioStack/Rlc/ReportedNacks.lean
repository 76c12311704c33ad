import RadioStack.Rlc.RxInvariant
import RadioStack.Rlc.StatusCodec

/-!
# The NACKs of a status report

`refresh_status_report` visits the SNs from `rx_next` on and pushes NACKs as it goes. Here the
NACKs are listed first (`segmentNacks` for the gaps of one SDU, `sduNacks` for one SN,
`Receiver.pushed` for all of them), and the report is what `push_nack` makes of the list.

**Theorem (`Builds.statusReport`).** In every reachable state a report that is built is the
`statusReport` of such a list: its NACKs are of one SN each, in increasing order from `rx_next` on,
and below ACK_SN (`Reported`).
-/

namespace RadioStack.Rlc

open RxAm

/-- Distance of the first SN of a NACK from `rx_next`. -/
def StatusNack.offset (n : AmSnSize) (rxNext : Nat) (x : StatusNack) : Nat :=
  serialSub n.mod x.nackSn rxNext

/-- NACKs of one SN each, in increasing order from `rx_next` on, and below ACK_SN. -/
structure Reported (n : AmSnSize) (rxNext ackSn : Nat) (pushed : List StatusNack) : Prop where
  single : ∀ x ∈ pushed, x.nackSn < n.mod ∧ x.hasNackRange = false
  below : ∀ x ∈ pushed, x.offset n rxNext < serialSub n.mod ackSn rxNext
  increasing : pushed.Pairwise fun a b => a.offset n rxNext ≤ b.offset n rxNext

/-- The report: all NACKs are pushed, then ACK_SN is set. -/
def statusReport (n : AmSnSize) (ackSn : Nat) (pushed : List StatusNack) : StatusPdu :=
  { pushed.foldl StatusPdu.pushNack { snSize := n } with ackSn := ackSn }

theorem snSize_statusReport (n : AmSnSize) (ackSn : Nat) (pushed : List StatusNack) :
    (statusReport n ackSn pushed).snSize = n :=
  StatusPdu.snSize_foldl { snSize := n } pushed

/-! ## One SDU -/

/-- The gaps in front of the segments, and what follows the last one unless it ends the SDU. -/
def segmentNacks (sn : Nat) : (lastSo : Nat) → (haveLastSegment : Bool) → List RxSegment →
    List StatusNack
  | _, true, [] => []
  | lastSo, false, [] =>
    [{ nackSn := sn, hasSo := true, soStart := lastSo % 2 ^ 16, soEnd := soEndOfSdu }]
  | lastSo, haveLastSegment, segm :: set =>
    (if segm.so ≠ lastSo then
      [{ nackSn := sn, hasSo := true, soStart := lastSo % 2 ^ 16
         soEnd := (segm.so + (2 ^ 16 - 1)) % 2 ^ 16 }]
    else []) ++
    segmentNacks sn (segm.so + segm.payload.length) (haveLastSegment || segm.si == .lastSegment) set

def sduNacks (entry : Option SduInfo) (sn : Nat) : List StatusNack :=
  match entry with
  | none => [{ nackSn := sn }]
  | some info =>
    if info.fullyReceived then []
    else
      match info.sduData with
      | .slice _ => []
      | .segments set => segmentNacks sn 0 false set

section

variable {sn : Nat} {report r : StatusPdu}

theorem nackSegments_ok {lastSo : Nat} {haveLast : Bool} {set : List RxSegment}
    (h : Core.nackSegments sn lastSo haveLast set report = .ok r) :
    r = (segmentNacks sn lastSo haveLast set).foldl StatusPdu.pushNack report := by
  induction set generalizing lastSo haveLast report with
  | nil => cases haveLast <;> cases h <;> rfl
  | cons segm set ih =>
    simp only [Core.nackSegments] at h
    split at h
    · cases h
    · have hrest := ih h
      rw [segmentNacks, List.foldl_append]
      by_cases hgap : segm.so ≠ lastSo
      · rwa [if_pos hgap] at hrest ⊢
      · rwa [if_neg hgap] at hrest ⊢

theorem nackSdu_ok {entry : Option SduInfo} (h : Core.nackSdu entry sn report = .ok r) :
    r = (sduNacks entry sn).foldl StatusPdu.pushNack report := by
  cases entry with
  | none =>
    cases h
    rfl
  | some info =>
    simp only [Core.nackSdu] at h
    simp only [sduNacks]
    split at h
    · next hfull =>
      cases h
      rw [if_pos hfull]
      rfl
    · next hfull =>
      rw [if_neg hfull]
      cases hset : info.sduData with
      | slice payload =>
        simp only [hset] at h
        cases h
      | segments set =>
        simp only [hset] at h ⊢
        exact nackSegments_ok h

theorem mem_segmentNacks {lastSo : Nat} {haveLast : Bool} {set : List RxSegment} {x : StatusNack}
    (h : x ∈ segmentNacks sn lastSo haveLast set) : x.nackSn = sn ∧ x.hasNackRange = false := by
  induction set generalizing lastSo haveLast with
  | nil =>
    cases haveLast with
    | true => cases h
    | false =>
      obtain rfl := List.mem_singleton.1 h
      exact ⟨rfl, rfl⟩
  | cons segm set ih =>
    rw [segmentNacks] at h
    rcases List.mem_append.1 h with hgap | hrest
    · split at hgap
      · obtain rfl := List.mem_singleton.1 hgap
        exact ⟨rfl, rfl⟩
      · cases hgap
    · exact ih hrest

theorem mem_sduNacks {entry : Option SduInfo} {x : StatusNack} (h : x ∈ sduNacks entry sn) :
    x.nackSn = sn ∧ x.hasNackRange = false := by
  unfold sduNacks at h
  split at h
  · obtain rfl := List.mem_singleton.1 h
    exact ⟨rfl, rfl⟩
  · split at h
    · cases h
    · split at h
      · cases h
      · exact mem_segmentNacks h

end

/-! ## The report -/

namespace Receiver

variable {n : AmSnSize} {r : Receiver} {maxNofSn : Nat}

/-- The NACKs of the SDUs from `next` to `stop`. -/
def pushed (n : AmSnSize) (r : Receiver) (maxNofSn : Nat) : List StatusNack :=
  (List.range' r.next (r.stop maxNofSn - r.next)).flatMap fun x =>
    sduNacks (r.window x) (x % n.mod)

/-- The loop of the report pushes these NACKs. -/
theorem report_ok {builder report : StatusPdu} (hsize : builder.snSize = n)
    (h : r.report n maxNofSn builder = .ok report) :
    report = statusReport n (r.stop maxNofSn % n.mod) (r.pushed n maxNofSn) := by
  have hall : Ensures (fun _ => True) _ (r.report n maxNofSn builder) := report_ensures
    (P := fun x report => report = ((List.range' r.next (x - r.next)).flatMap fun x =>
      sduNacks (r.window x) (x % n.mod)).foldl StatusPdu.pushNack builder.reset)
    (by simp) fun x report hle hP => ?_
  · obtain ⟨before, rfl, rfl⟩ := hall.of_ok h
    rw [Nat.add_sub_cancel_left, StatusPdu.reset, hsize]
    rfl
  · cases hnack : Core.nackSdu (r.window x) (x % n.mod) report with
    | error f => trivial
    | ok report' =>
      show report' = _
      have hsucc : x + 1 - r.next = (x - r.next) + 1 := by omega
      have hlast : r.next + (x - r.next) = x := by omega
      rw [nackSdu_ok hnack, hP, hsucc, List.range'_concat, List.flatMap_append, List.foldl_append,
        Nat.one_mul, hlast]
      simp

/-- The NACKs listed are of one SN each, in increasing order, and below ACK_SN. -/
theorem Inv.reported {c : Core n} (hrep : Represents c r) (hinv : r.Inv n.window) :
    Reported n c.rxNext (r.stop maxNofSn % n.mod) (r.pushed n maxNofSn) := by
  have hmod := n.mod_eq
  have hpos := n.window_pos
  have hH := hinv.highest_le
  have hS := hinv.status_le
  have hstop : r.stop maxNofSn ≤ r.highestStatus := Nat.min_le_right ..
  have hle : r.next ≤ r.stop maxNofSn := Nat.le_min.2 ⟨by omega, hinv.next_le⟩
  have hack : serialSub n.mod (r.stop maxNofSn % n.mod) c.rxNext = r.stop maxNofSn - r.next :=
    hrep.rxModBase (Nat.mod_modEq _ _) hle (by omega)
  have hoffset : ∀ x ∈ List.range' r.next (r.stop maxNofSn - r.next),
      ∀ y ∈ sduNacks (r.window x) (x % n.mod),
        y.offset n c.rxNext = x - r.next ∧ x - r.next < r.stop maxNofSn - r.next := by
    intro x hx y hy
    obtain ⟨hx, hx'⟩ := List.mem_range'_1.1 hx
    refine ⟨?_, by omega⟩
    rw [StatusNack.offset, (mem_sduNacks hy).1]
    exact hrep.rxModBase (Nat.mod_modEq _ _) hx (by omega)
  refine ⟨?_, ?_, ?_⟩
  · intro y hy
    obtain ⟨x, -, hy⟩ := List.mem_flatMap.1 hy
    obtain ⟨hsn, hrange⟩ := mem_sduNacks hy
    exact ⟨hsn ▸ Nat.mod_lt _ n.mod_pos, hrange⟩
  · intro y hy
    obtain ⟨x, hx, hy⟩ := List.mem_flatMap.1 hy
    obtain ⟨hoff, hlt⟩ := hoffset x hx y hy
    rw [hoff, hack]
    exact hlt
  · refine List.pairwise_flatMap.2 ⟨fun x hx => ?_, ?_⟩
    · refine List.pairwise_of_forall_mem_list fun a ha b hb => ?_
      rw [(hoffset x hx a ha).1, (hoffset x hx b hb).1]
    · refine (List.pairwise_lt_range' 1).imp_of_mem fun {x y} hx hy hlt a ha b hb => ?_
      rw [(hoffset x hx a ha).1, (hoffset y hy b hb).1]
      omega

end Receiver

/-! ## The reports of a run -/

section

variable {cfg : Config} {e e' : RxAm cfg} {ev : Event} {out : Output}

/-- All reports have the SN size of the entity. -/
def RxAm.Sized (e : RxAm cfg) : Prop := ∀ i, (e.statusBuf i).snSize = cfg.snFieldLength

variable {report : StatusPdu}

theorem RxAm.Sized.update (h : e.Sized) (hr : report.snSize = cfg.snFieldLength) (j i : Fin 3) :
    (Function.update e.statusBuf j report i).snSize = cfg.snFieldLength := by
  by_cases hi : i = j
  · rw [hi, Function.update_self]
    exact hr
  · rw [Function.update_of_ne hi]
    exact h i

theorem StatusPdu.snSize_trim {s t : StatusPdu} {maxPackedSize : Nat}
    (h : s.trim maxPackedSize = some t) : t.snSize = s.snSize := by
  unfold StatusPdu.trim at h
  split at h
  · cases h
    rfl
  · split_ifs at h
    cases h
    rfl

/-- The report built in a state that stands for an abstract receiver. -/
theorem RxAm.Builds.eq_statusReport {r : Receiver} (h : e.Builds report)
    (hrep : Represents e.core r) (hinv : r.Inv cfg.snFieldLength.window) (hs : e.Sized) :
    report = statusReport cfg.snFieldLength
      (r.stop cfg.maxNofSnPerStatusReport % cfg.snFieldLength.mod)
      (r.pushed cfg.snFieldLength cfg.maxNofSnPerStatusReport) := by
  refine Receiver.report_ok (hs e.statusBuilder) ?_
  rw [← hrep.buildStatusReport hinv (Config.maxNofSn_le cfg)]
  exact h

/-- Reports that are built, and reports that are trimmed, keep their SN size. -/
theorem RxAm.Sized.transition (h : e.Sized) (ht : Transition e ev e' out) (htr : Tracked e') :
    e'.Sized := by
  obtain ⟨r, hrep, hinv⟩ := htr
  have hbuilt : ∀ {c report}, e'.core = c → ({ e with core := c } : RxAm cfg).Builds report →
      report.snSize = cfg.snFieldLength := by
    rintro c report rfl hb
    have hs : ({ e with core := e'.core } : RxAm cfg).Sized := h
    rw [hb.eq_statusReport hrep hinv hs]
    exact snSize_statusReport _ _ _
  cases ht with
  | dataReport _ _ _ _ hb
  | timerReport _ _ hb => exact fun i => h.update (hbuilt rfl hb) e.statusBuilder i
  | trim grantLen =>
    unfold RxAm.trimStatusPdu
    split
    · next report htrim =>
      exact fun i => h.update ((StatusPdu.snSize_trim htrim).trans (h _)) e.statusShared i
    · exact h
  | dropped => exact h
  | control => exact h
  | data => exact h
  | timerWithoutHandler => exact h
  | timerSkipped => exact h
  | prohibit => exact h
  | get => exact h

theorem RxAm.sized_init : (RxAm.init cfg).Sized := by
  intro i
  show (if i = 1 then _ else _ : StatusPdu).snSize = _
  split <;> rfl

theorem RxAm.sized_of_run {es : List Event} (hrun : Run RxAm.Step (RxAm.init cfg) es e) :
    e.Sized := by
  refine (hrun.invariant (P := fun e => Tracked e ∧ e.Sized) ?_
    ⟨tracked_of_run (.nil _), sized_init⟩).2
  rintro e ev e' ⟨ht, hs⟩ ⟨out, hstep⟩
  have ht' : Tracked e' := ht.step ⟨out, hstep⟩
  exact ⟨ht', hs.transition (step_transition hstep) ht'⟩

/-- **The reports of a run.** -/
theorem RxAm.Builds.statusReport {es : List Event} (hrun : Run RxAm.Step (RxAm.init cfg) es e)
    (h : e.Builds report) :
    ∃ pushed, Reported cfg.snFieldLength e.core.rxNext report.ackSn pushed ∧
      report = Rlc.statusReport cfg.snFieldLength report.ackSn pushed := by
  obtain ⟨r, hrep, hinv⟩ := tracked_of_run hrun
  have heq := h.eq_statusReport hrep hinv (sized_of_run hrun)
  have hack : report.ackSn = r.stop cfg.maxNofSnPerStatusReport % cfg.snFieldLength.mod := by
    rw [heq]
    rfl
  rw [hack]
  exact ⟨_, Receiver.Inv.reported hrep hinv, heq⟩

end

end RadioStack.Rlc
