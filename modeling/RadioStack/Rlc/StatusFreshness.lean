import RadioStack.Rlc.RxInvariant

/-!
# Freshness of status reports

A refresh swaps the builder with the cached report, and `get_status_pdu` swaps the shared report
with the cached one. After a report has been taken the cached buffer is therefore an old one, and
a poll that leaves the RX window unchanged requests a report without a refresh.

**Theorem (`getStatusPdu_fresh`).** A report taken first, or after a refresh since the previous
one was taken, carries the ACK_SN and the NACKs of the most recent refresh.

**Counterexample (`getStatusPdu_stale`).** A duplicate with the poll bit set leads to a report
that was never built.
-/

namespace RadioStack.Rlc

open RxAm

/-- What the calls so far determine about the next report. -/
structure Freshness where
  /-- Report of the most recent refresh, or the initial one. -/
  latest : StatusPdu
  /-- No report has been taken since. -/
  pending : Bool
  deriving DecidableEq

namespace Freshness

/-- The initial report is empty and acknowledges nothing. -/
def init (n : AmSnSize) : Freshness := ⟨{ snSize := n, ackSn := 0 }, true⟩

def observe (m : Freshness) (out : Output) : Freshness :=
  match out.built, out.report with
  | some report, _ => ⟨report, true⟩
  | none, some _ => ⟨m.latest, false⟩
  | none, none => m

end Freshness

section

variable {cfg : Config}

/-- Calls, with what they determine about the next report. -/
def Observed (s : RxAm cfg × Freshness) (ev : Event) (s' : RxAm cfg × Freshness) : Prop :=
  ∃ out, s.1.step ev = some (.ok (s'.1, out)) ∧ s'.2 = s.2.observe out

/-- Calls in which a report is taken only first, or after a refresh since the previous one. -/
def ObservedFresh (s : RxAm cfg × Freshness) (ev : Event) (s' : RxAm cfg × Freshness) : Prop :=
  Observed s ev s' ∧ (ev = .getStatusPdu → s.2.pending = true)

/-- The three pointers are distinct, and a pending report is the cached one. -/
structure Buffers (s : RxAm cfg × Freshness) : Prop where
  builder_ne_cached : s.1.statusBuilder ≠ s.1.statusCached
  builder_ne_shared : s.1.statusBuilder ≠ s.1.statusShared
  cached_ne_shared : s.1.statusCached ≠ s.1.statusShared
  cached : s.2.pending = true → s.1.statusBuf s.1.statusCached = s.2.latest

theorem buffers_init : Buffers (RxAm.init cfg, Freshness.init cfg.snFieldLength) where
  builder_ne_cached := show (0 : Fin 3) ≠ 1 by decide
  builder_ne_shared := show (0 : Fin 3) ≠ 2 by decide
  cached_ne_shared := show (1 : Fin 3) ≠ 2 by decide
  cached := fun _ => rfl

/-- After a refresh the cached report is the one just built. -/
theorem Buffers.install {e : RxAm cfg} {m : Freshness} (h : Buffers (e, m)) (report : StatusPdu) :
    Buffers (e.install report, ⟨report, true⟩) where
  builder_ne_cached := h.builder_ne_cached.symm
  builder_ne_shared := h.cached_ne_shared
  cached_ne_shared := h.builder_ne_shared
  cached := fun _ => Function.update_self ..

theorem Buffers.congr {e e' : RxAm cfg} {m : Freshness} (h : Buffers (e, m))
    (hbuf : e'.statusBuf = e.statusBuf) (hb : e'.statusBuilder = e.statusBuilder)
    (hc : e'.statusCached = e.statusCached) (hs : e'.statusShared = e.statusShared) :
    Buffers (e', m) := by
  obtain ⟨h₁, h₂, h₃, h₄⟩ := h
  refine ⟨?_, ?_, ?_, fun hp => ?_⟩
  · rw [hb, hc]
    exact h₁
  · rw [hb, hs]
    exact h₂
  · rw [hc, hs]
    exact h₃
  · rw [hbuf, hc]
    exact h₄ hp

theorem Buffers.step {s s' : RxAm cfg × Freshness} {ev : Event} (h : Buffers s)
    (hs : Observed s ev s') : Buffers s' := by
  obtain ⟨e, m⟩ := s
  obtain ⟨e', m'⟩ := s'
  obtain ⟨out, hstep, hm⟩ := hs
  obtain rfl : m' = m.observe out := hm
  cases step_transition hstep with
  | dropped => exact h
  | control => exact h
  | data => exact h.congr rfl rfl rfl rfl
  | dataReport => exact ((h.congr rfl rfl rfl rfl).install _).congr rfl rfl rfl rfl
  | timerWithoutHandler | timerSkipped => exact h.congr rfl rfl rfl rfl
  | timerReport => exact ((h.congr rfl rfl rfl rfl).install _).congr rfl rfl rfl rfl
  | prohibit => exact h.congr rfl rfl rfl rfl
  | get =>
    exact ⟨h.builder_ne_shared, h.builder_ne_cached, h.cached_ne_shared.symm, nofun⟩
  | trim grantLen =>
    show Buffers (e.trimStatusPdu grantLen, m)
    unfold RxAm.trimStatusPdu
    split
    · -- the shared report is changed, not the cached one
      refine ⟨h.builder_ne_cached, h.builder_ne_shared, h.cached_ne_shared, fun hp => ?_⟩
      rw [← h.cached hp]
      exact Function.update_of_ne h.cached_ne_shared _ _
    · exact h

theorem buffers_of_run {s : RxAm cfg × Freshness} {es : List Event}
    (hrun : Run Observed (RxAm.init cfg, Freshness.init cfg.snFieldLength) es s) : Buffers s :=
  hrun.invariant (fun _ _ _ h hs => h.step hs) buffers_init

/-- **The report is the most recent one.** -/
theorem getStatusPdu_fresh {s : RxAm cfg × Freshness} {es : List Event}
    (hrun : Run ObservedFresh (RxAm.init cfg, Freshness.init cfg.snFieldLength) es s)
    (hpend : s.2.pending = true) :
    s.1.getStatusPdu.2.ackSn = s.2.latest.ackSn ∧
      s.1.getStatusPdu.2.nacks = s.2.latest.nacks := by
  have hbuf := buffers_of_run (hrun.mono fun _ _ _ h => h.1)
  have hreport : s.1.getStatusPdu.2 = s.2.latest := hbuf.cached hpend
  rw [hreport]
  exact ⟨rfl, rfl⟩

end

/-! ## A stale report -/

def observedState {cfg : Config} (s : RxAm cfg × Freshness) (ev : Event) :
    Option (RxAm cfg × Freshness) :=
  match s.1.step ev with
  | some (.ok (e', out)) => some (e', s.2.observe out)
  | _ => none

theorem observed_of_observedState {cfg : Config} {s s' : RxAm cfg × Freshness} {ev : Event}
    (h : observedState s ev = some s') : Observed s ev s' := by
  unfold observedState at h
  split at h
  · next e' out heq =>
    cases h
    exact ⟨out, heq, rfl⟩
  · cases h

/-- SN 0 arrives with the poll bit set, the report is taken, and SN 0 arrives once more. -/
def pollTwice : List Event :=
  [.handlePdu [0xc0, 0x00, 0xaa], .getStatusPdu, .handlePdu [0xc0, 0x00, 0xaa]]

theorem getStatusPdu_fresh_poll :
    ∃ s : RxAm sampleConfig × Freshness,
      Run ObservedFresh (RxAm.init sampleConfig, Freshness.init .size12bits)
        [.handlePdu [0xc0, 0x00, 0xaa]] s ∧
      s.2.latest.ackSn = 1 ∧ s.1.getStatusPdu.2.ackSn = s.2.latest.ackSn ∧
      s.1.getStatusPdu.2.nacks = s.2.latest.nacks := by
  have hexec : ((observedState (RxAm.init sampleConfig, Freshness.init .size12bits)
      (.handlePdu [0xc0, 0x00, 0xaa])).map fun s => (s.2.latest.ackSn, s.2.pending)) =
      some (1, true) := by decide +kernel
  obtain ⟨s, hs, hobs⟩ := Option.map_eq_some_iff.1 hexec
  obtain ⟨hack, hpend⟩ := Prod.mk.inj hobs
  have hfresh : ObservedFresh (RxAm.init sampleConfig, Freshness.init .size12bits)
      (.handlePdu [0xc0, 0x00, 0xaa]) s := ⟨observed_of_observedState hs, nofun⟩
  exact ⟨s, .single hfresh, hack, getStatusPdu_fresh (.single hfresh) hpend⟩

/-- A report is required after the second poll, and the one returned is not the latest: it is a
buffer that was never built, with an invalid ACK_SN. -/
theorem getStatusPdu_stale :
    ∃ s : RxAm sampleConfig × Freshness,
      Run Observed (RxAm.init sampleConfig, Freshness.init .size12bits) pollTwice s ∧
      s.1.statusReportRequired = true ∧ s.2.latest.ackSn = 1 ∧
      s.1.getStatusPdu.2.ackSn = invalidRlcSn := by
  have hexec : (exec observedState (RxAm.init sampleConfig, Freshness.init .size12bits)
      pollTwice).map (fun s => (s.1.statusReportRequired, s.2.latest.ackSn,
        s.1.getStatusPdu.2.ackSn)) = some (true, 1, invalidRlcSn) := by decide +kernel
  obtain ⟨s, hs, hobs⟩ := Option.map_eq_some_iff.1 hexec
  obtain ⟨hreq, hack, hrep⟩ : _ ∧ _ ∧ _ := by simpa using hobs
  exact ⟨s, (run_of_exec hs).mono fun _ _ _ h => observed_of_observedState h, hreq, hack, hrep⟩

end RadioStack.Rlc
