import RadioStack.Pdcp.ReceivedCount
import RadioStack.Pdcp.StatusReport

/-!
# Data PDUs that are not authenticated

A data PDU that fails the integrity check, or whose COUNT is below RX_DELIV, should leave the
receiving entity as it was (`Inert`). But the COUNT limits are checked before the integrity of the
PDU is, and the COUNT of a sequence number below the window wraps around in the first hyper frame:
such a PDU can raise the flags of the limits for good, and without integrity protection it is even
stored.

**Theorem (`unauthenticated_inert`).** In every reachable state such a PDU leaves the entity alone
if and only if its COUNT modulo 2^32 is within the limits or these were reported before, and, below
the hard limit, the PDU is rejected by the integrity check or it can be read and its COUNT did not
wrap or is in the window already (`Tolerated`).
The first PDU that is received shows both effects (`unauthenticated_not_inert`). -/

namespace RadioStack.Pdcp

namespace RxEntity

variable {cfg : RxConfig} {s t : RxEntity cfg} {crypto : Crypto} {pdu : List UInt8} {sn c : Nat}

/-- From `s` to `t` nothing was delivered, stored or counted, and neither a reached limit nor a
protocol failure was reported. -/
structure Inert (s t : RxEntity cfg) : Prop where
  next : t.rxNext = s.rxNext
  deliv : t.rxDeliv = s.rxDeliv
  reord : t.rxReord = s.rxReord
  window : t.rxWindow = s.rxWindow
  timer : t.reorderingTimer = s.reorderingTimer
  notified : t.maxCountNotified = s.maxCountNotified
  overflow : t.maxCountOverflow = s.maxCountOverflow
  delivered : t.delivered = s.delivered
  quiet : ∃ new, t.notifications = s.notifications ++ new ∧
    RxNotification.maxCountReached ∉ new ∧ RxNotification.protocolFailure ∉ new

/-- A PDU that fails the integrity check, or whose COUNT is below RX_DELIV. -/
def Unwanted (crypto : Crypto) (s : RxEntity cfg) (pdu : List UInt8) (sn : Nat) : Prop :=
  (∃ e, s.security.secEngine = some e ∧ e.decryptAndVerifyIntegrity crypto pdu cfg.snSize.headerSize
    (wrappedCount cfg.snSize s.rxDeliv sn) = .error .integrityFailure) ∨
  nominalCount cfg.snSize s.rxDeliv sn < s.rxDeliv

/-- The limits of the COUNT are kept, or were reported before. -/
def WithinLimits (s : RxEntity cfg) (c : Nat) : Prop :=
  (c ≤ cfg.maxCount.notify ∨ s.maxCountNotified) ∧ (c < cfg.maxCount.hard ∨ s.maxCountOverflow)

/-- The PDU is rejected by the integrity check, or it can be read and its COUNT did not wrap or is
in the window. -/
def Harmless (crypto : Crypto) (s : RxEntity cfg) (pdu : List UInt8) (sn : Nat) : Prop :=
  let c := wrappedCount cfg.snSize s.rxDeliv sn
  let old := 0 ≤ nominalCount cfg.snSize s.rxDeliv sn ∨ s.rxWindow.contains c
  match s.security.secEngine with
  | none =>
    if cfg.isSrb then
      pdu.length ≤ secMacLen ∨ secMacLen + cfg.snSize.headerSize ≤ pdu.length ∧ old
    else old
  | some e =>
    match e.decryptAndVerifyIntegrity crypto pdu cfg.snSize.headerSize c with
    | .error .integrityFailure => True
    | .error _ => False
    | .ok buf => cfg.snSize.headerSize ≤ buf.length ∧ old

def Tolerated (crypto : Crypto) (s : RxEntity cfg) (pdu : List UInt8) (sn : Nat) : Prop :=
  let c := wrappedCount cfg.snSize s.rxDeliv sn
  s.WithinLimits c ∧ (c < cfg.maxCount.hard → s.Harmless crypto pdu sn)

/-! ## Limits -/

theorem rcvdCount_eq (hsn : sn < cfg.snSize.cardinality) :
    s.rcvdCount sn = wrappedCount cfg.snSize s.rxDeliv sn :=
  estimateCount_eq_wrappedCount hsn

theorem checkMaxCount_of_within (h : s.WithinLimits c) :
    s.checkMaxCount c = (s, decide (cfg.maxCount.hard ≤ c)) := by
  obtain ⟨hnotify, hhard⟩ := h
  have hfirst : ¬ (decide (cfg.maxCount.notify < c) && !s.maxCountNotified) = true := by
    rcases hnotify with hle | hflag
    · simp [Nat.not_lt.2 hle]
    · simp [hflag]
  rw [checkMaxCount]
  simp only [if_neg hfirst]
  by_cases hc : cfg.maxCount.hard ≤ c
  · have hflag : s.maxCountOverflow = true := hhard.resolve_left (Nat.not_lt.2 hc)
    simp [hc, hflag]
  · simp [hc]

theorem checkMaxCount_flags (s : RxEntity cfg) (c : Nat) :
    (s.checkMaxCount c).1.maxCountNotified =
        (s.maxCountNotified || decide (cfg.maxCount.notify < c)) ∧
      (s.checkMaxCount c).1.maxCountOverflow =
        (s.maxCountOverflow || decide (cfg.maxCount.hard ≤ c)) := by
  rw [checkMaxCount]
  by_cases hn : cfg.maxCount.notify < c <;> by_cases hh : cfg.maxCount.hard ≤ c <;>
    cases hf : s.maxCountNotified <;> cases ho : s.maxCountOverflow <;>
    simp [hn, hh, hf, ho, notify]

theorem applyDecipheringAndIntegrityCheck_flags (crypto : Crypto) (s : RxEntity cfg)
    (buf : List UInt8) (c : Nat) :
    (s.applyDecipheringAndIntegrityCheck crypto buf c).1.maxCountNotified = s.maxCountNotified ∧
      (s.applyDecipheringAndIntegrityCheck crypto buf c).1.maxCountOverflow =
        s.maxCountOverflow := by
  rw [applyDecipheringAndIntegrityCheck]
  split
  · split
    · split <;> exact ⟨rfl, rfl⟩
    · exact ⟨rfl, rfl⟩
  · split <;> exact ⟨rfl, rfl⟩

theorem placeSdu_flags (h : s.Keyed) (c : Nat) (sdu : List UInt8) :
    Ensures (fun _ => True) (fun t => t.maxCountNotified = s.maxCountNotified ∧
      t.maxCountOverflow = s.maxCountOverflow) (s.placeSdu c sdu) := by
  rw [placeSdu_eq h]
  exact .ite (fun _ => ⟨rfl, rfl⟩) fun _ =>
    (place_popped c sdu s).mono fun t ht => ⟨ht.notified, ht.overflow⟩

theorem Keyed.warned (h : s.Keyed) (hw : Warned s t) : t.Keyed := h.shrunk hw.shrunk

/-- Whatever becomes of the PDU, its COUNT leaves its mark on the flags. -/
theorem handleDataPdu_flags (h : s.Keyed) (hsn : readDataPduHeader cfg.snSize pdu = some sn) :
    Ensures (fun _ => True) (fun t =>
      t.maxCountNotified = (s.maxCountNotified || decide (cfg.maxCount.notify < s.rcvdCount sn)) ∧
      t.maxCountOverflow = (s.maxCountOverflow || decide (cfg.maxCount.hard ≤ s.rcvdCount sn)))
      (s.handleDataPdu crypto pdu) := by
  rw [handleDataPdu, hsn]
  simp only
  have hw₁ := (checkMaxCount_warned s (s.rcvdCount sn)).1
  rw [← (checkMaxCount_flags s (s.rcvdCount sn)).1, ← (checkMaxCount_flags s (s.rcvdCount sn)).2]
  generalize s.checkMaxCount (s.rcvdCount sn) = r at hw₁
  obtain ⟨s₁, refused⟩ := r
  refine .ite (fun _ => ⟨rfl, rfl⟩) fun _ => ?_
  have hw₂ := applyDecipheringAndIntegrityCheck_warned crypto s₁ pdu (s.rcvdCount sn)
  have hflags := applyDecipheringAndIntegrityCheck_flags crypto s₁ pdu (s.rcvdCount sn)
  generalize s₁.applyDecipheringAndIntegrityCheck crypto pdu (s.rcvdCount sn) = r' at hw₂ hflags
  obtain ⟨s₂, _ | buf⟩ := r'
  · exact hflags
  · refine .ite (fun _ => trivial) fun _ => ?_
    refine (placeSdu_flags ((h.warned hw₁).warned hw₂) _ _).mono fun t ht => ?_
    exact ⟨ht.1.trans hflags.1, ht.2.trans hflags.2⟩

/-! ## Inert PDUs -/

theorem Inert.refl (s : RxEntity cfg) : Inert s s :=
  ⟨rfl, rfl, rfl, rfl, rfl, rfl, rfl, rfl, [], (List.append_nil _).symm, nofun, nofun⟩

theorem Inert.integrityFailure (s : RxEntity cfg) : Inert s (s.notify .integrityFailure) :=
  ⟨rfl, rfl, rfl, rfl, rfl, rfl, rfl, rfl, [.integrityFailure], rfl, by decide, by decide⟩

theorem not_inert_protocolFailure (s : RxEntity cfg) : ¬ Inert s (s.notify .protocolFailure) := by
  intro h
  obtain ⟨new, hnew, -, hno⟩ := h.quiet
  have heq : [RxNotification.protocolFailure] = new := List.append_cancel_left hnew
  exact hno (heq ▸ List.mem_singleton_self _)

theorem Inert.within (h : s.Keyed) (hsn : readDataPduHeader cfg.snSize pdu = some sn)
    (ht : s.handleDataPdu crypto pdu = .ok t) (hinert : Inert s t) :
    s.WithinLimits (s.rcvdCount sn) := by
  obtain ⟨hnotified, hoverflow⟩ := (handleDataPdu_flags h hsn).of_ok ht
  rw [hinert.notified] at hnotified
  rw [hinert.overflow] at hoverflow
  constructor
  · by_cases hlt : cfg.maxCount.notify < s.rcvdCount sn
    · exact .inr (by simpa [hlt] using hnotified)
    · exact .inl (Nat.le_of_not_lt hlt)
  · by_cases hle : cfg.maxCount.hard ≤ s.rcvdCount sn
    · exact .inr (by simpa [hle] using hoverflow)
    · exact .inl (Nat.lt_of_not_le hle)

/-- An SDU that is stored is in the window or delivered afterwards. -/
theorem not_inert_place (hout : s.rxWindow.contains c = false) {sdu : List UInt8}
    (ht : placeSdu.place c sdu s = .ok t) : ¬ Inert s t := by
  intro hinert
  have hp := (place_popped c sdu s).of_ok ht
  have hin : (s.storeSdu c sdu).rxWindow.contains c = true :=
    CircularMap.contains_iff.2 ⟨{ sdu, count := c }, by
      simp only [storeSdu, CircularMap.get?_overwrite, if_true]⟩
  rcases hp.kept c hin with hin' | hlt
  · rw [hinert.window, hout] at hin'
    cases hin'
  · rw [hinert.delivered] at hlt
    exact Nat.lt_irrefl _ hlt

theorem placeSdu_inert_iff (h : s.Keyed) (sdu : List UInt8) :
    (∃ t, s.placeSdu c sdu = .ok t ∧ Inert s t) ↔ c < s.rxDeliv ∨ s.rxWindow.contains c := by
  rw [placeSdu_eq h]
  by_cases hold : c < s.rxDeliv ∨ s.rxWindow.contains c
  · rw [if_pos hold]
    exact ⟨fun _ => hold, fun _ => ⟨s, rfl, .refl s⟩⟩
  · rw [if_neg hold]
    have hout : s.rxWindow.contains c = false := by simpa using fun hin => hold (.inr hin)
    exact ⟨fun ⟨t, ht, hinert⟩ => absurd hinert (not_inert_place hout ht), fun hc => absurd hc hold⟩

theorem wrappedCount_lt_iff (hb : s.rxDeliv < 2 ^ 32)
    (hlow : nominalCount cfg.snSize s.rxDeliv sn < s.rxDeliv) :
    wrappedCount cfg.snSize s.rxDeliv sn < s.rxDeliv ↔
      0 ≤ nominalCount cfg.snSize s.rxDeliv sn := by
  have hmem := (nominalCount_mem cfg.snSize s.rxDeliv sn).1
  have hw : (cfg.snSize.windowSize : Int) < 2 ^ 32 := by
    cases cfg.snSize <;> decide
  rw [wrappedCount]
  omega

/-! ## Data PDUs -/

theorem headerSize_le_of_readDataPduHeader (hsn : readDataPduHeader cfg.snSize pdu = some sn) :
    cfg.snSize.headerSize ≤ pdu.length := by
  refine Nat.le_of_not_lt fun hlt => ?_
  unfold readDataPduHeader at hsn
  rw [if_pos (Nat.le_of_lt hlt)] at hsn
  cases hsn

theorem handleDataPdu_inert_iff (h : s.Keyed) (hb : s.rxDeliv < 2 ^ 32)
    (hsn : readDataPduHeader cfg.snSize pdu = some sn) (hunwanted : s.Unwanted crypto pdu sn)
    (hwithin : s.WithinLimits (wrappedCount cfg.snSize s.rxDeliv sn)) :
    (∃ t, s.handleDataPdu crypto pdu = .ok t ∧ Inert s t) ↔
      (wrappedCount cfg.snSize s.rxDeliv sn < cfg.maxCount.hard → s.Harmless crypto pdu sn) := by
  rw [handleDataPdu, hsn]
  simp only [rcvdCount_eq (readDataPduHeader_lt hsn), checkMaxCount_of_within hwithin]
  by_cases hhard : cfg.maxCount.hard ≤ wrappedCount cfg.snSize s.rxDeliv sn
  · rw [if_pos (decide_eq_true hhard)]
    exact ⟨fun _ hlt => absurd hhard (Nat.not_le.2 hlt), fun _ => ⟨s, rfl, .refl s⟩⟩
  rw [if_neg (by simpa using hhard)]
  have hlt := Nat.lt_of_not_le hhard
  have hplace : ∀ buf : List UInt8, nominalCount cfg.snSize s.rxDeliv sn < s.rxDeliv →
      ((∃ t, (if buf.length < cfg.snSize.headerSize then .error .trim else
          s.placeSdu (wrappedCount cfg.snSize s.rxDeliv sn) (buf.drop cfg.snSize.headerSize)) =
            Except.ok t ∧ Inert s t) ↔
        cfg.snSize.headerSize ≤ buf.length ∧ (0 ≤ nominalCount cfg.snSize s.rxDeliv sn ∨
          s.rxWindow.contains (wrappedCount cfg.snSize s.rxDeliv sn))) := by
    intro buf hlow
    by_cases hlen : buf.length < cfg.snSize.headerSize
    · rw [if_pos hlen]
      constructor
      · rintro ⟨t, ht, -⟩
        cases ht
      · rintro ⟨hle, -⟩
        exact absurd hlen (Nat.not_lt.2 hle)
    · rw [if_neg hlen, placeSdu_inert_iff h, wrappedCount_lt_iff hb hlow]
      exact ⟨fun hold => ⟨Nat.le_of_not_lt hlen, hold⟩, And.right⟩
  rw [forall_prop_of_true hlt, applyDecipheringAndIntegrityCheck, Harmless]
  cases heng : s.security.secEngine with
  | none =>
    have hlow : nominalCount cfg.snSize s.rxDeliv sn < s.rxDeliv := by
      rcases hunwanted with ⟨e, he, -⟩ | hlow
      · rw [heng] at he
        cases he
      · exact hlow
    by_cases hsrb : cfg.isSrb = true
    · by_cases hshort : pdu.length ≤ secMacLen
      · simp only [hsrb, hshort, if_true, true_or, iff_true]
        exact ⟨s, rfl, .refl s⟩
      · simp only [hsrb, hshort, if_true, if_false, false_or]
        have htake : (pdu.take (pdu.length - secMacLen)).length = pdu.length - secMacLen := by
          rw [List.length_take, Nat.min_eq_left (Nat.sub_le _ _)]
        rw [hplace _ hlow, htake]
        exact and_congr_left fun _ => by omega
    · have hlen := headerSize_le_of_readDataPduHeader hsn
      simp only [hsrb, if_false, Bool.false_eq_true]
      rw [hplace _ hlow]
      exact ⟨And.right, fun hold => ⟨hlen, hold⟩⟩
  | some e =>
    simp only
    cases hdec : e.decryptAndVerifyIntegrity crypto pdu cfg.snSize.headerSize
        (wrappedCount cfg.snSize s.rxDeliv sn) with
    | error err =>
      cases err with
      | integrityFailure =>
        simp only [iff_true]
        exact ⟨_, rfl, .integrityFailure s⟩
      | cipheringFailure | bufferFailure =>
        simp only [iff_false]
        rintro ⟨t, ht, hinert⟩
        exact not_inert_protocolFailure s (Except.ok.inj ht ▸ hinert)
    | ok buf =>
      have hlow : nominalCount cfg.snSize s.rxDeliv sn < s.rxDeliv := by
        rcases hunwanted with ⟨e', he', hfail⟩ | hlow
        · rw [heng] at he'
          cases he'
          rw [hdec] at hfail
          cases hfail
        · exact hlow
      exact hplace buf hlow

/-- Data PDUs that are not authenticated, in every reachable state. -/
theorem unauthenticated_inert {es : List Event}
    (hrun : Run (fun s e t => step crypto s e = some t) ({} : RxEntity cfg) es s)
    {b : UInt8} (hdata : isDataPdu cfg b) (hfirst : pdu.head? = some b)
    (hsn : readDataPduHeader cfg.snSize pdu = some sn) (hunwanted : s.Unwanted crypto pdu sn) :
    (∃ t, s.handlePdu crypto pdu = .ok t ∧ Inert s t) ↔ s.Tolerated crypto pdu sn := by
  have hkeyed : s.Keyed := hrun.invariant (fun _ _ _ h hstep => h.step hstep) keyed_init
  have hbounded : s.Bounded := hrun.invariant (P := Bounded) (fun _ _ _ h hstep => h.step hstep)
    ⟨Nat.two_pow_pos 32, Nat.two_pow_pos 32⟩
  have hpdu : s.handlePdu crypto pdu = s.handleDataPdu crypto pdu := by
    cases pdu with
    | nil => cases hfirst
    | cons b' rest =>
      cases hfirst
      exact if_pos hdata
  rw [hpdu, Tolerated]
  constructor
  · rintro ⟨t, ht, hinert⟩
    have hwithin := hinert.within hkeyed hsn ht
    rw [rcvdCount_eq (readDataPduHeader_lt hsn)] at hwithin
    exact ⟨hwithin, (handleDataPdu_inert_iff hkeyed hbounded.deliv hsn hunwanted hwithin).1
      ⟨t, ht, hinert⟩⟩
  · rintro ⟨hwithin, hharmless⟩
    exact (handleDataPdu_inert_iff hkeyed hbounded.deliv hsn hunwanted hwithin).2 hharmless

/-- An integrity check that no PDU passes. -/
def forgedCrypto : Crypto := { noCrypto with
  verifyIntegrity := fun _ _ _ _ _ _ => .error .integrityFailure }

def drbKeys : Sec128AsConfig where
  domain := .up
  k128Int := some (.replicate 16 0)
  k128Enc := .replicate 16 0
  integAlgo := some .nia2
  cipherAlgo := .nea0

/-- Integrity protection is switched on. -/
def protectedState : RxEntity sampleConfig :=
  { security :=
      { secEngine := some
          { bearerId := 0, direction := .uplink, integEng := some (.nia2, .replicate 16 0)
            cipherEng := none }
        integrityEnabled := true } }

theorem run_protectedState : Run (fun s e t => step forgedCrypto s e = some t)
    ({} : RxEntity sampleConfig) [.configureSecurity drbKeys true false] protectedState :=
  .single rfl

theorem unwanted_protectedState (pdu : List UInt8) (sn : Nat) :
    protectedState.Unwanted forgedCrypto pdu sn := .inl ⟨_, rfl, rfl⟩

/-- A forged PDU whose COUNT is within the window. -/
theorem unauthenticated_inert_forged :
    ∃ t, protectedState.handlePdu forgedCrypto [0x80, 5, 1, 2, 3, 4, 5] = .ok t ∧
      Inert protectedState t := by
  have hsn : readDataPduHeader sampleConfig.snSize [0x80, 5, 1, 2, 3, 4, 5] = some 5 := by decide
  refine (unauthenticated_inert run_protectedState (b := 0x80) rfl rfl hsn
    (unwanted_protectedState _ _)).2 ⟨⟨.inl (by decide), .inl (by decide)⟩, fun _ => ?_⟩
  exact trivial

/-- The first PDU has sequence number 2048, below the window of RX_DELIV = 0. If it is forged, a
reached limit is reported; without integrity protection it is stored with COUNT `2 ^ 32 - 2048`. -/
theorem unauthenticated_not_inert :
    (∃ t, Run (fun s e t => step forgedCrypto s e = some t) ({} : RxEntity sampleConfig)
        [.configureSecurity drbKeys true false] protectedState ∧
      protectedState.Unwanted forgedCrypto [0x88, 0, 1, 2, 3, 4, 5] 2048 ∧
      protectedState.handlePdu forgedCrypto [0x88, 0, 1, 2, 3, 4, 5] = .ok t ∧
      t.maxCountNotified = true ∧ t.notifications = [.maxCountReached, .integrityFailure] ∧
      ¬ Inert protectedState t) ∧
    ∃ t, ({} : RxEntity sampleConfig).Unwanted noCrypto [0x88, 0, 1] 2048 ∧
      ({} : RxEntity sampleConfig).handlePdu noCrypto [0x88, 0, 1] = .ok t ∧
      t.rxNext = 0xfffff801 ∧ t.reorderingTimer = true ∧
      ¬ Inert ({} : RxEntity sampleConfig) t := by
  have hforged : (protectedState.handlePdu forgedCrypto [0x88, 0, 1, 2, 3, 4, 5]).toOption.map
      (fun t => (t.maxCountNotified, t.notifications)) =
        some (true, [.maxCountReached, .integrityFailure]) := by decide +kernel
  have hplain : (({} : RxEntity sampleConfig).handlePdu noCrypto [0x88, 0, 1]).toOption.map
      (fun t => (t.rxNext, t.reorderingTimer)) = some (0xfffff801, true) := by decide +kernel
  obtain ⟨t, ht, hobs⟩ := Option.map_eq_some_iff.1 hforged
  obtain ⟨u, hu, hobs'⟩ := Option.map_eq_some_iff.1 hplain
  obtain ⟨hflag, hnotes⟩ := Prod.mk.inj hobs
  obtain ⟨hnext, htimer⟩ := Prod.mk.inj hobs'
  refine ⟨⟨t, run_protectedState, unwanted_protectedState _ _, toOption_eq_some.1 ht, hflag, hnotes,
    fun hinert => ?_⟩, u, .inr (by decide), toOption_eq_some.1 hu, hnext, htimer, fun hinert => ?_⟩
  · exact absurd (hinert.notified.symm.trans hflag) (by decide)
  · exact absurd (hinert.next.symm.trans hnext) (by decide)

end RxEntity

end RadioStack.Pdcp
