import RadioStack.Pdcp.RxFrame

/-!
# In-order delivery of the receiving PDCP entity

The receiver's window is a reordering buffer over COUNT values (`Tracks`): the delivery loops pass
entries on from the front, and a PDU that passes the integrity check is put into it. That needs the
COUNT of the PDU to be less than a window ahead of RX_DELIV. The COUNT is completed from the
sequence number relative to RX_DELIV, and in the first hyper frame a sequence number below the
window makes the hyper frame number wrap: the COUNT is then near `2 ^ 32`.

**Theorem (`rxEntity_in_order`).** As long as no such PDU arrives, unless its COUNT is refused as
too large, SDUs are delivered in strictly increasing COUNT order, the window holds COUNTs of
`[RX_DELIV, RX_NEXT)` only and never aliases two of them, and t-Reordering, while it runs, waits for
a COUNT behind RX_DELIV, so the loop that runs when it expires ends.
With such a PDU as the first one the window is broken (`rxEntity_not_in_order`). -/

namespace RadioStack.Pdcp.RxEntity

variable {cfg : RxConfig}

theorem windowModulus (n : SnSize) : WindowModulus (2 ^ 32) n.windowSize :=
  ⟨windowSize_dvd n, two_mul_windowSize_le n⟩

/-- The entity's window and state variables are the reordering buffer `r`. -/
structure Tracks (s : RxEntity cfg) (r : Reordering RxSduInfo) : Prop where
  deliv : s.rxDeliv = r.deliv
  next : s.rxNext = r.next
  holds : s.rxWindow.Holds (2 ^ 32) r
  inv : r.Inv cfg.snSize.windowSize
  bound : r.next < 2 ^ 32
  count : ∀ c info, r.window c = some info → info.count = c
  history : ∃ accepted, r.History accepted s.delivered

namespace Tracks

variable {s t : RxEntity cfg} {r : Reordering RxSduInfo} {c stop : Nat}

theorem init : Tracks ({} : RxEntity cfg) .init :=
  ⟨rfl, rfl, CircularMap.holds_init, Reordering.inv_init, by decide, nofun,
    [], Reordering.history_init⟩

section

variable (h : s.Tracks r)

include h

theorem deliv_lt : r.deliv < 2 ^ 32 := Nat.lt_of_le_of_lt h.inv.le h.bound

theorem frame (hdeliv : t.rxDeliv = s.rxDeliv) (hnext : t.rxNext = s.rxNext)
    (hwindow : t.rxWindow = s.rxWindow) (hdelivered : t.delivered = s.delivered) : t.Tracks r :=
  ⟨hdeliv.trans h.deliv, hnext.trans h.next, hwindow ▸ h.holds, h.inv, h.bound, h.count,
    hdelivered ▸ h.history⟩

theorem get? (hle : r.deliv ≤ c) (hlt : c < r.deliv + cfg.snSize.windowSize)
    (hc : c < 2 ^ 32) : s.rxWindow.get? c = r.window c := by
  have := h.holds.get? hle hlt
  rwa [Nat.mod_eq_of_lt hc] at this

/-- The COUNTs of the window are the counters of the buffer. -/
theorem of_get? {info : RxSduInfo} (hc : s.rxWindow.get? c = some info) :
    r.window c = some info ∧ r.deliv ≤ c ∧ c < r.next := by
  obtain ⟨n, -, -, rfl, hget⟩ :=
    h.holds.exists_entry (CircularMap.contains_iff.2 ⟨info, hc⟩)
  rw [hc] at hget
  have hmem := h.inv.mem n info hget.symm
  rw [Nat.mod_eq_of_lt (Nat.lt_trans hmem.2 h.bound)]
  exact ⟨hget.symm, hmem⟩

theorem serials_slice (hstop : stop ≤ r.next) :
    CircularMap.serials (2 ^ 32) (slice r.window r.deliv stop) = slice r.window r.deliv stop := by
  refine (List.map_congr_left fun p hp => ?_).trans (List.map_id _)
  have hlt := (mem_slice.1 hp).1.2
  rw [Nat.mod_eq_of_lt (Nat.lt_of_lt_of_le hlt (Nat.le_trans hstop (Nat.le_of_lt h.bound)))]
  rfl

/-- What the delivery loops lead to. -/
theorem passTo (hle : r.deliv ≤ stop) (hstop : stop ≤ r.next)
    {w : CircularMap cfg.snSize.windowSize RxSduInfo} (hw : w.Holds (2 ^ 32) (r.passTo stop)) :
    Tracks { s with
      rxWindow := w
      delivered := s.delivered ++ slice r.window r.deliv stop
      rxDeliv := stop } (r.passTo stop) := by
  obtain ⟨accepted, hist⟩ := h.history
  refine ⟨rfl, h.next, hw, h.inv.passTo hle hstop, h.bound, fun n info hn => ?_,
    accepted, hist.passTo hle hstop⟩
  change (if n < stop then none else r.window n) = some info at hn
  split_ifs at hn
  exact h.count n info hn

theorem deliverAllConsecutiveCounts :
    ∃ w delivered,
      s.deliverAllConsecutiveCounts =
        .ok { s with rxWindow := w, delivered, rxDeliv := r.front } ∧
      Tracks { s with rxWindow := w, delivered, rxDeliv := r.front } (r.passTo r.front) := by
  have hle := Reordering.front_le h.inv.le
  have hbound := h.bound
  obtain ⟨w, hw, hloop⟩ := CircularMap.popNext_spec (windowModulus cfg.snSize) h.holds h.inv
    (windowSize_pos _) (show r.next - r.deliv ≤ allCounts from by unfold allCounts; omega)
    s.delivered
  rw [Nat.mod_eq_of_lt h.bound, Nat.mod_eq_of_lt h.deliv_lt, h.serials_slice hle,
    Nat.mod_eq_of_lt (Nat.lt_of_le_of_lt hle h.bound), ← h.next, ← h.deliv] at hloop
  refine ⟨w, _, ?_, h.passTo Reordering.le_front hle hw⟩
  rw [RxEntity.deliverAllConsecutiveCounts, deliverUntil, hloop, h.deliv]

theorem deliverBelowReord (hle : r.deliv ≤ s.rxReord) (hreord : s.rxReord ≤ r.next)
    {fuel : Nat} (hfuel : s.rxReord - r.deliv ≤ fuel) :
    ∃ w delivered,
      s.deliverBelowReord fuel =
        .ok { s with rxWindow := w, delivered, rxDeliv := s.rxReord } ∧
      Tracks { s with rxWindow := w, delivered, rxDeliv := s.rxReord } (r.passTo s.rxReord) := by
  obtain ⟨w, hw, hloop⟩ := CircularMap.popAny_spec (windowModulus cfg.snSize) h.holds h.inv
    (windowSize_pos _) hle (Nat.le_trans hreord h.inv.room) hfuel s.delivered
  rw [Nat.mod_eq_of_lt h.deliv_lt, h.serials_slice hreord,
    Nat.mod_eq_of_lt (Nat.lt_of_le_of_lt hreord h.bound), ← h.deliv] at hloop
  refine ⟨w, _, ?_, h.passTo hle hreord hw⟩
  rw [RxEntity.deliverBelowReord, deliverUntil, hloop, h.deliv]

theorem storeSdu (hle : r.deliv ≤ c) (hlt : c < r.deliv + cfg.snSize.windowSize)
    (hc : c + 1 < 2 ^ 32) (hnone : r.window c = none) (sdu : List UInt8) :
    Tracks (s.storeSdu c sdu) (r.put c { sdu, count := c }) := by
  obtain ⟨accepted, hist⟩ := h.history
  refine ⟨h.deliv, ?_, ?_, h.inv.put hle hlt, Nat.max_lt.2 ⟨h.bound, hc⟩, fun n info hn => ?_,
    _, hist.put h.inv hle hnone⟩
  · show (if s.rxNext ≤ c then c + 1 else s.rxNext) = max r.next (c + 1)
    rw [h.next]
    split <;> omega
  · have := h.holds.overwrite (v := { sdu, count := c }) (windowModulus cfg.snSize) hle hlt
    rwa [Nat.mod_eq_of_lt (Nat.lt_of_succ_lt hc)] at this
  · by_cases hnc : n = c
    · subst hnc
      rw [Reordering.window_put_self] at hn
      cases hn
      rfl
    · rw [Reordering.window_put_of_ne hnc] at hn
      exact h.count n info hn

end

end Tracks

/-- What holds between two events. -/
structure Sound (s : RxEntity cfg) : Prop where
  tracks : ∃ r, s.Tracks r
  timer : s.reorderingTimer → s.rxDeliv < s.rxReord ∧ s.rxReord ≤ s.rxNext
  noTimer : cfg.tReordering = .ms 0 → s.reorderingTimer = false

namespace Sound

variable {s t : RxEntity cfg} {c : Nat}

theorem init : Sound ({} : RxEntity cfg) := ⟨⟨_, .init⟩, nofun, fun _ => rfl⟩

theorem frame (h : s.Sound) (hdeliv : t.rxDeliv = s.rxDeliv) (hnext : t.rxNext = s.rxNext)
    (hreord : t.rxReord = s.rxReord) (hwindow : t.rxWindow = s.rxWindow)
    (htimer : t.reorderingTimer = s.reorderingTimer) (hdelivered : t.delivered = s.delivered) :
    t.Sound := by
  obtain ⟨⟨r, hr⟩, h₁, h₂⟩ := h
  refine ⟨⟨r, hr.frame hdeliv hnext hwindow hdelivered⟩, ?_, ?_⟩
  · rw [htimer, hdeliv, hreord, hnext]
    exact h₁
  · rw [htimer]
    exact h₂

theorem warned (h : s.Sound) (hw : Warned s t) : t.Sound :=
  h.frame hw.deliv hw.next hw.reord hw.window hw.timer hw.delivered

end Sound

variable {s : RxEntity cfg}

/-- The expiry of t-Reordering: the loops end, and the timer runs again if COUNTs are missing. -/
theorem handleTReorderingExpire_spec {r : Reordering RxSduInfo} (h : s.Tracks r)
    (htimer : s.reorderingTimer = false) (hle : r.deliv ≤ s.rxReord) (hreord : s.rxReord ≤ r.next)
    (hzero : cfg.tReordering = .ms 0 → s.rxReord = r.next) :
    ∃ t, s.handleTReorderingExpire = .ok t ∧ t.Sound := by
  have hbound := h.bound
  obtain ⟨w₁, d₁, hrun₁, htr₁⟩ := h.deliverBelowReord hle hreord
    (show s.rxReord - r.deliv ≤ allCounts from by unfold allCounts; omega)
  obtain ⟨w₂, d₂, hrun₂, htr₂⟩ := htr₁.deliverAllConsecutiveCounts
  rw [handleTReorderingExpire, hrun₁]
  simp only [bind, Except.bind, hrun₂]
  have hnext : s.rxNext = r.next := h.next
  by_cases hmissing : (r.passTo s.rxReord).front < s.rxNext
  · -- everything has been delivered when the duration is zero
    have hnz : cfg.tReordering ≠ .ms 0 := by
      intro h0
      have hge : s.rxReord ≤ (r.passTo s.rxReord).front :=
        Reordering.le_front (r := r.passTo s.rxReord)
      rw [hzero h0, ← hnext] at hge
      rw [hzero h0, ← hnext] at hmissing
      exact absurd hmissing (Nat.not_lt.2 hge)
    rw [if_pos hmissing, if_neg hnz]
    exact ⟨_, rfl, ⟨_, htr₂.frame rfl rfl rfl rfl⟩,
      fun _ => ⟨hmissing, Nat.le_refl _⟩, fun h0 => absurd h0 hnz⟩
  · rw [if_neg hmissing]
    exact ⟨_, rfl, ⟨_, htr₂⟩, fun hrun => absurd hrun (by simp [htimer]), fun _ => htimer⟩

theorem updateReorderingTimer_spec {r : Reordering RxSduInfo} (h : s.Tracks r)
    (htimer : s.reorderingTimer → s.rxReord ≤ s.rxNext)
    (hzero : cfg.tReordering = .ms 0 → s.reorderingTimer = false) :
    ∃ t, s.updateReorderingTimer = .ok t ∧ t.Sound := by
  rw [updateReorderingTimer]
  generalize ht : (if s.reorderingTimer && s.rxReord ≤ s.rxDeliv then
    { s with reorderingTimer := false } else s) = t
  have hsound : t.Sound := by
    rw [← ht]
    split
    · exact ⟨⟨r, h.frame rfl rfl rfl rfl⟩, nofun, fun _ => rfl⟩
    · next hrun =>
      refine ⟨⟨r, h⟩, fun hr => ⟨?_, htimer hr⟩, hzero⟩
      simpa [hr] using hrun
  obtain ⟨r', htr⟩ := hsound.tracks
  by_cases hinf : cfg.tReordering = .infinity
  · rw [if_pos hinf]
    exact ⟨t, rfl, hsound⟩
  · rw [if_neg hinf]
    by_cases h0 : cfg.tReordering = .ms 0
    · rw [if_pos h0]
      refine handleTReorderingExpire_spec (s := { t with rxReord := t.rxNext })
        (htr.frame rfl rfl rfl rfl) (hsound.noTimer h0) ?_ ?_ fun _ => htr.next
      · exact htr.next ▸ htr.inv.le
      · exact Nat.le_of_eq htr.next
    · rw [if_neg h0]
      by_cases hstart : (!t.reorderingTimer && decide (t.rxDeliv < t.rxNext)) = true
      · rw [if_pos hstart]
        have hlt : t.rxDeliv < t.rxNext := of_decide_eq_true (Bool.and_eq_true_iff.1 hstart).2
        exact ⟨_, rfl, ⟨r', htr.frame rfl rfl rfl rfl⟩, fun _ => ⟨hlt, Nat.le_refl _⟩,
          fun h => absurd h h0⟩
      · rw [if_neg hstart]
        exact ⟨t, rfl, hsound⟩

/-- An SDU whose COUNT is less than a window ahead of RX_DELIV: it is dropped, or stored and
delivered in its turn. The branch for an entry of another COUNT is not taken. -/
theorem placeSdu_spec (h : s.Sound) {c : Nat} (hlt : c < s.rxDeliv + cfg.snSize.windowSize)
    (hc : c + 1 < 2 ^ 32) (sdu : List UInt8) :
    ∃ t, s.placeSdu c sdu = .ok t ∧ t.Sound := by
  obtain ⟨r, htr⟩ := h.tracks
  rw [placeSdu]
  by_cases hlate : c < s.rxDeliv
  · rw [if_pos hlate]
    exact ⟨s, rfl, h⟩
  rw [if_neg hlate]
  have hle : r.deliv ≤ c := htr.deliv ▸ Nat.le_of_not_lt hlate
  have hlt' : c < r.deliv + cfg.snSize.windowSize := htr.deliv ▸ hlt
  have hget := htr.get? hle hlt' (Nat.lt_of_succ_lt hc)
  cases hw : r.window c with
  | some info =>
    have hin : s.rxWindow.contains c = true := CircularMap.contains_iff.2 ⟨info, hget.trans hw⟩
    rw [if_pos hin, hget, hw]
    simp only [if_pos (htr.count c info hw)]
    exact ⟨s, rfl, h⟩
  | none =>
    have hout : ¬ s.rxWindow.contains c = true := by simp [CircularMap.contains, hget, hw]
    rw [if_neg hout, placeSdu.place]
    have hstored := htr.storeSdu hle hlt' hc hw sdu
    have hnext : s.rxNext ≤ (s.storeSdu c sdu).rxNext := by
      rw [hstored.next, htr.next]
      exact Nat.le_max_left _ _
    have htimer : s.reorderingTimer → s.rxReord ≤ (s.storeSdu c sdu).rxNext :=
      fun hrun => Nat.le_trans (h.timer hrun).2 hnext
    by_cases hfirst : c = (s.storeSdu c sdu).rxDeliv
    · obtain ⟨w, d, hrun, htr'⟩ := hstored.deliverAllConsecutiveCounts
      simp only [if_pos hfirst, bind, Except.bind, hrun]
      exact updateReorderingTimer_spec htr' htimer h.noTimer
    · simp only [if_neg hfirst, bind, Except.bind]
      exact updateReorderingTimer_spec hstored htimer h.noTimer

theorem readDataPduHeader_lt {n : SnSize} {buf : List UInt8} {sn : Nat}
    (h : readDataPduHeader n buf = some sn) : sn < n.cardinality := by
  unfold readDataPduHeader at h
  split_ifs at h
  split at h
  · next b₀ b₁ _ _ =>
    cases h
    have h₀ : b₀.toNat &&& 0x0f < 2 ^ 4 := Nat.and_lt_two_pow _ (by decide)
    refine Nat.or_lt_two_pow (n := 12) ?_ (Nat.lt_trans b₁.toNat_lt (by decide))
    rw [Nat.shiftLeft_eq]
    exact Nat.mul_lt_mul_of_pos_right h₀ (by decide)
  · next b₀ b₁ b₂ _ _ =>
    cases h
    have h₀ : b₀.toNat &&& 0x03 < 2 ^ 2 := Nat.and_lt_two_pow _ (by decide)
    refine Nat.or_lt_two_pow (n := 18) (Nat.or_lt_two_pow ?_ ?_)
      (Nat.lt_trans b₂.toNat_lt (by decide))
    · rw [Nat.shiftLeft_eq]
      exact Nat.mul_lt_mul_of_pos_right h₀ (by decide)
    · rw [Nat.shiftLeft_eq]
      exact Nat.lt_trans (Nat.mul_lt_mul_of_pos_right b₁.toNat_lt (by decide)) (by decide)
  · cases h

/-! ## Runs -/

/-- A data PDU whose sequence number is below the window of RX_DELIV in the first hyper frame has a
COUNT that is refused as too large. -/
def NoWrap (s : RxEntity cfg) : Event → Prop
  | .pdu pdu => ∀ b rest sn, pdu = b :: rest → isDataPdu cfg b →
      readDataPduHeader cfg.snSize pdu = some sn → BelowWindow cfg.snSize s.rxDeliv sn →
      cfg.maxCount.hard ≤ 2 ^ 32 - cfg.snSize.cardinality + sn
  | _ => True

/-- Steps of the entity between two re-establishments. -/
def Step (crypto : Crypto) (s : RxEntity cfg) (e : Event) (t : RxEntity cfg) : Prop :=
  (∀ sec, e ≠ .reestablish sec) ∧ step crypto s e = some t

variable {crypto : Crypto} {s t : RxEntity cfg}

theorem handleDataPdu_sound (h : s.Sound) {pdu : List UInt8}
    (hwrap : ∀ sn, readDataPduHeader cfg.snSize pdu = some sn →
      BelowWindow cfg.snSize s.rxDeliv sn →
      cfg.maxCount.hard ≤ 2 ^ 32 - cfg.snSize.cardinality + sn)
    (ht : s.handleDataPdu crypto pdu = .ok t) : t.Sound := by
  cases hsn : readDataPduHeader cfg.snSize pdu with
  | none =>
    simp only [handleDataPdu, hsn] at ht
    exact Except.ok.inj ht ▸ h
  | some sn =>
    simp only [handleDataPdu, hsn] at ht
    obtain ⟨r, htr⟩ := h.tracks
    have hsnlt := readDataPduHeader_lt hsn
    have hdeliv : s.rxDeliv < 2 ^ 32 := htr.deliv ▸ htr.deliv_lt
    obtain ⟨hw₁, hrefused⟩ := checkMaxCount_warned s (s.rcvdCount sn)
    generalize s.checkMaxCount (s.rcvdCount sn) = c₁ at ht hw₁ hrefused
    obtain ⟨s₁, refused⟩ := c₁
    have hs₁ := h.warned hw₁
    cases refused with
    | true => exact Except.ok.inj ht ▸ hs₁
    | false =>
      have hhard : s.rcvdCount sn < cfg.maxCount.hard :=
        Nat.lt_of_not_le (of_decide_eq_false hrefused.symm)
      have hlt : s.rcvdCount sn < s.rxDeliv + cfg.snSize.windowSize := by
        refine estimateCount_lt_add hdeliv hsnlt fun hbelow => ?_
        have hcount := estimateCount_of_below hsnlt hbelow
        exact absurd (hwrap sn hsn hbelow) (Nat.not_le.2 (hcount ▸ hhard))
      have hw₂ := applyDecipheringAndIntegrityCheck_warned crypto s₁ pdu (s.rcvdCount sn)
      generalize s₁.applyDecipheringAndIntegrityCheck crypto pdu (s.rcvdCount sn) = c₂ at ht hw₂
      obtain ⟨s₂, buf⟩ := c₂
      have hs₂ := hs₁.warned hw₂
      cases buf with
      | none => exact Except.ok.inj ht ▸ hs₂
      | some buf =>
        obtain ⟨t', ht', hsound⟩ := placeSdu_spec hs₂ (c := s.rcvdCount sn)
          (by rw [hw₂.deliv, hw₁.deliv]; exact hlt)
          (Nat.lt_of_le_of_lt hhard cfg.maxCount.hard_lt)
          (buf.drop cfg.snSize.headerSize)
        simp only [Bool.false_eq_true, if_false] at ht
        split_ifs at ht
        rw [ht'] at ht
        exact Except.ok.inj ht ▸ hsound

theorem step_sound {e : Event} (h : s.Sound) (hwrap : s.NoWrap e) (hstep : Step crypto s e t) :
    t.Sound := by
  obtain ⟨hno, hstep⟩ := hstep
  cases e with
  | pdu pdu =>
    have ht := toOption_eq_some.1 hstep
    cases pdu with
    | nil => exact Except.ok.inj ht ▸ h
    | cons b rest =>
      rw [handlePdu] at ht
      by_cases hdata : isDataPdu cfg b = true
      · rw [if_pos hdata] at ht
        exact handleDataPdu_sound h (hwrap b rest · rfl hdata) ht
      · rw [if_neg hdata] at ht
        cases ht
        rw [handleControlPdu]
        split
        · exact h.warned (.notify s _)
        · exact h
  | reorderingExpiry =>
    by_cases hrun : s.reorderingTimer = true
    · rw [step, if_pos hrun] at hstep
      obtain ⟨r, htr⟩ := h.tracks
      obtain ⟨hlt, hle⟩ := h.timer hrun
      have hzero : cfg.tReordering ≠ .ms 0 := fun h0 => by simp [h.noTimer h0] at hrun
      obtain ⟨t', ht', hsound⟩ := handleTReorderingExpire_spec
        (s := { s with reorderingTimer := false }) (htr.frame rfl rfl rfl rfl) rfl
        (htr.deliv ▸ Nat.le_of_lt hlt) (htr.next ▸ hle) fun h0 => absurd h0 hzero
      rw [ht'] at hstep
      exact Option.some.inj hstep ▸ hsound
    · rw [step, if_neg hrun] at hstep
      cases hstep
  | configureSecurity sec integrity ciphering =>
    have ht := toOption_eq_some.1 hstep
    rw [configure] at ht
    split at ht
    · cases ht
    · exact Except.ok.inj ht ▸ h
    · exact Except.ok.inj ht ▸ h.frame rfl rfl rfl rfl rfl rfl
  | reestablish sec => exact absurd rfl (hno sec)

/-- In-order delivery of a state of the entity. -/
structure InOrder (s : RxEntity cfg) : Prop where
  /-- SDUs have been delivered in increasing COUNT order, each at most once. -/
  increasing : (s.delivered.map Prod.fst).Pairwise (· < ·)
  deliv_le_next : s.rxDeliv ≤ s.rxNext
  window : ∀ c, s.rxWindow.contains c → s.rxDeliv ≤ c ∧ c < s.rxNext
  next_le : s.rxNext ≤ s.rxDeliv + cfg.snSize.windowSize
  /-- No COUNT of the window shares a slot with another COUNT that may be stored. -/
  no_alias : ∀ c c', s.rxWindow.contains c → s.rxDeliv ≤ c' →
    c' < s.rxDeliv + cfg.snSize.windowSize →
    c % cfg.snSize.windowSize = c' % cfg.snSize.windowSize → c = c'
  /-- An entry is stored under its COUNT: the branch that removes an old PDU is dead. -/
  entry_count : ∀ c info, s.rxWindow.get? c = some info → info.count = c
  running : s.reorderingTimer → s.rxDeliv < s.rxReord ∧ s.rxReord ≤ s.rxNext
  /-- The delivery loop of an expiry ends within a window of rounds. -/
  terminates : s.reorderingTimer → ∃ t, s.deliverBelowReord cfg.snSize.windowSize = .ok t

theorem Sound.inOrder (h : s.Sound) : s.InOrder := by
  obtain ⟨r, htr⟩ := h.tracks
  obtain ⟨accepted, hist⟩ := htr.history
  have hmem : ∀ c, s.rxWindow.contains c → s.rxDeliv ≤ c ∧ c < s.rxNext := by
    intro c hc
    obtain ⟨info, hget⟩ := CircularMap.contains_iff.1 hc
    rw [htr.deliv, htr.next]
    exact (htr.of_get? hget).2
  have hroom : s.rxNext ≤ s.rxDeliv + cfg.snSize.windowSize := by
    rw [htr.deliv, htr.next]
    exact htr.inv.room
  refine ⟨hist.sorted, ?_, hmem, hroom, fun c c' hc hle hlt heq => ?_, fun c info hget => ?_,
    h.timer, fun hrun => ?_⟩
  · rw [htr.deliv, htr.next]
    exact htr.inv.le
  · obtain ⟨hc₁, hc₂⟩ := hmem c hc
    exact CircularMap.eq_of_mod_eq hc₁ (Nat.lt_of_lt_of_le hc₂ hroom) hle hlt heq
  · exact htr.count c info (htr.of_get? hget).1
  · obtain ⟨hlt, hle⟩ := h.timer hrun
    have hfuel : s.rxReord - r.deliv ≤ cfg.snSize.windowSize := by
      rw [← htr.deliv]
      exact Nat.sub_le_iff_le_add'.2 (Nat.le_trans hle hroom)
    obtain ⟨w, d, hloop, -⟩ := htr.deliverBelowReord (htr.deliv ▸ Nat.le_of_lt hlt)
      (htr.next ▸ hle) hfuel
    exact ⟨_, hloop⟩

/-- **In-order delivery.** -/
theorem rxEntity_in_order (crypto : Crypto) {es : List Event} {s : RxEntity cfg}
    (hrun : Run (fun s e t => Step crypto s e t ∧ s.NoWrap e) {} es s) : s.InOrder :=
  (hrun.invariant (P := Sound) (fun _ _ _ h hs => step_sound h hs.2 hs.1) .init).inOrder

/-- A DRB on RLC UM with the default COUNT limits. -/
def sampleConfig : RxConfig :=
  { rbType := .drb, rlcMode := .um, snSize := .size12bits, direction := .uplink, bearerId := 0
    tReordering := .ms 10, maxCount := .default }

/-- PDUs 1, 0, 3, then t-Reordering expires. -/
def gapThenExpiry : List Event :=
  [.pdu [0x80, 1, 11], .pdu [0x80, 0, 10], .pdu [0x80, 3, 13], .reorderingExpiry]

instance (s : RxEntity cfg) (e : Event) : Decidable (s.NoWrap e) :=
  match e with
  | .pdu [] => isTrue nofun
  | .pdu (b :: rest) =>
    decidable_of_iff
      (∀ sn ∈ readDataPduHeader cfg.snSize (b :: rest), isDataPdu cfg b →
        BelowWindow cfg.snSize s.rxDeliv sn →
        cfg.maxCount.hard ≤ 2 ^ 32 - cfg.snSize.cardinality + sn)
      ⟨fun h _ _ sn hpdu hdata hsn => by cases hpdu; exact h sn hsn hdata,
        fun h sn hsn hdata => h b rest sn rfl hdata hsn⟩
  | .reorderingExpiry => isTrue trivial
  | .configureSecurity .. => isTrue trivial
  | .reestablish _ => isTrue trivial

/-- A step that meets the condition, executably. -/
def regularStep (crypto : Crypto) (s : RxEntity cfg) (e : Event) : Option (RxEntity cfg) :=
  match e with
  | .reestablish _ => none
  | e => if s.NoWrap e then step crypto s e else none

theorem step_of_regularStep {e : Event} (h : regularStep crypto s e = some t) :
    Step crypto s e t ∧ s.NoWrap e := by
  rw [regularStep.eq_def] at h
  split at h
  · cases h
  · next hno =>
    split_ifs at h with hwrap
    exact ⟨⟨hno, h⟩, hwrap⟩

/-- SDUs 0 and 1 are delivered when 0 arrives, 3 when t-Reordering expires. -/
theorem rxEntity_in_order_gapThenExpiry :
    ∃ s : RxEntity sampleConfig,
      Run (fun s e t => Step noCrypto s e t ∧ s.NoWrap e) {} gapThenExpiry s ∧
      s.delivered.map Prod.fst = [0, 1, 3] ∧ s.InOrder := by
  have hexec : (exec (regularStep noCrypto) ({} : RxEntity sampleConfig) gapThenExpiry).map
      (fun s => s.delivered.map Prod.fst) = some [0, 1, 3] := by decide +kernel
  obtain ⟨s, hs, hdelivered⟩ := Option.map_eq_some_iff.1 hexec
  have hrun := (run_of_exec hs).mono fun _ _ _ h => step_of_regularStep h
  exact ⟨s, hrun, hdelivered, rxEntity_in_order noCrypto hrun⟩

/-- The first PDU received has sequence number 2048: it is stored with COUNT `2 ^ 32 - 2048`, and
RX_NEXT is far outside the window of RX_DELIV. -/
theorem rxEntity_not_in_order :
    ∃ s : RxEntity sampleConfig, Run (Step noCrypto) {} [.pdu [0x88, 0x00, 1]] s ∧
      s.rxDeliv = 0 ∧ s.rxNext = 0xfffff801 ∧ s.reorderingTimer = true ∧ ¬ s.InOrder := by
  have hexec : (step noCrypto ({} : RxEntity sampleConfig) (.pdu [0x88, 0x00, 1])).map
      (fun s => (s.rxDeliv, s.rxNext, s.reorderingTimer)) = some (0, 0xfffff801, true) := by
    decide +kernel
  obtain ⟨s, hs, hobs⟩ := Option.map_eq_some_iff.1 hexec
  obtain ⟨hdeliv, hnext, htimer⟩ : s.rxDeliv = 0 ∧ s.rxNext = 0xfffff801 ∧
      s.reorderingTimer = true := by simpa using hobs
  refine ⟨s, .single ⟨nofun, hs⟩, hdeliv, hnext, htimer, fun h => ?_⟩
  have := h.next_le
  rw [hdeliv, hnext] at this
  exact absurd this (by decide)

end RadioStack.Pdcp.RxEntity
