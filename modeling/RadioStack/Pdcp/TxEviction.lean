import RadioStack.Pdcp.ReceivedCount

/-!
# Eviction from the TX window

For an acknowledged bearer with a discard timer TX_NEXT_ACK should be the oldest COUNT of the TX
window, at most a window below TX_NEXT: `Tight`. When `handle_sdu` is about to reuse the slot of an
older COUNT it looks TX_NEXT up in the window, but the window compares the whole COUNT, so the
occupied slot is not seen and the old COUNT is overwritten without being discarded. And when
delivery is notified of a COUNT whose successor was discarded before, TX_NEXT_ACK stops there.

**Theorem (`tight_of_run`).** In every run in which no accepted SDU finds TX_NEXT a full window
above TX_NEXT_ACK, and every delivered COUNT is followed by one that is stored or by TX_NEXT
(`EdgeKept`), every state is `Tight`; in such a state a step leads to a `Tight` one and evicts no
COUNT silently if and only if it keeps to this. `window_not_tight` shows both ways to break it. -/

namespace RadioStack.Pdcp.TxEntity

variable {cfg : TxConfig} {s t u : TxEntity cfg} {crypto : Crypto} {mem : Memory} {sdu : List UInt8}

/-- TX_NEXT_ACK is the oldest COUNT of the window, or TX_NEXT. -/
structure Tight (s : TxEntity cfg) : Prop where
  edge : s.txNextAck = s.txNext ∨ s.txWindow.contains s.txNextAck
  oldest : ∀ c, s.txWindow.contains c → s.txNextAck ≤ c
  span : s.txNext - s.txNextAck ≤ cfg.snSize.windowSize

/-- The lower layer was told of every COUNT that left the window. -/
def TellsEvictions (s t : TxEntity cfg) : Prop :=
  ∀ c, s.txWindow.contains c → t.txWindow.contains c ∨
    ∃ as, t.actions = s.actions ++ as ∧ TxAction.discardPdu (computeSn cfg.snSize c) ∈ as

/-- `handle_sdu` does not drop the SDU. -/
structure Accepts (s : TxEntity cfg) (mem : Memory) : Prop where
  queue : s.txNext - s.txTrans < cfg.rlcSduQueue
  window : s.txNext - s.txTrans < cfg.snSize.windowSize - 1
  hard : s.txNext < cfg.maxCount.hard
  copy : mem.copy
  header : mem.header
  mac : s.security.secEngine = none → cfg.isSrb → mem.mac

def EdgeKept (s : TxEntity cfg) : Event → Prop
  | .sdu _ mem => s.Accepts mem → s.txNext - s.txNextAck < cfg.snSize.windowSize
  | .deliveryNotification sn =>
    sn < cfg.snSize.cardinality →
    s.txNextAck ≤ wrappedCount cfg.snSize s.txNextAck sn →
    wrappedCount cfg.snSize s.txNextAck sn + 1 < s.txNext →
    s.txWindow.contains (wrappedCount cfg.snSize s.txNextAck sn + 1)
  | _ => True

/-! ## Events that keep the window -/

/-- From `s` to `t` the window and its edges stay. -/
structure Kept (s t : TxEntity cfg) : Prop where
  next : t.txNext = s.txNext
  ack : t.txNextAck = s.txNextAck
  window : t.txWindow = s.txWindow

theorem Kept.refl (s : TxEntity cfg) : Kept s s := ⟨rfl, rfl, rfl⟩

theorem Kept.trans (h : Kept s t) (h' : Kept t u) : Kept s u :=
  ⟨h'.next.trans h.next, h'.ack.trans h.ack, h'.window.trans h.window⟩

theorem Kept.act (h : Kept s t) (a : TxAction) : Kept s (t.act a) := ⟨h.next, h.ack, h.window⟩

theorem Tight.kept (h : s.Tight) (hk : Kept s t) : t.Tight := by
  obtain ⟨hedge, holdest, hspan⟩ := h
  refine ⟨?_, ?_, ?_⟩
  · rw [hk.ack, hk.next, hk.window]
    exact hedge
  · rw [hk.ack, hk.window]
    exact holdest
  · rw [hk.ack, hk.next]
    exact hspan

theorem tight_init : Tight ({} : TxEntity cfg) := ⟨.inl rfl, nofun, Nat.zero_le _⟩

theorem retransmitAllPdus_kept (mem : Nat → Memory) (h : Kept s t) :
    Ensures External (Kept s) (t.retransmitAllPdus crypto mem) :=
  retransmitAllPdus_ensures crypto mem (fun _ hs => hs.act _) (fun _ _ _ hs _ => hs.act _)
    (fun _ _ _ _ hs _ => hs.act _) h ⟨h.next, h.ack, h.window⟩

theorem configure_kept (s : TxEntity cfg) (sec : Sec128AsConfig) (integrity ciphering : Bool) :
    Ensures External (Kept s) (s.configure sec integrity ciphering) := by
  refine (configure_ensures s sec integrity ciphering).mono fun t ht => ?_
  rcases ht with rfl | ⟨security, rfl⟩
  · exact .refl t
  · exact ⟨rfl, rfl, rfl⟩

theorem handleTransmitNotification_kept (ham : cfg.isAm) (sn : Nat) :
    Ensures (fun _ => True) (Kept s) (s.handleTransmitNotification sn) := by
  have hum : ¬ (cfg.discardTimer.isSome && cfg.isUm) = true := by
    have hmode : cfg.rlcMode = .am := by simpa [Bearer.isAm] using ham
    simp [Bearer.isUm, hmode]
  refine .ite (fun _ => .refl s) fun _ => .ite (fun _ => .refl s) fun _ =>
    .ite (fun _ => .refl s) fun _ => ?_
  rw [if_neg hum]
  exact ⟨rfl, rfl, rfl⟩

/-! ## Discarding -/

/-- Discarding a stored COUNT moves TX_NEXT_ACK to the oldest one left. -/
theorem Tight.discarded {cs : List Nat} (hinv : s.Inv) (h : s.Tight) (hd : Discarded s cs t) :
    t.Tight := by
  have hmem : ∀ c, t.txWindow.contains c → s.txWindow.contains c := by
    intro c hc
    rw [hd.contains] at hc
    exact (Bool.and_eq_true_iff.1 hc).2
  have hedge : t.txNextAck = t.txNext ∨ t.txWindow.contains t.txNextAck := by
    by_cases hnil : cs = []
    · rw [hd.ack hnil, hd.next, hd.contains, hnil]
      simpa using h.edge
    · exact hd.oldest hnil
  have hack : s.txNextAck ≤ t.txNextAck := by
    rcases hedge with heq | hin
    · rw [heq, hd.next]
      exact Nat.le_trans hinv.ack_le hinv.trans_le
    · exact (hinv.mem (hmem _ hin)).1
  refine ⟨hedge, fun c hc => (hd.inv.mem hc).1, ?_⟩
  rw [hd.next]
  exact Nat.le_trans (Nat.sub_le_sub_left hack _) h.span

/-! ## Delivery -/

/-- A notification for a COUNT of the window moves TX_NEXT_ACK behind it. -/
theorem stopDiscardTimer_tight_iff (hinv : s.Inv) (h : s.Tight) (htimer : cfg.discardTimer.isSome)
    {c : Nat} (ht : s.stopDiscardTimer c = .ok t) :
    t.Tight ↔ (s.txNextAck ≤ c → c + 1 < s.txNext → s.txWindow.contains (c + 1)) := by
  have hsome : ¬ cfg.discardTimer.isNone = true := by simpa [Option.isSome_iff_ne_none] using htimer
  rw [stopDiscardTimer, if_neg hsome] at ht
  by_cases hout : c < s.txNextAck ∨ s.txNext ≤ c
  · rw [if_pos hout] at ht
    cases ht
    exact iff_of_true h fun hle hlt => absurd hout (by omega)
  rw [if_neg hout] at ht
  obtain ⟨hge, hlt⟩ : s.txNextAck ≤ c ∧ c < s.txNext := by omega
  have hbound := hinv.bound
  obtain ⟨w, hw, hget⟩ := stopLoop_spec (2 ^ 32) (show s.txNextAck ≤ c + 1 by omega) (by omega)
    (by omega)
  rw [hw] at ht
  cases ht
  rw [raiseTxTrans_eq]
  have hcontains : ∀ k, c < k → w.contains k = s.txWindow.contains k := by
    intro k hk
    rw [CircularMap.contains, CircularMap.contains, hget k, if_neg (by omega)]
  constructor
  · rintro ⟨hedge, -, -⟩ - hlt'
    have hin : w.contains (c + 1) = true := hedge.resolve_left (Nat.ne_of_lt hlt')
    rw [← hcontains _ (Nat.lt_succ_self c)]
    exact hin
  · intro hnext
    refine ⟨?_, fun k hk => ?_, ?_⟩
    · by_cases hlast : c + 1 = s.txNext
      · exact .inl hlast
      · refine .inr ?_
        have hin := hnext hge (by omega)
        rw [← hcontains _ (Nat.lt_succ_self c)] at hin
        exact hin
    · -- what is left of the window lies above the COUNT
      refine Nat.lt_of_not_le fun hle => ?_
      obtain ⟨info, hk⟩ := CircularMap.contains_iff.1 hk
      rw [hget k] at hk
      split_ifs at hk with hno
      exact hno ⟨(hinv.entry k info hk).2.1, hle⟩
    · have hspan := h.span
      show s.txNext - (c + 1) ≤ _
      omega

theorem handleDeliveryNotification_tight_iff (hinv : s.Inv) (h : s.Tight) (ham : cfg.isAm)
    (htimer : cfg.discardTimer.isSome) {sn : Nat} (ht : s.handleDeliveryNotification sn = .ok t) :
    t.Tight ↔ s.EdgeKept (.deliveryNotification sn) := by
  rw [handleDeliveryNotification] at ht
  by_cases hsn : cfg.snSize.cardinality ≤ sn
  · rw [if_pos hsn] at ht
    cases ht
    exact iff_of_true h fun hlt => absurd hsn (Nat.not_le.2 hlt)
  have hlt := Nat.lt_of_not_le hsn
  have hcount : s.notificationCountEstimation sn = wrappedCount cfg.snSize s.txNextAck sn := by
    rw [notificationCountEstimation, if_pos htimer, estimateCount_eq_wrappedCount hlt]
  rw [if_neg hsn, hcount] at ht
  rw [EdgeKept, forall_prop_of_true hlt]
  by_cases hnew : s.txNext ≤ wrappedCount cfg.snSize s.txNextAck sn
  · rw [if_pos hnew] at ht
    cases ht
    exact iff_of_true h fun _ hold => absurd hold (by omega)
  · rw [if_neg hnew, if_pos (by rw [htimer, ham]; rfl)] at ht
    exact stopDiscardTimer_tight_iff hinv h htimer ht

/-! ## Sending -/

/-- From `s` to `t` an SDU was put in the slot of TX_NEXT. -/
structure Stored (s t : TxEntity cfg) : Prop where
  next : t.txNext = s.txNext + 1
  ack : t.txNextAck = s.txNextAck
  window : ∃ info, t.txWindow = s.txWindow.overwrite s.txNext info

theorem Stored.kept (h : Stored s t) (hk : Kept t u) : Stored s u :=
  ⟨hk.next.trans h.next, hk.ack.trans h.ack, h.window.imp fun _ hw => hk.window.trans hw⟩

theorem checkMaxCount_kept (s : TxEntity cfg) :
    Kept s s.checkMaxCount.1 ∧ s.checkMaxCount.1.security = s.security ∧
      s.checkMaxCount.2 = decide (cfg.maxCount.hard ≤ s.txNext) := by
  rw [checkMaxCount]
  split
  · next hhard =>
    refine ⟨?_, ?_, (decide_eq_true hhard).symm⟩
    · split <;> exact ⟨rfl, rfl, rfl⟩
    · split <;> rfl
  · next hhard =>
    rw [decide_eq_false hhard]
    split <;> exact ⟨⟨rfl, rfl, rfl⟩, rfl, rfl⟩

/-- `transmit` yields a PDU if the allocations succeed. -/
theorem transmit_kept (mem : Memory) (hinv : s.Inv) (c : Nat) (sdu : List UInt8) :
    Ensures (fun _ => True) (fun r => r.1.Inv ∧ Kept s r.1 ∧ (r.2.isSome ↔
        mem.copy ∧ mem.header ∧ (s.security.secEngine = none → cfg.isSrb → mem.mac)))
      (s.transmit crypto mem c sdu) := by
  refine .ite (fun hcopy => ⟨hinv.act _, ⟨rfl, rfl, rfl⟩, ?_⟩) fun hcopy => ?_
  · exact iff_of_false (by simp) fun h => absurd h.1 (by simpa using hcopy)
  have hheader : Ensures (fun _ => True) (fun _ => True)
      (writeDataPduHeader cfg (computeSn cfg.snSize c) sdu) :=
    .ite (fun _ => trivial) fun _ => trivial
  refine hheader.bind fun buf _ => .ite (fun hmem => ⟨hinv.act _, ⟨rfl, rfl, rfl⟩, ?_⟩)
    fun hmem => ?_
  · exact iff_of_false (by simp) fun h => absurd h.2.1 (by simpa using hmem)
  have hcopy : mem.copy = true := by simpa using hcopy
  have hmem : mem.header = true := by simpa using hmem
  rw [applyCipheringAndIntegrityProtection]
  cases s.security.secEngine with
  | none =>
    cases hsrb : cfg.isSrb with
    | false => exact ⟨hinv, .refl s, iff_of_true rfl ⟨hcopy, hmem, fun _ h => absurd h (by simp)⟩⟩
    | true =>
      cases hmac : mem.mac with
      | false =>
        exact ⟨hinv.act _, ⟨rfl, rfl, rfl⟩,
          iff_of_false (by simp) fun h => by simpa using h.2.2 rfl rfl⟩
      | true => exact ⟨hinv, .refl s, iff_of_true rfl ⟨hcopy, hmem, fun _ _ => rfl⟩⟩
  | some e =>
    simp only
    cases e.encryptAndProtectIntegrity crypto buf cfg.snSize.headerSize c with
    | error _ => trivial
    | ok pdu => exact ⟨hinv.act _, ⟨rfl, rfl, rfl⟩, iff_of_true rfl ⟨hcopy, hmem, by simp⟩⟩

/-- An SDU that is accepted takes the slot of TX_NEXT; any other leaves the window as it is. -/
theorem handleSdu_spec (hinv : s.Inv) (ham : cfg.isAm) (htimer : cfg.discardTimer.isSome) :
    Ensures (fun _ => True) (fun t => (s.Accepts mem ∧ Stored s t) ∨ (¬ s.Accepts mem ∧ Kept s t))
      (s.handleSdu crypto sdu mem) := by
  refine .ite (fun hlt => absurd hinv.trans_le (Nat.not_le.2 hlt)) fun _ => ?_
  refine .ite (fun hq => .inr ⟨fun h => absurd h.queue (Nat.not_lt.2 hq), .refl s⟩) fun hq => ?_
  refine .ite (fun hw => .inr ⟨fun h => absurd h.window (Nat.not_lt.2 hw), .refl s⟩) fun hw => ?_
  obtain ⟨hk₀, hsec₀, hrefused⟩ := checkMaxCount_kept s
  have hinv₀ := (checkMaxCount_quiet hinv).1.inv
  generalize s.checkMaxCount = r at hk₀ hsec₀ hrefused hinv₀
  obtain ⟨s₀, refused⟩ := r
  have hrefused : refused = decide (cfg.maxCount.hard ≤ s.txNext) := hrefused
  refine .ite (fun hhard => .inr ⟨fun h => ?_, hk₀⟩) fun hhard => ?_
  · rw [hrefused, decide_eq_true_iff] at hhard
    exact absurd h.hard (Nat.not_lt.2 hhard)
  rw [hrefused, decide_eq_true_iff] at hhard
  have hcopy : (mem.copy || !(cfg.discardTimer.isSome && cfg.isAm)) = mem.copy := by
    simp [htimer, ham]
  rw [hcopy]
  refine (transmit_kept mem hinv₀ s₀.txNext sdu).bind fun r hr => ?_
  obtain ⟨s₁, pdu⟩ := r
  obtain ⟨hinv₁, hk₁, hpacked⟩ := hr
  rw [hsec₀] at hpacked
  have hk := hk₀.trans hk₁
  cases pdu with
  | none =>
    refine .inr ⟨fun h => ?_, hk⟩
    exact absurd (hpacked.2 ⟨h.copy, h.header, h.mac⟩) nofun
  | some pdu =>
    obtain ⟨hcopied, hheader, hmac⟩ := hpacked.1 rfl
    have hacc : s.Accepts mem := ⟨Nat.lt_of_not_le hq, Nat.lt_of_not_le hw, Nat.lt_of_not_le hhard,
      hcopied, hheader, hmac⟩
    simp only [addToWindow_overwrite hinv₁ htimer, bind, Except.bind]
    have hmod : (s₁.txNext + 1) % 2 ^ 32 = s₁.txNext + 1 := by
      have hlt := cfg.maxCount.hard_lt
      have hnext : s₁.txNext = s.txNext := hk.next
      exact Nat.mod_eq_of_lt (by omega)
    have hstored : ∀ v : TxEntity cfg, v.txNext = s₁.txNext + 1 → v.txNextAck = s₁.txNextAck →
        (∃ info, v.txWindow = s₁.txWindow.overwrite s₁.txNext info) → Stored s v := by
      intro v hnext hack hwindow
      rw [hk.next] at hnext
      rw [hk.next, hk.window] at hwindow
      exact ⟨hnext, hack.trans hk.ack, hwindow⟩
    refine .ite (fun _ => ?_) fun _ => .inl ⟨hacc, hstored _ hmod rfl ⟨_, rfl⟩⟩
    refine (handleTransmitNotification_kept ham _).mono fun t ht => .inl ⟨hacc, Stored.kept ?_ ht⟩
    exact hstored _ hmod rfl ⟨_, rfl⟩

/-- COUNTs of the window have slots of their own as long as TX_NEXT is less than a window above
TX_NEXT_ACK. -/
theorem Stored.contains (hinv : s.Inv) (h : Stored s t)
    (hspan : s.txNext - s.txNextAck < cfg.snSize.windowSize) {c : Nat}
    (hc : s.txWindow.contains c) : t.txWindow.contains c := by
  obtain ⟨info, hw⟩ := h.window
  obtain ⟨hge, hlt⟩ := hinv.mem hc
  have hslot : ¬ c % cfg.snSize.windowSize = s.txNext % cfg.snSize.windowSize := fun heq =>
    absurd (CircularMap.eq_of_mod_eq hge (by omega) (Nat.le_of_lt (Nat.lt_of_le_of_lt hge hlt))
      (by omega) heq) (Nat.ne_of_lt hlt)
  rw [hw, CircularMap.contains, CircularMap.get?_overwrite, if_neg (Nat.ne_of_lt hlt), if_neg hslot]
  exact hc

theorem Stored.tight_iff (hinv : s.Inv) (hinv' : t.Inv) (h : s.Tight) (hs : Stored s t) :
    t.Tight ↔ s.txNext - s.txNextAck < cfg.snSize.windowSize := by
  have hle : s.txNextAck ≤ s.txNext := Nat.le_trans hinv.ack_le hinv.trans_le
  constructor
  · intro ht
    have hspan := ht.span
    rw [hs.next, hs.ack] at hspan
    omega
  · intro hspan
    refine ⟨.inr ?_, fun c hc => (hinv'.mem hc).1, ?_⟩
    · rw [hs.ack]
      rcases h.edge with heq | hin
      · obtain ⟨info, hw⟩ := hs.window
        rw [heq, hw, CircularMap.contains, CircularMap.get?_overwrite, if_pos rfl]
        rfl
      · exact hs.contains hinv hspan hin
    · rw [hs.next, hs.ack]
      omega

/-! ## Steps and runs -/

/-- One event, from a state whose window is tight. -/
theorem step_tight_iff (hinv : s.Inv) (h : s.Tight) (ham : cfg.isAm)
    (htimer : cfg.discardTimer.isSome) {e : Event} (hstep : s.step crypto e = some t) :
    (t.Tight ∧ ∀ sdu mem, e = .sdu sdu mem → s.TellsEvictions t) ↔ s.EdgeKept e := by
  have hinv' := hinv.step hstep
  rw [TxEntity.step] at hstep
  split at hstep
  swap
  · cases hstep
  have ht := toOption_eq_some.1 hstep
  have hother : t.Tight → (∀ sdu mem, e ≠ .sdu sdu mem) → s.EdgeKept e →
      ((t.Tight ∧ ∀ sdu mem, e = .sdu sdu mem → s.TellsEvictions t) ↔ s.EdgeKept e) :=
    fun htight hno hkept => iff_of_true ⟨htight, fun sdu mem heq => absurd heq (hno sdu mem)⟩ hkept
  cases e with
  | sdu sdu mem =>
    rcases (handleSdu_spec hinv ham htimer).of_ok ht with ⟨hacc, hs⟩ | ⟨hno, hk⟩
    · rw [hs.tight_iff hinv hinv' h, EdgeKept, forall_prop_of_true hacc]
      exact ⟨And.left, fun hspan => ⟨hspan, fun _ _ _ c hc => .inl (hs.contains hinv hspan hc)⟩⟩
    · refine iff_of_true ⟨h.kept hk, fun _ _ _ c hc => .inl ?_⟩ fun hacc => absurd hacc hno
      rw [hk.window]
      exact hc
  | transmitNotification sn =>
    exact hother (h.kept ((handleTransmitNotification_kept ham sn).of_ok ht)) (by simp) trivial
  | deliveryNotification sn =>
    rw [← handleDeliveryNotification_tight_iff hinv h ham htimer ht]
    exact ⟨And.left, fun htight => ⟨htight, by simp⟩⟩
  | retransmitNotification sn => exact hother (Except.ok.inj ht ▸ h) (by simp) trivial
  | statusReport status =>
    obtain ⟨counts, hcounts⟩ := handleStatusReport_eq s status
    obtain ⟨cs, t', ht', hd⟩ := discardPdus_ok hinv counts
    obtain rfl : t' = t := Except.ok.inj (ht'.symm.trans (hcounts.symm.trans ht))
    exact hother (h.discarded hinv hd) (by simp) trivial
  | discardExpiry c =>
    obtain ⟨t', ht', hd⟩ := discardPdu_spec hinv c
    obtain rfl : t' = t := Except.ok.inj (ht'.symm.trans ht)
    exact hother (h.discarded hinv hd) (by simp) trivial
  | dataRecovery statusReport mem =>
    have hk : Ensures External (Kept s) (s.dataRecovery crypto mem statusReport) := by
      refine .ite (fun _ => .inr rfl) fun _ => retransmitAllPdus_kept mem ?_
      split
      · exact (Kept.refl s).act _
      · exact .refl s
    exact hother (h.kept (hk.of_ok ht)) (by simp) trivial
  | configureSecurity sec integrity ciphering =>
    exact hother (h.kept ((configure_kept s sec integrity ciphering).of_ok ht)) (by simp) trivial
  | reestablish sec mem =>
    have hreset : (if cfg.isSrb || cfg.isUm then s.reset else s).Tight := by
      split
      · exact ⟨.inl rfl, fun _ hc => absurd hc Bool.false_ne_true, Nat.zero_le _⟩
      · exact h
    have hre : Ensures External Tight (s.reestablish crypto mem sec) :=
      (configure_kept _ sec _ _).bind fun u hu => .ite
        (fun _ => (retransmitAllPdus_kept mem hu).mono fun _ => hreset.kept)
        fun _ => hreset.kept hu
    exact hother (hre.of_ok ht) (by simp) trivial

/-- The edge of the TX window along every run of an acknowledged bearer with a discard timer. -/
theorem tight_of_run (ham : cfg.isAm) (htimer : cfg.discardTimer.isSome) {es : List Event}
    (hrun : Run (fun s e t => TxEntity.step crypto s e = some t ∧ s.EdgeKept e)
      ({} : TxEntity cfg) es s) :
    s.Tight ∧ ∀ e t, s.step crypto e = some t →
      ((t.Tight ∧ ∀ sdu mem, e = .sdu sdu mem → s.TellsEvictions t) ↔ s.EdgeKept e) := by
  have hboth : s.Inv ∧ s.Tight := hrun.invariant (P := fun s => s.Inv ∧ s.Tight)
    (fun u e v ⟨hinv, h⟩ ⟨hstep, hkept⟩ =>
      ⟨hinv.step hstep, ((step_tight_iff hinv h ham htimer hstep).2 hkept).1⟩)
    ⟨inv_init, tight_init⟩
  exact ⟨hboth.2, fun e t hstep => step_tight_iff hboth.1 hboth.2 ham htimer hstep⟩

/-! ## A bearer without delivery notifications -/

section Lagging

variable {s : TxEntity sampleConfig} {n : Nat}

/-- `n` SDUs were sent and transmitted, and none was delivered. -/
structure Lagging (s : TxEntity sampleConfig) (n : Nat) : Prop where
  inv : s.Inv
  next : s.txNext = n
  trans : s.txTrans = n
  ack : s.txNextAck = 0
  security : s.security = {}
  first : 0 < n → s.txWindow.contains 0
  actions : ∀ sn, TxAction.discardPdu sn ∉ s.actions

def sentOne (s : TxEntity sampleConfig) : TxEntity sampleConfig :=
  { s with
    txWindow := s.txWindow.overwrite s.txNext
      { count := s.txNext, sdu := [1], discardTimer := true }
    actions := s.actions ++ [.dataPdu s.txNext [1]
      (dataPduHeader sampleConfig.toBearer (computeSn .size12bits s.txNext) ++ [1]) false]
    txNext := s.txNext + 1 }

theorem Lagging.step_sdu (h : Lagging s n) (hn : n ≤ 2048) :
    s.step noCrypto (.sdu [1] {}) = some s.sentOne := by
  obtain ⟨hinv, hnext, htrans, -, hsec, -, -⟩ := h
  have hlt : ¬ s.txNext < s.txTrans := by omega
  have hzero : s.txNext - s.txTrans = 0 := by omega
  have hmax : s.checkMaxCount = (s, false) := by
    have hhard : ¬ sampleConfig.maxCount.hard ≤ s.txNext := by
      show ¬ 0xffffffff - 1 ≤ s.txNext
      omega
    have hnotify : ¬ sampleConfig.maxCount.notify ≤ s.txNext := by
      show ¬ 0xc0000000 ≤ s.txNext
      omega
    simp [checkMaxCount, hhard, hnotify]
  have hmod : (s.txNext + 1) % 2 ^ 32 = s.txNext + 1 := Nat.mod_eq_of_lt (by omega)
  have htransmit : s.transmit noCrypto {} s.txNext [1] = .ok (s,
      some (dataPduHeader sampleConfig.toBearer (computeSn .size12bits s.txNext) ++ [1])) := by
    simp only [transmit, applyCipheringAndIntegrityProtection, hsec]
    rfl
  have hsdu : s.handleSdu noCrypto [1] {} = .ok s.sentOne := by
    rw [handleSdu, if_neg hlt, hzero, if_neg (by decide), if_neg (by decide), hmax]
    simp only [Bool.false_eq_true, if_false, Bool.true_or]
    rw [htransmit]
    simp only [bind, Except.bind, addToWindow_overwrite hinv rfl, act, hmod]
    rfl
  simp only [TxEntity.step, Enabled, if_true, handle, hsdu, Except.toOption]

theorem Lagging.edgeKept_sdu (h : Lagging s n) (hn : n < 2048) : s.EdgeKept (.sdu [1] {}) := by
  intro _
  rw [h.next, h.ack]
  exact hn

/-- The transmission of the SDU is notified. -/
theorem Lagging.step_transmitNotification (h : Lagging s n) (hn : n < 2048) :
    s.sentOne.step noCrypto (.transmitNotification n) =
      some { s.sentOne with txTrans := n + 1 } := by
  have hcount : s.sentOne.notificationCountEstimation n = n := by
    have hsn : n = computeSn .size12bits n := by
      rw [computeSn_eq]
      exact (Nat.mod_eq_of_lt (Nat.lt_trans hn (by decide))).symm
    have hack : s.sentOne.txNextAck = 0 := h.ack
    have htimer : sampleConfig.discardTimer.isSome = true := rfl
    rw [notificationCountEstimation, if_pos htimer, hack]
    conv_lhs => rw [hsn]
    exact estimateCount_computeSn (Nat.lt_trans hn (by decide)) (Nat.zero_le _)
      ((Nat.zero_add _).symm ▸ hn)
  have hnotified : s.sentOne.handleTransmitNotification n =
      .ok { s.sentOne with txTrans := n + 1 } := by
    have htrans : ¬ n < s.sentOne.txTrans := by
      rw [show s.sentOne.txTrans = n from h.trans]
      exact Nat.lt_irrefl n
    have hnext : ¬ s.sentOne.txNext ≤ n := by
      rw [show s.sentOne.txNext = n + 1 from congrArg (· + 1) h.next]
      exact Nat.not_succ_le_self n
    have hmod : (n + 1) % 2 ^ 32 = n + 1 := Nat.mod_eq_of_lt (by omega)
    rw [handleTransmitNotification, if_neg (Nat.not_le.2 (Nat.lt_trans hn (by decide))), hcount]
    simp only [if_neg htrans, if_neg hnext, hmod]
    rfl
  simp only [TxEntity.step, Enabled, if_true, handle, hnotified, Except.toOption]

theorem Lagging.sent (h : Lagging s n) (hn : n < 2048) :
    Lagging { s.sentOne with txTrans := n + 1 } (n + 1) := by
  have hinv : s.sentOne.Inv := h.inv.step (h.step_sdu (Nat.le_of_lt hn))
  refine ⟨hinv.step (h.step_transmitNotification hn), ?_, rfl, h.ack, h.security, fun _ => ?_,
    fun sn hsn => ?_⟩
  · exact congrArg (· + 1) h.next
  · show (s.txWindow.overwrite s.txNext _).contains 0 = true
    rw [CircularMap.contains, CircularMap.get?_overwrite, h.next]
    by_cases hzero : 0 = n
    · rw [if_pos hzero]
      rfl
    · have hslot : ¬ 0 % sampleConfig.snSize.windowSize = n % sampleConfig.snSize.windowSize := by
        show ¬ 0 % 2048 = n % 2048
        omega
      rw [if_neg hzero, if_neg hslot]
      exact h.first (Nat.pos_of_ne_zero (Ne.symm hzero))
  · rcases List.mem_append.1 hsn with hold | hnew
    · exact h.actions sn hold
    · simp at hnew

theorem exists_lagging (hn : n ≤ 2048) : ∃ es, ∃ s : TxEntity sampleConfig,
    Run (fun s e t => TxEntity.step noCrypto s e = some t ∧ s.EdgeKept e) {} es s ∧
      Lagging s n := by
  induction n with
  | zero => exact ⟨[], {}, .nil _, inv_init, rfl, rfl, rfl, rfl, nofun, nofun⟩
  | succ n ih =>
    obtain ⟨es, s, hrun, h⟩ := ih (Nat.le_of_succ_le hn)
    refine ⟨es ++ [.sdu [1] {}, .transmitNotification n], _, hrun.append ?_, h.sent hn⟩
    exact .cons ⟨h.step_sdu (Nat.le_of_succ_le hn), h.edgeKept_sdu hn⟩
      (.single ⟨h.step_transmitNotification hn, trivial⟩)

/-- A full window of SDUs whose delivery is not notified. -/
theorem tight_of_run_fullWindow : ∃ es, ∃ s : TxEntity sampleConfig,
    Run (fun s e t => TxEntity.step noCrypto s e = some t ∧ s.EdgeKept e) {} es s ∧
      s.txNext = 2048 ∧ s.txNextAck = 0 ∧ s.Tight := by
  obtain ⟨es, s, hrun, h⟩ := exists_lagging (Nat.le_refl 2048)
  exact ⟨es, s, hrun, h.next, h.ack, (tight_of_run rfl rfl hrun).1⟩

/-- After a full window of SDUs one more takes the slot of COUNT 0, which nobody is told of. And
COUNT 1 is discarded by its timer before COUNT 0 is delivered: TX_NEXT_ACK is 1, which is not in the
window. -/
theorem window_not_tight :
    (∃ es, ∃ s t : TxEntity sampleConfig,
      Run (fun s e t => TxEntity.step noCrypto s e = some t) {} es s ∧
      s.txWindow.contains 0 ∧ s.step noCrypto (.sdu [1] {}) = some t ∧
      t.txWindow.contains 0 = false ∧ (∀ sn, TxAction.discardPdu sn ∉ t.actions) ∧
      t.txNextAck = 0 ∧ t.txNext = 2049 ∧ ¬ t.Tight) ∧
    ∃ s : TxEntity sampleConfig,
      Run (fun s e t => TxEntity.step noCrypto s e = some t) {}
        [.sdu [1] {}, .sdu [2] {}, .sdu [3] {}, .discardExpiry 1, .deliveryNotification 0] s ∧
      s.txNextAck = 1 ∧ s.txNext = 3 ∧ s.txWindow.contains 1 = false ∧ ¬ s.Tight := by
  constructor
  · obtain ⟨es, s, hrun, h⟩ := exists_lagging (Nat.le_refl 2048)
    have hnext : s.sentOne.txNext = 2049 := congrArg (· + 1) h.next
    refine ⟨es, s, s.sentOne, hrun.mono fun _ _ _ hstep => hstep.1, h.first (by decide),
      h.step_sdu (Nat.le_refl _), ?_, fun sn hsn => ?_, h.ack, hnext, fun ht => ?_⟩
    · show (s.txWindow.overwrite s.txNext _).contains 0 = false
      rw [CircularMap.contains, CircularMap.get?_overwrite, h.next]
      rfl
    · rcases List.mem_append.1 hsn with hold | hnew
      · exact h.actions sn hold
      · simp at hnew
    · have hspan := ht.span
      rw [hnext, show s.sentOne.txNextAck = 0 from h.ack] at hspan
      exact absurd hspan (by decide)
  · have hexec : (exec (TxEntity.step noCrypto) ({} : TxEntity sampleConfig)
        [.sdu [1] {}, .sdu [2] {}, .sdu [3] {}, .discardExpiry 1, .deliveryNotification 0]).map
        (fun s => (s.txNextAck, s.txNext, s.txWindow.contains 1)) = some (1, 3, false) := by
      decide +kernel
    obtain ⟨s, hs, hvars⟩ := Option.map_eq_some_iff.1 hexec
    obtain ⟨hack, hnext, hout⟩ :
        s.txNextAck = 1 ∧ s.txNext = 3 ∧ s.txWindow.contains 1 = false := by
      simpa using hvars
    refine ⟨s, run_of_exec hs, hack, hnext, hout, fun ht => ?_⟩
    have hedge := ht.edge
    rw [hack, hnext, hout] at hedge
    exact absurd hedge (by decide)

end Lagging

end RadioStack.Pdcp.TxEntity
