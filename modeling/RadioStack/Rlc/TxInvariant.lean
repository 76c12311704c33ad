import RadioStack.Rlc.Sender

/-!
# The TX window against an arbitrary peer

A status PDU is whatever the peer sends. The transmitter ignores reports about SNs it never used,
but it lets ACK_SN be TX_NEXT + 1, so a report can be about the SDU with SN TX_NEXT. That SDU is in
the window only while it is under segmentation, and then not all of it has been sent.

**Theorem (`txAm_window_exact`).** The window holds exactly the SNs from TX_NEXT_ACK up to TX_NEXT,
TX_NEXT itself included iff it is under segmentation, and no access to the window fails, in every
run whose status reports with ACK_SN = TX_NEXT + 1 do not acknowledge an SDU under segmentation and
do not NACK an SN that is not in use (`Consistent`). Both restrictions are needed
(`txAm_window_not_exact`).
-/

namespace RadioStack.Rlc.TxAm

variable {cfg : Config} {s s' : TxAm cfg} {a : Sender} {status : StatusPdu}

/-! ## Accepted reports -/

/-- The checks at the start of `handle_status_pdu`. -/
structure Accepts (s : TxAm cfg) (status : StatusPdu) : Prop where
  ack_pos : 0 < s.txModBase status.ackSn
  ack_le : s.txModBase status.ackSn ≤ cfg.window
  ack_next : s.txModBase status.ackSn ≤ s.txModBase (s.txNext + 1)
  nacks : ∀ nack ∈ status.nacks, s.validNack status.ackSn nack = .valid

theorem firstVerdict_valid {ackSn : Nat} {nacks : List StatusNack}
    (h : s.firstVerdict ackSn nacks = .valid) :
    ∀ nack ∈ nacks, s.validNack ackSn nack = .valid := by
  induction nacks with
  | nil => nofun
  | cons x nacks ih =>
    unfold firstVerdict at h
    split at h
    · next hx =>
      intro nack hn
      rcases List.mem_cons.1 hn with rfl | hn
      · exact hx
      · exact ih h nack hn
    · next hx => exact absurd h hx

/-- A report is ignored, or accepted and processed. -/
theorem handleStatusPdu_cases (s : TxAm cfg) (status : StatusPdu) :
    (∃ s', s.handleStatusPdu status = .ok s' ∧ Quiet s s' ∧ s'.retxQueue = s.retxQueue) ∨
      Accepts s status ∧ s.handleStatusPdu status = s.processStatus status := by
  unfold handleStatusPdu
  split
  · exact .inl ⟨s, rfl, {}, rfl⟩
  · next hack =>
    split
    · exact .inl ⟨_, rfl, quiet_notify s _, rfl⟩
    · next hnext =>
      split
      · exact .inl ⟨s, rfl, {}, rfl⟩
      · exact .inl ⟨_, rfl, quiet_notify s _, rfl⟩
      · next hverdict =>
        simp only [validAckSn, Bool.not_eq_true', Bool.not_eq_false, Bool.and_eq_true,
          decide_eq_true_eq] at hack
        exact .inr ⟨⟨hack.1, hack.2, Nat.le_of_not_lt hnext, firstVerdict_valid hverdict⟩, rfl⟩

theorem validNack_lt {ackSn : Nat} {nack : StatusNack} (h : s.validNack ackSn nack = .valid) :
    s.txModBase nack.nackSn < s.txModBase ackSn ∧ s.txModBase nack.nackSn < cfg.window ∧
      (nack.hasNackRange = true →
        s.txModBase (nack.nackSn + nack.nackRange + (2 ^ 32 - 1)) < s.txModBase ackSn) := by
  have hlt : s.txModBase nack.nackSn < s.txModBase ackSn := by
    by_contra hc
    rw [show s.validNack ackSn nack = .ignore from if_pos (Nat.le_of_not_lt hc)] at h
    cases h
  have hne := Nat.not_le.2 hlt
  refine ⟨hlt, ?_, fun hr => ?_⟩
  · by_contra hc
    have hv : s.validNack ackSn nack = .ignore := by
      simp [validNack, hne, insideTxWindow, hc]
    rw [hv] at h
    cases h
  · by_contra hc
    have hv : s.validNack ackSn nack = .ignore := by
      unfold validNack
      rw [if_neg hne, if_pos (by simpa [hr] using hc)]
    rw [hv] at h
    cases h

/-- The last SN of a range, as `valid_nack` computes it. -/
theorem lastSn_modEq (cfg : Config) {nack : StatusNack} (hpos : 0 < nack.nackRange) :
    nack.nackSn + nack.nackRange + (2 ^ 32 - 1) ≡ nack.nackSn + (nack.nackRange - 1)
      [MOD cfg.mod] := by
  have hturn : 2 ^ 32 ≡ 0 [MOD cfg.mod] := (Nat.modEq_zero_iff_dvd).2 cfg.mod_dvd
  calc nack.nackSn + nack.nackRange + (2 ^ 32 - 1)
      = nack.nackSn + (nack.nackRange - 1) + 2 ^ 32 := by omega
    _ ≡ nack.nackSn + (nack.nackRange - 1) + 0 [MOD cfg.mod] := hturn.add_left _

/-- The SDU a handled NACK is for, as a counter. -/
theorem Represents.handled (h : Represents s a) {ackSn : Nat} {nack item : StatusNack}
    (hwf : StatusPdu.WellFormedNack cfg.snFieldLength nack)
    (hvalid : s.validNack ackSn nack = .valid) (hitem : Handles cfg nack item) :
    ∃ x, item.nackSn = x % cfg.mod ∧ a.ack ≤ x ∧ x < a.ack + s.txModBase ackSn := by
  obtain ⟨hlt, hwin, hlast⟩ := validNack_lt hvalid
  have hmod := cfg.mod_eq
  have hW := cfg.window_gt
  have hsn : nack.nackSn ≡ a.ack + s.txModBase nack.nackSn [MOD cfg.mod] :=
    exists_serial cfg.mod_dvd (h.ack ▸ Nat.mod_modEq a.ack _)
  have hsnlt : nack.nackSn < cfg.mod := hwf.sn_lt
  generalize hb : s.txModBase nack.nackSn = b at *
  unfold Handles at hitem
  split at hitem
  · next hr =>
    obtain ⟨k, hk, rfl⟩ := hitem
    have hrange := hwf.range_lt
    refine ⟨a.ack + b + k, (hsn.add_right k), by omega, ?_⟩
    -- the end of the range has not wrapped
    have hend := (lastSn_modEq cfg (by omega)).trans (hsn.add_right (nack.nackRange - 1))
    have := hlast hr
    rw [h.txModBase hend (by omega) (by omega)] at this
    omega
  · refine ⟨a.ack + b, ?_, by omega, by omega⟩
    have heq : nack.nackSn % cfg.mod = (a.ack + b) % cfg.mod := hsn
    rwa [Nat.mod_eq_of_lt hsnlt, ← hitem] at heq

/-- The counter at which the processing of ACKs stops. -/
def stopCount (s : TxAm cfg) (a : Sender) (status : StatusPdu) : Nat :=
  a.ack + s.txModBase (stopSn status)

/-- What holds after the ACKs have been processed, and is kept by every handled NACK, holds at the
end. -/
theorem processStatus_ensures {bad : Fault → Prop} {I : TxAm cfg → Prop} (h : Represents s a)
    (hinv : a.Inv cfg.window) (hwf : status.WellFormed cfg.snFieldLength)
    (hstop : s.stopCount a status ≤ a.next ∨
      s.stopCount a status = a.next + 1 ∧ a.segmenting = false)
    (hacked : ∀ t : TxAm cfg, Represents t (a.acknowledge (min (s.stopCount a status) a.next)) →
      t.retxQueue = [] → t.sduQueue = s.sduQueue → I t)
    (hitem : ∀ nack ∈ status.nacks, ∀ item, Handles cfg nack item → ∀ (t : TxAm cfg) prev, I t →
      Ensures bad (fun r => I r.1) (t.processNack prev item)) :
    Ensures bad I (s.processStatus status) := by
  have hf := s.quiet_stopPollRetransmit status.ackSn
  set s₁ := s.stopPollRetransmit status.ackSn
  have h₁ := h.frame hf.toFrame
  have hsn : stopSn status ≡ s.stopCount a status [MOD cfg.mod] :=
    exists_serial cfg.mod_dvd (h.ack ▸ Nat.mod_modEq a.ack _)
  have htop := hinv.top_le
  have hnt := a.next_le_top
  have hmod := cfg.mod_eq
  have hW := cfg.window_gt
  have hfuel : s.stopCount a status - a.ack ≤ cfg.mod := by omega
  obtain ⟨hrep, -, hqueue⟩ := ackLoop_spec h₁ hinv (Nat.le_add_right _ _) hstop hsn hfuel {}
  set acked := ackLoop (stopSn status) cfg.mod s₁ s₁.txNextAck {} with hacked'
  set s₂ := acked.1.notify acked.2.notifications with hs₂
  obtain ⟨hclear, hempty⟩ := clearRetxQueue_spec s₂.retxQueue s₂
  have hI := hacked _ ((hrep.frame (quiet_notify _ _).toFrame).frame hclear.toFrame) hempty
    (hclear.queue.trans (hqueue.trans hf.queue))
  exact (processNacks_ensures status.ackSn (fun nack hn => (hwf.nacks nack hn).sn_lt) hitem
    (r := (clearRetxQueue s₂.retxQueue s₂, invalidRlcSn)) hI).map fun _ => id

/-! ## Consistent reports -/

/-- The SNs a NACK is for. -/
def Covers (cfg : Config) (nack : StatusNack) (sn : Nat) : Prop :=
  if nack.hasNackRange then ∃ k < nack.nackRange, sn = (nack.nackSn + k) % cfg.mod
  else sn = nack.nackSn

instance (nack : StatusNack) (sn : Nat) : Decidable (Covers cfg nack sn) :=
  inferInstanceAs (Decidable (if nack.hasNackRange = true then
    ∃ k < nack.nackRange, sn = (nack.nackSn + k) % cfg.mod else sn = nack.nackSn))

theorem Handles.covers {nack item : StatusNack} (h : Handles cfg nack item) :
    Covers cfg nack item.nackSn := by
  unfold Handles at h
  unfold Covers
  split at h
  · next hr =>
    obtain ⟨k, hk, rfl⟩ := h
    rw [if_pos hr]
    exact ⟨k, hk, rfl⟩
  · next hr =>
    rw [if_neg hr, h]

/-- A report up to and including SN TX_NEXT does not acknowledge the SDU under segmentation, and
does not NACK TX_NEXT if no SDU has that SN yet. -/
def Consistent (s : TxAm cfg) (status : StatusPdu) : Prop :=
  status.ackSn = (s.txNext + 1) % cfg.mod →
    (s.snUnderSegmentation = s.txNext → status.nacks ≠ []) ∧
      (s.snUnderSegmentation ≠ s.txNext → ∀ nack ∈ status.nacks, ¬ Covers cfg nack s.txNext)

instance (s : TxAm cfg) (status : StatusPdu) : Decidable (s.Consistent status) :=
  inferInstanceAs (Decidable
    (_ → (_ → _) ∧ (_ → ∀ nack ∈ status.nacks, ¬ Covers cfg nack s.txNext)))

section Accepted

variable (h : Represents s a) (hinv : a.Inv cfg.window)
  (hwf : status.WellFormed cfg.snFieldLength) (hacc : Accepts s status)
include h hinv hwf hacc

/-- ACK_SN, as a counter, is at most one past TX_NEXT. -/
theorem Accepts.ackCount_le : a.ack + s.txModBase status.ackSn ≤ a.next + 1 ∧
    status.ackSn = (a.ack + s.txModBase status.ackSn) % cfg.mod := by
  have hmod := cfg.mod_eq
  have hW := cfg.window_gt
  have hle := hinv.ack_le
  have htop := hinv.top_le
  have hnt := a.next_le_top
  have hbase := h.txModBase (h.next_modEq.add_right 1) (by omega) (by omega)
  have hack := hacc.ack_next
  have hsn : status.ackSn ≡ a.ack + s.txModBase status.ackSn [MOD cfg.mod] :=
    exists_serial cfg.mod_dvd (h.ack ▸ Nat.mod_modEq a.ack _)
  exact ⟨by omega, (Nat.mod_eq_of_lt hwf.ack_lt).symm.trans hsn⟩

variable (hcon : s.Consistent status)
include hcon

/-- ACKs are processed up to TX_NEXT at most, unless no SDU has SN TX_NEXT. -/
theorem Accepts.stopCount_le : s.stopCount a status ≤ a.next ∨
    s.stopCount a status = a.next + 1 ∧ a.segmenting = false := by
  obtain ⟨hle, hack⟩ := hacc.ackCount_le h hinv hwf
  cases hn : status.nacks with
  | cons nack nacks =>
    have hvalid := hacc.nacks nack (by rw [hn]; exact List.mem_cons_self)
    have hlt := (validNack_lt hvalid).1
    left
    simp only [stopCount, stopSn, hn]
    omega
  | nil =>
    simp only [stopCount, stopSn, hn]
    by_cases hlt : a.ack + s.txModBase status.ackSn ≤ a.next
    · exact .inl hlt
    · have heq : a.ack + s.txModBase status.ackSn = a.next + 1 := by omega
      refine .inr ⟨heq, Bool.eq_false_iff.2 fun hseg => ?_⟩
      have hnext : status.ackSn = (s.txNext + 1) % cfg.mod := by
        rw [hack, heq, h.next, Nat.mod_add_mod]
      exact (hcon hnext).1 (h.segmenting_iff.2 hseg) hn

/-- Handled NACKs are for SDUs of the window, or are found to be outside of it. -/
theorem Accepts.accessible {k : Nat} (hk : a.ack ≤ k) (hk' : k ≤ a.next) {t : TxAm cfg}
    (ht : Represents t (a.acknowledge k)) {nack item : StatusNack} (hnack : nack ∈ status.nacks)
    (hitem : Handles cfg nack item) : t.Accessible item.nackSn := by
  obtain ⟨hle, hack⟩ := hacc.ackCount_le h hinv hwf
  obtain ⟨x, hx, hax, hxa⟩ := h.handled (hwf.nacks nack hnack) (hacc.nacks nack hnack) hitem
  have hmod := cfg.mod_eq
  have htop := hinv.top_le
  have hnt := a.next_le_top
  have hinv' := hinv.acknowledge hk hk'
  have hxtop : x < a.top := by
    by_cases hxn : x < a.next
    · omega
    · obtain rfl : x = a.next := by omega
      have hnext : status.ackSn = (s.txNext + 1) % cfg.mod := by
        rw [hack, show a.ack + s.txModBase status.ackSn = a.next + 1 by omega, h.next,
          Nat.mod_add_mod]
      have hseg : a.segmenting = true := by
        by_contra hns
        refine (hcon hnext).2 (mt h.segmenting_iff.1 hns) nack hnack ?_
        rw [h.next, ← hx]
        exact hitem.covers
      rw [Sender.top_of_segmenting hseg]
      omega
  intro hbase
  rw [hx] at hbase ⊢
  rw [ht.txModBase_txNext hinv'] at hbase
  by_cases hxk : x < k
  · -- below TX_NEXT_ACK by now: the comparison wraps
    rw [ht.txModBase_of_lt (Nat.mod_modEq x _) hxk (by simp only [Sender.acknowledge]; omega)]
      at hbase
    simp only [Sender.acknowledge] at hbase
    omega
  · rw [ht.contains (Nat.le_of_not_lt hxk) (by simp only [Sender.acknowledge]; omega), hinv'.mem]
    exact ⟨Nat.le_of_not_lt hxk, hxtop⟩

end Accepted

/-! ## Runs -/

/-- The window holds TX_NEXT_ACK up to TX_NEXT, and TX_NEXT iff it is under segmentation. -/
def WindowExact (s : TxAm cfg) : Prop :=
  ∀ sn, s.txWindow.contains sn = true ↔ sn < cfg.mod ∧
    (s.txModBase sn < s.txModBase s.txNext ∨ sn = s.txNext ∧ s.snUnderSegmentation = s.txNext)

/-- Calls with non-empty SDUs. -/
def Event.NonEmpty : Event → Prop
  | .handleSdu sdu => sdu.buf ≠ []
  | _ => True

/-- Calls with consistent status reports. -/
def ConsistentEvent (s : TxAm cfg) : Event → Prop
  | .statusPdu buf =>
    ∀ status, StatusPdu.unpack cfg.snFieldLength buf = some status → s.Consistent status
  | _ => True

instance : DecidablePred Event.NonEmpty
  | .handleSdu sdu => inferInstanceAs (Decidable (sdu.buf ≠ []))
  | .discardSdu _ | .pullPdu _ _ | .statusPdu _ | .pollRetransmitTimerExpired => isTrue trivial

instance (s : TxAm cfg) : DecidablePred s.ConsistentEvent
  | .statusPdu buf =>
    match hu : StatusPdu.unpack cfg.snFieldLength buf with
    | none => isTrue fun _ h => nomatch hu.symm.trans h
    | some status =>
      decidable_of_iff (s.Consistent status)
        ⟨fun hc _ h => Option.some.inj (hu.symm.trans h) ▸ hc, fun hc => hc status hu⟩
  | .handleSdu _ | .discardSdu _ | .pullPdu _ _ | .pollRetransmitTimerExpired => isTrue trivial

def Step (s : TxAm cfg) (ev : Event) (s' : TxAm cfg) : Prop :=
  ev.NonEmpty ∧ ∃ pdu, s.step ev = some (.ok (s', pdu))

/-- A call with a consistent report that returns. -/
def ConsistentStep (s : TxAm cfg) (ev : Event) (s' : TxAm cfg) : Prop :=
  s.ConsistentEvent ev ∧ s.Step ev s'

/-- The state stands for an abstract sender that satisfies its invariant. -/
def Tracked (s : TxAm cfg) : Prop :=
  (∃ a, Represents s a ∧ a.Inv cfg.window) ∧ s.sduQueue.All fun sdu => sdu.buf ≠ []

theorem tracked_init : Tracked (init cfg) :=
  ⟨⟨_, .init, Sender.inv_init⟩, nofun, nofun, nofun, nofun⟩

theorem Tracked.frame (ht : Tracked s) (hf : Frame s s') : Tracked s' := by
  obtain ⟨⟨a, h, hinv⟩, hq⟩ := ht
  refine ⟨⟨a, h.frame hf, hinv⟩, ?_⟩
  rw [hf.queue]
  exact hq

theorem Tracked.handleStatusPdu (ht : Tracked s) (hwf : status.WellFormed cfg.snFieldLength)
    (hcon : s.Consistent status) : Ensures (fun _ => False) Tracked (s.handleStatusPdu status) := by
  obtain ⟨⟨a, h, hinv⟩, hq⟩ := ht
  rcases handleStatusPdu_cases s status with ⟨s', hok, hf, -⟩ | ⟨hacc, hproc⟩
  · rw [hok]
    exact Tracked.frame ⟨⟨a, h, hinv⟩, hq⟩ hf.toFrame
  · rw [hproc]
    have hstop := hacc.stopCount_le h hinv hwf hcon
    have hk : a.ack ≤ min (s.stopCount a status) a.next :=
      le_min (Nat.le_add_right _ _) hinv.ack_le
    have hk' : min (s.stopCount a status) a.next ≤ a.next := min_le_right _ _
    -- the NACKs leave the sender as the ACKs have left it
    have hend : Ensures (fun _ => False) (fun t : TxAm cfg =>
        Represents t (a.acknowledge (min (s.stopCount a status) a.next)) ∧
          t.sduQueue = s.sduQueue) (s.processStatus status) :=
      processStatus_ensures h hinv hwf hstop (fun t ht _ htq => ⟨ht, htq⟩)
        fun nack hn item hitem t prev ht => (processNack_spec
          (hacc.accessible h hinv hwf hcon hk hk' ht.1 hn hitem) prev).mono fun r hr =>
            ⟨ht.1.frame hr, hr.queue.trans ht.2⟩
    refine hend.mono fun t ht => ⟨⟨_, ht.1, hinv.acknowledge hk hk'⟩, ?_⟩
    rw [ht.2]
    exact hq

/-- Every call keeps the invariant, and the only assertion it can violate is about the header of a
retransmission. -/
theorem Tracked.step (ht : Tracked s) {ev : Event} (hne : ev.NonEmpty)
    (hcon : s.ConsistentEvent ev) {r : Except Fault (TxAm cfg × List UInt8)}
    (hstep : s.step ev = some r) :
    Ensures (fun f => ∃ sn, f = Fault.retxHeaderLen sn) (fun r => Tracked r.1) r := by
  obtain ⟨⟨a, h, hinv⟩, hq⟩ := ht
  cases ev with
  | handleSdu sdu =>
    cases hstep
    exact ⟨⟨a, { h with }, hinv⟩, hq.write cfg.queue hne⟩
  | discardSdu sn =>
    cases hstep
    exact ⟨⟨a, { h with }, hinv⟩, hq.tryDiscard cfg.queue sn⟩
  | pullPdu report grantLen =>
    cases hstep
    cases report with
    | some report => exact ⟨⟨a, h, hinv⟩, hq⟩
    | none =>
      exact (pullPdu_spec h hinv hq (fun _ => id) grantLen).mono fun r ⟨hq', a', hrep, hp⟩ =>
        ⟨⟨a', hrep, hp.inv hinv⟩, hq'⟩
  | statusPdu buf =>
    simp only [TxAm.step] at hstep
    split at hstep
    · next status hu =>
      cases hstep
      have hend := Tracked.handleStatusPdu ⟨⟨a, h, hinv⟩, hq⟩ (StatusPdu.unpack_wellFormed hu)
        (hcon status hu)
      cases hs : s.handleStatusPdu status with
      | ok s' => exact hend.of_ok hs
      | error f => exact (hend.of_error hs).elim
    · cases hstep
  | pollRetransmitTimerExpired =>
    simp only [TxAm.step] at hstep
    split_ifs at hstep
    cases hstep
    have hend := pollRetransmitTimerExpired_spec s
    cases hs : s.pollRetransmitTimerExpired with
    | ok s' => exact Tracked.frame ⟨⟨a, h, hinv⟩, hq⟩ (hend.of_ok hs).1.toFrame
    | error f => exact (hend.of_error hs).elim

theorem Tracked.windowExact (ht : Tracked s) : WindowExact s := by
  obtain ⟨⟨a, h, hinv⟩, -⟩ := ht
  have hmod := cfg.mod_eq
  have htop := hinv.top_le
  have hnt := a.next_le_top
  have htn := a.top_le_succ
  have hle := hinv.ack_le
  intro sn
  rw [h.txModBase_txNext hinv]
  constructor
  · intro hin
    obtain ⟨x, hx, hx', rfl⟩ := h.within sn hin
    refine ⟨Nat.mod_lt _ cfg.mod_pos, ?_⟩
    rw [h.txModBase (Nat.mod_modEq x _) hx (by omega)]
    obtain ⟨-, hlt⟩ := (hinv.mem x).1 ((h.contains hx hx').1 hin)
    by_cases hxn : x < a.next
    · exact .inl (by omega)
    · obtain rfl : x = a.next := by omega
      refine .inr ⟨h.next.symm, h.segmenting_iff.2 ?_⟩
      by_contra hns
      rw [Sender.top_of_not_segmenting (Bool.eq_false_iff.2 hns)] at hlt
      exact absurd hlt (Nat.lt_irrefl _)
  · rintro ⟨hsn, hlt | ⟨rfl, hseg⟩⟩
    · -- the counter that `sn` stands for
      have hmodeq : sn ≡ a.ack + s.txModBase sn [MOD cfg.mod] :=
        exists_serial cfg.mod_dvd (h.ack ▸ Nat.mod_modEq a.ack _)
      have heq : sn = (a.ack + s.txModBase sn) % cfg.mod := by
        rw [← hmodeq, Nat.mod_eq_of_lt hsn]
      rw [heq, h.contains (by omega) (by omega), hinv.mem]
      omega
    · have := Sender.top_of_segmenting (h.segmenting_iff.1 hseg)
      rw [h.next, h.contains hle (by omega), hinv.mem]
      omega

/-- The TX window in every reachable state, for status PDUs with arbitrary bytes. -/
theorem txAm_window_exact {es : List Event} (hrun : Run ConsistentStep (init cfg) es s) :
    WindowExact s ∧ ∀ ev, ev.NonEmpty → s.ConsistentEvent ev →
      ∀ sn, s.step ev ≠ some (.error (.windowAccess sn)) := by
  have ht : Tracked s := hrun.invariant (fun s ev s' ht ⟨hcon, hne, pdu, hstep⟩ =>
    (ht.step hne hcon hstep).of_ok rfl) tracked_init
  refine ⟨ht.windowExact, fun ev hne hcon sn hstep => ?_⟩
  obtain ⟨_, hf⟩ := (ht.step hne hcon hstep).of_error rfl
  cases hf

/-! ## Runs of the program -/

/-- 12-bit sequence numbers and a queue for four SDUs. -/
def sampleConfig : Config :=
  { snFieldLength := .size12bits, tPollRetx := 45, maxRetxThresh := 4, pollPdu := 4, pollByte := 25
    maxWindow := 0
    queue := ⟨4, 1000, by decide, by decide⟩ }

def stepState (s : TxAm cfg) (ev : Event) : Option (TxAm cfg) :=
  match s.step ev with
  | some (.ok (s', _)) => some s'
  | _ => none

theorem step_of_stepState {ev : Event} (h : s.stepState ev = some s') :
    ∃ pdu, s.step ev = some (.ok (s', pdu)) := by
  unfold stepState at h
  split at h
  · next pdu heq =>
    cases h
    exact ⟨_, heq⟩
  · cases h

theorem run_of_stepState {es : List Event}
    (h : exec (guarded stepState fun _ ev => ev.NonEmpty) s es = some s') : Run Step s es s' :=
  (run_of_guarded h).mono fun _ _ _ hs => ⟨hs.2, step_of_stepState hs.1⟩

/-- An SDU is sent in two segments; the report between them NACKs the second one. -/
def segmentedTransfer : List Event :=
  [.handleSdu { buf := [1, 2, 3], pdcpSn := none }, .pullPdu none 4,
    .statusPdu [0x00, 0x01, 0x80, 0x00, 0x04, 0x00, 0x02, 0xff, 0xff], .pullPdu none 10,
    .statusPdu [0x00, 0x01, 0x00]]

theorem txAm_window_exact_segmentedTransfer :
    ∃ s : TxAm sampleConfig, Run ConsistentStep (init sampleConfig) segmentedTransfer s ∧
      s.txNextAck = 1 ∧ WindowExact s := by
  have hexec : (exec (guarded stepState fun s ev => s.ConsistentEvent ev ∧ ev.NonEmpty)
      (init sampleConfig) segmentedTransfer).map (·.txNextAck) = some 1 := by
    decide +kernel
  obtain ⟨s, hs, hack⟩ := Option.map_eq_some_iff.1 hexec
  have hrun : Run ConsistentStep (init sampleConfig) segmentedTransfer s :=
    (run_of_guarded hs).mono fun _ _ _ h => ⟨h.2.1, h.2.2, step_of_stepState h.1⟩
  exact ⟨s, hrun, hack, (txAm_window_exact hrun).1⟩

/-- An SDU is under segmentation when the peer acknowledges it. -/
def earlyAck : List Event :=
  [.handleSdu { buf := [1, 2, 3], pdcpSn := none }, .pullPdu none 4, .statusPdu [0x00, 0x01, 0x00]]

/-- With ACK_SN = TX_NEXT + 1 the window loses an SDU that was not sent completely, and a NACK for
an SN not in use violates an assertion. -/
theorem txAm_window_not_exact :
    (∃ s : TxAm sampleConfig, Run Step (init sampleConfig) earlyAck s ∧ ¬ WindowExact s) ∧
      (init sampleConfig).step (.statusPdu [0x00, 0x01, 0x80, 0x00, 0x00]) =
        some (.error (.windowAccess 0)) := by
  constructor
  · have hexec : (exec (guarded stepState fun _ ev => ev.NonEmpty)
        (init sampleConfig) earlyAck).map (fun s => (s.txWindow.contains 1,
          decide (s.txModBase 1 < s.txModBase s.txNext))) = some (false, true) := by
      decide +kernel
    obtain ⟨s, hs, hobs⟩ := Option.map_eq_some_iff.1 hexec
    obtain ⟨hnot, hlt⟩ := Prod.mk.inj hobs
    refine ⟨s, run_of_stepState hs, fun hexact => ?_⟩
    have hin := (hexact 1).2 ⟨by decide, .inl (of_decide_eq_true hlt)⟩
    rw [hnot] at hin
    cases hin
  · rfl

end RadioStack.Rlc.TxAm
