import RadioStack.Lib.Outcome
import RadioStack.Pdcp.TxEntity

/-!
# State variables of the transmitting PDCP entity

The three COUNT variables are ordered, TX_NEXT_ACK ≤ TX_TRANS ≤ TX_NEXT, and the window holds only
COUNTs from TX_NEXT_ACK up to TX_NEXT, whatever the lower layer and the peer report.

Discarding PDUs, one by one or for a status report, is described by `Discarded`: which COUNTs were
removed, with one notification of the lower layer for each, and where TX_NEXT_ACK is afterwards.
Most other functions only forget stored SDUs and move the variables (`Quiet`); `handle_sdu` may
also send one SDU (`Sent`), and retransmission keeps every property that sending a stored SDU keeps
(`retransmit_ensures`).

**Theorem (`txEntity_invariant`).** In every reachable state the order and the window bounds hold,
and stopping discard timers, discarding a PDU and handling a status report end, for all arguments,
without an access outside the window.
-/

namespace RadioStack.Pdcp.TxEntity

variable {cfg : TxConfig} {s t u : TxEntity cfg} {c : Nat}

/-- What holds between two events. -/
structure Inv (s : TxEntity cfg) : Prop where
  ack_le : s.txNextAck ≤ s.txTrans
  trans_le : s.txTrans ≤ s.txNext
  bound : s.txNext < 2 ^ 32
  entry : ∀ c info, s.txWindow.get? c = some info →
    info.count = c ∧ s.txNextAck ≤ c ∧ c < s.txNext

theorem inv_init : Inv ({} : TxEntity cfg) :=
  ⟨Nat.le_refl 0, Nat.le_refl 0, Nat.two_pow_pos 32, nofun⟩

theorem Inv.mem (h : s.Inv) (hc : s.txWindow.contains c) : s.txNextAck ≤ c ∧ c < s.txNext := by
  obtain ⟨info, hget⟩ := CircularMap.contains_iff.1 hc
  exact (h.entry c info hget).2

/-! ## Discarding -/

/-- From `s` to `t` the COUNTs `cs` have been discarded. -/
structure Discarded (s : TxEntity cfg) (cs : List Nat) (t : TxEntity cfg) : Prop where
  inv : t.Inv
  next : t.txNext = s.txNext
  security : t.security = s.security
  window : ∀ k, t.txWindow.get? k = if k ∈ cs then none else s.txWindow.get? k
  actions : t.actions = s.actions ++ cs.map fun c => .discardPdu (computeSn cfg.snSize c)
  nodup : cs.Nodup
  stored : ∀ c ∈ cs, s.txWindow.contains c
  ack : cs = [] → t.txNextAck = s.txNextAck
  oldest : cs ≠ [] → t.txNextAck = t.txNext ∨ t.txWindow.contains t.txNextAck

theorem Discarded.refl (h : s.Inv) : Discarded s [] s :=
  ⟨h, rfl, rfl, fun _ => (if_neg List.not_mem_nil).symm, (List.append_nil _).symm, .nil, nofun,
    fun _ => rfl, fun h => absurd rfl h⟩

theorem Discarded.contains {cs : List Nat} (h : Discarded s cs t) :
    t.txWindow.contains c = (decide (c ∉ cs) && s.txWindow.contains c) := by
  rw [CircularMap.contains, CircularMap.contains, h.window c]
  by_cases hc : c ∈ cs
  · simp [hc]
  · simp [hc]

theorem Discarded.trans {cs cs' : List Nat} (h : Discarded s cs t) (h' : Discarded t cs' u) :
    Discarded s (cs ++ cs') u where
  inv := h'.inv
  next := h'.next.trans h.next
  security := h'.security.trans h.security
  window k := by
    rw [h'.window k, h.window k]
    by_cases hk : k ∈ cs
    · simp [hk]
    · by_cases hk' : k ∈ cs'
      · simp [hk']
      · simp [hk, hk']
  actions := by rw [h'.actions, h.actions, List.map_append, List.append_assoc]
  nodup := by
    refine List.nodup_append.2 ⟨h.nodup, h'.nodup, fun c hc c' hc' heq => ?_⟩
    have hstored := h'.stored c' hc'
    rw [h.contains, ← heq] at hstored
    simp [hc] at hstored
  stored c hc := by
    rcases List.mem_append.1 hc with hc | hc
    · exact h.stored c hc
    · have hstored := h'.stored c hc
      rw [h.contains] at hstored
      exact (Bool.and_eq_true_iff.1 hstored).2
  ack hnil := by
    obtain ⟨hnil, hnil'⟩ := List.append_eq_nil_iff.1 hnil
    rw [h'.ack hnil', h.ack hnil]
  oldest hne := by
    by_cases hnil' : cs' = []
    · -- nothing more was removed: TX_NEXT_ACK and its entry are as after the first part
      subst hnil'
      have hcs : cs ≠ [] := by simpa using hne
      rw [h'.ack rfl, h'.next, h'.contains]
      simpa using h.oldest hcs
    · exact h'.oldest hnil'

theorem raiseTxTrans_eq (s : TxEntity cfg) :
    s.raiseTxTrans = { s with txTrans := max s.txTrans s.txNextAck } := by
  rw [raiseTxTrans]
  split
  · next hlt => rw [Nat.max_eq_right (Nat.le_of_lt hlt)]
  · next hge => rw [Nat.max_eq_left (Nat.le_of_not_lt hge)]

/-- `discard_pdu` removes a stored COUNT and moves TX_NEXT_ACK to the oldest one left. -/
theorem discardPdu_spec (h : s.Inv) (c : Nat) :
    ∃ t, s.discardPdu c = .ok t ∧
      Discarded s (if cfg.discardTimer.isSome ∧ s.txWindow.contains c then [c] else []) t := by
  rw [discardPdu]
  by_cases htimer : cfg.discardTimer.isNone = true
  · rw [if_pos htimer, if_neg (by simp [Option.isNone_iff_eq_none.1 htimer])]
    exact ⟨s, rfl, .refl h⟩
  rw [if_neg htimer]
  have hsome : cfg.discardTimer.isSome := by simpa [Option.isSome_iff_ne_none] using htimer
  by_cases hin : s.txWindow.contains c = true
  · obtain ⟨hge, hlt⟩ := h.mem hin
    rw [if_neg (by omega), if_neg (by simp [hin]), if_pos ⟨hsome, hin⟩]
    have hremove : (s.act (.discardPdu (computeSn cfg.snSize c))).removeSn c =
        .ok { s.act (.discardPdu (computeSn cfg.snSize c)) with
          txWindow := s.txWindow.erase c } := if_pos hin
    rw [hremove]
    simp only [bind, Except.bind, raiseTxTrans_eq, act]
    refine ⟨_, rfl, ?_⟩
    -- where TX_NEXT_ACK goes
    generalize hack : firstFail (fun k => !(s.txWindow.erase c).contains k) s.txNextAck s.txNext =
      ack
    have hle : s.txNextAck ≤ s.txNext := Nat.le_trans h.ack_le h.trans_le
    have hack_le : ack ≤ s.txNext := hack ▸ firstFail_le hle
    have hbelow : ∀ k, s.txNextAck ≤ k → k < ack → (s.txWindow.erase c).contains k = false := by
      intro k hk hk'
      have := of_lt_firstFail hk (hack ▸ hk')
      simpa using this
    have holdest : ack = s.txNext ∨ (s.txWindow.erase c).contains ack := by
      rcases Nat.lt_or_eq_of_le hack_le with hlt | heq
      · have := firstFail_fails (hack ▸ hlt)
        rw [hack] at this
        exact .inr (by simpa using this)
      · exact .inl heq
    refine ⟨⟨Nat.le_max_right _ _, Nat.max_le.2 ⟨h.trans_le, hack_le⟩, h.bound,
      fun k info hk => ?_⟩, rfl, rfl, fun k => ?_, rfl, List.pairwise_singleton _ c,
      fun k hk => List.mem_singleton.1 hk ▸ hin, nofun, fun _ => holdest⟩
    · have hget := hk
      rw [CircularMap.get?_erase] at hget
      split_ifs at hget
      obtain ⟨hcount, hge', hlt'⟩ := h.entry k info hget
      refine ⟨hcount, ?_, hlt'⟩
      by_contra hsmall
      have := hbelow k hge' (Nat.lt_of_not_le hsmall)
      rw [CircularMap.contains, hk] at this
      cases this
    · rw [CircularMap.get?_erase]
      by_cases hkc : k = c
      · simp [hkc]
      · simp [hkc]
  · have hout : s.txWindow.contains c = false := by simpa using hin
    rw [if_neg (c := cfg.discardTimer.isSome = true ∧ _) fun hc => hin hc.2]
    refine ⟨s, ?_, .refl h⟩
    split
    · rfl
    · exact if_pos (by rw [hout]; rfl)

/-- The COUNTs of a list that are stored, each at its first occurrence. -/
theorem discardPdus_spec (h : s.Inv) (htimer : cfg.discardTimer.isSome) (counts : List Nat) :
    ∃ cs t, s.discardPdus counts = .ok t ∧ Discarded s cs t ∧
      ∀ c, c ∈ cs ↔ c ∈ counts ∧ s.txWindow.contains c := by
  induction counts generalizing s with
  | nil => exact ⟨[], s, rfl, .refl h, by simp⟩
  | cons c counts ih =>
    obtain ⟨t, ht, hd⟩ := discardPdu_spec h c
    obtain ⟨cs, u, hu, hd', hmem⟩ := ih hd.inv
    refine ⟨_, u, ?_, hd.trans hd', fun k => ?_⟩
    · rw [discardPdus, List.foldlM_cons, ht]
      exact hu
    · rw [List.mem_append, hmem k, hd.contains]
      by_cases hk : k = c
      · subst hk
        by_cases hstored : s.txWindow.contains k = true
        · simp [htimer, hstored]
        · simp [hstored]
      · by_cases hstored : s.txWindow.contains c = true
        · simp [htimer, hstored, hk]
        · simp [hstored, hk]

theorem discardPdus_none (htimer : cfg.discardTimer.isNone) (counts : List Nat) :
    s.discardPdus counts = .ok s := by
  induction counts with
  | nil => rfl
  | cons c counts ih =>
    rw [discardPdus, List.foldlM_cons, discardPdu, if_pos htimer]
    exact ih

theorem discardPdus_ok (h : s.Inv) (counts : List Nat) :
    ∃ cs t, s.discardPdus counts = .ok t ∧ Discarded s cs t := by
  by_cases htimer : cfg.discardTimer.isSome = true
  · obtain ⟨cs, t, ht, hd, -⟩ := discardPdus_spec h htimer counts
    exact ⟨cs, t, ht, hd⟩
  · exact ⟨[], s, discardPdus_none (by simpa using htimer) counts, .refl h⟩

/-! ## Status reports -/

/-- The COUNTs a bitmap reports as received: the first bit stands for `fmc + 1`. -/
def bitmapCounts : Nat → List Bool → List Nat
  | _, [] => []
  | fmc, bit :: bits =>
    let fmc := (fmc + 1) % 2 ^ 32
    if bit then fmc :: bitmapCounts fmc bits else bitmapCounts fmc bits

theorem bitmapLoop_eq {fuel : Nat} (fmc : Nat) {dec : BitDecoder} (hoffset : dec.offset < 8)
    (hfuel : dec.bits.length < fuel) :
    bitmapLoop fuel s dec fmc = s.discardPdus (bitmapCounts fmc dec.bits) := by
  induction fuel generalizing s dec fmc with
  | zero => exact absurd hfuel (Nat.not_lt_zero _)
  | succ fuel ih =>
    obtain ⟨dec', hoffset', hbits, hunpack⟩ := BitDecoder.unpack_eq 1 hoffset
    rw [bitmapLoop, hunpack]
    cases hd : dec.bits with
    | nil => rfl
    | cons bit bits =>
      rw [hd] at hbits hfuel
      have hih := fun s => ih (s := s) ((fmc + 1) % 2 ^ 32) hoffset'
        (by rw [hbits]; exact Nat.lt_of_succ_lt_succ hfuel)
      rw [hbits] at hih
      have hlen : decide (1 ≤ (bit :: bits).length) = true := decide_eq_true (Nat.le_add_left 1 _)
      rw [hlen, bitmapCounts]
      cases bit with
      | true =>
        simp only [List.take_succ_cons, List.take_zero, BitString.ofBits, List.length_nil,
          Bool.toNat_true, Nat.pow_zero, Nat.mul_one, Nat.add_zero, List.length_cons,
          Nat.sub_eq_zero_of_le (Nat.le_add_left 1 bits.length), if_true]
        congr 1
        funext t
        exact hih t
      | false =>
        simp only [List.take_succ_cons, List.take_zero, BitString.ofBits, List.length_nil,
          Bool.toNat_false, Nat.zero_mul, Nat.add_zero, Nat.zero_ne_one, if_false,
          Bool.false_eq_true]
        exact hih s

/-- A status report discards a list of COUNTs. -/
theorem handleStatusReport_eq (s : TxEntity cfg) (status : List UInt8) :
    ∃ counts, s.handleStatusReport status = s.discardPdus counts := by
  rw [handleStatusReport]
  obtain ⟨d₁, ho₁, hb₁, hu₁⟩ := BitDecoder.unpack_eq (d := { rest := status }) 1
    (Nat.zero_lt_succ 7)
  obtain ⟨d₂, ho₂, hb₂, hu₂⟩ := BitDecoder.unpack_eq 3 ho₁
  obtain ⟨d₃, ho₃, hb₃, hu₃⟩ := BitDecoder.unpack_eq 4 ho₂
  obtain ⟨d₄, ho₄, hb₄, hu₄⟩ := BitDecoder.unpack_eq 32 ho₃
  simp only [hu₁, hu₂, hu₃, hu₄]
  split
  · exact ⟨[], rfl⟩
  split
  · exact ⟨[], rfl⟩
  split
  · exact ⟨[], rfl⟩
  generalize BitString.ofBits (d₃.bits.take 32) * 2 ^ (32 - d₃.bits.length) = fmc
  refine ⟨List.range' s.txNextAck (fmc - s.txNextAck) ++ bitmapCounts fmc d₄.bits, ?_⟩
  rw [discardPdus, discardPdus, List.foldlM_append]
  congr 1
  funext t
  refine bitmapLoop_eq fmc ho₄ (Nat.lt_succ_of_le ?_)
  calc d₄.bits.length ≤ (BitDecoder.bits { rest := status }).length := by
        rw [hb₄, hb₃, hb₂, hb₁, List.drop_drop, List.drop_drop, List.drop_drop, List.length_drop]
        exact Nat.sub_le _ _
    _ = 8 * status.length := BitString.length_bytesBits status

/-! ## Forgetting stored SDUs -/

/-- Concerns the security of a PDU. -/
def keyed : TxAction → Bool
  | .secured .. | .dataPdu .. | .keyConfigured => true
  | _ => false

/-- From `s` to `t` nothing has been sent or stored. -/
structure Quiet (s t : TxEntity cfg) : Prop where
  inv : t.Inv
  next : t.txNext = s.txNext
  security : t.security = s.security
  window : ∀ k info, t.txWindow.get? k = some info → s.txWindow.get? k = some info
  actions : ∃ as, t.actions = s.actions ++ as ∧ ∀ a ∈ as, keyed a = false

theorem Quiet.refl (h : s.Inv) : Quiet s s :=
  ⟨h, rfl, rfl, fun _ _ hk => hk, [], (List.append_nil _).symm, nofun⟩

theorem Quiet.trans (h : Quiet s t) (h' : Quiet t u) : Quiet s u := by
  obtain ⟨as, has, hkeyed⟩ := h.actions
  obtain ⟨as', has', hkeyed'⟩ := h'.actions
  refine ⟨h'.inv, h'.next.trans h.next, h'.security.trans h.security,
    fun k info hk => h.window k info (h'.window k info hk), as ++ as', ?_, fun a ha => ?_⟩
  · rw [has', has, List.append_assoc]
  · exact (List.mem_append.1 ha).elim (hkeyed a) (hkeyed' a)

theorem Discarded.quiet {cs : List Nat} (h : Discarded s cs t) : Quiet s t := by
  refine ⟨h.inv, h.next, h.security, fun k info hk => ?_, _, h.actions, fun a ha => ?_⟩
  · rw [h.window k] at hk
    split_ifs at hk
    exact hk
  · obtain ⟨c, -, rfl⟩ := List.mem_map.1 ha
    rfl

theorem discardPdu_quiet (h : s.Inv) (c : Nat) : ∃ t, s.discardPdu c = .ok t ∧ Quiet s t := by
  obtain ⟨t, ht, hd⟩ := discardPdu_spec h c
  exact ⟨t, ht, hd.quiet⟩

theorem handleStatusReport_quiet (h : s.Inv) (status : List UInt8) :
    ∃ t, s.handleStatusReport status = .ok t ∧ Quiet s t := by
  obtain ⟨counts, heq⟩ := handleStatusReport_eq s status
  obtain ⟨cs, t, ht, hd⟩ := discardPdus_ok h counts
  exact ⟨t, heq.trans ht, hd.quiet⟩

theorem removeStored_eq (s : TxEntity cfg) (c : Nat) :
    ∃ w, s.removeStored c = .ok { s with txWindow := w } ∧
      ∀ k, w.get? k = if k = c then none else s.txWindow.get? k := by
  rw [removeStored]
  by_cases hin : s.txWindow.contains c = true
  · rw [if_pos hin, removeSn, if_pos hin]
    exact ⟨_, rfl, fun k => CircularMap.get?_erase _ _ k⟩
  · refine ⟨s.txWindow, if_neg hin, fun k => ?_⟩
    split
    · next hk => simpa [hk, CircularMap.contains] using hin
    · rfl

/-- The loop of `stop_discard_timer` ends above the highest COUNT and empties the window up to
there. -/
theorem stopLoop_spec {highest : Nat} (fuel : Nat) (hle : s.txNextAck ≤ highest + 1)
    (hbound : highest + 1 < 2 ^ 32) (hfuel : highest + 1 < s.txNextAck + fuel) :
    ∃ w, stopLoop highest fuel s = .ok { s with txNextAck := highest + 1, txWindow := w } ∧
      ∀ k, w.get? k = if s.txNextAck ≤ k ∧ k ≤ highest then none else s.txWindow.get? k := by
  induction fuel generalizing s with
  | zero => omega
  | succ fuel ih =>
    rw [stopLoop]
    by_cases hack : s.txNextAck ≤ highest
    · rw [if_pos hack]
      obtain ⟨w, hw, hget⟩ := removeStored_eq s s.txNextAck
      rw [hw]
      have hmod : (s.txNextAck + 1) % 2 ^ 32 = s.txNextAck + 1 := Nat.mod_eq_of_lt (by omega)
      obtain ⟨w', hw', hget'⟩ := ih (s := { s with txWindow := w, txNextAck := s.txNextAck + 1 })
        (Nat.succ_le_succ hack) (by simp only; omega)
      refine ⟨w', ?_, fun k => ?_⟩
      · simp only [bind, Except.bind, hmod]
        exact hw'
      · rw [hget' k, hget k]
        by_cases hk : k = s.txNextAck
        · simp [hk, hack]
        · have : s.txNextAck + 1 ≤ k ↔ s.txNextAck ≤ k := by omega
          simp [hk, this]
    · rw [if_neg hack]
      have heq : highest + 1 = s.txNextAck := by omega
      refine ⟨s.txWindow, by rw [heq], fun k => ?_⟩
      rw [if_neg (by omega)]

theorem stopDiscardTimer_quiet (h : s.Inv) (highest : Nat) :
    ∃ t, s.stopDiscardTimer highest = .ok t ∧ Quiet s t := by
  rw [stopDiscardTimer]
  split
  · exact ⟨s, rfl, .refl h⟩
  split
  · exact ⟨s, rfl, .refl h⟩
  next hin =>
    obtain ⟨hge, hlt⟩ := not_or.1 hin
    have hbound := h.bound
    obtain ⟨w, hw, hget⟩ := stopLoop_spec (2 ^ 32)
      (show s.txNextAck ≤ highest + 1 by omega) (by omega) (by omega)
    rw [hw]
    simp only [Except.map, raiseTxTrans_eq]
    refine ⟨_, rfl, ⟨Nat.le_max_right _ _,
      Nat.max_le.2 ⟨h.trans_le, Nat.lt_of_not_le hlt⟩, hbound,
      fun k info hk => ?_⟩, rfl, rfl, fun k info hk => ?_, [], (List.append_nil _).symm, nofun⟩
    · rw [hget k] at hk
      split_ifs at hk with hout
      obtain ⟨hcount, hge', hlt'⟩ := h.entry k info hk
      exact ⟨hcount, by simp only; omega, hlt'⟩
    · rw [hget k] at hk
      split_ifs at hk
      exact hk

theorem handleTransmitNotification_quiet (h : s.Inv) (sn : Nat) :
    ∃ t, s.handleTransmitNotification sn = .ok t ∧ Quiet s t := by
  rw [handleTransmitNotification]
  split
  · exact ⟨s, rfl, .refl h⟩
  generalize s.notificationCountEstimation sn = count
  simp only
  split
  · exact ⟨s, rfl, .refl h⟩
  split
  · exact ⟨s, rfl, .refl h⟩
  next hge hlt =>
    have hack := h.ack_le
    have hbound := h.bound
    have hmod : (count + 1) % 2 ^ 32 = count + 1 := Nat.mod_eq_of_lt (by omega)
    have hmoved : Quiet s { s with txTrans := count + 1 } :=
      ⟨⟨by simp only; omega, by simp only; omega, hbound, h.entry⟩, rfl, rfl, fun _ _ hk => hk, [],
        (List.append_nil _).symm, nofun⟩
    rw [hmod]
    split
    · obtain ⟨t, ht, hq⟩ := stopDiscardTimer_quiet hmoved.inv count
      exact ⟨t, ht, hmoved.trans hq⟩
    · exact ⟨_, rfl, hmoved⟩

theorem handleDeliveryNotification_quiet (h : s.Inv) (sn : Nat) :
    ∃ t, s.handleDeliveryNotification sn = .ok t ∧ Quiet s t := by
  rw [handleDeliveryNotification]
  split
  · exact ⟨s, rfl, .refl h⟩
  generalize s.notificationCountEstimation sn = count
  simp only
  split
  · exact ⟨s, rfl, .refl h⟩
  split
  · exact stopDiscardTimer_quiet h count
  · exact ⟨s, rfl, .refl h⟩

/-! ## Sending -/

/-- The faults that no state excludes: a failed security engine, and assertions on the
configuration. -/
def External (f : TxFault) : Prop := f = .securityResult ∨ f = .assertion

theorem Inv.act (h : s.Inv) (a : TxAction) : (s.act a).Inv :=
  ⟨h.ack_le, h.trans_le, h.bound, h.entry⟩

theorem Quiet.act (h : s.Inv) {a : TxAction} (ha : keyed a = false) : Quiet s (s.act a) :=
  ⟨h.act a, rfl, rfl, fun _ _ hk => hk, [a], rfl, fun _ hb => List.mem_singleton.1 hb ▸ ha⟩

/-- What `transmit` returns: a failure the upper layers are told of, or a PDU, protected if there is
a security engine. -/
def Transmitted (s : TxEntity cfg) (count : Nat) (sdu : List UInt8)
    (r : TxEntity cfg × Option (List UInt8)) : Prop :=
  match r.2 with
  | none => r.1 = s.act .protocolFailure
  | some _ => r.1 = s ∨ r.1 = s.act (.secured count sdu)

section

variable (crypto : Crypto)

theorem transmit_ensures (mem : Memory) (s : TxEntity cfg) (count : Nat)
    (sdu : List UInt8) :
    Ensures External (Transmitted s count sdu) (s.transmit crypto mem count sdu) := by
  refine .ite (fun _ => rfl) fun _ => ?_
  have hheader : Ensures External (fun _ => True)
      (writeDataPduHeader cfg (computeSn cfg.snSize count) sdu) :=
    .ite (fun _ => .inr rfl) fun _ => trivial
  refine hheader.bind fun buf _ => .ite (fun _ => rfl) fun _ => ?_
  rw [applyCipheringAndIntegrityProtection]
  cases s.security.secEngine with
  | none =>
    cases cfg.isSrb with
    | false => exact .inl rfl
    | true =>
      cases mem.mac with
      | false => exact rfl
      | true => exact .inl rfl
  | some e =>
    simp only
    cases e.encryptAndProtectIntegrity crypto buf cfg.snSize.headerSize count with
    | error _ => exact .inl rfl
    | ok pdu => exact .inr rfl

/-- From `s` to `t` an SDU has been sent, with COUNT TX_NEXT. -/
structure Sent (s : TxEntity cfg) (sdu : List UInt8) (t : TxEntity cfg) : Prop where
  inv : t.Inv
  lt_hard : s.txNext < cfg.maxCount.hard
  next : t.txNext = s.txNext + 1
  security : t.security = s.security
  window : ∀ k info, t.txWindow.get? k = some info →
    (k = s.txNext ∧ info.sdu = if cfg.isAm then sdu else []) ∨ s.txWindow.get? k = some info
  actions : ∃ as pdu as', t.actions = s.actions ++ as ++ .dataPdu s.txNext sdu pdu false :: as' ∧
    (∀ a ∈ as, keyed a = false ∨ a = .secured s.txNext sdu) ∧ ∀ a ∈ as', keyed a = false

theorem checkMaxCount_quiet (h : s.Inv) :
    Quiet s s.checkMaxCount.1 ∧
      (s.checkMaxCount.2 = false → s.txNext < cfg.maxCount.hard) := by
  rw [checkMaxCount]
  split
  · refine ⟨?_, nofun⟩
    split
    · have hq := Quiet.act h (a := .protocolFailure) rfl
      exact ⟨⟨h.ack_le, h.trans_le, h.bound, h.entry⟩, rfl, rfl, hq.window, hq.actions⟩
    · exact .refl h
  next hhard =>
    split
    · have hq := Quiet.act h (a := .maxCountReached) rfl
      exact ⟨⟨⟨h.ack_le, h.trans_le, h.bound, h.entry⟩, rfl, rfl, hq.window, hq.actions⟩,
        fun _ => Nat.lt_of_not_le hhard⟩
    · exact ⟨.refl h, fun _ => Nat.lt_of_not_le hhard⟩

/-- TX_NEXT is not in the window, so nothing is discarded and the assertion holds. -/
theorem addToWindow_overwrite (h : s.Inv) (htimer : cfg.discardTimer.isSome) (sdu : List UInt8) :
    s.addToWindow sdu = .ok { s with
      txWindow := s.txWindow.overwrite s.txNext
        { count := s.txNext
          sdu := if cfg.isAm then sdu else []
          discardTimer := cfg.discardTimer != some .infinity } } := by
  have hsome : ¬ cfg.discardTimer.isNone = true := by simpa [Option.isSome_iff_ne_none] using htimer
  have hnone : s.txWindow.get? s.txNext = none := by
    cases hget : s.txWindow.get? s.txNext with
    | none => rfl
    | some info => exact absurd (h.entry _ info hget).2.2 (Nat.lt_irrefl _)
  have hout : ¬ s.txWindow.contains s.txNext = true := by
    rw [CircularMap.contains, hnone]
    exact Bool.false_ne_true
  rw [addToWindow, if_neg hsome, hnone]
  exact if_neg hout

theorem addToWindow_eq (h : s.Inv) (sdu : List UInt8) :
    ∃ w, s.addToWindow sdu = .ok { s with txWindow := w } ∧
      ∀ k info, w.get? k = some info →
        (k = s.txNext ∧ info.count = s.txNext ∧ info.sdu = if cfg.isAm then sdu else []) ∨
          s.txWindow.get? k = some info := by
  by_cases htimer : cfg.discardTimer.isNone = true
  · exact ⟨s.txWindow, if_pos htimer, fun _ _ hk => .inr hk⟩
  refine ⟨_, addToWindow_overwrite h (by simpa [Option.isSome_iff_ne_none] using htimer) sdu,
    fun k info hk => ?_⟩
  rw [CircularMap.get?_overwrite] at hk
  split at hk
  · next heq =>
    cases hk
    exact .inl ⟨heq, rfl, rfl⟩
  · split_ifs at hk
    exact .inr hk

/-- From `s` to `t` the SDU that gets COUNT TX_NEXT may have been protected. -/
structure Prepared (s : TxEntity cfg) (sdu : List UInt8) (t : TxEntity cfg) : Prop where
  inv : t.Inv
  next : t.txNext = s.txNext
  security : t.security = s.security
  window : ∀ k info, t.txWindow.get? k = some info → s.txWindow.get? k = some info
  actions : ∃ as, t.actions = s.actions ++ as ∧
    ∀ a ∈ as, keyed a = false ∨ a = .secured s.txNext sdu

theorem Prepared.of_transmitted {sdu pdu : List UInt8} (hq : Quiet s t)
    (h : Transmitted t t.txNext sdu (u, some pdu)) : Prepared s sdu u := by
  obtain ⟨as, has, hkeyed⟩ := hq.actions
  rcases h with rfl | rfl
  · exact ⟨hq.inv, hq.next, hq.security, hq.window, as, has, fun a ha => .inl (hkeyed a ha)⟩
  · refine ⟨hq.inv.act _, hq.next, hq.security, hq.window, as ++ [.secured s.txNext sdu], ?_,
      fun a ha => ?_⟩
    · rw [act, has, hq.next, List.append_assoc]
    · rcases List.mem_append.1 ha with ha | ha
      · exact .inl (hkeyed a ha)
      · exact .inr (List.mem_singleton.1 ha)

/-- The SDU is stored, its PDU passed down and TX_NEXT incremented. -/
theorem Prepared.sent {sdu : List UInt8} (pdu : List UInt8) (h : Prepared s sdu t)
    (hhard : s.txNext < cfg.maxCount.hard)
    {w : CircularMap cfg.snSize.windowSize TxSduInfo}
    (hw : ∀ k info, w.get? k = some info →
      (k = t.txNext ∧ info.count = t.txNext ∧ info.sdu = if cfg.isAm then sdu else []) ∨
        t.txWindow.get? k = some info) :
    Sent s sdu
      { ({ t with txWindow := w } : TxEntity cfg).act (.dataPdu t.txNext sdu pdu false) with
        txNext := t.txNext + 1 } := by
  obtain ⟨hinv, hnext, hsec, hwindow, as, has, hkeyed⟩ := h
  have hlt := cfg.maxCount.hard_lt
  have hack : t.txNextAck ≤ t.txNext := Nat.le_trans hinv.ack_le hinv.trans_le
  rw [hnext] at hw hack ⊢
  refine ⟨⟨hinv.ack_le, Nat.le_succ_of_le (hnext ▸ hinv.trans_le), Nat.lt_of_le_of_lt hhard hlt,
    fun k info hk => ?_⟩, hhard, rfl, hsec, fun k info hk => ?_, as, pdu, [], ?_, hkeyed, nofun⟩
  · rcases hw k info hk with ⟨rfl, hcount, -⟩ | hk
    · exact ⟨hcount, hack, Nat.lt_succ_self _⟩
    · obtain ⟨hcount, hge, hlt⟩ := hinv.entry k info hk
      exact ⟨hcount, hge, Nat.lt_succ_of_lt (hnext ▸ hlt)⟩
  · rcases hw k info hk with ⟨rfl, -, hsdu⟩ | hk
    · exact .inl ⟨rfl, hsdu⟩
    · exact .inr (hwindow k info hk)
  · rw [act, has]

theorem Sent.trans_quiet {sdu : List UInt8} (h : Sent s sdu t) (hq : Quiet t u) :
    Sent s sdu u := by
  obtain ⟨as, pdu, as', has, hkeyed, hkeyed'⟩ := h.actions
  obtain ⟨bs, hbs, hkeyed''⟩ := hq.actions
  refine ⟨hq.inv, h.lt_hard, hq.next.trans h.next, hq.security.trans h.security,
    fun k info hk => h.window k info (hq.window k info hk), as, pdu, as' ++ bs, ?_, hkeyed,
    fun a ha => (List.mem_append.1 ha).elim (hkeyed' a) (hkeyed'' a)⟩
  rw [hbs, has, List.append_assoc, List.cons_append]

/-- `handle_sdu` sends the SDU or drops it. -/
theorem handleSdu_ensures (h : s.Inv) (sdu : List UInt8) (mem : Memory) :
    Ensures External (fun t => Quiet s t ∨ Sent s sdu t) (s.handleSdu crypto sdu mem) := by
  refine .ite (fun _ => .inl (.refl h)) fun _ => ?_
  refine .ite (fun _ => .inl (.refl h)) fun _ => ?_
  refine .ite (fun _ => .inl (.refl h)) fun _ => ?_
  obtain ⟨hq, hhard⟩ := checkMaxCount_quiet h
  generalize s.checkMaxCount = r at hq hhard
  obtain ⟨s₀, refused⟩ := r
  refine .ite (fun _ => .inl hq) fun hrefused => ?_
  have hhard := hhard (by simpa using hrefused)
  refine (transmit_ensures crypto _ s₀ s₀.txNext sdu).bind fun r hr => ?_
  obtain ⟨s₁, _ | pdu⟩ := r
  · obtain rfl : s₁ = s₀.act .protocolFailure := hr
    exact .inl (hq.trans (.act hq.inv rfl))
  · have hp : Prepared s sdu s₁ := .of_transmitted hq hr
    obtain ⟨w, hw, hget⟩ := addToWindow_eq hp.inv sdu
    have hsent := hp.sent pdu hhard hget
    have hmod : (s₁.txNext + 1) % 2 ^ 32 = s₁.txNext + 1 := by
      have := hsent.inv.bound
      exact Nat.mod_eq_of_lt this
    simp only [hw, bind, Except.bind, act, hmod]
    refine .ite (fun _ => ?_) fun _ => .inr hsent
    obtain ⟨t, ht, hq'⟩ := handleTransmitNotification_quiet hsent.inv
      (computeSn cfg.snSize s₁.txNext)
    exact ht ▸ .inr (hsent.trans_quiet hq')

/-! ## Retransmission -/

section

variable (mem : Nat → Memory) {I : TxEntity cfg → Prop}
  (hfail : ∀ s, I s → I (s.act .protocolFailure))
  (hsecured : ∀ s c info, I s → s.txWindow.get? c = some info →
    I (s.act (.secured info.count info.sdu)))
  (hdata : ∀ s c info pdu, I s → s.txWindow.get? c = some info →
    I (s.act (.dataPdu info.count info.sdu pdu true)))

include hfail hsecured hdata

/-- What sending a stored SDU again keeps, retransmission keeps. -/
theorem retransmit_ensures (hs : I s) (counts : List Nat) :
    Ensures External I (s.retransmit crypto mem counts) := by
  induction counts generalizing s with
  | nil => exact hs
  | cons c counts ih =>
    rw [retransmit]
    cases hget : s.txWindow.get? c with
    | none => exact ih hs
    | some info =>
      refine (transmit_ensures crypto (mem c) s info.count info.sdu).bind fun r hr => ?_
      obtain ⟨t, _ | pdu⟩ := r
      · obtain rfl : t = s.act .protocolFailure := hr
        exact hfail s hs
      · refine ih (hdata t c info pdu ?_ ?_)
        · rcases hr with rfl | rfl
          · exact hs
          · exact hsecured s c info hs hget
        · rcases hr with rfl | rfl
          · exact hget
          · exact hget

theorem retransmitAllPdus_ensures (hs : I s) (hback : I { s with txTrans := s.txNextAck }) :
    Ensures External I (s.retransmitAllPdus crypto mem) :=
  .ite (fun _ => hs) fun _ => retransmit_ensures crypto mem hfail hsecured hdata hback _

end

theorem Inv.back (h : s.Inv) : Inv ({ s with txTrans := s.txNextAck } : TxEntity cfg) :=
  ⟨Nat.le_refl _, Nat.le_trans h.ack_le h.trans_le, h.bound, h.entry⟩

theorem Inv.reset (_h : s.Inv) : s.reset.Inv :=
  ⟨Nat.le_refl 0, Nat.le_refl 0, Nat.two_pow_pos 32, nofun⟩

/-- Security is refused or a new engine is installed. -/
theorem configure_ensures (s : TxEntity cfg) (sec : Sec128AsConfig) (integrity ciphering : Bool) :
    Ensures External
      (fun t => t = s ∨ ∃ security, t = { s.act .keyConfigured with security })
      (s.configure sec integrity ciphering) := by
  rw [configure]
  cases configureSecurity cfg.toBearer sec integrity ciphering with
  | refused => exact .inl rfl
  | installed security => exact .inr ⟨security, rfl⟩
  | assertion => exact .inr rfl

/-! ## Steps and runs -/

theorem handle_ensures (h : s.Inv) (e : Event) :
    Ensures External Inv (s.handle crypto e) := by
  have hretransmit : ∀ (u : TxEntity cfg) (mem : Nat → Memory), u.Inv →
      Ensures External Inv (u.retransmitAllPdus crypto mem) := fun u mem hu =>
    retransmitAllPdus_ensures crypto mem (fun _ hs => hs.act _) (fun _ _ _ hs _ => hs.act _)
      (fun _ _ _ _ hs _ => hs.act _) hu hu.back
  have hconfigure : ∀ (u : TxEntity cfg) sec integrity ciphering, u.Inv →
      Ensures External Inv (u.configure sec integrity ciphering) := by
    intro u sec integrity ciphering hu
    refine (configure_ensures u sec integrity ciphering).mono fun t ht => ?_
    rcases ht with rfl | ⟨security, rfl⟩
    · exact hu
    · exact ⟨hu.ack_le, hu.trans_le, hu.bound, hu.entry⟩
  have hquiet : ∀ {x : Except TxFault (TxEntity cfg)}, (∃ t, x = .ok t ∧ Quiet s t) →
      Ensures External Inv x := by
    rintro _ ⟨t, rfl, hq⟩
    exact hq.inv
  cases e with
  | sdu sdu mem =>
    refine (handleSdu_ensures crypto h sdu mem).mono fun t ht => ?_
    rcases ht with hq | hsent
    · exact hq.inv
    · exact hsent.inv
  | transmitNotification sn => exact hquiet (handleTransmitNotification_quiet h sn)
  | deliveryNotification sn => exact hquiet (handleDeliveryNotification_quiet h sn)
  | retransmitNotification sn => exact h
  | statusReport status => exact hquiet (handleStatusReport_quiet h status)
  | discardExpiry count => exact hquiet (discardPdu_quiet h count)
  | dataRecovery statusReport mem =>
    refine .ite (fun _ => .inr rfl) fun _ => hretransmit _ mem ?_
    split
    · exact h.act _
    · exact h
  | configureSecurity sec integrity ciphering => exact hconfigure s sec integrity ciphering h
  | reestablish sec mem =>
    have hreset : (if cfg.isSrb || cfg.isUm then s.reset else s).Inv := by
      split
      · exact h.reset
      · exact h
    refine (hconfigure _ sec _ _ hreset).bind fun t ht => .ite (fun _ => ?_) fun _ => ht
    exact hretransmit t mem ht

end

theorem Inv.step {crypto : Crypto} {e : Event} (h : s.Inv) (hstep : s.step crypto e = some t) :
    t.Inv := by
  rw [TxEntity.step] at hstep
  split_ifs at hstep
  exact (handle_ensures crypto h e).of_ok (toOption_eq_some.1 hstep)

/-- What holds in every reachable state. -/
structure Safe (crypto : Crypto) (s : TxEntity cfg) : Prop where
  ack_le_trans : s.txNextAck ≤ s.txTrans
  trans_le_next : s.txTrans ≤ s.txNext
  window : ∀ c, s.txWindow.contains c → s.txNextAck ≤ c ∧ c < s.txNext
  stops : ∀ highest, ∃ t, s.stopDiscardTimer highest = .ok t
  discards : ∀ c, ∃ t, s.discardPdu c = .ok t
  reports : ∀ status, ∃ t, s.handleStatusReport status = .ok t
  /-- No loop of any event runs forever or leaves the window. -/
  handles : ∀ e fault, s.handle crypto e = .error fault → External fault

theorem Inv.safe (crypto : Crypto) (h : s.Inv) : Safe crypto s where
  ack_le_trans := h.ack_le
  trans_le_next := h.trans_le
  window _ := h.mem
  stops highest := (stopDiscardTimer_quiet h highest).imp fun _ ht => ht.1
  discards c := (discardPdu_quiet h c).imp fun _ ht => ht.1
  reports status := (handleStatusReport_quiet h status).imp fun _ ht => ht.1
  handles e _ := (handle_ensures crypto h e).of_error

/-- **The state variables in every reachable state.** -/
theorem txEntity_invariant {crypto : Crypto} {es : List Event} {s : TxEntity cfg}
    (hrun : Run (fun s e t => TxEntity.step crypto s e = some t) ({} : TxEntity cfg) es s) :
    Safe crypto s :=
  Inv.safe crypto (hrun.invariant (fun _ _ _ h hstep => h.step hstep) inv_init)

def sampleConfig : TxConfig where
  rbType := .drb
  rlcMode := .am
  snSize := .size12bits
  direction := .downlink
  bearerId := 1
  discardTimer := some (.ms 10)
  statusReportRequired := true
  maxCount := .default
  rlcSduQueue := 4096
  testMode := false
  srb_ok := nofun

/-- Four SDUs; the second is reported as received, the first delivered, the fourth discarded by its
timer. -/
theorem txEntity_invariant_fourSdus :
    ∃ es, ∃ s : TxEntity sampleConfig,
      Run (fun s e t => TxEntity.step noCrypto s e = some t) ({} : TxEntity sampleConfig) es s ∧
        (s.txNextAck, s.txTrans, s.txNext) = (2, 2, 4) ∧ Safe noCrypto s := by
  have hexec : (exec (TxEntity.step noCrypto) ({} : TxEntity sampleConfig)
      [.sdu [1] {}, .sdu [2] {}, .sdu [3] {}, .sdu [4] {}, .transmitNotification 1,
        .statusReport [0, 0, 0, 0, 0, 0x80], .deliveryNotification 0, .discardExpiry 3]).map
      (fun s => (s.txNextAck, s.txTrans, s.txNext)) = some (2, 2, 4) := by decide +kernel
  obtain ⟨s, hs, hvars⟩ := Option.map_eq_some_iff.1 hexec
  exact ⟨_, s, run_of_exec hs, hvars, txEntity_invariant (run_of_exec hs)⟩

end RadioStack.Pdcp.TxEntity
