import RadioStack.Rlc.PollOnStall

/-!
# Retransmissions and the original

An SDU that is still being segmented has bytes that were never sent, and `handle_nack` means to
retransmit only the others: it replaces the end mark of a NACK by the last byte sent. A NACK with an
explicit `so_end`, and one without offsets, skip that branch.

**Theorem (`retx_of_nack`).** In every state in which `handle_nack` is called, a NACK that it
accepts queues one retransmission, of at least one byte of the SDU and of no byte behind it. For the
SN under segmentation it stays among the bytes already sent if and only if the NACK ends with the
end mark or with a byte already sent (`EndsAmongSent`).
-/

namespace RadioStack.Rlc.TxAm

variable {cfg : Config} {s s' : TxAm cfg}

/-- The states in which `handle_nack` is called: between two calls of the entity, and while a status
report is handled, behind its ACKs and behind each NACK. -/
inductive AtNack : TxAm cfg → Prop
  | reached {s : TxAm cfg} {es : List Event} (hrun : Run Step (init cfg) es s) : AtNack s
  | acked {s : TxAm cfg} {es : List Event} (hrun : Run Step (init cfg) es s)
      (status : StatusPdu) : AtNack (s.processAcks status)
  | nacked {s s' : TxAm cfg} {nack : StatusNack} {prevRetxSn retxSn : Nat} (hs : AtNack s)
      (hend : nack.soEnd < 2 ^ 16) (hok : s.processNack prevRetxSn nack = .ok (s', retxSn)) :
      AtNack s'

theorem AtNack.sound (h : AtNack s) : Sound s := by
  induction h with
  | reached hrun => exact sound_of_run hrun
  | acked hrun status => exact (sound_of_run hrun).processAcks status
  | nacked _ hend hok ih => exact (ih.processNack hend _).of_ok hok

/-- The last byte that a NACK reports, by an offset or as a whole SDU, is the end mark or one that
was sent. -/
def EndsAmongSent (nack : StatusNack) (info : SduInfo) : Prop :=
  let soEnd := if nack.hasSo then nack.soEnd else (info.sdu.length + (2 ^ 16 - 1)) % 2 ^ 16
  soEnd = soEndOfSdu ∨ soEnd < info.nextSo

theorem lastWanted_lt_nextSo_iff {nack : StatusNack} {info : SduInfo}
    (hsn : nack.nackSn = s.snUnderSegmentation) (hpos : 0 < info.nextSo)
    (hlt : info.nextSo < info.sdu.length) :
    min (s.lastWanted nack info) (info.sdu.length - 1) < info.nextSo ↔ EndsAmongSent nack info := by
  unfold lastWanted EndsAmongSent
  simp only [hsn, ne_eq, not_true_eq_false, if_false]
  generalize (if nack.hasSo = true then nack.soEnd else _) = soEnd
  by_cases hend : soEnd = soEndOfSdu
  · rw [if_neg (not_not.2 hend)]
    exact iff_of_true (by omega) (.inl hend)
  · rw [if_pos hend]
    omega

theorem retx_of_nack (h : AtNack s) {nack : StatusNack} (hsn : nack.nackSn < cfg.mod)
    (hend : nack.soEnd < 2 ^ 16) (hok : s.handleNack nack = .ok (s', true)) :
    ∃ info retx, s.txWindow.get? nack.nackSn = some info ∧
      s'.retxQueue = s.retxQueue ++ [retx] ∧ retx.sn = nack.nackSn ∧
      1 ≤ retx.length ∧ retx.so + retx.length ≤ info.sdu.length ∧
      (nack.nackSn = s.snUnderSegmentation →
        (retx.so + retx.length ≤ info.nextSo ↔ EndsAmongSent nack info)) := by
  have hsound := h.sound
  rcases (handleNack_cases s nack).of_ok hok with hdropped | ⟨info, soStart, hget, hsched⟩
  · cases hdropped
  have hpos : 0 < info.sdu.length := List.length_pos_iff.2 (hsound.window _ info hget)
  obtain ⟨-, hqueue⟩ :=
    scheduleRetx_spec s nack.nackSn info.sdu.length soStart (s.lastWanted nack info)
  rw [← hsched] at hqueue
  rcases hqueue with ⟨hfull, -⟩ | ⟨retx, hqueue, hretxsn, hretx⟩
  · cases hfull
  obtain ⟨hlen, hlast⟩ := hretx hpos (lastWanted_lt hend info)
  refine ⟨info, retx, hget, hqueue, hretxsn, hlen, by omega, fun hseg => ?_⟩
  have hne : s.snUnderSegmentation ≠ invalidRlcSn := by
    have hinv : cfg.mod < invalidRlcSn := cfg.snFieldLength.mod_lt_invalid
    omega
  obtain ⟨hso, hlt⟩ := hsound.segment hne info (hseg ▸ hget)
  rw [← lastWanted_lt_nextSo_iff hseg hso hlt, hlast]
  exact Nat.succ_le_iff

/-- A grant for three of the ten bytes of an SDU. -/
def threeBytesSent : List Event :=
  [.handleSdu { buf := [0, 1, 2, 3, 4, 5, 6, 7, 8, 9], pdcpSn := none }, .pullPdu none 5]

/-- The RETX queue behind a NACK accepted for the SN under segmentation, and `next_so`. -/
def retxAndNextSo (nack : StatusNack) (s : TxAm cfg) : Option (List Retx × Nat) :=
  match s.handleNack nack, s.underSegmentation with
  | .ok (s', true), some info =>
    if nack.nackSn = s.snUnderSegmentation then some (s'.retxQueue, info.nextSo) else none
  | _, _ => none

theorem exists_of_retxAndNextSo {es : List Event} {nack : StatusNack} {queue : List Retx}
    {nextSo : Nat} (h : (exec (guarded stepState fun _ ev => ev.NonEmpty) (init cfg) es).bind
      (·.retxAndNextSo nack) = some (queue, nextSo)) :
    ∃ s s' : TxAm cfg, ∃ info, Run Step (init cfg) es s ∧ s.handleNack nack = .ok (s', true) ∧
      nack.nackSn = s.snUnderSegmentation ∧ s.txWindow.get? nack.nackSn = some info ∧
      s'.retxQueue = queue ∧ info.nextSo = nextSo := by
  obtain ⟨s, hs, h⟩ := Option.bind_eq_some_iff.1 h
  unfold retxAndNextSo at h
  split at h
  · next s' info hok hinfo =>
    split_ifs at h with hsn
    cases h
    exact ⟨s, s', info, run_of_stepState hs, hok, hsn,
      hsn ▸ (underSegmentation_eq_some.1 hinfo).2, rfl, rfl⟩
  · cases h

/-- The end mark stands for byte 2. -/
theorem retx_of_nack_endMark :
    ∃ s s' : TxAm (unpolledConfig 0), ∃ info retx,
      Run Step (init (unpolledConfig 0)) threeBytesSent s ∧
      s.handleNack { nackSn := 0, hasSo := true, soStart := 1 } = .ok (s', true) ∧
      s.snUnderSegmentation = 0 ∧ s.txWindow.get? 0 = some info ∧
      s'.retxQueue = s.retxQueue ++ [retx] ∧ retx.so + retx.length ≤ info.nextSo := by
  obtain ⟨s, s', info, hrun, hok, hsn, hget, -, -⟩ := @exists_of_retxAndNextSo (unpolledConfig 0)
    threeBytesSent { nackSn := 0, hasSo := true, soStart := 1 } [⟨0, 1, 2⟩] 3 (by decide +kernel)
  obtain ⟨info', retx, hget', hqueue, -, -, -, hsent⟩ :=
    retx_of_nack (.reached hrun) (by decide) (by decide) hok
  obtain rfl := Option.some.inj (hget'.symm.trans hget)
  exact ⟨s, s', info', retx, hrun, hok, hsn.symm, hget, hqueue, (hsent hsn).2 (.inl rfl)⟩

/-- Three bytes are sent. A NACK for bytes 0 to 5 queues all six of them, and a NACK for the whole
SDU all ten. -/
theorem retx_overtakes :
    (∃ s s' : TxAm (unpolledConfig 0), ∃ info,
      Run Step (init (unpolledConfig 0)) threeBytesSent s ∧
      s.handleNack { nackSn := 0, hasSo := true, soStart := 0, soEnd := 5 } = .ok (s', true) ∧
      0 = s.snUnderSegmentation ∧ s.txWindow.get? 0 = some info ∧
      s'.retxQueue = [⟨0, 0, 6⟩] ∧ info.nextSo = 3) ∧
    ∃ s s' : TxAm (unpolledConfig 0), ∃ info,
      Run Step (init (unpolledConfig 0)) threeBytesSent s ∧
      s.handleNack { nackSn := 0 } = .ok (s', true) ∧
      0 = s.snUnderSegmentation ∧ s.txWindow.get? 0 = some info ∧
      s'.retxQueue = [⟨0, 0, 10⟩] ∧ info.nextSo = 3 := by
  constructor
  · exact exists_of_retxAndNextSo (by decide +kernel)
  · exact exists_of_retxAndNextSo (by decide +kernel)

end RadioStack.Rlc.TxAm
