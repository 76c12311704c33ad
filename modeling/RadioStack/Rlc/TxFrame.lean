import RadioStack.Lib.Outcome
import RadioStack.Rlc.TxAm

/-!
# What the transmitter leaves alone

Most functions of the transmitter touch only counters, timers, notifications and the RETX queue:
`Frame s s'` says that the SDUs of the window, their segmentation progress and the state variables
TX_NEXT_ACK and TX_NEXT are the same in both states. One lemma per function, and one rule for the
loop over the NACKs of a status report (`processNacks_ensures`): what every handled NACK keeps,
the loop keeps.
-/

namespace RadioStack.Rlc.TxAm

variable {cfg : Config}

/-- An SDU and how much of it has been sent. -/
def SduInfo.content (info : SduInfo) : List UInt8 × Nat := (info.sdu, info.nextSo)

/-- SDUs, segmentation progress, SNs and the SDU queue are unchanged. -/
structure Frame (s s' : TxAm cfg) : Prop where
  ack : s'.txNextAck = s.txNextAck := by rfl
  next : s'.txNext = s.txNext := by rfl
  seg : s'.snUnderSegmentation = s.snUnderSegmentation := by rfl
  queue : s'.sduQueue = s.sduQueue := by rfl
  count : s'.txWindow.count = s.txWindow.count := by rfl
  entries : ∀ k, (s'.txWindow.get? k).map SduInfo.content =
    (s.txWindow.get? k).map SduInfo.content := by intro; rfl

/-- PDU_WITHOUT_POLL and BYTE_WITHOUT_POLL. -/
def counters (s : TxAm cfg) : Nat × Nat := (s.pduWithoutPoll, s.byteWithoutPoll)

/-- A frame in which nothing is counted for the next poll either. -/
structure Quiet (s s' : TxAm cfg) : Prop extends Frame s s' where
  counters : s'.counters = s.counters := by rfl

variable {info : SduInfo}

namespace Frame

variable {s s' s'' : TxAm cfg}

theorem refl (s : TxAm cfg) : Frame s s := {}

theorem trans (h : Frame s s') (h' : Frame s' s'') : Frame s s'' :=
  ⟨h'.ack.trans h.ack, h'.next.trans h.next, h'.seg.trans h.seg, h'.queue.trans h.queue,
    h'.count.trans h.count, fun k => (h'.entries k).trans (h.entries k)⟩

theorem contains (h : Frame s s') (k : Nat) : s'.txWindow.contains k = s.txWindow.contains k := by
  have hk := congrArg Option.isSome (h.entries k)
  rwa [Option.isSome_map, Option.isSome_map] at hk

theorem get (h : Frame s s') {k : Nat} (hk : s.txWindow.get? k = some info) :
    ∃ info', s'.txWindow.get? k = some info' ∧ info'.sdu = info.sdu ∧
      info'.nextSo = info.nextSo := by
  have he := h.entries k
  rw [hk, Option.map_some] at he
  obtain ⟨info', hk', hc⟩ := Option.map_eq_some_iff.1 he
  exact ⟨info', hk', congrArg Prod.fst hc, congrArg Prod.snd hc⟩

end Frame

theorem Quiet.trans {s s' s'' : TxAm cfg} (h : Quiet s s') (h' : Quiet s' s'') : Quiet s s'' :=
  ⟨h.toFrame.trans h'.toFrame, h'.counters.trans h.counters⟩

variable {s : TxAm cfg}

section

variable (s : TxAm cfg)

theorem quiet_modifySdu (sn : Nat) {f : SduInfo → SduInfo}
    (hf : ∀ info, (f info).content = info.content) : Quiet s (s.modifySdu sn f) := by
  refine ⟨⟨rfl, rfl, rfl, rfl, CircularMap.count_modify _ _ _, fun k => ?_⟩, rfl⟩
  simp only [modifySdu, CircularMap.get?_modify]
  split
  · next hk =>
    subst hk
    rw [Option.map_map]
    exact congrArg (Option.map · _) (funext hf)
  · rfl

theorem quiet_notify (l : List Notification) : Quiet s (s.notify l) :=
  {}

theorem quiet_stopPollRetransmit (ackSn : Nat) : Quiet s (s.stopPollRetransmit ackSn) := by
  unfold stopPollRetransmit
  split <;> exact {}

theorem quiet_ite_notify (c : Prop) [Decidable c] (l : List Notification) :
    Quiet s (if c then s.notify l else s) := by
  split <;> exact {}

theorem retxQueue_ite_notify (c : Prop) [Decidable c] (l : List Notification) :
    (if c then s.notify l else s).retxQueue = s.retxQueue := by
  split <;> rfl

/-! ## Polling -/

theorem frame_getPollingBit (sn : Nat) (isRetx : Bool) (size : Nat) :
    Frame s (s.getPollingBit sn isRetx size).1 := by
  unfold getPollingBit
  cases isRetx with
  | true =>
    simp only [if_true]
    split <;> exact {}
  | false =>
    simp only [Bool.false_eq_true, if_false]
    split <;> exact {}

theorem txWindow_getPollingBit (sn : Nat) (isRetx : Bool) (size : Nat) :
    (s.getPollingBit sn isRetx size).1.txWindow = s.txWindow := by
  unfold getPollingBit
  cases isRetx <;> · simp only [Bool.false_eq_true, if_true, if_false]; split <;> rfl

theorem retxQueue_getPollingBit (sn : Nat) (isRetx : Bool) (size : Nat) :
    (s.getPollingBit sn isRetx size).1.retxQueue = s.retxQueue := by
  unfold getPollingBit
  cases isRetx <;> · simp only [Bool.false_eq_true, if_true, if_false]; split <;> rfl

end

/-! ## Retransmissions -/

/-- `pdu` carries the bytes `so..so + len` of the SDU with SN `sn`. -/
structure Carries (cfg : Config) (sn : Nat) (sdu : List UInt8) (so len : Nat) (pdu : List UInt8) :
    Prop where
  pos : 0 < len
  le : so + len ≤ sdu.length
  eq : ∃ p, pdu = writeDataPduHeader
    (cfg.dataHeader sn p (retxSi so (decide (sdu.length ≤ so + len))) so) ++
      (sdu.drop (so % 2 ^ 16)).take len

/-- `retx'` is `retx` or what is left of it. -/
def Retx.Rest (retx' retx : Retx) : Prop :=
  retx'.sn = retx.sn ∧ retx.so ≤ retx'.so ∧ retx'.so + retx'.length = retx.so + retx.length

/-- What `build_retx_pdu` yields: nothing, or part of a queued retransmission. -/
structure RetxPdu (s s' : TxAm cfg) (pdu : List UInt8) : Prop where
  frame : Frame s s'
  queue : ∀ retx' ∈ s'.retxQueue, ∃ retx ∈ s.retxQueue, retx'.Rest retx
  pdu : pdu = [] ∨ ∃ retx ∈ s.retxQueue, ∃ info len, s.txWindow.get? retx.sn = some info ∧
    len ≤ retx.length ∧ Carries cfg retx.sn info.sdu retx.so len pdu

theorem Retx.Rest.refl (retx : Retx) : retx.Rest retx := ⟨rfl, le_rfl, rfl⟩

/-- The bytes of a segment are there, also with the offset cut to 16 bits. -/
theorem length_payload (sdu : List UInt8) (so len : Nat) (h : so + len ≤ sdu.length) :
    ((sdu.drop (so % 2 ^ 16)).take len).length = len := by
  rw [List.length_take, List.length_drop]
  omega

/-- Sends `len` bytes of a retransmission and keeps the rest of it. -/
def sendRetx (s : TxAm cfg) (retx : Retx) (rest : List Retx) (info : SduInfo) (len : Nat) :
    TxAm cfg × List UInt8 :=
  let remainder := { retx with so := retx.so + len, length := retx.length - len }
  let queue := if len = retx.length then rest else remainder :: rest
  let r := ({ s with retxQueue := queue, retxSn := retx.sn } : TxAm cfg).getPollingBit
    retx.sn true 0
  let si := retxSi retx.so (info.sdu.length ≤ retx.so + len)
  (r.1, writeDataPduHeader (cfg.dataHeader retx.sn r.2 si retx.so) ++
    (info.sdu.drop (retx.so % 2 ^ 16)).take len)

/-- What `build_retx_pdu` does with the first retransmission whose SN is in the window. The only
assertion it can violate is the one on the header length. -/
theorem buildRetxPdu_cases {retx : Retx} {rest : List Retx}
    (hdrop : (s.retxQueue.dropWhile fun retx => !s.txWindow.contains retx.sn) = retx :: rest)
    (hinfo : s.txWindow.get? retx.sn = some info) (grantLen : Nat) :
    let len := min retx.length (grantLen - retxExpectedHdrLen cfg retx)
    Ensures (fun f => f = Fault.retxHeaderLen retx.sn) (fun r =>
        (info.sdu.length < retx.so + retx.length ∧
          r = ({ s with retxQueue := rest, retxSn := retx.sn }, [])) ∨
        (grantLen ≤ retxExpectedHdrLen cfg retx ∧
          r = ({ s with retxQueue := retx :: rest, retxSn := retx.sn }, [])) ∨
        retx.so + retx.length ≤ info.sdu.length ∧ retxExpectedHdrLen cfg retx < grantLen ∧
          r = ((s.sendRetx retx rest info len).1,
            if len = 0 then [] else (s.sendRetx retx rest info len).2))
      (s.buildRetxPdu grantLen) := by
  unfold buildRetxPdu
  rw [hdrop]
  simp only [access, hinfo, bind, Except.bind]
  refine .ite (fun hlt => .inl ⟨hlt, rfl⟩) fun hle => .ite (fun hgrant => .inr (.inl ⟨hgrant, rfl⟩))
    fun hgrant => .ite (fun _ => rfl) fun _ => ?_
  set len := min retx.length (grantLen - retxExpectedHdrLen cfg retx) with hlen
  have hpay := length_payload info.sdu retx.so len (by omega)
  simp only [Config.dataHeader, hpay, ne_eq, not_true_eq_false, or_false]
  refine .ite (fun h0 => .inr (.inr ⟨by omega, by omega, ?_⟩))
    fun h0 => .inr (.inr ⟨by omega, by omega, ?_⟩)
  · rw [if_pos h0]
    rfl
  · rw [if_neg h0]
    rfl

theorem frame_sendRetx (s : TxAm cfg) (retx : Retx) (rest : List Retx) (info : SduInfo)
    (len : Nat) : Frame s (s.sendRetx retx rest info len).1 := by
  refine .trans ?_ (frame_getPollingBit { s with retxQueue := _, retxSn := retx.sn } retx.sn true 0)
  exact {}

/-- What is queued after a retransmission: what was queued behind it, and what is left of it. -/
theorem mem_retxQueue_sendRetx {retx r : Retx} {rest : List Retx} (info : SduInfo) {len : Nat}
    (h : r ∈ (s.sendRetx retx rest info len).1.retxQueue) : r ∈ rest ∨
      len ≠ retx.length ∧ r = { retx with so := retx.so + len, length := retx.length - len } := by
  simp only [sendRetx, retxQueue_getPollingBit] at h
  split at h
  · exact .inl h
  · next hlen => exact (List.mem_cons.1 h).symm.imp_right fun hr => ⟨hlen, hr⟩

theorem buildRetxPdu_spec (s : TxAm cfg) (grantLen : Nat) :
    Ensures (fun f => ∃ sn, f = Fault.retxHeaderLen sn) (fun r => RetxPdu s r.1 r.2)
      (s.buildRetxPdu grantLen) := by
  have hsub : ∀ retx ∈ s.retxQueue.dropWhile fun retx => !s.txWindow.contains retx.sn,
      retx ∈ s.retxQueue := fun retx h => (List.dropWhile_sublist _).subset h
  cases hd : s.retxQueue.dropWhile fun retx => !s.txWindow.contains retx.sn with
  | nil =>
    unfold buildRetxPdu
    rw [hd]
    exact ⟨{}, nofun, .inl rfl⟩
  | cons retx rest =>
    rw [hd] at hsub
    have hmem := hsub retx List.mem_cons_self
    have hrest : ∀ r ∈ rest, r ∈ s.retxQueue := fun r h => hsub r (List.mem_cons_of_mem _ h)
    -- `dropWhile` stopped at an SN that is in the window
    have hin : s.txWindow.contains retx.sn := by
      have := List.head?_dropWhile_not (fun retx => !s.txWindow.contains retx.sn) s.retxQueue
      rw [hd] at this
      simpa using this
    obtain ⟨info, hinfo⟩ := CircularMap.contains_iff.1 hin
    cases hok : s.buildRetxPdu grantLen with
    | error f => exact ⟨_, (buildRetxPdu_cases hd hinfo grantLen).of_error hok⟩
    | ok r =>
      rcases (buildRetxPdu_cases hd hinfo grantLen).of_ok hok with
        ⟨-, rfl⟩ | ⟨-, rfl⟩ | ⟨hle, -, rfl⟩
      · exact ⟨{}, fun r h => ⟨r, hrest r h, .refl r⟩, .inl rfl⟩
      · exact ⟨{}, fun r h => ⟨r, hsub r h, .refl r⟩, .inl rfl⟩
      · set len := min retx.length (grantLen - retxExpectedHdrLen cfg retx) with hlen
        have hlenle : len ≤ retx.length := min_le_left _ _
        refine ⟨frame_sendRetx s retx rest info len, fun r hr => ?_, ?_⟩
        · rcases mem_retxQueue_sendRetx info hr with hr | ⟨-, rfl⟩
          · exact ⟨r, hrest r hr, .refl r⟩
          · exact ⟨retx, hmem, rfl, Nat.le_add_right _ _, by simp only; omega⟩
        · by_cases h0 : len = 0
          · exact .inl (if_pos h0)
          · refine .inr ⟨retx, hmem, info, len, hinfo, hlenle, ⟨by omega, by omega, ?_⟩⟩
            exact ⟨_, if_neg h0⟩

/-! ## Counters of retransmissions -/

theorem quiet_decrementRetxCount (s : TxAm cfg) (sn : Nat) : Quiet s (s.decrementRetxCount sn) := by
  refine quiet_modifySdu s sn fun info => ?_
  split
  · rfl
  · split <;> rfl

theorem clearRetxQueue_spec (queue : List Retx) (s : TxAm cfg) :
    Quiet s (clearRetxQueue queue s) ∧ (clearRetxQueue queue s).retxQueue = [] := by
  induction queue generalizing s with
  | nil => exact ⟨{}, rfl⟩
  | cons retx queue ih =>
    unfold clearRetxQueue
    split
    · exact ih s
    · set s₁ := if s.txWindow.contains retx.sn then s.decrementRetxCount retx.sn else s with hs₁
      have h₁ : Quiet s s₁ := by
        rw [hs₁]
        split
        · exact quiet_decrementRetxCount s retx.sn
        · exact {}
      have h₂ : Quiet s₁ { s₁ with retxSn := retx.sn } := {}
      obtain ⟨h₃, hq⟩ := ih { s₁ with retxSn := retx.sn }
      exact ⟨(h₁.trans h₂).trans h₃, hq⟩

theorem incrementRetxCount_spec {sn : Nat} (h : s.txWindow.contains sn) :
    Ensures (fun _ => False) (fun s' => Quiet s s' ∧ s'.retxQueue = s.retxQueue)
      (s.incrementRetxCount sn) := by
  obtain ⟨info, hinfo⟩ := CircularMap.contains_iff.1 h
  simp only [incrementRetxCount, access, hinfo, Except.map]
  set count := if info.retxCount = retxCountNotStarted then 0 else (info.retxCount + 1) % 2 ^ 32
  set f : SduInfo → SduInfo := fun info => { info with retxCount := count }
  have hmodify : Quiet s (s.modifySdu sn f) := quiet_modifySdu s sn fun _ => rfl
  exact ⟨hmodify.trans (quiet_ite_notify _ _ _), retxQueue_ite_notify _ _ _⟩

/-! ## NACKs -/

/-- The queue grows by at most one retransmission: it ends with byte `soEnd`, or with the last byte
of the SDU if that comes first. -/
theorem scheduleRetx_spec (s : TxAm cfg) (sn sduLength soStart soEnd : Nat) :
    Quiet s (s.scheduleRetx sn sduLength soStart soEnd).1 ∧
      (((s.scheduleRetx sn sduLength soStart soEnd).2 = false ∧
        (s.scheduleRetx sn sduLength soStart soEnd).1.retxQueue = s.retxQueue) ∨
      ∃ retx, (s.scheduleRetx sn sduLength soStart soEnd).1.retxQueue = s.retxQueue ++ [retx] ∧
        retx.sn = sn ∧ (0 < sduLength → soEnd < 2 ^ 16 →
          0 < retx.length ∧ retx.so + retx.length = min soEnd (sduLength - 1) + 1)) := by
  -- the push itself, for the offsets `a` and `b` that the sanity checks leave
  have hpush : ∀ (t : TxAm cfg) (a b : Nat), Quiet s t → t.retxQueue = s.retxQueue →
      (0 < sduLength → soEnd < 2 ^ 16 → a ≤ b ∧ b = min soEnd (sduLength - 1)) →
      let r := if t.retxQueue.length < cfg.window then
        ({ t with retxQueue := t.retxQueue ++ [⟨sn, a, b + 1 - a⟩] }, true) else (t, false)
      Quiet s r.1 ∧ ((r.2 = false ∧ r.1.retxQueue = s.retxQueue) ∨
        ∃ retx, r.1.retxQueue = s.retxQueue ++ [retx] ∧
          retx.sn = sn ∧ (0 < sduLength → soEnd < 2 ^ 16 →
            0 < retx.length ∧ retx.so + retx.length = min soEnd (sduLength - 1) + 1)) := by
    intro t a b hframe hqueue hab
    split
    · refine ⟨hframe.trans {},
        .inr ⟨⟨sn, a, b + 1 - a⟩, ?_, rfl, ?_⟩⟩
      · rw [hqueue]
      · intro hpos hend
        exact ⟨by simp only; omega, by simp only; omega⟩
    · exact ⟨hframe, .inl ⟨rfl, hqueue⟩⟩
  refine hpush _ _ _ (((quiet_ite_notify s _ _).trans (quiet_ite_notify _ _ _)).trans
    (quiet_ite_notify _ _ _)) ?_ fun hpos hend => ⟨?_, ?_⟩
  · rw [retxQueue_ite_notify, retxQueue_ite_notify, retxQueue_ite_notify]
  · split_ifs <;> omega
  · split <;> omega

/-- `handle_nack` finds the SDU, if the NACK is for an SN between TX_NEXT_ACK and TX_NEXT. -/
def Accessible (s : TxAm cfg) (sn : Nat) : Prop :=
  s.txModBase sn ≤ s.txModBase s.txNext → s.txWindow.contains sn

/-- The last byte that `handle_nack` asks for: an end mark stands for the last byte, or for the last
one sent if the SDU is under segmentation. -/
def lastWanted (s : TxAm cfg) (nack : StatusNack) (info : SduInfo) : Nat :=
  let lastByte := (info.sdu.length + (2 ^ 16 - 1)) % 2 ^ 16
  let soEnd := if nack.hasSo then nack.soEnd else lastByte
  if soEnd ≠ soEndOfSdu then soEnd
  else if nack.nackSn ≠ s.snUnderSegmentation then lastByte
  else (info.nextSo - 1) % 2 ^ 16

variable {nack : StatusNack}

theorem lastWanted_lt (hend : nack.soEnd < 2 ^ 16) (info : SduInfo) :
    s.lastWanted nack info < 2 ^ 16 := by
  unfold lastWanted
  simp only
  split_ifs <;> omega

/-- A NACK is dropped, or schedules a retransmission up to the last byte wanted. -/
theorem handleNack_cases (s : TxAm cfg) (nack : StatusNack) :
    Ensures
      (fun _ => s.txModBase nack.nackSn ≤ s.txModBase s.txNext ∧
        s.txWindow.get? nack.nackSn = none)
      (fun r => r = (s, false) ∨ ∃ info soStart, s.txWindow.get? nack.nackSn = some info ∧
        r = s.scheduleRetx nack.nackSn info.sdu.length soStart (s.lastWanted nack info))
      (s.handleNack nack) := by
  refine .ite (fun _ => .inl rfl) fun _ => .ite (fun _ => .inl rfl) fun hr => ?_
  cases hget : s.txWindow.get? nack.nackSn with
  | none =>
    simp only [access, hget, Except.map]
    exact ⟨(not_not.1 hr).2, trivial⟩
  | some info =>
    simp only [access, hget, Except.map]
    refine Or.imp_right (fun h => ⟨info, if nack.hasSo then nack.soStart else 0, rfl, h⟩) ?_
    unfold lastWanted
    simp only
    generalize (if nack.hasSo = true then nack.soStart else 0) = soStart
    generalize (if nack.hasSo = true then nack.soEnd else _) = soEnd
    split
    · exact .inr rfl
    · split
      · exact .inr rfl
      · split
        · exact .inl rfl
        · split
          · exact .inl rfl
          · exact .inr rfl

theorem handleNack_spec (h : s.Accessible nack.nackSn) :
    Ensures (fun _ => False) (fun r => Frame s r.1 ∧ (r.2 → s.txWindow.contains nack.nackSn))
      (s.handleNack nack) := by
  cases hok : s.handleNack nack with
  | error f =>
    obtain ⟨hle, hnone⟩ := (handleNack_cases s nack).of_error hok
    obtain ⟨info, hinfo⟩ := CircularMap.contains_iff.1 (h hle)
    exact nomatch hnone.symm.trans hinfo
  | ok r =>
    rcases (handleNack_cases s nack).of_ok hok with rfl | ⟨info, soStart, hinfo, rfl⟩
    · exact ⟨.refl s, nofun⟩
    · exact ⟨(scheduleRetx_spec s _ _ _ _).1.toFrame,
        fun _ => CircularMap.contains_iff.2 ⟨info, hinfo⟩⟩

theorem processNack_spec (h : s.Accessible nack.nackSn) (prev : Nat) :
    Ensures (fun _ => False) (fun r => Frame s r.1) (s.processNack prev nack) := by
  refine (handleNack_spec h).bind fun r ⟨hframe, hin⟩ => ?_
  refine .ite (fun hc => ?_) fun _ => hframe
  have hcontains : r.1.txWindow.contains nack.nackSn := by
    rw [hframe.contains]
    exact hin hc.1
  exact (incrementRetxCount_spec hcontains).bind fun s' hs' => hframe.trans hs'.1.toFrame

/-- The NACKs passed to `handle_nack` for an element of the list. -/
def Handles (cfg : Config) (nack item : StatusNack) : Prop :=
  if nack.hasNackRange then
    ∃ k < nack.nackRange, item = rangeItem cfg nack ((nack.nackSn + k) % cfg.mod)
  else item = nack

section Loop

variable {bad : Fault → Prop} {I : TxAm cfg → Prop}

theorem rangeLoop_ensures (ackSn : Nat)
    (hitem : ∀ k < nack.nackRange, ∀ (s : TxAm cfg) prev, I s → Ensures bad (fun r => I r.1)
      (s.processNack prev (rangeItem cfg nack ((nack.nackSn + k) % cfg.mod)))) (fuel : Nat)
    {i : Nat} (hi : i ≤ nack.nackRange) {r : TxAm cfg × Nat} (hr : I r.1) :
    Ensures bad (fun r => I r.1)
      (rangeLoop ackSn nack fuel ((nack.nackSn + i) % cfg.mod) r) := by
  induction fuel generalizing i r with
  | zero => exact hr
  | succ fuel ih =>
    refine .ite (fun _ => hr) fun hne => .ite (fun _ => hr) fun _ => ?_
    have hlt : i < nack.nackRange := by
      refine lt_of_le_of_ne hi fun h => hne ?_
      rw [h]
    refine (hitem i hlt r.1 r.2 hr).bind fun r' hr' => ?_
    have := ih (i := i + 1) hlt hr'
    rwa [← Nat.add_assoc, ← Nat.mod_add_mod] at this

/-- What every handled NACK keeps, the loop over the NACKs keeps. -/
theorem processNacks_ensures {nacks : List StatusNack} (ackSn : Nat)
    (hlt : ∀ nack ∈ nacks, nack.nackSn < cfg.mod)
    (hitem : ∀ nack ∈ nacks, ∀ item, Handles cfg nack item → ∀ (s : TxAm cfg) prev, I s →
      Ensures bad (fun r => I r.1) (s.processNack prev item))
    {r : TxAm cfg × Nat} (hr : I r.1) :
    Ensures bad (fun r => I r.1) (processNacks ackSn nacks r) := by
  induction nacks generalizing r with
  | nil => exact hr
  | cons nack nacks ih =>
    have hnack := hitem nack List.mem_cons_self
    have htail : ∀ r : TxAm cfg × Nat, I r.1 →
        Ensures bad (fun r => I r.1) (processNacks ackSn nacks r) := fun r' hr' =>
      ih (fun n hn => hlt n (List.mem_cons_of_mem _ hn))
        (fun n hn => hitem n (List.mem_cons_of_mem _ hn)) hr'
    refine .ite (fun hrange => .bind ?_ htail) fun hrange => .bind ?_ htail
    · have hloop := rangeLoop_ensures ackSn (fun k hk s prev =>
        hnack _ (by rw [Handles, if_pos hrange]; exact ⟨k, hk, rfl⟩) s prev) cfg.mod
        (Nat.zero_le _) hr
      rwa [Nat.add_zero, Nat.mod_eq_of_lt (hlt nack List.mem_cons_self)] at hloop
    · exact hnack nack (by rw [Handles, if_neg hrange]) r.1 r.2 hr

end Loop

/-! ## PDUs with new data -/

/-- The common end of `build_first_sdu_segment` and `build_continued_sdu_segment`: sends the next
`len` bytes of the SDU with SN `sn`. -/
def sendSegment (s : TxAm cfg) (sn : Nat) (info : SduInfo) (si : SiField) (len : Nat) :
    TxAm cfg × List UInt8 :=
  let r := s.getPollingBit s.txNext false len
  (r.1.modifySdu sn fun info => { info with nextSo := info.nextSo + len },
    writeDataPduHeader (cfg.dataHeader r.1.txNext r.2 si info.nextSo) ++
      (info.sdu.drop (info.nextSo % 2 ^ 16)).take len)

section Segment

variable (s : TxAm cfg) (sn : Nat) (info : SduInfo) (si : SiField) (len : Nat)

theorem seg_sendSegment :
    (s.sendSegment sn info si len).1.snUnderSegmentation = s.snUnderSegmentation :=
  (frame_getPollingBit s s.txNext false len).seg

theorem queue_sendSegment : (s.sendSegment sn info si len).1.sduQueue = s.sduQueue :=
  (frame_getPollingBit s s.txNext false len).queue

theorem retxQueue_sendSegment : (s.sendSegment sn info si len).1.retxQueue = s.retxQueue :=
  retxQueue_getPollingBit s s.txNext false len

end Segment

def sendLastSegment (s : TxAm cfg) (info : SduInfo) (len : Nat) : TxAm cfg × List UInt8 :=
  let r := ({ s with snUnderSegmentation := invalidRlcSn } : TxAm cfg).sendSegment
    s.snUnderSegmentation info .lastSegment len
  ({ r.1 with txNext := (r.1.txNext + 1) % cfg.mod }, r.2)

/-- What `build_continued_sdu_segment` yields for an SDU that was sent in part. -/
inductive Continued (s : TxAm cfg) (info : SduInfo) (grantLen : Nat) :
    TxAm cfg × List UInt8 → Prop
  | nothing (hgrant : grantLen ≤ cfg.headMaxSize) : Continued s info grantLen (s, [])
  | middle {len : Nat} (hlen : len + cfg.headMaxSize = grantLen) (hpos : 0 < len)
      (hend : info.nextSo + len < info.sdu.length) : Continued s info grantLen
        (s.sendSegment s.snUnderSegmentation info .middleSegment len)
  | last {len : Nat} (hlen : len + cfg.headMaxSize ≤ grantLen) (hpos : 0 < len)
      (hend : info.nextSo + len = info.sdu.length) :
        Continued s info grantLen (s.sendLastSegment info len)

theorem buildContinuedSduSegment_cases (hso : 0 < info.nextSo)
    (hlt : info.nextSo < info.sdu.length) (grantLen : Nat) :
    Continued s info grantLen (s.buildContinuedSduSegment grantLen info) := by
  unfold buildContinuedSduSegment
  rw [if_neg (by omega), if_neg (by omega)]
  by_cases hgrant : grantLen ≤ cfg.headMaxSize
  · rw [if_pos hgrant]
    exact .nothing hgrant
  rw [if_neg hgrant]
  by_cases hlast : info.sdu.length - info.nextSo + cfg.headMaxSize ≤ grantLen
  · have hpay := length_payload info.sdu info.nextSo (info.sdu.length - info.nextSo) (by omega)
    simp only [if_pos hlast, Config.dataHeader]
    rw [if_neg (by rw [hpay]; omega)]
    exact .last hlast (by omega) (by omega)
  · have hpay := length_payload info.sdu info.nextSo (grantLen - cfg.headMaxSize) (by omega)
    simp only [if_neg hlast, Config.dataHeader]
    rw [if_neg (by rw [hpay]; omega)]
    exact .middle (by omega) (by omega) (by omega)

theorem buildFirstSduSegment_eq {grantLen : Nat} (hgrant : cfg.headMinSize < grantLen)
    (hbig : grantLen < info.sdu.length + cfg.headMinSize) (hso : info.nextSo = 0) :
    s.buildFirstSduSegment grantLen info =
      ({ s with snUnderSegmentation := s.txNext } : TxAm cfg).sendSegment s.txNext info
        .firstSegment (grantLen - cfg.headMinSize) := by
  set len := grantLen - cfg.headMinSize with hlen
  set s₁ : TxAm cfg := { s with snUnderSegmentation := s.txNext } with hs₁
  have hs : s₁.txNext = s.txNext := rfl
  have hnext : (s₁.getPollingBit s.txNext false len).1.txNext = s.txNext :=
    (frame_getPollingBit s₁ s.txNext false len).next
  have hpay := length_payload info.sdu info.nextSo len (by omega)
  unfold buildFirstSduSegment
  rw [if_neg (by omega), if_neg (by omega)]
  simp only [← hs₁, ← hlen, Config.dataHeader, sendSegment, hs, hnext]
  rw [if_neg (by rw [hpay]; omega)]

/-- The entry of a new SDU in the TX window. -/
def newInfo (sdu : RlcSdu) : SduInfo :=
  { sdu := sdu.buf, isRetx := sdu.isRetx, pdcpSn := sdu.pdcpSn }

/-- A new SDU enters the TX window, and the upper layer is told. -/
def enterSdu (s : TxAm cfg) (queue : SduQueue.State) (sdu : RlcSdu) : TxAm cfg :=
  ({ s with
    sduQueue := queue
    txWindow := s.txWindow.overwrite s.txNext (newInfo sdu) } : TxAm cfg).notify
      (transferNotification sdu)

def sendSdu (s : TxAm cfg) (buf : List UInt8) : TxAm cfg × List UInt8 :=
  let r := s.getPollingBit s.txNext false 0
  ({ r.1 with txNext := (r.1.txNext + 1) % cfg.mod },
    writeDataPduHeader (cfg.dataHeader r.1.txNext r.2 .fullSdu 0) ++ buf)

/-- What `build_new_pdu` yields, if no queued SDU is empty. -/
inductive Fresh (s : TxAm cfg) (grantLen : Nat) : TxAm cfg × List UInt8 → Prop
  | nothing (h : grantLen ≤ cfg.headMinSize ∨ s.isTxWindowFull = true) : Fresh s grantLen (s, [])
  | noSdu {queue : SduQueue.State} (hread : SduQueue.read cfg.queue s.sduQueue = (queue, none)) :
      Fresh s grantLen ({ s with sduQueue := queue }, [])
  | segment {queue : SduQueue.State} {sdu : RlcSdu} {len : Nat}
      (hread : SduQueue.read cfg.queue s.sduQueue = (queue, some sdu))
      (hfull : s.isTxWindowFull = false) (hlen : len + cfg.headMinSize = grantLen) (hpos : 0 < len)
      (hend : len < sdu.buf.length) : Fresh s grantLen
        (({ s.enterSdu queue sdu with snUnderSegmentation := s.txNext } : TxAm cfg).sendSegment
          s.txNext (newInfo sdu) .firstSegment len)
  | whole {queue : SduQueue.State} {sdu : RlcSdu}
      (hread : SduQueue.read cfg.queue s.sduQueue = (queue, some sdu))
      (hfull : s.isTxWindowFull = false) (hfits : sdu.buf.length + cfg.headMinSize ≤ grantLen) :
        Fresh s grantLen ((s.enterSdu queue sdu).sendSdu sdu.buf)

theorem buildNewPdu_cases
    (hne : ∀ sdu, (SduQueue.read cfg.queue s.sduQueue).2 = some sdu → sdu.buf ≠ [])
    (grantLen : Nat) :
    Ensures (fun _ => s.txWindow.contains s.txNext = true ∧ s.isTxWindowFull = false)
      (Fresh s grantLen) (s.buildNewPdu grantLen) := by
  refine .ite (fun hgrant => .nothing (.inl hgrant)) fun hgrant =>
    .ite (fun hfull => .nothing (.inr hfull)) fun hfull => ?_
  have hfull : s.isTxWindowFull = false := Bool.eq_false_iff.2 hfull
  obtain ⟨⟨queue, sdu⟩, hread⟩ : ∃ r, SduQueue.read cfg.queue s.sduQueue = r := ⟨_, rfl⟩
  rw [hread] at hne
  simp only [hread]
  cases sdu with
  | none => exact .noSdu hread
  | some sdu =>
    have hlen : 0 < sdu.buf.length := List.length_pos_iff.2 (hne sdu rfl)
    refine .ite (fun hin => ⟨hin, hfull⟩) fun _ => .ite (fun hbig => ?_) fun hfits =>
      .ite (fun h0 => absurd h0 (Nat.ne_of_gt hlen)) fun _ =>
        .whole hread hfull (Nat.le_of_not_lt hfits)
    have hlen : grantLen - cfg.headMinSize + cfg.headMinSize = grantLen := by omega
    rw [buildFirstSduSegment_eq (by omega) hbig rfl]
    exact .segment hread hfull hlen (by omega) (by omega)

/-! ## The poll retransmit timer -/

/-- At most one retransmission is added: of the whole SDU with SN TX_NEXT_ACK. -/
theorem pollRetransmitTimerExpired_spec (s : TxAm cfg) :
    Ensures (fun _ => False) (fun s' => Quiet s s' ∧ (s'.retxQueue = s.retxQueue ∨
      (s.buffersEmpty ∨ s.isTxWindowFull) ∧ ∃ info, s.txWindow.get? s.txNextAck = some info ∧
        s'.retxQueue = s.retxQueue ++ [⟨s.txNextAck, 0, info.sdu.length⟩]))
      s.pollRetransmitTimerExpired := by
  refine .ite (fun _ => ⟨{}, .inl rfl⟩) fun _ => .ite
    (fun hc => .ite (fun _ => ⟨{}, .inl rfl⟩) fun _ => ?_)
    fun _ => ⟨{}, .inl rfl⟩
  split
  · exact ⟨{}, .inl rfl⟩
  · next info hinfo =>
    refine .ite (fun _ => ?_) fun _ => ⟨{}, .inl rfl⟩
    set s₁ : TxAm cfg := { s with
      pollRetransmitTimer := false
      retxQueue := s.retxQueue ++ [⟨s.txNextAck, 0, info.sdu.length⟩] } with hs₁
    have hin : s₁.txWindow.contains s.txNextAck := CircularMap.contains_iff.2 ⟨info, hinfo⟩
    have hs : Quiet s s₁ := {}
    refine (incrementRetxCount_spec hin).map fun s₂ h₂ => ⟨?_, .inr ⟨?_, info, hinfo, h₂.2⟩⟩
    · exact (hs.trans h₂.1).trans {}
    · exact (Bool.or_eq_true _ _).mp hc

end RadioStack.Rlc.TxAm
