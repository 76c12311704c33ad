import RadioStack.Mac.DlSchAssembly

/-!
# What a MAC PDU owes to earlier ones

`MIN_MAC_SDU_SIZE` in `assemble_sdus` is a static variable: the first logical channel that is ever
assembled decides for the whole process whether room for an RLC header is asked for. The buffer of
the HARQ process still holds the bytes of an earlier block.

**Theorem (`assembly_historyFree_iff`).** All blocks are the same after two histories iff neither of
them has assembled an SDU, or both have and their first SDUs are both on SRB0 or both not. What the
buffer held never matters: two assemblies that agree on what is written stay so (`Alike`).
-/

namespace RadioStack.Mac

open RadioStack.Bytes DlSchPdu

/-! ## Histories -/

/-- The static variable after a scheduled subPDU. -/
def staticStep (first : Option RbLcid) : DlMsgLcInfo → Option RbLcid
  | .sdu lcid _ => some (first.getD lcid)
  | .ueConResId | .taCmd _ => first

/-- The static variable after the PDUs assembled since the start of the process, each given by its
`lc_chs_to_sched`. -/
def staticAfter (history : List (List DlMsgLcInfo)) : Option RbLcid :=
  history.flatten.foldl staticStep none

/-- RLC bearers whose answer to an opportunity depends on its size and not on what the buffer
held. -/
structure Responses (σ : Type) where
  sdu : σ → RbLcid → Nat → List UInt8 × σ
  length_le : ∀ s lcid n, (sdu s lcid n).1.length ≤ n

def Responses.tx {σ : Type} (r : Responses σ) : RlcTx σ where
  onNewTxSdu s lcid buffer :=
    let (sdu, s) := r.sdu s lcid buffer.length
    (sdu.length, sdu ++ buffer.drop sdu.length, s)
  length_le s lcid buffer := r.length_le s lcid buffer.length
  length_buffer s lcid buffer := by
    rw [List.length_append, List.length_drop]
    exact Nat.add_sub_cancel' (r.length_le s lcid buffer.length)

theorem Responses.onNewTxSdu_eq {σ : Type} (r : Responses σ) (s : σ) (lcid : RbLcid)
    (buffer : List UInt8) : r.tx.onNewTxSdu s lcid buffer =
      ((r.sdu s lcid buffer.length).1.length, (r.sdu s lcid buffer.length).1 ++
        buffer.drop (r.sdu s lcid buffer.length).1.length, (r.sdu s lcid buffer.length).2) := rfl

/-- The bytes of a block, in a process that has the history. -/
def assembledAfter {σ : Type} (history : List (List DlMsgLcInfo)) (r : Responses σ) (rlc : σ)
    (ue : Option MacDlUe) (subpdus : List DlMsgLcInfo) (tb : Nat) :
    Except DlSchFault (List UInt8) :=
  (assembleNewtxPdu r.tx rlc (staticAfter history) ue subpdus tb).map Prod.fst

/-- The same UE, whose buffer may hold other bytes. -/
def SameUe (ue ue' : Option MacDlUe) : Prop :=
  ue.map (fun u => (u.conResId, u.harqBuffer.length)) =
    ue'.map fun u => (u.conResId, u.harqBuffer.length)

section

local instance neZeroLcid : NeZero 33 := ⟨by decide⟩

/-- `MIN_MAC_SDU_SIZE` is the same: both variables are not set, or both by SRB0, or both not. -/
def SameMin (first first' : Option RbLcid) : Prop := first.map (· == 0) = first'.map (· == 0)

end

theorem SameMin.getD {first first' : Option RbLcid} (h : SameMin first first') (lcid : RbLcid) :
    first.getD lcid = 0 ↔ first'.getD lcid = 0 := by
  cases first <;> cases first' <;> simp_all [SameMin]

theorem sameMin_of_getD {first first' : Option RbLcid} (h₀ : first.getD 0 = 0 ↔ first'.getD 0 = 0)
    (h₁ : first.getD 1 = 0 ↔ first'.getD 1 = 0) : SameMin first first' := by
  cases first <;> cases first' <;> simp_all [SameMin]

/-! ## Two assemblies -/

section

variable {σ : Type} {tb : Nat}

/-- The same bytes are written in both buffers. -/
def Alike (tb : Nat) (p q : DlSchPdu) : Prop := ∃ done, Written tb done p ∧ Written tb done q

theorem Alike.put {p q : DlSchPdu} (h : Alike tb p q) (bytes : List UInt8) :
    Agree (Alike tb) (p.put bytes) (q.put bytes) := by
  obtain ⟨done, hp, hq⟩ := h
  by_cases hfit : done.length + bytes.length ≤ tb
  · obtain ⟨p', hp', hwp⟩ := (hp.put bytes hfit).exists_ok
    obtain ⟨q', hq', hwq⟩ := (hq.put bytes hfit).exists_ok
    rw [hp', hq']
    exact ⟨_, hwp, hwq⟩
  · rw [DlSchPdu.put, DlSchPdu.put, hp.byteOffset, hq.byteOffset, hp.length_pdu, hq.length_pdu,
      if_neg hfit, if_neg hfit]
    rfl

/-- Assemblies that go on in the same way. -/
structure Twins (tb : Nat) (st st' : Assembly σ) : Prop where
  pdu : Alike tb st.pdu st'.pdu
  rlc : st.rlc = st'.rlc
  min : SameMin st.firstLcid st'.firstLcid

variable (r : Responses σ)

theorem Twins.pullSdus {min : Nat} (hmin : 3 ≤ min) (lcid : RbLcid) (remBytes : Nat)
    {st st' : Assembly σ} (h : Twins tb st st') (hrem : st.pdu.byteOffset + remBytes ≤ tb) :
    Agree (fun a b => Twins tb a b ∧ a.firstLcid = st.firstLcid)
      (st.pullSdus r.tx min lcid remBytes) (st'.pullSdus r.tx min lcid remBytes) := by
  induction remBytes using Nat.strongRecOn generalizing st st' with
  | ind remBytes ih =>
    obtain ⟨⟨done, hw, hw'⟩, hrlc, hstatic⟩ := h
    rw [hw.byteOffset] at hrem
    have hsame : st'.pdu.getSduEncoder lcid (getMacSduPayloadSize remBytes) =
        st.pdu.getSduEncoder lcid (getMacSduPayloadSize remBytes) := by
      simp [getSduEncoder, hw.nofEmptyBytes, hw'.nofEmptyBytes]
    rw [Assembly.pullSdus, Assembly.pullSdus, hsame]
    by_cases hlt : remBytes < min
    · rw [if_pos hlt, if_pos hlt]
      exact ⟨⟨⟨done, hw, hw'⟩, hrlc, hstatic⟩, rfl⟩
    rw [if_neg hlt, if_neg hlt]
    cases henc : st.pdu.getSduEncoder lcid (getMacSduPayloadSize remBytes) with
    | none => exact ⟨⟨⟨done, hw, hw'⟩, hrlc, hstatic⟩, rfl⟩
    | some enc =>
      have hthree : 3 ≤ remBytes := by omega
      obtain ⟨rfl, hsubhr, hmax⟩ := Assembly.getSduEncoder_spec hw hthree hrem henc
      have hle : getMacSduRequiredBytes enc.maxSduSize ≤ remBytes :=
        hmax ▸ (getMacSduRequiredBytes_payload hthree).1
      have hfit := Nat.le_trans (Nat.add_le_add_left hle _) hrem
      obtain ⟨buf, pdu, hbuf, hpull⟩ := Assembly.pullSdu_eq r.tx hw hsubhr hfit
      obtain ⟨buf', pdu', hbuf', hpull'⟩ := Assembly.pullSdu_eq r.tx hw' hsubhr hfit
      -- RLC sees only the size of the opportunity
      rw [r.onNewTxSdu_eq, hbuf, hrlc] at hpull
      rw [r.onNewTxSdu_eq, hbuf'] at hpull'
      have hsdu := r.length_le st'.rlc enc.lcid enc.maxSduSize
      generalize r.sdu st'.rlc enc.lcid enc.maxSduSize = answer at hpull hpull' hsdu
      obtain ⟨sdu, rlc⟩ := answer
      cases sdu with
      | nil =>
        simp only [hpull.1, hpull'.1, if_true]
        exact ⟨⟨⟨done, hpull.2, hpull'.2⟩, rfl, hstatic⟩, rfl⟩
      | cons x xs =>
        simp only [List.length_cons, List.take_left' (List.length_cons ..)] at hpull hpull' hsdu
        have hpos : 3 ≤ getMacSduRequiredBytes (xs.length + 1) :=
          three_le_getMacSduRequiredBytes (Nat.succ_ne_zero _)
        have hmono := getMacSduRequiredBytes_mono hsdu
        simp only [hpull.1, hpull'.1,
          if_neg (show ¬ getMacSduRequiredBytes (xs.length + 1) = 0 by omega),
          if_neg (show ¬ remBytes < getMacSduRequiredBytes (xs.length + 1) by omega)]
        refine ih (remBytes - getMacSduRequiredBytes (xs.length + 1)) (by omega) ?_ ?_
        · exact ⟨⟨_, hpull.2, hpull'.2⟩, rfl, hstatic⟩
        · rw [hpull.2.byteOffset, List.length_append, length_wire_ofSdu]
          · simp only [List.length_cons]
            omega
          · exact Nat.succ_pos _

theorem Twins.assembleSubpdu {conResId : List UInt8} {st st' : Assembly σ} (h : Twins tb st st')
    (x : DlMsgLcInfo) : Agree (fun a b => Twins tb a b ∧ a.firstLcid = staticStep st.firstLcid x)
      (st.assembleSubpdu r.tx conResId x) (st'.assembleSubpdu r.tx conResId x) := by
  cases x with
  | sdu lcid n =>
    obtain ⟨done, hw, hw'⟩ := h.pdu
    have hmin := h.min.getD lcid
    have hle := hw.length_le
    simp only [Assembly.assembleSubpdu, Assembly.assembleSdus, hw.nofEmptyBytes, hw'.nofEmptyBytes,
      ne_eq, hmin]
    refine Twins.pullSdus r (Nat.le_add_right ..) lcid _ ⟨h.pdu, h.rlc, ?_⟩ ?_
    · simp [SameMin, hmin]
    show st.pdu.byteOffset + _ ≤ tb
    rw [hw.byteOffset]
    omega
  | ueConResId =>
    refine ((h.pdu.put _).bind fun _ _ hpq => hpq.put conResId).bind fun _ _ hpq => ?_
    exact ⟨⟨hpq, h.rlc, h.min⟩, rfl⟩
  | taCmd ce =>
    refine ((h.pdu.put _).bind fun _ _ hpq => hpq.put _).bind fun _ _ hpq => ?_
    exact ⟨⟨hpq, h.rlc, h.min⟩, rfl⟩

/-- The list: the static variable is set by the first SDU of all. -/
theorem Twins.foldlM {conResId : List UInt8} (subpdus : List DlMsgLcInfo) {st st' : Assembly σ}
    (h : Twins tb st st') :
    Agree (fun a b => Twins tb a b ∧ a.firstLcid = subpdus.foldl staticStep st.firstLcid)
      (subpdus.foldlM (Assembly.assembleSubpdu r.tx conResId) st)
      (subpdus.foldlM (Assembly.assembleSubpdu r.tx conResId) st') := by
  induction subpdus generalizing st st' with
  | nil => exact ⟨h, rfl⟩
  | cons x subpdus ih =>
    refine (h.assembleSubpdu r x).bind fun a b ht => ?_
    rw [List.foldl_cons, ← ht.2]
    exact ih ht.1

theorem Alike.take_eq {p q : DlSchPdu} (h : Alike tb p q) :
    p.pdu.take p.byteOffset = q.pdu.take q.byteOffset := by
  obtain ⟨done, hp, hq⟩ := h
  obtain ⟨rest, hrest⟩ := hp.front
  obtain ⟨rest', hrest'⟩ := hq.front
  rw [hp.byteOffset, hq.byteOffset, hrest, hrest', List.take_left, List.take_left]

theorem assembleNewtxPdu_twins {first first' : Option RbLcid} (hmin : SameMin first first')
    {ue ue' : Option MacDlUe} (hue : SameUe ue ue') (rlc : σ) (subpdus : List DlMsgLcInfo) :
    (assembleNewtxPdu r.tx rlc first ue subpdus tb).map Prod.fst =
      (assembleNewtxPdu r.tx rlc first' ue' subpdus tb).map Prod.fst := by
  rcases ue with _ | ue <;> rcases ue' with _ | ue'
  · rfl
  · cases hue
  · cases hue
  · obtain ⟨hid, hlength⟩ := Prod.mk.inj (Option.some.inj hue)
    simp only [assembleNewtxPdu, hid, hlength]
    by_cases hshort : ue'.harqBuffer.length < tb
    · rw [if_pos hshort, if_pos hshort]
    rw [if_neg hshort, if_neg hshort]
    have hstart : ∀ buffer : List UInt8, ¬ buffer.length < tb →
        Written tb [] ⟨buffer.take tb, 0⟩ := fun buffer hb =>
      ⟨List.length_take_of_le (Nat.not_lt.1 hb), rfl, _, rfl⟩
    refine Agree.map_eq (R := fun a b => a.1 = b.1) ?_ fun _ _ h => h
    have htwins : Twins tb (⟨⟨ue.harqBuffer.take tb, 0⟩, rlc, first, []⟩ : Assembly σ)
        ⟨⟨ue'.harqBuffer.take tb, 0⟩, rlc, first', []⟩ :=
      ⟨⟨[], hstart _ (hlength ▸ hshort), hstart _ hshort⟩, rfl, hmin⟩
    refine (htwins.foldlM r subpdus).bind fun st st' hst => ?_
    have h := hst.1
    obtain ⟨done, hw, hw'⟩ := h.pdu
    rw [hw.byteOffset, hw'.byteOffset]
    by_cases hroom : done.length < tb
    · rw [if_pos hroom, if_pos hroom]
      exact ((h.pdu.put _).bind fun _ _ hpq => hpq.put _).bind fun _ _ hpq => hpq.take_eq
    · have hle := hw.length_le
      rw [if_neg hroom, if_neg hroom, if_neg (by omega), if_neg (by omega)]
      show st.pdu.pdu.take done.length = st'.pdu.pdu.take done.length
      have htake := h.pdu.take_eq
      rwa [hw.byteOffset, hw'.byteOffset] at htake

end

/-! ## One byte -/

/-- RLC bearers with an SDU of one byte for every opportunity. -/
def oneByte : Responses Unit where
  sdu _ _ n := ([7].take n, ())
  length_le _ _ n := List.length_take_le n _

/-- A block for one such SDU of SRB0 or SRB1. -/
theorem assembled_oneByte (first : Option RbLcid) {lcid : RbLcid} (hlcid : lcid = 0 ∨ lcid = 1) :
    (assembleNewtxPdu oneByte.tx () first (some smallUe) [.sdu lcid 1] 8).map Prod.fst =
      .ok (if first.getD lcid = 0 then [UInt8.ofNat lcid, 1, 7, 63, 0, 0, 0, 0]
        else [63, 0, 0, 0, 0, 0, 0, 0]) := by
  rw [assembleNewtxPdu, if_neg (by decide), List.foldlM_cons]
  generalize hst : (⟨⟨smallUe.harqBuffer.take 8, 0⟩, (), first, []⟩ : Assembly Unit) = st
  have hsdus : st.assembleSubpdu oneByte.tx smallUe.conResId (.sdu lcid 1) =
      st.assembleSdus oneByte.tx lcid 1 := rfl
  rw [hsdus, ← hst, Assembly.assembleSdus, Assembly.pullSdus]
  by_cases hzero : first.getD lcid = 0
  · have hpull : Assembly.pullSdu oneByte.tx ⟨⟨smallUe.harqBuffer.take 8, 0⟩, (), some 0, []⟩
        ⟨lcid, 2, 1⟩ = .ok (3, ⟨⟨[UInt8.ofNat lcid, 1, 7, 0, 0, 0, 0, 0], 3⟩, (), some 0,
          [(lcid, [7])]⟩) := by
      rcases hlcid with rfl | rfl <;> with_unfolding_all rfl
    have henc : getSduEncoder ⟨smallUe.harqBuffer.take 8, 0⟩ lcid (getMacSduPayloadSize
        (min (getMacSduRequiredBytes 1) (nofEmptyBytes ⟨smallUe.harqBuffer.take 8, 0⟩))) =
          some ⟨lcid, 2, 1⟩ := by
      rcases hlcid with rfl | rfl <;> rfl
    simp only [hzero, henc, hpull]
    rw [if_neg (by decide), if_neg (by decide), if_neg (by decide), Assembly.pullSdus,
      if_pos (by decide)]
    rfl
  · simp only [if_pos hzero, if_neg hzero]
    rfl

/-- **History**: all blocks are the same after two histories iff the static variable is. -/
theorem assembly_historyFree_iff (h₁ h₂ : List (List DlMsgLcInfo)) :
    (∀ (σ : Type) (r : Responses σ) (rlc : σ) (ue ue' : Option MacDlUe)
      (subpdus : List DlMsgLcInfo) (tb : Nat), SameUe ue ue' →
        assembledAfter h₁ r rlc ue subpdus tb = assembledAfter h₂ r rlc ue' subpdus tb) ↔
      SameMin (staticAfter h₁) (staticAfter h₂) := by
  constructor
  · intro h
    have hone : ∀ {lcid : RbLcid}, lcid = 0 ∨ lcid = 1 →
        ((staticAfter h₁).getD lcid = 0 ↔ (staticAfter h₂).getD lcid = 0) := by
      intro lcid hlcid
      have heq := h Unit oneByte () (some smallUe) (some smallUe) [.sdu lcid 1] 8 rfl
      rw [assembledAfter, assembledAfter, assembled_oneByte _ hlcid,
        assembled_oneByte _ hlcid] at heq
      by_cases h : (staticAfter h₁).getD lcid = 0 <;> simp_all
    exact sameMin_of_getD (hone (.inl rfl)) (hone (.inr rfl))
  · intro hmin σ r rlc ue ue' subpdus tb hue
    exact assembleNewtxPdu_twins r hmin hue rlc subpdus

/-- An SDU of one byte on SRB0 is sent in a new process, and not after a PDU of another UE that
carried SRB1. -/
theorem assembly_depends_on_history :
    assembledAfter [] oneByte () (some smallUe) [.sdu 0 1] 8 = .ok [0, 1, 7, 63, 0, 0, 0, 0] ∧
      assembledAfter [[.sdu 1 10]] oneByte () (some smallUe) [.sdu 0 1] 8 =
        .ok [63, 0, 0, 0, 0, 0, 0, 0] :=
  ⟨assembled_oneByte none (.inl rfl), assembled_oneByte (some 1) (.inl rfl)⟩

end RadioStack.Mac
