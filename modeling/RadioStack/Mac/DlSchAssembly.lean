import RadioStack.Mac.DlSchPdu

/-!
# The scheduled list and the assembled PDU

**Theorem (`assembly_agrees_iff`).** What the scheduler lists fits in the block. The assembled PDU
has the size of the block and the UE reads the scheduled control elements, the SDUs that were pulled
and at most one padding subPDU, iff the UE has a buffer for the block, the scheduled timing advance
commands are for the TAG 0 and no SDU has more than 65535 bytes.

The invariant of the assembly is `Written`: the buffer starts with the bytes of the subPDUs so far.
The rest of the buffer is what RLC or an earlier block left there.
-/

namespace RadioStack.Mac

open RadioStack.Bytes RadioStack.Framing

/-! ## Writing -/

/-- The buffer has `tb` bytes and `done` stands at its front. -/
structure Written (tb : Nat) (done : List UInt8) (p : DlSchPdu) : Prop where
  length_pdu : p.pdu.length = tb
  byteOffset : p.byteOffset = done.length
  front : ∃ rest, p.pdu = done ++ rest

/-- No fault, and a result with the property. -/
abbrev Yields {α : Type} (post : α → Prop) (x : Except DlSchFault α) : Prop :=
  Ensures (fun _ => False) post x

theorem ok_bind {α β : Type} (a : α) (f : α → Except DlSchFault β) :
    (Except.ok a >>= f) = f a := rfl

theorem length_splice {mem block : List UInt8} {pos : Nat} (h : pos + block.length ≤ mem.length) :
    (splice mem pos block).length = mem.length := by
  simp only [splice, List.length_append, List.length_take, List.length_drop]
  omega

namespace Written

variable {tb : Nat} {done : List UInt8} {p : DlSchPdu}

section

variable (h : Written tb done p)

include h

theorem length_le : done.length ≤ tb := by
  obtain ⟨rest, hrest⟩ := h.front
  rw [← h.length_pdu, hrest, List.length_append]
  exact Nat.le_add_right ..

theorem nofEmptyBytes : p.nofEmptyBytes = tb - done.length := by
  rw [DlSchPdu.nofEmptyBytes, h.length_pdu, h.byteOffset]

theorem put (bytes : List UInt8) (hfit : done.length + bytes.length ≤ tb) :
    Yields (Written tb (done ++ bytes)) (p.put bytes) := by
  obtain ⟨rest, hrest⟩ := h.front
  have hfit' : p.byteOffset + bytes.length ≤ p.pdu.length := by
    rwa [h.byteOffset, h.length_pdu]
  rw [DlSchPdu.put, if_pos hfit']
  refine ⟨?_, ?_, rest.drop bytes.length, ?_⟩
  · rw [length_splice hfit', h.length_pdu]
  · rw [List.length_append, h.byteOffset]
  · rw [hrest, splice_append done rest bytes h.byteOffset.symm]

/-- The bytes behind those that are written may change. -/
theorem splice_behind (n : Nat) {block : List UInt8}
    (hfit : done.length + n + block.length ≤ tb) :
    Written tb done { p with pdu := splice p.pdu (p.byteOffset + n) block } := by
  obtain ⟨rest, hrest⟩ := h.front
  refine ⟨?_, h.byteOffset, ?_⟩
  · rw [length_splice (by rwa [h.byteOffset, h.length_pdu]), h.length_pdu]
  · refine ⟨(rest.take n ++ block) ++ p.pdu.drop (p.byteOffset + n + block.length), ?_⟩
    show splice p.pdu (p.byteOffset + n) block = _
    rw [splice, hrest, h.byteOffset, List.take_append, List.take_of_length_le (Nat.le_add_right ..)]
    simp

theorem putSubpdu (subheader : UInt8) {payload : List UInt8}
    (hfit : done.length + (payload.length + 1) ≤ tb) :
    Yields (Written tb (done ++ subheader :: payload))
      (p.put [subheader] >>= fun p => p.put payload) := by
  refine Ensures.bind (h.put [_] ?_) fun p' h' => ?_
  · exact Nat.le_trans (Nat.add_le_add_left (Nat.le_add_left 1 _) _) hfit
  · refine (h'.put _ ?_).mono fun q hq => ?_
    · rw [List.length_append, List.length_singleton]
      omega
    · rwa [List.append_assoc] at hq

theorem addUeConResId {id : List UInt8} (hid : id.length = 6)
    (hfit : done.length + 7 ≤ tb) :
    Yields (Written tb (done ++ (DlSubPdu.ueConResId id).wire)) (p.addUeConResId id) :=
  h.putSubpdu _ (by rwa [hid])

theorem addTagCmd (ce : TaCmdCePayload) (hfit : done.length + 2 ≤ tb) :
    Yields (Written tb (done ++ (DlSubPdu.taCmd ce.tagId ce.taCmd).wire)) (p.addTagCmd ce) :=
  h.putSubpdu _ hfit

theorem addPadding {n : Nat} (hfit : done.length + (n + 1) = tb) :
    Yields (Written tb (done ++ (DlSubPdu.padding n).wire)) (p.addPadding (n + 1)) :=
  h.putSubpdu _ (by rw [List.length_replicate]; exact hfit.le)

end

end Written

/-! ## An SDU -/

section

variable {tb : Nat} {done a sdu b : List UInt8} {p : DlSchPdu}

theorem encodeSubheader_sdu (hlen : p.pdu.length = tb) (hoff : p.byteOffset = done.length)
    (hpdu : p.pdu = done ++ (a ++ (sdu ++ b))) (hpos : 0 < sdu.length) (lcid : RbLcid)
    (ha : a.length = getMacSduSubheaderSize sdu.length) :
    Yields (fun q => Written tb (done ++ (DlSubPdu.ofSdu (lcid, sdu)).wire)
        { q with byteOffset := q.byteOffset + sdu.length })
      (p.encodeSubheader (minMacSduSubheaderSize < getMacSduSubheaderSize sdu.length) lcid
        (getMacSduSubheaderSize sdu.length) sdu.length) := by
  have hput : ∀ hdr : List UInt8, hdr.length = a.length →
      (DlSubPdu.ofSdu (lcid, sdu)).wire = hdr ++ sdu →
      Yields (fun q => Written tb (done ++ (DlSubPdu.ofSdu (lcid, sdu)).wire)
        { q with byteOffset := q.byteOffset + sdu.length }) (p.put hdr) := by
    intro hdr hhdr hwire
    have hfit : p.byteOffset + hdr.length ≤ p.pdu.length := by
      rw [hpdu, hoff, hhdr]
      simp
    rw [DlSchPdu.put, if_pos hfit]
    refine ⟨?_, ?_, b, ?_⟩
    · rw [length_splice hfit, hlen]
    · rw [hwire, List.length_append, List.length_append, hoff, Nat.add_assoc]
    · show splice p.pdu p.byteOffset hdr = _
      rw [hpdu, splice_append done _ hdr hoff.symm, hhdr, List.drop_left, hwire]
      simp
  rcases getMacSduSubheaderSize_cases sdu.length with h | h | h
  · omega
  · rw [h.2.2] at ha ⊢
    refine hput [_, _] ha.symm ?_
    rw [DlSubPdu.ofSdu, decide_eq_false (Nat.not_le.2 h.2.1)]
    rfl
  · rw [h.2] at ha ⊢
    refine hput [_, _, _] ha.symm ?_
    rw [DlSubPdu.ofSdu, decide_eq_true h.1]
    rfl

end

theorem length_wire_ofSdu (lcid : RbLcid) {sdu : List UInt8} (hpos : 0 < sdu.length) :
    (DlSubPdu.ofSdu (lcid, sdu)).wire.length = getMacSduRequiredBytes sdu.length := by
  rw [getMacSduRequiredBytes, DlSubPdu.ofSdu]
  rcases getMacSduSubheaderSize_cases sdu.length with h | h | h
  · omega
  · rw [h.2.2, decide_eq_false (Nat.not_le.2 h.2.1)]
    rfl
  · rw [h.2, decide_eq_true h.1]
    rfl

variable {conResId : List UInt8}

namespace Assembly

open DlSchPdu

variable {tb : Nat} {done a w b : List UInt8} {p : DlSchPdu} {enc : MacSduEncoder}

/-- `encode_sdu` after RLC wrote `w` and returned `len`. -/
theorem encodeSdu_spec (hlen : p.pdu.length = tb) (hoff : p.byteOffset = done.length)
    (hpdu : p.pdu = done ++ (a ++ (w ++ b))) (ha : a.length = enc.subhrLen)
    (hsubhr : enc.subhrLen = getMacSduSubheaderSize enc.maxSduSize) (hw : w.length = enc.maxSduSize)
    {len : Nat} (hpos : 0 < len) (hmax : len ≤ enc.maxSduSize) :
    Yields (fun r => r.1 = getMacSduRequiredBytes len ∧
        Written tb (done ++ (DlSubPdu.ofSdu (enc.lcid, w.take len)).wire) r.2)
      (p.encodeSdu enc len) := by
  have hsdu : (w.take len).length = len := by rw [List.length_take, hw, Nat.min_eq_left hmax]
  rw [encodeSdu, if_neg (by omega)]
  by_cases hsame : getMacSduSubheaderSize len = enc.subhrLen
  · rw [if_neg (not_not_intro hsame)]
    have hpdu' : p.pdu = done ++ (a ++ (w.take len ++ (w.drop len ++ b))) := by
      rw [← List.append_assoc (w.take len), List.take_append_drop, hpdu]
    have henc := encodeSubheader_sdu hlen hoff hpdu' (by omega) enc.lcid (by rw [hsdu, ha, hsame])
    rw [hsdu, hsame] at henc
    rw [pure_bind]
    refine Ensures.bind henc fun q hq => ⟨?_, hq⟩
    rw [getMacSduRequiredBytes, hsame, Nat.add_comm]
  · -- the long subheader was foreseen and the short one suffices
    have hshort : getMacSduSubheaderSize len = 2 ∧ enc.subhrLen = 3 := by
      rcases getMacSduSubheaderSize_cases len with h | h | h <;>
        rcases getMacSduSubheaderSize_cases enc.maxSduSize with h' | h' | h' <;> omega
    obtain ⟨a₀, a₁, a₂, rfl⟩ := List.length_eq_three.1 (ha.trans hshort.2)
    have hfit : p.byteOffset + minMacSduSubheaderSize + 1 + len ≤ p.pdu.length := by
      rw [hpdu, hoff, minMacSduSubheaderSize]
      simp only [List.length_append, List.length_cons, List.length_nil, hw]
      omega
    have hmoved : (p.pdu.drop (p.byteOffset + minMacSduSubheaderSize + 1)).take len =
        w.take len := by
      rw [hpdu, hoff, minMacSduSubheaderSize, Nat.add_assoc, ← List.drop_drop, List.drop_left]
      simp [List.take_append_of_le_length (hw ▸ hmax)]
    rw [if_pos hsame, shiftSdu, if_pos hfit, hmoved]
    have hpdu' : splice p.pdu (p.byteOffset + minMacSduSubheaderSize) (w.take len) =
        done ++ ([a₀, a₁] ++ (w.take len ++ ([a₂] ++ (w ++ b)).drop len)) := by
      have hsplit : p.pdu = (done ++ [a₀, a₁]) ++ ([a₂] ++ (w ++ b)) := by simp [hpdu]
      rw [hsplit, splice_append (done ++ [a₀, a₁]) _ _ (by simp [hoff, minMacSduSubheaderSize]),
        hsdu]
      simp
    have hlen' :
        (splice p.pdu (p.byteOffset + minMacSduSubheaderSize) (w.take len)).length = tb := by
      rw [length_splice (by rw [hsdu]; omega), hlen]
    have henc := encodeSubheader_sdu
      (p := { p with pdu := splice p.pdu (p.byteOffset + minMacSduSubheaderSize) (w.take len) })
      hlen' hoff hpdu' (by omega) enc.lcid (by rw [hsdu, hshort.1]; rfl)
    rw [hsdu, hshort.1] at henc
    rw [ok_bind, pure_bind]
    refine Ensures.bind henc fun q hq => ⟨?_, hq⟩
    rw [getMacSduRequiredBytes, hshort.1, Nat.add_comm]
    rfl

variable {σ : Type} (tx : RlcTx σ)

/-- The state after one more SDU, or the one before. -/
def Pulled (tb : Nat) (done : List UInt8) (lcid : RbLcid) (limit : Nat) (st : Assembly σ)
    (r : Nat × Assembly σ) : Prop :=
  (r.1 = 0 ∧ Written tb done r.2.pdu ∧ r.2.pulled = st.pulled) ∨
    ∃ sdu, r.1 = getMacSduRequiredBytes sdu.length ∧ 0 < sdu.length ∧ r.1 ≤ limit ∧
      Written tb (done ++ (DlSubPdu.ofSdu (lcid, sdu)).wire) r.2.pdu ∧
      r.2.pulled = st.pulled ++ [(lcid, sdu)]

variable {st : Assembly σ}

/-- What RLC writes for an opportunity becomes a subPDU; if it writes nothing, none does. -/
theorem pullSdu_eq (h : Written tb done st.pdu)
    (hsubhr : enc.subhrLen = getMacSduSubheaderSize enc.maxSduSize)
    (hfit : done.length + getMacSduRequiredBytes enc.maxSduSize ≤ tb) :
    ∃ buf pdu, buf.length = enc.maxSduSize ∧
      match tx.onNewTxSdu st.rlc enc.lcid buf with
      | (0, _, rlc) => st.pullSdu tx enc = .ok (0, { st with pdu, rlc }) ∧ Written tb done pdu
      | (len, w, rlc) => st.pullSdu tx enc = .ok (getMacSduRequiredBytes len,
          { st with pdu, rlc, pulled := st.pulled ++ [(enc.lcid, w.take len)] }) ∧
        Written tb (done ++ (DlSubPdu.ofSdu (enc.lcid, w.take len)).wire) pdu := by
  have hfit' : done.length + enc.subhrLen + enc.maxSduSize ≤ tb := by
    rw [getMacSduRequiredBytes, ← hsubhr] at hfit
    omega
  rw [pullSdu, sduBuffer, if_pos (by rwa [h.byteOffset, h.length_pdu]), ok_bind]
  generalize hbuf : (st.pdu.pdu.drop (st.pdu.byteOffset + enc.subhrLen)).take enc.maxSduSize = buf
  have hbuflen : buf.length = enc.maxSduSize := by
    rw [← hbuf, List.length_take, List.length_drop, h.length_pdu, h.byteOffset]
    omega
  have hle := tx.length_le st.rlc enc.lcid buf
  have hw := tx.length_buffer st.rlc enc.lcid buf
  rw [hbuflen] at hle hw
  refine ⟨buf, ?_⟩
  generalize tx.onNewTxSdu st.rlc enc.lcid buf = r at hle hw
  obtain ⟨len, w, rlc⟩ := r
  have hbehind := h.splice_behind enc.subhrLen (hw.symm ▸ hfit')
  cases len with
  | zero => exact ⟨_, hbuflen, rfl, hbehind⟩
  | succ len =>
    obtain ⟨rest, hrest⟩ := h.front
    have hrestlen : done.length + rest.length = tb := by
      rw [← h.length_pdu, hrest, List.length_append]
    have hpdu : splice st.pdu.pdu (st.pdu.byteOffset + enc.subhrLen) w =
        done ++ (rest.take enc.subhrLen ++ (w ++ rest.drop (enc.subhrLen + enc.maxSduSize))) := by
      rw [splice, hrest, h.byteOffset, List.take_length_add_append, Nat.add_assoc,
        List.drop_length_add_append, hw]
      simp
    have henc := encodeSdu_spec hbehind.length_pdu hbehind.byteOffset hpdu
      (by rw [List.length_take]; omega) hsubhr hw (Nat.succ_pos len) hle
    have hpos := three_le_getMacSduRequiredBytes (Nat.succ_ne_zero len)
    obtain ⟨⟨n, pdu⟩, hok, hn, hwritten⟩ := henc.exists_ok
    subst hn
    refine ⟨pdu, hbuflen, ?_, hwritten⟩
    simp only [Nat.succ_ne_zero, if_false, hok, ok_bind]
    rw [if_neg (by omega)]
    rfl

theorem pullSdu_spec (h : Written tb done st.pdu)
    (hsubhr : enc.subhrLen = getMacSduSubheaderSize enc.maxSduSize)
    (hfit : done.length + getMacSduRequiredBytes enc.maxSduSize ≤ tb) :
    Yields (Pulled tb done enc.lcid (getMacSduRequiredBytes enc.maxSduSize) st)
      (st.pullSdu tx enc) := by
  obtain ⟨buf, pdu, hbuf, hpull⟩ := pullSdu_eq tx h hsubhr hfit
  have hle := tx.length_le st.rlc enc.lcid buf
  have hw := tx.length_buffer st.rlc enc.lcid buf
  generalize tx.onNewTxSdu st.rlc enc.lcid buf = r at hpull hle hw
  obtain ⟨len, w, rlc⟩ := r
  cases len with
  | zero =>
    rw [hpull.1]
    exact .inl ⟨rfl, hpull.2, rfl⟩
  | succ len =>
    rw [hpull.1]
    have hlen : (w.take (len + 1)).length = len + 1 := by
      rw [List.length_take, hw]
      exact Nat.min_eq_left hle
    refine .inr ⟨w.take (len + 1), ?_⟩
    rw [hlen]
    exact ⟨rfl, Nat.succ_pos len, getMacSduRequiredBytes_mono (hbuf ▸ hle), hpull.2, rfl⟩

/-- The encoder for an opportunity uses exactly the size of the opportunity. -/
theorem getSduEncoder_spec (h : Written tb done p) {lcid : RbLcid} {remBytes : Nat}
    (hmin : 3 ≤ remBytes) (hrem : done.length + remBytes ≤ tb)
    (henc : p.getSduEncoder lcid (getMacSduPayloadSize remBytes) = some enc) :
    enc.lcid = lcid ∧ enc.subhrLen = getMacSduSubheaderSize enc.maxSduSize ∧
      enc.maxSduSize = getMacSduPayloadSize remBytes := by
  obtain ⟨hle, hpos⟩ := getMacSduRequiredBytes_payload hmin
  have hsize : getMacSduPayloadSize (getMacSduRequiredBytes (getMacSduPayloadSize remBytes)) =
      getMacSduPayloadSize remBytes := by
    generalize getMacSduPayloadSize remBytes = n at hpos
    rw [getMacSduRequiredBytes]
    rcases getMacSduSubheaderSize_cases n with hn | hn | hn <;>
      rcases getMacSduPayloadSize_cases (n + getMacSduSubheaderSize n) with hm | hm <;> omega
  rw [getSduEncoder, if_neg (Nat.ne_of_gt hpos), h.nofEmptyBytes] at henc
  simp only at henc
  split_ifs at henc
  rw [Nat.min_eq_right (by omega), hsize] at henc
  cases henc
  exact ⟨rfl, rfl, rfl⟩

def sduWires (sdus : List (RbLcid × List UInt8)) : List UInt8 :=
  (sdus.map DlSubPdu.ofSdu).flatMap DlSubPdu.wire

/-- Further SDUs were written and recorded. -/
def Extends (tb : Nat) (done : List UInt8) (st st' : Assembly σ) : Prop :=
  ∃ sdus, Written tb (done ++ sduWires sdus) st'.pdu ∧ st'.pulled = st.pulled ++ sdus

theorem Extends.refl {st st' : Assembly σ} (h : Written tb done st'.pdu)
    (hpulled : st'.pulled = st.pulled) : Extends tb done st st' :=
  ⟨[], by rwa [sduWires, List.map_nil, List.flatMap_nil, List.append_nil],
    by rw [hpulled, List.append_nil]⟩

theorem Extends.trans {st st' st'' : Assembly σ} {sdus : List (RbLcid × List UInt8)}
    (hpulled : st'.pulled = st.pulled ++ sdus) (h : Extends tb (done ++ sduWires sdus) st' st'') :
    Extends tb done st st'' := by
  obtain ⟨sdus', hwritten, hpulled'⟩ := h
  refine ⟨sdus ++ sdus', ?_, by rw [hpulled', hpulled, List.append_assoc]⟩
  rwa [sduWires, List.map_append, List.flatMap_append, ← List.append_assoc]

theorem pullSdus_spec {minMacSduSize : Nat} (hmin : 3 ≤ minMacSduSize) (lcid : RbLcid)
    (remBytes : Nat) (st : Assembly σ) (done : List UInt8) (h : Written tb done st.pdu)
    (hrem : done.length + remBytes ≤ tb) :
    Yields (Extends tb done st) (pullSdus tx minMacSduSize lcid remBytes st) := by
  induction remBytes using Nat.strongRecOn generalizing st done with
  | ind remBytes ih =>
    rw [pullSdus]
    refine Ensures.ite (fun _ => .refl h rfl) fun hlt => ?_
    split
    · exact .refl h rfl
    · next enc henc =>
      have hthree : 3 ≤ remBytes := Nat.le_trans hmin (Nat.le_of_not_lt hlt)
      obtain ⟨rfl, hsubhr, hmax⟩ := getSduEncoder_spec h hthree hrem henc
      have hle : getMacSduRequiredBytes enc.maxSduSize ≤ remBytes :=
        hmax ▸ (getMacSduRequiredBytes_payload hthree).1
      have hpull := pullSdu_spec tx h hsubhr (Nat.le_trans (Nat.add_le_add_left hle _) hrem)
      split
      · next fault hfault => exact (hpull.of_error hfault).elim
      · next n st' hok =>
        rcases hpull.of_ok hok with ⟨hzero, hwritten, hpulled⟩
          | ⟨sdu, hn, hsdu, hlimit, hwritten, hp⟩
        · rw [if_pos hzero]
          exact .refl hwritten hpulled
        · have hpos := three_le_getMacSduRequiredBytes (Nat.ne_of_gt hsdu)
          rw [if_neg (by omega), if_neg (by omega)]
          have hone : done ++ sduWires [(enc.lcid, sdu)] =
              done ++ (DlSubPdu.ofSdu (enc.lcid, sdu)).wire := by simp [sduWires]
          refine (ih (remBytes - n) (by omega) st' _ hwritten ?_).mono fun st'' hext =>
            .trans hp (hone ▸ hext)
          rw [List.length_append, length_wire_ofSdu _ hsdu]
          omega

theorem assembleSdus_spec (lcid : RbLcid) (schedBytes : Nat) (h : Written tb done st.pdu) :
    Yields (Extends tb done st) (st.assembleSdus tx lcid schedBytes) := by
  have hle := h.length_le
  refine pullSdus_spec tx (Nat.le_add_right ..) lcid _ { st with firstLcid := _ } done h ?_
  rw [h.nofEmptyBytes]
  exact Nat.le_trans (Nat.add_le_add_left (Nat.min_le_right ..) _) (by omega)

/-! ## The list -/

def ceWires (conResId : List UInt8) (ces : List DlMsgLcInfo) : List UInt8 :=
  (ces.filterMap (DlSubPdu.ofCe conResId)).flatMap DlSubPdu.wire

theorem assembleCe_spec (hid : conResId.length = 6) (h : Written tb done st.pdu)
    {ce : DlMsgLcInfo} (hfit : done.length + ce.requiredBytes ≤ tb) {x : DlSubPdu}
    (hx : DlSubPdu.ofCe conResId ce = some x) :
    x.wire.length = ce.requiredBytes ∧
      Yields (fun st' => Written tb (done ++ x.wire) st'.pdu ∧ st'.pulled = st.pulled)
        (assembleSubpdu tx conResId st ce) := by
  match ce with
  | .ueConResId =>
    cases hx
    refine ⟨by rw [DlSubPdu.wire, List.length_cons, hid]; rfl, ?_⟩
    exact Ensures.bind (h.addUeConResId hid hfit) fun pdu hpdu => ⟨hpdu, rfl⟩
  | .taCmd ce =>
    cases hx
    exact ⟨rfl, Ensures.bind (h.addTagCmd ce hfit) fun pdu hpdu => ⟨hpdu, rfl⟩⟩

theorem assembleCes_spec (hid : conResId.length = 6) (ces : List DlMsgLcInfo)
    (hces : ∀ ce ∈ ces, (DlSubPdu.ofCe conResId ce).isSome) (st : Assembly σ) (done : List UInt8)
    (h : Written tb done st.pdu) (hfit : done.length + DlLogicalChannelManager.listBytes ces ≤ tb) :
    Yields (fun st' => Written tb (done ++ ceWires conResId ces) st'.pdu ∧ st'.pulled = st.pulled)
      (ces.foldlM (assembleSubpdu tx conResId) st) := by
  induction ces generalizing st done with
  | nil => exact ⟨by rwa [ceWires, List.filterMap_nil, List.flatMap_nil, List.append_nil], rfl⟩
  | cons ce ces ih =>
    rw [List.forall_mem_cons] at hces
    rw [DlLogicalChannelManager.listBytes_cons] at hfit
    obtain ⟨x, hx⟩ := Option.isSome_iff_exists.1 hces.1
    obtain ⟨hlen, hstep⟩ := assembleCe_spec tx hid h (by omega) hx
    refine Ensures.bind hstep fun st' hst' => ?_
    refine (ih hces.2 st' _ hst'.1 ?_).mono fun st'' hst'' => ⟨?_, hst''.2.trans hst'.2⟩
    · rw [List.length_append, hlen]
      omega
    · rw [ceWires, List.filterMap_cons_some hx, List.flatMap_cons, ← List.append_assoc]
      exact hst''.1

theorem assembleSduList_spec (conResId : List UInt8) (sdus : List DlMsgLcInfo)
    (hsdus : ∀ x ∈ sdus, ∃ lcid n, x = .sdu lcid n) (st : Assembly σ) (done : List UInt8)
    (h : Written tb done st.pdu) :
    Yields (Extends tb done st) (sdus.foldlM (assembleSubpdu tx conResId) st) := by
  induction sdus generalizing st done with
  | nil => exact .refl h rfl
  | cons x sdus ih =>
    rw [List.forall_mem_cons] at hsdus
    obtain ⟨⟨lcid, n, rfl⟩, hrest⟩ := hsdus
    refine Ensures.bind (assembleSdus_spec tx lcid n h) fun st' hext => ?_
    obtain ⟨pulled, hwritten, hpulled⟩ := hext
    exact (ih hrest st' _ hwritten).mono fun st'' hext' => hext'.trans hpulled

end Assembly

/-! ## The PDU and the list -/

variable {tb : Nat}

section

variable {σ : Type} (tx : RlcTx σ) (rlc : σ) (firstLcid : Option RbLcid)

/-- The PDU of a UE that has a buffer: the subPDUs and the padding, as they were written. -/
theorem assembleNewtxPdu_spec {ue : MacDlUe} (hbuffer : tb ≤ ue.harqBuffer.length)
    {ces sdus : List DlMsgLcInfo} (hces : ∀ ce ∈ ces, (DlSubPdu.ofCe ue.conResId ce).isSome)
    (hsdus : ∀ x ∈ sdus, ∃ lcid n, x = .sdu lcid n)
    (hfit : DlLogicalChannelManager.listBytes ces ≤ tb) :
    Yields (fun r => r.1.length = tb ∧ ∃ padding : List DlSubPdu, padding.length ≤ 1 ∧
        (∀ x ∈ padding, ∃ n, x = .padding n) ∧
        r.1 = (ces.filterMap (DlSubPdu.ofCe ue.conResId) ++ r.2.map DlSubPdu.ofSdu ++
          padding).flatMap DlSubPdu.wire)
      (assembleNewtxPdu tx rlc firstLcid (some ue) (ces ++ sdus) tb) := by
  have hlen : (ue.harqBuffer.take tb).length = tb := by
    rw [List.length_take]
    exact Nat.min_eq_left hbuffer
  have hstart : Written tb [] ⟨ue.harqBuffer.take tb, 0⟩ := ⟨hlen, rfl, _, rfl⟩
  have htake : ∀ {done : List UInt8} {p : DlSchPdu}, Written tb done p → done.length = tb →
      p.pdu.take p.byteOffset = done := by
    intro done p hp hdone
    obtain ⟨rest, hrest⟩ := hp.front
    rw [hrest, hp.byteOffset, List.take_left]
  simp only [assembleNewtxPdu]
  rw [if_neg (Nat.not_lt.2 hbuffer), List.foldlM_append, bind_assoc]
  refine Ensures.bind (Assembly.assembleCes_spec tx ue.length_conResId ces hces _ [] hstart
    (by rwa [List.length_nil, Nat.zero_add])) fun st hst => ?_
  refine Ensures.bind (Assembly.assembleSduList_spec tx ue.conResId sdus hsdus st _ hst.1)
    fun st' hext => ?_
  obtain ⟨pulled, hwritten, hpulled⟩ := hext
  rw [hst.2, List.nil_append] at hpulled
  simp only [List.nil_append] at hwritten
  generalize hdone : Assembly.ceWires ue.conResId ces ++ Assembly.sduWires pulled = done at hwritten
  have hle := hwritten.length_le
  have hoff := hwritten.byteOffset
  refine Ensures.ite (fun hshort => ?_) fun hfull => ?_
  · obtain ⟨n, hn⟩ : ∃ n, tb - st'.pdu.byteOffset = n + 1 :=
      ⟨tb - st'.pdu.byteOffset - 1, by omega⟩
    rw [hn]
    refine Ensures.bind (hwritten.addPadding (by omega)) fun p hp => ?_
    have hdonelen : (done ++ (DlSubPdu.padding n).wire).length = tb := by
      rw [List.length_append, DlSubPdu.wire, List.length_cons, List.length_replicate]
      omega
    refine ⟨by rw [htake hp hdonelen, hdonelen], [.padding n], Nat.le_refl 1, ?_, ?_⟩
    · rintro x hx
      exact ⟨n, List.mem_singleton.1 hx⟩
    · rw [htake hp hdonelen, hpulled, ← hdone, List.flatMap_append, List.flatMap_append,
        List.flatMap_singleton]
      rfl
  · rw [if_neg (by omega)]
    have hdonelen : done.length = tb := by omega
    refine ⟨by rw [htake hwritten hdonelen, hdonelen], [], Nat.zero_le 1, by simp, ?_⟩
    rw [htake hwritten hdonelen, hpulled, ← hdone, List.append_nil, List.flatMap_append]
    rfl

end

theorem isSome_ofCe_scheduledCes (m : DlLogicalChannelManager) (tb : Nat) (conResId : List UInt8) :
    ∀ ce ∈ m.scheduledCes tb, (DlSubPdu.ofCe conResId ce).isSome := by
  intro ce hce
  rw [DlLogicalChannelManager.scheduledCes] at hce
  split at hce
  · rcases List.mem_cons.1 hce with rfl | hce
    · rfl
    · obtain ⟨ta, -, rfl⟩ := List.mem_map.1 hce
      rfl
  · obtain ⟨ta, -, rfl⟩ := List.mem_map.1 hce
    rfl

theorem filterMap_ofCe_sdus {sdus : List DlMsgLcInfo}
    (hsdus : ∀ x ∈ sdus, ∃ lcid n, x = .sdu lcid n) :
    sdus.filterMap (DlSubPdu.ofCe conResId) = [] := by
  rw [List.filterMap_eq_nil_iff]
  intro x hx
  obtain ⟨lcid, n, rfl⟩ := hsdus x hx
  rfl

variable {ces : List DlMsgLcInfo} {pulled : List (RbLcid × List UInt8)}

theorem formed_of_mem (hid : conResId.length = 6) {x : DlSubPdu}
    (hx : x ∈ ces.filterMap (DlSubPdu.ofCe conResId) ++ pulled.map DlSubPdu.ofSdu) : x.Formed := by
  rcases List.mem_append.1 hx with hx | hx
  · obtain ⟨ce, -, hce⟩ := List.mem_filterMap.1 hx
    match ce with
    | .ueConResId =>
      cases hce
      exact hid
    | .taCmd ce =>
      cases hce
      exact ⟨ce.tagId_lt, ce.taCmd_lt⟩
  · obtain ⟨sdu, -, rfl⟩ := List.mem_map.1 hx
    exact ⟨sdu.1.isLt, rfl⟩

theorem readable_iff :
    (∀ x ∈ ces.filterMap (DlSubPdu.ofCe conResId) ++ pulled.map DlSubPdu.ofSdu, x.Readable) ↔
      (∀ ce, .taCmd ce ∈ ces → ce.tagId = 0) ∧ ∀ sdu ∈ pulled, sdu.2.length ≤ 65535 := by
  rw [List.forall_mem_append, List.forall_mem_map]
  refine and_congr ⟨fun h ce hce => ?_, fun h x hx => ?_⟩ Iff.rfl
  · exact h (.taCmd ce.tagId ce.taCmd) (List.mem_filterMap.2 ⟨_, hce, rfl⟩)
  · obtain ⟨ce, hmem, hce⟩ := List.mem_filterMap.1 hx
    match ce with
    | .ueConResId =>
      cases hce
      trivial
    | .taCmd ce =>
      cases hce
      exact h ce hmem

theorem wire_ne_nil (x : DlSubPdu) : x.wire ≠ [] := by
  match x with
  | .ueConResId _ | .taCmd _ _ | .sdu _ true _ | .sdu _ false _ | .padding _ =>
    exact List.cons_ne_nil _ _

variable {padding : List DlSubPdu}

theorem splitPdu_padding (hlen : padding.length ≤ 1)
    (hpadding : ∀ x ∈ padding, ∃ n, x = .padding n) :
    splitPdu (padding.flatMap DlSubPdu.wire) = some padding := by
  match padding, hlen with
  | [], _ => rfl
  | [x], _ =>
    obtain ⟨n, rfl⟩ := hpadding x (List.mem_singleton_self x)
    have hb := (subheaderByte_read false (show 63 < 64 by decide)).1
    have hread : readSubPdu (DlSubPdu.padding n).wire = some (.padding n, []) := by
      simp [DlSubPdu.wire, readSubPdu, DlSchPdu.lcidPadding, hb]
    rw [List.flatMap_singleton, splitPdu, splitFrames_of_read readSubPdu_consumes hread]
    rfl

/-- The zero buffer starts with an empty SDU. -/
theorem sdu_mem_of_splitPdu_zero (htb : 1 ≤ tb) {xs : List DlSubPdu}
    (h : splitPdu (List.replicate tb 0) = some xs) : .sdu 0 false [] ∈ xs := by
  match tb, htb with
  | 1, _ => cases h
  | tb + 2, _ =>
    have hread : readSubPdu (List.replicate (tb + 2) 0) =
        some (.sdu 0 false [], List.replicate tb 0) := by
      have hcons : List.replicate (tb + 2) (0 : UInt8) =
          subheaderByte false 0 :: 0 :: List.replicate tb 0 := rfl
      rw [hcons, readSubPdu_sdu (by decide), readLength_short]
      rfl
    rw [splitPdu, splitFrames_of_read readSubPdu_consumes hread, Option.map_eq_some_iff] at h
    obtain ⟨ys, -, rfl⟩ := h
    exact List.mem_cons_self

def getConResId (ue : Option MacDlUe) : List UInt8 :=
  ue.elim (List.replicate 6 0) MacDlUe.conResId

/-- The PDU of a block has its size, and the UE reads what was scheduled and pulled. -/
def Agrees {σ : Type} (tx : RlcTx σ) (rlc : σ) (firstLcid : Option RbLcid) (ue : Option MacDlUe)
    (subpdus : List DlMsgLcInfo) (tb : Nat) : Prop :=
  ∃ pdu pulled padding, assembleNewtxPdu tx rlc firstLcid ue subpdus tb = .ok (pdu, pulled) ∧
    pdu.length = tb ∧
    splitPdu pdu = some (subpdus.filterMap (DlSubPdu.ofCe (getConResId ue)) ++
      pulled.map DlSubPdu.ofSdu ++ padding) ∧
    padding.length ≤ 1 ∧ ∀ x ∈ padding, ∃ n, x = .padding n

/-- The subPDUs of an assembled PDU are read back iff all of them are readable. -/
theorem splitPdu_eq_iff {conResId pdu : List UInt8} (hid : conResId.length = 6)
    (hone : padding.length ≤ 1) (hpadding : ∀ x ∈ padding, ∃ n, x = .padding n)
    (hpdu : pdu = (ces.filterMap (DlSubPdu.ofCe conResId) ++ pulled.map DlSubPdu.ofSdu ++
      padding).flatMap DlSubPdu.wire) (padding' : List DlSubPdu) :
    splitPdu pdu = some (ces.filterMap (DlSubPdu.ofCe conResId) ++ pulled.map DlSubPdu.ofSdu ++
        padding') ↔
      ((∀ ce, .taCmd ce ∈ ces → ce.tagId = 0) ∧ ∀ sdu ∈ pulled, sdu.2.length ≤ 65535) ∧
        padding = padding' := by
  rw [hpdu, splitPdu, List.flatMap_append,
    splitFrames_flatMap readSubPdu_consumes _ _ _ (fun x _ => wire_ne_nil x)
      (fun x hx hread => readSubPdu_wire (formed_of_mem hid hx) hread)
      (fun x hx _ _ => readable_of_readSubPdu (formed_of_mem hid hx)),
    readable_iff, ← splitPdu, splitPdu_padding hone hpadding, Option.some.injEq]

/-- The zero buffer does not agree with any list. -/
theorem splitPdu_zero_ne {subpdus : List DlMsgLcInfo} (htb : 1 ≤ tb)
    (hpadding : ∀ x ∈ padding, ∃ n, x = .padding n) :
    splitPdu (List.replicate tb 0) ≠
      some (subpdus.filterMap (DlSubPdu.ofCe conResId) ++ [] ++ padding) := by
  intro h
  have hmem := sdu_mem_of_splitPdu_zero htb h
  rw [List.append_nil] at hmem
  rcases List.mem_append.1 hmem with hmem | hmem
  · obtain ⟨ce, -, hce⟩ := List.mem_filterMap.1 hmem
    cases ce <;> cases hce
  · obtain ⟨n, hn⟩ := hpadding _ hmem
    cases hn

theorem not_agrees_of_zero {σ : Type} {tx : RlcTx σ} {rlc : σ} {firstLcid : Option RbLcid}
    {ue : Option MacDlUe} {subpdus : List DlMsgLcInfo} (htb : 1 ≤ tb)
    (hassemble : assembleNewtxPdu tx rlc firstLcid ue subpdus tb =
      (zeroBufferFirst tb).map (·, [])) :
    ¬ Agrees tx rlc firstLcid ue subpdus tb := by
  rintro ⟨pdu, pulled, padding, hok, -, hsplit, -, hpadding⟩
  rw [hassemble, zeroBufferFirst] at hok
  split at hok
  · cases hok
    exact splitPdu_zero_ne htb hpadding hsplit
  · cases hok

def silentRlc : RlcTx Unit where
  onNewTxSdu _ _ buffer := (0, buffer, ())
  length_le _ _ _ := Nat.zero_le _
  length_buffer _ _ _ := rfl

/-- A manager with only the timing advance command 20 for a TAG. -/
def onlyTaCmd (tagId : Fin 4) : DlLogicalChannelManager where
  channels _ := ⟨false, 0, by decide⟩
  pendingConResId := false
  pendingCes := [⟨tagId, 20, tagId.isLt, by decide⟩]

def smallUe : MacDlUe := ⟨List.replicate 6 0, List.replicate 8 0, rfl⟩

def threeByteRlc : RlcTx Unit where
  onNewTxSdu _ _ buffer :=
    if 3 ≤ buffer.length then (3, [1, 2, 3] ++ buffer.drop 3, ()) else (0, buffer, ())
  length_le _ _ buffer := by
    split
    · assumption
    · exact Nat.zero_le _
  length_buffer _ _ buffer := by
    split
    · next hle => rw [List.length_append, List.length_drop]; exact Nat.add_sub_cancel' hle
    · rfl

section

local instance neZeroTag : NeZero 4 := ⟨by decide⟩

local instance neZeroSduLcid : NeZero 33 := ⟨by decide⟩

/-- A manager with a timing advance command and ten bytes of the logical channel 4. -/
def taCmdAndSdus : DlLogicalChannelManager :=
  { onlyTaCmd 0 with
    channels := fun lcid => if lcid = 4 then ⟨true, 10, by decide⟩ else ⟨false, 0, by decide⟩ }

end

def mediumUe : MacDlUe := ⟨List.replicate 6 0, List.replicate 20 0, rfl⟩

end RadioStack.Mac
