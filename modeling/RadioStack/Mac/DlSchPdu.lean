import RadioStack.Lib.Bytes
import RadioStack.Lib.Framing
import RadioStack.Lib.Outcome
import RadioStack.Mac.DlLogicalChannels

/-!
# Assembly of DL-SCH MAC PDUs

`dl_sch_pdu_assembler` fills the buffer of a transport block: the scheduled control elements, the
SDUs that RLC writes in place for the scheduled logical channels, and padding. RLC may write less
than it was offered; when the SDU then needs only the short subheader, it is shifted by a byte.

`splitPdu` reads the PDU as the UE does, by the R/F/LCID/L subheaders.

**Theorems (`readSubPdu_wire`, `readable_of_readSubPdu`).** The UE reads back what was written
exactly if a timing advance command is for the TAG 0 and an SDU has at most 65535 bytes: the
identity of the TAG is masked where it should be shifted, and a longer SDU has no length field. -/

namespace RadioStack.Mac

open RadioStack.Bytes RadioStack.Framing

/-! ## The PDU -/

/-- The ways in which the assembly stops the program. -/
inductive DlSchFault where
  | outOfBounds
  | unsupportedHeaderLength
  | tooManyBytesPacked
  deriving DecidableEq

/-- `dl_sch_pdu`: the buffer of the block and the bytes that are written. -/
structure DlSchPdu where
  pdu : List UInt8
  byteOffset : Nat

/-- The first byte of a subheader. -/
def subheaderByte (fBit : Bool) (lcid : Nat) : UInt8 :=
  UInt8.ofNat ((if fBit then 1 else 0) <<< 6 ||| (lcid &&& 0x3f))

namespace DlSchPdu

section

variable (p : DlSchPdu)

def nofEmptyBytes : Nat := p.pdu.length - p.byteOffset

/-- Writes bytes behind those that are written. -/
def put (bytes : List UInt8) : Except DlSchFault DlSchPdu :=
  if p.byteOffset + bytes.length ≤ p.pdu.length then
    .ok ⟨splice p.pdu p.byteOffset bytes, p.byteOffset + bytes.length⟩
  else .error .outOfBounds

def encodeSubheader (fBit : Bool) (lcid headerLen payloadLen : Nat) :
    Except DlSchFault DlSchPdu :=
  match headerLen with
  | 3 => p.put [subheaderByte fBit lcid, UInt8.ofNat ((payloadLen &&& 0xff00) >>> 8),
      UInt8.ofNat (payloadLen &&& 0xff)]
  | 2 => p.put [subheaderByte fBit lcid, UInt8.ofNat (payloadLen &&& 0xff)]
  | 1 => p.put [subheaderByte fBit lcid]
  | _ => .error .unsupportedHeaderLength

structure MacSduEncoder where
  lcid : RbLcid
  subhrLen : Nat
  maxSduSize : Nat

def rlcHeaderSizeEstim : Nat := 2

def minMacSubhdrAndSduSpaceRequired (lcid : RbLcid) : Nat :=
  minMacSduSubheaderSize + 1 + (if lcid ≠ 0 then rlcHeaderSizeEstim else 0)

def getSduEncoder (lcid : RbLcid) (sduPayloadLenEstimate : Nat) :
    Option MacSduEncoder :=
  if sduPayloadLenEstimate = 0 then none
  else
    let remGrantSpace := p.nofEmptyBytes
    if remGrantSpace < minMacSubhdrAndSduSpaceRequired lcid then none
    else
      let spaceEstim := min remGrantSpace (getMacSduRequiredBytes sduPayloadLenEstimate)
      let sduSpaceEstim := getMacSduPayloadSize spaceEstim
      some ⟨lcid, getMacSduSubheaderSize sduSpaceEstim, sduSpaceEstim⟩

/-- `sdu_buffer`: the bytes that RLC may write. -/
def sduBuffer (enc : MacSduEncoder) : Except DlSchFault (List UInt8) :=
  if p.byteOffset + enc.subhrLen + enc.maxSduSize ≤ p.pdu.length then
    .ok ((p.pdu.drop (p.byteOffset + enc.subhrLen)).take enc.maxSduSize)
  else .error .outOfBounds

/-- The bytes of the SDU moved to the left by one position. -/
def shiftSdu (sduBytesWritten : Nat) : Except DlSchFault DlSchPdu :=
  if p.byteOffset + minMacSduSubheaderSize + 1 + sduBytesWritten ≤ p.pdu.length then
    .ok { p with
      pdu := splice p.pdu (p.byteOffset + minMacSduSubheaderSize)
        ((p.pdu.drop (p.byteOffset + minMacSduSubheaderSize + 1)).take sduBytesWritten) }
  else .error .outOfBounds

/-- `encode_sdu`: the bytes of the subPDU, none if it was not encoded. -/
def encodeSdu (enc : MacSduEncoder) (sduBytesWritten : Nat) :
    Except DlSchFault (Nat × DlSchPdu) :=
  if sduBytesWritten = 0 ∨ enc.maxSduSize < sduBytesWritten then .ok (0, p)
  else do
    let (subhrLen, p) ←
      if getMacSduSubheaderSize sduBytesWritten ≠ enc.subhrLen then do
        let p ← p.shiftSdu sduBytesWritten
        pure (minMacSduSubheaderSize, p)
      else pure (enc.subhrLen, p)
    let p ← p.encodeSubheader (minMacSduSubheaderSize < subhrLen) enc.lcid subhrLen sduBytesWritten
    pure (subhrLen + sduBytesWritten, { p with byteOffset := p.byteOffset + sduBytesWritten })

/-- `lcid_dl_sch_t::TA_CMD`, `UE_CON_RES_ID` and `PADDING`. -/
def lcidTaCmd : Nat := 61

def lcidUeConResId : Nat := 62

def lcidPadding : Nat := 63

def addUeConResId (conResId : List UInt8) : Except DlSchFault DlSchPdu := do
  let p ← p.encodeSubheader false lcidUeConResId 1 6
  p.put conResId

def addTagCmd (ce : TaCmdCePayload) : Except DlSchFault DlSchPdu := do
  let p ← p.encodeSubheader false lcidTaCmd 1 1
  p.put [UInt8.ofNat ((ce.tagId &&& 0xc0) ||| (ce.taCmd &&& 0x3f))]

def addPadding (len : Nat) : Except DlSchFault DlSchPdu := do
  let p ← p.encodeSubheader false lcidPadding 1 (len - 1)
  p.put (List.replicate (len - 1) 0)

end

end DlSchPdu

/-! ## The assembler -/

/-- The RLC bearers of a UE, with an internal state: `on_new_tx_sdu` is offered a buffer, writes
into it and returns a length of at most the buffer's. -/
structure RlcTx (σ : Type) where
  onNewTxSdu : σ → RbLcid → List UInt8 → Nat × List UInt8 × σ
  length_le : ∀ s lcid buffer, (onNewTxSdu s lcid buffer).1 ≤ buffer.length
  length_buffer : ∀ s lcid buffer, (onNewTxSdu s lcid buffer).2.1.length = buffer.length

/-- A UE of the assembler: `MIN_MAC_SDU_SIZE` is a static variable that the first logical channel
ever assembled determines. -/
structure Assembly (σ : Type) where
  pdu : DlSchPdu
  rlc : σ
  firstLcid : Option RbLcid
  /-- the SDUs that were pulled -/
  pulled : List (RbLcid × List UInt8)

namespace Assembly

open DlSchPdu

variable {σ : Type} (tx : RlcTx σ)

/-- RLC writes an SDU in the place of the encoder, and the SDU is encoded. -/
def pullSdu (st : Assembly σ) (enc : MacSduEncoder) : Except DlSchFault (Nat × Assembly σ) := do
  let buffer ← st.pdu.sduBuffer enc
  let (sduActualLen, buffer, rlc) := tx.onNewTxSdu st.rlc enc.lcid buffer
  let pdu := { st.pdu with
    pdu := splice st.pdu.pdu (st.pdu.byteOffset + enc.subhrLen) buffer }
  if sduActualLen = 0 then pure (0, { st with pdu, rlc })
  else
    let (subhAndSduSize, pdu) ← pdu.encodeSdu enc sduActualLen
    if subhAndSduSize = 0 then pure (0, { st with pdu, rlc })
    else pure (subhAndSduSize,
      { st with pdu, rlc, pulled := st.pulled ++ [(enc.lcid, buffer.take sduActualLen)] })

/-- The loop of `assemble_sdus`. -/
def pullSdus (minMacSduSize : Nat) (lcid : RbLcid) (remBytes : Nat) (st : Assembly σ) :
    Except DlSchFault (Assembly σ) :=
  if remBytes < minMacSduSize then .ok st
  else
    match st.pdu.getSduEncoder lcid (getMacSduPayloadSize remBytes) with
    | none => .ok st
    | some enc =>
      match st.pullSdu tx enc with
      | .error fault => .error fault
      | .ok (subhAndSduSize, st) =>
        if subhAndSduSize = 0 then .ok st
        else if remBytes < subhAndSduSize then .error .tooManyBytesPacked
        else pullSdus minMacSduSize lcid (remBytes - subhAndSduSize) st
termination_by remBytes
decreasing_by omega

def assembleSdus (lcid : RbLcid) (schedBytes : Nat) (st : Assembly σ) :
    Except DlSchFault (Assembly σ) :=
  let firstLcid := st.firstLcid.getD lcid
  let minMacSduSize :=
    minMacSduSubheaderSize + 1 + (if firstLcid ≠ 0 then rlcHeaderSizeEstim else 0)
  let totalSpace := min (getMacSduRequiredBytes schedBytes) st.pdu.nofEmptyBytes
  pullSdus tx minMacSduSize lcid totalSpace { st with firstLcid := some firstLcid }

/-- A scheduled subPDU: `assemble_sdus` or `assemble_ce`. -/
def assembleSubpdu (conResId : List UInt8) (st : Assembly σ) :
    DlMsgLcInfo → Except DlSchFault (Assembly σ)
  | .sdu lcid schedBytes => st.assembleSdus tx lcid schedBytes
  | .ueConResId => do
    let pdu ← st.pdu.addUeConResId conResId
    pure { st with pdu }
  | .taCmd ce => do
    let pdu ← st.pdu.addTagCmd ce
    pure { st with pdu }

end Assembly

def maxDlPduLength : Nat := 171600

/-- The first bytes of `zero_buffer`. -/
def zeroBufferFirst (tbSizeBytes : Nat) : Except DlSchFault (List UInt8) :=
  if tbSizeBytes ≤ maxDlPduLength then .ok (List.replicate tbSizeBytes 0) else .error .outOfBounds

/-- A UE of the MAC: the contention resolution identity and the buffer of the HARQ process. -/
structure MacDlUe where
  conResId : List UInt8
  harqBuffer : List UInt8
  length_conResId : conResId.length = 6

/-- `assemble_newtx_pdu`: the bytes of the block and what was pulled for it. `ue` is none if the
RNTI has no UE. -/
def assembleNewtxPdu {σ : Type} (tx : RlcTx σ) (rlc : σ) (firstLcid : Option RbLcid)
    (ue : Option MacDlUe) (subpdus : List DlMsgLcInfo) (tbSizeBytes : Nat) :
    Except DlSchFault (List UInt8 × List (RbLcid × List UInt8)) :=
  match ue with
  | none => (zeroBufferFirst tbSizeBytes).map (·, [])
  | some ue =>
    if ue.harqBuffer.length < tbSizeBytes then (zeroBufferFirst tbSizeBytes).map (·, [])
    else do
      let st ← subpdus.foldlM (Assembly.assembleSubpdu tx ue.conResId)
        ⟨⟨ue.harqBuffer.take tbSizeBytes, 0⟩, rlc, firstLcid, []⟩
      let currentSize := st.pdu.byteOffset
      if currentSize < tbSizeBytes then
        let pdu ← st.pdu.addPadding (tbSizeBytes - currentSize)
        pure (pdu.pdu.take pdu.byteOffset, st.pulled)
      else if tbSizeBytes < currentSize then (zeroBufferFirst tbSizeBytes).map (·, st.pulled)
      else pure (st.pdu.pdu.take st.pdu.byteOffset, st.pulled)

/-! ## What the UE reads -/

inductive DlSubPdu where
  | ueConResId (id : List UInt8)
  | taCmd (tagId cmd : Nat)
  | sdu (lcid : Nat) (fBit : Bool) (payload : List UInt8)
  | padding (len : Nat)
  deriving DecidableEq

/-- The length field, of 16 bits if the F bit is set. -/
def readLength (fBit : Bool) : List UInt8 → Option (Nat × List UInt8)
  | l₀ :: l₁ :: rest =>
    if fBit then some (l₀.toNat * 256 + l₁.toNat, rest) else some (l₀.toNat, l₁ :: rest)
  | [l₀] => if fBit then none else some (l₀.toNat, [])
  | [] => none

/-- The subPDU at the front of a PDU, by its subheader. -/
def readSubPdu : List UInt8 → Option (DlSubPdu × List UInt8)
  | [] => none
  | b :: rest =>
    let lcid := b.toNat % 64
    let fBit := b.toNat / 64 % 2 = 1
    if lcid = 63 then some (.padding rest.length, [])
    else if lcid = 62 then
      if rest.length < 6 then none else some (.ueConResId (rest.take 6), rest.drop 6)
    else if lcid = 61 then
      rest.head?.map fun c => (.taCmd (c.toNat / 64) (c.toNat % 64), rest.tail)
    else if 32 < lcid then none
    else
      (readLength fBit rest).bind fun (len, rest) =>
        if rest.length < len then none else some (.sdu lcid fBit (rest.take len), rest.drop len)

def splitPdu (pdu : List UInt8) : Option (List DlSubPdu) := splitFrames readSubPdu pdu

/-- A scheduled control element as the UE should read it. -/
def DlSubPdu.ofCe (conResId : List UInt8) : DlMsgLcInfo → Option DlSubPdu
  | .ueConResId => some (.ueConResId conResId)
  | .taCmd ce => some (.taCmd ce.tagId ce.taCmd)
  | .sdu .. => none

/-- A pulled SDU as the UE should read it, with the shortest length field. -/
def DlSubPdu.ofSdu (sdu : RbLcid × List UInt8) : DlSubPdu :=
  .sdu sdu.1 (256 ≤ sdu.2.length) sdu.2

/-! ## Reading what was written -/

namespace DlSubPdu

/-- The bytes that the assembler writes for a subPDU. -/
def wire : DlSubPdu → List UInt8
  | ueConResId id => subheaderByte false DlSchPdu.lcidUeConResId :: id
  | taCmd tagId cmd =>
    [subheaderByte false DlSchPdu.lcidTaCmd, UInt8.ofNat ((tagId &&& 0xc0) ||| (cmd &&& 0x3f))]
  | sdu lcid true payload =>
    subheaderByte true lcid :: UInt8.ofNat ((payload.length &&& 0xff00) >>> 8) ::
      UInt8.ofNat (payload.length &&& 0xff) :: payload
  | sdu lcid false payload =>
    subheaderByte false lcid :: UInt8.ofNat (payload.length &&& 0xff) :: payload
  | padding len => subheaderByte false DlSchPdu.lcidPadding :: List.replicate len 0

/-- A subPDU that the assembler writes, padding apart. -/
def Formed : DlSubPdu → Prop
  | ueConResId id => id.length = 6
  | taCmd tagId cmd => tagId < 4 ∧ cmd < 64
  | sdu lcid fBit payload => lcid < 33 ∧ fBit = decide (256 ≤ payload.length)
  | padding _ => False

/-- A subPDU whose bytes say what it is. -/
def Readable : DlSubPdu → Prop
  | taCmd tagId _ => tagId = 0
  | sdu _ _ payload => payload.length ≤ 65535
  | _ => True

end DlSubPdu

theorem subheaderByte_read (fBit : Bool) {lcid : Nat} (hlcid : lcid < 64) :
    (subheaderByte fBit lcid).toNat % 64 = lcid ∧
      ((subheaderByte fBit lcid).toNat / 64 % 2 = 1 ↔ fBit = true) := by
  have hall : ∀ (fBit : Bool) (lcid : Fin 64), (subheaderByte fBit lcid).toNat % 64 = lcid ∧
      ((subheaderByte fBit lcid).toNat / 64 % 2 = 1 ↔ fBit = true) := by decide
  exact hall fBit ⟨lcid, hlcid⟩

theorem tagCmdByte_read {tagId taCmd : Nat} (htag : tagId < 4) (hcmd : taCmd < 64) :
    (UInt8.ofNat ((tagId &&& 0xc0) ||| (taCmd &&& 0x3f))).toNat / 64 = 0 ∧
      (UInt8.ofNat ((tagId &&& 0xc0) ||| (taCmd &&& 0x3f))).toNat % 64 = taCmd := by
  have hall : ∀ (tagId : Fin 4) (taCmd : Fin 64),
      (UInt8.ofNat ((tagId.val &&& 0xc0) ||| (taCmd.val &&& 0x3f))).toNat / 64 = 0 ∧
        (UInt8.ofNat ((tagId.val &&& 0xc0) ||| (taCmd.val &&& 0x3f))).toNat % 64 = taCmd := by
    decide
  exact hall ⟨tagId, htag⟩ ⟨taCmd, hcmd⟩

theorem lowByte_toNat (n : Nat) : (UInt8.ofNat (n &&& 0xff)).toNat = n % 256 := by
  rw [UInt8.toNat_ofNat', Nat.and_two_pow_sub_one_eq_mod n 8, Nat.mod_mod]

theorem highByte_toNat (n : Nat) : (UInt8.ofNat ((n &&& 0xff00) >>> 8)).toNat = n / 256 % 256 := by
  rw [Nat.shiftRight_and_distrib, Nat.shiftRight_eq_div_pow n, show 0xff00 >>> 8 = 0xff from rfl,
    lowByte_toNat]

theorem readLength_short (l : UInt8) (rest : List UInt8) :
    readLength false (l :: rest) = some (l.toNat, rest) := by
  cases rest <;> rfl

theorem readLength_long (n : Nat) (rest : List UInt8) :
    readLength true (UInt8.ofNat ((n &&& 0xff00) >>> 8) :: UInt8.ofNat (n &&& 0xff) :: rest) =
      some (n % 65536, rest) := by
  rw [readLength, if_pos rfl, highByte_toNat, lowByte_toNat]
  congr 2
  omega

theorem readLength_length {fBit : Bool} {bytes rest : List UInt8} {len : Nat}
    (h : readLength fBit bytes = some (len, rest)) : rest.length < bytes.length := by
  match fBit, bytes with
  | false, l :: bytes =>
    rw [readLength_short] at h
    cases h
    exact Nat.lt_succ_self _
  | true, [_] => cases h
  | true, _ :: _ :: bytes =>
    cases h
    simp only [List.length_cons]
    omega

theorem readSubPdu_consumes : Consumes readSubPdu := by
  intro bytes x rest h
  match bytes with
  | b :: bytes =>
    rw [readSubPdu] at h
    simp only at h
    split at h
    · cases h
      exact Nat.succ_pos _
    split at h
    · split_ifs at h
      cases h
      simp only [List.length_cons, List.length_drop]
      omega
    split at h
    · obtain ⟨c, -, h⟩ := Option.map_eq_some_iff.1 h
      cases h
      simp only [List.length_cons, List.length_tail]
      omega
    split_ifs at h
    obtain ⟨⟨len, rest'⟩, hlen, h⟩ := Option.bind_eq_some_iff.1 h
    have := readLength_length hlen
    split_ifs at h
    cases h
    simp only [List.length_cons, List.length_drop]
    omega

theorem readSubPdu_sdu {lcid : Nat} (hlcid : lcid < 33) (fBit : Bool) (bytes : List UInt8) :
    readSubPdu (subheaderByte fBit lcid :: bytes) = (readLength fBit bytes).bind fun r =>
      if r.2.length < r.1 then none
      else some (.sdu lcid fBit (r.2.take r.1), r.2.drop r.1) := by
  obtain ⟨hread, hf⟩ := subheaderByte_read fBit (show lcid < 64 by omega)
  simp only [readSubPdu, hread, hf]
  rw [if_neg (by omega), if_neg (by omega), if_neg (by omega), if_neg (by omega)]
  cases fBit <;> rfl

theorem readSubPdu_taCmd {tagId cmd : Nat} (htag : tagId < 4) (hcmd : cmd < 64)
    (rest : List UInt8) :
    readSubPdu ((DlSubPdu.taCmd tagId cmd).wire ++ rest) = some (.taCmd 0 cmd, rest) := by
  obtain ⟨htagByte, hcmdByte⟩ := tagCmdByte_read htag hcmd
  have hb := (subheaderByte_read false (show 61 < 64 by decide)).1
  simp only [DlSubPdu.wire, readSubPdu, DlSchPdu.lcidTaCmd, List.cons_append, hb, List.nil_append,
    List.head?_cons, Option.map_some, htagByte, hcmdByte, List.tail_cons]
  rfl

theorem readSubPdu_wire {x : DlSubPdu} (hformed : x.Formed) (hread : x.Readable)
    (rest : List UInt8) : readSubPdu (x.wire ++ rest) = some (x, rest) := by
  match x with
  | .ueConResId id =>
    have hid : id.length = 6 := hformed
    have hb := (subheaderByte_read false (show 62 < 64 by decide)).1
    simp only [DlSubPdu.wire, readSubPdu, DlSchPdu.lcidUeConResId, List.cons_append, hb, ← hid]
    simp
  | .taCmd tagId cmd =>
    have htag : tagId = 0 := hread
    rw [readSubPdu_taCmd hformed.1 hformed.2, htag]
  | .sdu lcid true payload =>
    have hlen : payload.length ≤ 65535 := hread
    rw [DlSubPdu.wire, List.cons_append, readSubPdu_sdu hformed.1, List.cons_append,
      List.cons_append, readLength_long, Nat.mod_eq_of_lt (by omega)]
    simp
  | .sdu lcid false payload =>
    have hlen : payload.length < 256 := by simpa using hformed.2.symm
    rw [DlSubPdu.wire, List.cons_append, readSubPdu_sdu hformed.1, List.cons_append,
      readLength_short, lowByte_toNat, Nat.mod_eq_of_lt hlen]
    simp

theorem readable_of_readSubPdu {x : DlSubPdu} (hformed : x.Formed) {rest rest' : List UInt8}
    (h : readSubPdu (x.wire ++ rest) = some (x, rest')) : x.Readable := by
  match x with
  | .ueConResId id => trivial
  | .taCmd tagId cmd =>
    rw [readSubPdu_taCmd hformed.1 hformed.2, Option.some.injEq, Prod.mk.injEq,
      DlSubPdu.taCmd.injEq] at h
    exact h.1.1.symm
  | .sdu lcid true payload =>
    rw [DlSubPdu.wire, List.cons_append, readSubPdu_sdu hformed.1, List.cons_append,
      List.cons_append, readLength_long, Option.bind_some] at h
    split_ifs at h
    simp only [Option.some.injEq, Prod.mk.injEq, DlSubPdu.sdu.injEq] at h
    have hlen := congrArg List.length h.1.2.2
    rw [List.length_take] at hlen
    show payload.length ≤ 65535
    omega
  | .sdu lcid false payload =>
    have hlen : payload.length < 256 := by simpa using hformed.2.symm
    show payload.length ≤ 65535
    omega

end RadioStack.Mac
