import RadioStack.Lib.ByteView
import Mathlib.Tactic.Common

/-!
# UL-SCH MAC PDUs

A MAC PDU of the uplink shared channel is a sequence of subPDUs, each with a subheader and a
payload: an SDU of a logical channel or a control element. `unpack` splits a received PDU
(`mac_ul_sch_pdu.cpp`); the payloads are views of the PDU. At most `maxSubpdusPerPdu` subPDUs are
kept, what follows is ignored.

`Decodes` describes the format: what the bytes of each subPDU are.

**Theorem (`unpack_eq_ok_iff`).** `unpack` never reads behind the PDU, and it succeeds with the
subPDUs that the format gives.
-/

namespace RadioStack.Mac

/-! ## Logical channel identities -/

/-- `lcid_ul_sch_t`: six bits of the subheader. -/
abbrev LcidUlSch := Fin 64

namespace LcidUlSch

def ccchSize64 : LcidUlSch := 0

def lcid1 : LcidUlSch := 1

def lcid32 : LcidUlSch := 32

def minReserved : LcidUlSch := 33

def maxReserved : LcidUlSch := 51

def ccchSize48 : LcidUlSch := 52

def sePhr : LcidUlSch := 57

def crnti : LcidUlSch := 58

def shortTruncBsr : LcidUlSch := 59

def longTruncBsr : LcidUlSch := 60

def shortBsr : LcidUlSch := 61

def longBsr : LcidUlSch := 62

def padding : LcidUlSch := 63

section

variable (lcid : LcidUlSch)

def isCcch : Bool := lcid == ccchSize48 || lcid == ccchSize64

def isSdu : Bool := lcid ≤ lcid32 && lcid1 ≤ lcid

def isValidLcid : Bool := lcid < minReserved || maxReserved < lcid

def isVarLenCe : Bool := lcid == longTruncBsr || lcid == longBsr

def hasLengthField : Bool :=
  if lcid.isCcch then false else lcid.isSdu || lcid.isVarLenCe

def sizeofCe : Nat :=
  if lcid = ccchSize48 then 6
  else if lcid = ccchSize64 then 8
  else if lcid = crnti then 2
  else if lcid = shortBsr ∨ lcid = shortTruncBsr then 1
  else if lcid = sePhr then 2
  else if lcid = longBsr ∨ lcid = longTruncBsr then 1
  else 0

end

end LcidUlSch

/-! ## Unpacking -/

/-- `mac_ul_sch_subpdu`. -/
structure Subpdu where
  lcid : LcidUlSch
  fBit : Bool
  headerLength : Nat
  payload : ByteView
  deriving DecidableEq

/-- The F bit and the LCID of a subheader. -/
def headerFBit (b : UInt8) : Bool := 0 < b.toNat &&& 0x40

def headerLcid (b : UInt8) : LcidUlSch :=
  ⟨b.toNat &&& 0x3f, Nat.lt_succ_of_le Nat.and_le_right⟩

/-- The length field: the length, the header length with it, and the reader behind it. -/
def readLengthField (fBit : Bool) (reader : ByteView) :
    Except OutOfBounds (Nat × Nat × ByteView) := do
  let (l₀, reader) ← reader.read
  if fBit then
    let (l₁, reader) ← reader.read
    return (l₀.toNat <<< 8 ||| (l₁.toNat &&& 0xff), 3, reader)
  else return (l₀.toNat, 2, reader)

/-- The payload of a subPDU whose length is known; `what` is `SDU` or `CE`. -/
def takePayload (what : String) (lcid : LcidUlSch) (fBit : Bool)
    (subpduLen headerLength sduLength : Nat) (reader : ByteView) :
    Except OutOfBounds (Except String (Subpdu × ByteView)) :=
  if subpduLen < headerLength + sduLength then
    .ok (.error (s!"Not enough bytes remaining in PDU to decode {what} payload " ++
      s!"({subpduLen - headerLength} < {sduLength})."))
  else do
    let (payload, reader) ← reader.split sduLength
    return .ok (⟨lcid, fBit, headerLength, payload⟩, reader)

/-- `mac_ul_sch_subpdu::unpack`: the subPDU and the reader behind it. -/
def unpackSubpdu (reader : ByteView) : Except OutOfBounds (Except String (Subpdu × ByteView)) :=
  let subpduLen := reader.length
  if subpduLen = 0 then .ok (.error "Empty subPDU.")
  else do
    let (b, reader) ← reader.read
    let fBit := headerFBit b
    let lcid := headerLcid b
    if !lcid.isValidLcid then return .error s!"Unrecognized lcid={lcid.val}."
    else if lcid.hasLengthField then
      if subpduLen < (if fBit then 3 else 2) then
        return .error "Not enough bytes remaining in PDU to decode length prefix."
      else
        let (sduLength, headerLength, reader) ← readLengthField fBit reader
        takePayload "SDU" lcid fBit subpduLen headerLength sduLength reader
    else if lcid = .padding then
      -- the rest of the PDU
      return .ok (⟨lcid, fBit, 1, reader⟩, ⟨reader.first + reader.length, []⟩)
    else takePayload "CE" lcid fBit subpduLen 1 lcid.sizeofCe reader

def maxSubpdusPerPdu : Nat := 4096

/-- The loop of `unpack`, with the number of subPDUs that still fit in the list. -/
def unpackLoop : Nat → ByteView → Except OutOfBounds (Except String (List Subpdu))
  | 0, _ => .ok (.ok [])
  | room + 1, reader =>
    if reader.length = 0 then .ok (.ok [])
    else do
      match ← unpackSubpdu reader with
      | .error cause => return .error cause
      | .ok (subpdu, reader) =>
        match ← unpackLoop room reader with
        | .error cause => return .error cause
        | .ok subpdus => return .ok (subpdu :: subpdus)

def unpack (pdu : List UInt8) : Except OutOfBounds (Except String (List Subpdu)) :=
  unpackLoop maxSubpdusPerPdu (.whole pdu)

/-! ## Format -/

/-- The bytes of a subPDU. -/
inductive Subpdu.Encodes : Subpdu → List UInt8 → Prop
  | shortLength {b l : UInt8} {first : Nat} {payload : List UInt8} :
      (headerLcid b).isValidLcid → (headerLcid b).hasLengthField → headerFBit b = false →
      payload.length = l.toNat →
      Encodes ⟨headerLcid b, false, 2, ⟨first, payload⟩⟩ (b :: l :: payload)
  | longLength {b l₀ l₁ : UInt8} {first : Nat} {payload : List UInt8} :
      (headerLcid b).isValidLcid → (headerLcid b).hasLengthField → headerFBit b = true →
      payload.length = l₀.toNat <<< 8 ||| (l₁.toNat &&& 0xff) →
      Encodes ⟨headerLcid b, true, 3, ⟨first, payload⟩⟩ (b :: l₀ :: l₁ :: payload)
  | padding {b : UInt8} {first : Nat} {payload : List UInt8} :
      headerLcid b = .padding →
      Encodes ⟨headerLcid b, headerFBit b, 1, ⟨first, payload⟩⟩ (b :: payload)
  | fixedSize {b : UInt8} {first : Nat} {payload : List UInt8} :
      (headerLcid b).isValidLcid → (headerLcid b).hasLengthField = false →
      headerLcid b ≠ .padding → payload.length = (headerLcid b).sizeofCe →
      Encodes ⟨headerLcid b, headerFBit b, 1, ⟨first, payload⟩⟩ (b :: payload)

/-- The subPDUs of the bytes at position `pos` of a PDU, if at most `room` of them are kept. -/
inductive Decodes : Nat → Nat → List UInt8 → List Subpdu → Prop
  | nil (pos room : Nat) : Decodes pos room [] []
  | full (pos : Nat) (bytes : List UInt8) : Decodes pos 0 bytes []
  | cons {pos room : Nat} {s : Subpdu} {bytes rest : List UInt8} {subpdus : List Subpdu} :
      s.Encodes bytes → s.payload.first = pos + s.headerLength →
      (s.lcid = .padding → rest = []) →
      Decodes (pos + bytes.length) room rest subpdus →
      Decodes pos (room + 1) (bytes ++ rest) (s :: subpdus)

variable {pos room : Nat} {s : Subpdu} {bytes rest pdu : List UInt8} {subpdus : List Subpdu}

theorem takePayload_eq {what : String} {lcid : LcidUlSch} {fBit : Bool}
    {subpduLen headerLength sduLength first stop : Nat} {payload : List UInt8}
    (hlen : subpduLen = headerLength + (payload ++ rest).length) (hsdu : payload.length = sduLength)
    (hstop : stop = first + payload.length) :
    takePayload what lcid fBit subpduLen headerLength sduLength ⟨first, payload ++ rest⟩ =
      .ok (.ok (⟨lcid, fBit, headerLength, ⟨first, payload⟩⟩, ⟨stop, rest⟩)) := by
  subst hlen hsdu hstop
  rw [takePayload, if_neg (by simp), ByteView.split_append]
  rfl

theorem unpackSubpdu_cons (b : UInt8) (bytes : List UInt8) :
    unpackSubpdu ⟨pos, b :: bytes⟩ =
      if !(headerLcid b).isValidLcid then
        .ok (.error s!"Unrecognized lcid={(headerLcid b).val}.")
      else if (headerLcid b).hasLengthField then
        if bytes.length + 1 < (if headerFBit b then 3 else 2) then
          .ok (.error "Not enough bytes remaining in PDU to decode length prefix.")
        else
          (readLengthField (headerFBit b) ⟨pos + 1, bytes⟩).bind fun r =>
            takePayload "SDU" (headerLcid b) (headerFBit b) (bytes.length + 1) r.2.1 r.1 r.2.2
      else if headerLcid b = .padding then
        .ok (.ok (⟨headerLcid b, headerFBit b, 1, ⟨pos + 1, bytes⟩⟩,
          ⟨pos + 1 + bytes.length, []⟩))
      else takePayload "CE" (headerLcid b) (headerFBit b) (bytes.length + 1) 1
        (headerLcid b).sizeofCe ⟨pos + 1, bytes⟩ := rfl

/-- SubPDUs in the format are unpacked. -/
theorem unpackSubpdu_of_encodes (h : s.Encodes bytes)
    (hfirst : s.payload.first = pos + s.headerLength) (hpad : s.lcid = .padding → rest = []) :
    unpackSubpdu ⟨pos, bytes ++ rest⟩ = .ok (.ok (s, ⟨pos + bytes.length, rest⟩)) := by
  cases h with
  | @shortLength _ _ first _ hvalid hfield hf hlen
  | @longLength _ _ _ first _ hvalid hfield hf hlen =>
    dsimp only at hfirst
    subst hfirst
    rw [List.cons_append, unpackSubpdu_cons, hvalid, hfield, hf, if_neg (by decide), if_pos rfl,
      if_neg (by simp)]
    exact takePayload_eq (by simp; omega) hlen (by simp; omega)
  | @padding b first payload hpadding =>
    obtain rfl : first = pos + 1 := hfirst
    obtain rfl := hpad hpadding
    have hvalid : (headerLcid b).isValidLcid = true := by
      rw [hpadding]
      decide
    have hfield : (headerLcid b).hasLengthField = false := by
      rw [hpadding]
      decide
    rw [List.append_nil, unpackSubpdu_cons, hvalid, hfield, if_neg (by decide), if_neg (by decide),
      if_pos hpadding, List.length_cons, Nat.add_assoc, Nat.add_comm 1]
  | @fixedSize b first payload hvalid hfield hne hlen =>
    obtain rfl : first = pos + 1 := hfirst
    rw [List.cons_append, unpackSubpdu_cons, hvalid, hfield, if_neg (by decide), if_neg (by decide),
      if_neg hne]
    exact takePayload_eq (Nat.add_comm _ _) hlen (by simp; omega)

/-- Every subPDU that is unpacked is in the format; nothing is read behind the PDU. -/
theorem unpackSubpdu_cases (pos : Nat) (bytes : List UInt8) :
    (∃ cause, unpackSubpdu ⟨pos, bytes⟩ = .ok (.error cause)) ∨
      ∃ (s : Subpdu) (head rest : List UInt8), bytes = head ++ rest ∧ s.Encodes head ∧
        s.payload.first = pos + s.headerLength ∧ (s.lcid = .padding → rest = []) := by
  cases bytes with
  | nil => exact .inl ⟨_, rfl⟩
  | cons b bytes =>
    rw [unpackSubpdu_cons]
    by_cases hvalid : (headerLcid b).isValidLcid = true
    swap
    · exact .inl ⟨_, if_pos (by simpa using hvalid)⟩
    rw [if_neg (by simp [hvalid])]
    by_cases hfield : (headerLcid b).hasLengthField = true
    · have hne : headerLcid b ≠ .padding := fun h => by
        rw [h] at hfield
        exact absurd hfield (by decide)
      rw [if_pos hfield]
      by_cases hshort : bytes.length + 1 < if headerFBit b then 3 else 2
      · exact .inl ⟨_, if_pos hshort⟩
      rw [if_neg hshort]
      cases hf : headerFBit b with
      | false =>
        match bytes with
        | [] => simp [hf] at hshort
        | l :: bytes =>
          by_cases hfew : bytes.length < l.toNat
          · refine .inl ⟨_, if_pos ?_⟩
            simp only [List.length_cons]
            omega
          · refine .inr ⟨_, _, bytes.drop l.toNat, ?_, .shortLength
              hvalid hfield hf (List.length_take_of_le (Nat.le_of_not_lt hfew)), rfl,
              fun h => absurd h hne⟩
            rw [List.cons_append, List.cons_append, List.take_append_drop]
      | true =>
        match bytes with
        | [] => simp [hf] at hshort
        | [l₀] => simp [hf] at hshort
        | l₀ :: l₁ :: bytes =>
          by_cases hfew : bytes.length < l₀.toNat <<< 8 ||| (l₁.toNat &&& 0xff)
          · refine .inl ⟨_, if_pos ?_⟩
            simp only [List.length_cons]
            omega
          · refine .inr ⟨_, _, bytes.drop (l₀.toNat <<< 8 ||| (l₁.toNat &&& 0xff)), ?_,
              .longLength hvalid hfield hf (List.length_take_of_le (Nat.le_of_not_lt hfew)), rfl,
              fun h => absurd h hne⟩
            rw [List.cons_append, List.cons_append, List.cons_append, List.take_append_drop]
    · rw [if_neg hfield]
      by_cases hpadding : headerLcid b = .padding
      · exact .inr ⟨_, _, [], (List.append_nil _).symm, .padding hpadding, rfl, fun _ => rfl⟩
      rw [if_neg hpadding]
      by_cases hfew : bytes.length < (headerLcid b).sizeofCe
      · exact .inl ⟨_, if_pos (by omega)⟩
      · refine .inr ⟨_, _, bytes.drop (headerLcid b).sizeofCe, ?_,
          .fixedSize hvalid (by simpa using hfield)
          hpadding (List.length_take_of_le (Nat.le_of_not_lt hfew)), rfl,
          fun h => absurd h hpadding⟩
        rw [List.cons_append, List.take_append_drop]

theorem Subpdu.Encodes.ne_nil (h : s.Encodes bytes) : bytes ≠ [] := by
  cases h <;> exact List.cons_ne_nil _ _

/-- The loop splits its bytes in the format, or fails. -/
theorem unpackLoop_cases (room pos : Nat) (bytes : List UInt8) :
    (∃ cause, unpackLoop room ⟨pos, bytes⟩ = .ok (.error cause)) ∨
      ∃ subpdus, unpackLoop room ⟨pos, bytes⟩ = .ok (.ok subpdus) ∧
        Decodes pos room bytes subpdus := by
  induction room generalizing pos bytes with
  | zero => exact .inr ⟨[], rfl, .full pos bytes⟩
  | succ room ih =>
    rw [unpackLoop]
    by_cases hempty : ByteView.length ⟨pos, bytes⟩ = 0
    · obtain rfl : bytes = [] := List.length_eq_zero_iff.1 hempty
      exact .inr ⟨[], rfl, .nil pos _⟩
    rw [if_neg hempty]
    rcases unpackSubpdu_cases pos bytes with ⟨cause, hcause⟩
      | ⟨s, head, rest, rfl, hs, hfirst, hpad⟩
    · rw [hcause]
      exact .inl ⟨cause, rfl⟩
    rw [unpackSubpdu_of_encodes hs hfirst hpad]
    rcases ih (pos + head.length) rest with ⟨cause, hcause⟩ | ⟨subpdus, hrest, hdec⟩
    · refine .inl ⟨cause, ?_⟩
      simp only [bind, Except.bind, hcause]
      rfl
    · refine .inr ⟨s :: subpdus, ?_, .cons hs hfirst hpad hdec⟩
      simp only [bind, Except.bind, hrest]
      rfl

theorem unpackLoop_of_decodes (h : Decodes pos room bytes subpdus) :
    unpackLoop room ⟨pos, bytes⟩ = .ok (.ok subpdus) := by
  induction h with
  | nil pos room =>
    cases room with
    | zero => rfl
    | succ room => rfl
  | full pos bytes => rfl
  | @cons pos room s head rest subpdus hs hfirst hpad _ ih =>
    have hne : ByteView.length ⟨pos, head ++ rest⟩ ≠ 0 := fun h0 =>
      hs.ne_nil (List.append_eq_nil_iff.1 (List.length_eq_zero_iff.1 h0)).1
    rw [unpackLoop, if_neg hne, unpackSubpdu_of_encodes hs hfirst hpad]
    simp only [bind, Except.bind, ih]
    rfl

/-- `unpack` never leaves the PDU. -/
theorem unpack_ok (pdu : List UInt8) : ∃ result, unpack pdu = .ok result := by
  rcases unpackLoop_cases maxSubpdusPerPdu 0 pdu with ⟨cause, h⟩ | ⟨subpdus, h, -⟩
  · exact ⟨_, h⟩
  · exact ⟨_, h⟩

/-- `unpack` succeeds with the subPDUs that the format gives. -/
theorem unpack_eq_ok_iff :
    unpack pdu = .ok (.ok subpdus) ↔ Decodes 0 maxSubpdusPerPdu pdu subpdus := by
  constructor
  · intro h
    rcases unpackLoop_cases maxSubpdusPerPdu 0 pdu with ⟨cause, hcause⟩ | ⟨subpdus', hok, hdec⟩
    · have := hcause.symm.trans h
      cases this
    · obtain rfl : subpdus' = subpdus := by
        have := hok.symm.trans h
        exact Except.ok.inj (Except.ok.inj this)
      exact hdec
  · exact unpackLoop_of_decodes

/-! ## Position of the subPDUs -/

/-- The subPDUs follow each other from `first` to `stop`, each with its header before its
payload. -/
def Tiles : Nat → List Subpdu → Nat → Prop
  | first, [], stop => first = stop
  | first, s :: subpdus, stop =>
    0 < s.headerLength ∧ s.payload.first = first + s.headerLength ∧
      Tiles (s.payload.first + s.payload.length) subpdus stop

theorem Subpdu.Encodes.eq_append (h : s.Encodes bytes) :
    ∃ header, bytes = header ++ s.payload.bytes ∧ header.length = s.headerLength ∧
      0 < s.headerLength := by
  cases h with
  | @shortLength b l => exact ⟨[b, l], rfl, rfl, Nat.zero_lt_succ 1⟩
  | @longLength b l₀ l₁ => exact ⟨[b, l₀, l₁], rfl, rfl, Nat.zero_lt_succ 2⟩
  | @padding b | @fixedSize b => exact ⟨[b], rfl, rfl, Nat.one_pos⟩

/-- Below the limit the subPDUs are all of the bytes. -/
theorem Decodes.tiles (h : Decodes pos room bytes subpdus) (hroom : subpdus.length < room) :
    Tiles pos subpdus (pos + bytes.length) := by
  induction h with
  | nil pos room => rfl
  | full pos bytes => exact absurd hroom (Nat.not_lt_zero _)
  | @cons pos room s head rest subpdus hs hfirst _ _ ih =>
    obtain ⟨header, rfl, hlen, hpos⟩ := hs.eq_append
    have htail := ih (Nat.lt_of_succ_lt_succ hroom)
    have hstop : s.payload.first + s.payload.length =
        pos + (header ++ s.payload.bytes).length := by
      rw [hfirst, List.length_append, hlen, ByteView.length, Nat.add_assoc]
    refine ⟨hpos, hfirst, ?_⟩
    have hend : pos + (header ++ s.payload.bytes ++ rest).length =
        pos + (header ++ s.payload.bytes).length + rest.length := by
      rw [List.length_append, Nat.add_assoc]
    rw [hstop, hend]
    exact htail

/-- The payloads are slices of the PDU. -/
theorem Decodes.isSlice (h : Decodes pos room bytes subpdus) (before : List UInt8)
    (hbefore : before.length = pos) : ∀ s ∈ subpdus, s.payload.IsSlice (before ++ bytes) := by
  induction h generalizing before with
  | nil pos room | full pos bytes => exact nofun
  | @cons pos room s head rest subpdus hs hfirst _ _ ih =>
    intro s' hs'
    rcases List.mem_cons.1 hs' with rfl | hs'
    · obtain ⟨header, rfl, hlen, -⟩ := hs.eq_append
      have hslice := ByteView.isSlice_append (before ++ header) s'.payload.bytes rest
      rw [List.length_append, hbefore, hlen, ← hfirst, List.append_assoc before] at hslice
      rw [List.append_assoc header]
      exact hslice
    · have hrest := ih (before ++ head) (by rw [List.length_append, hbefore]) s' hs'
      rw [List.append_assoc] at hrest
      exact hrest

/-- A control element of fixed size has that size. -/
def Subpdu.Fits (s : Subpdu) : Prop :=
  s.lcid.hasLengthField = false → s.lcid ≠ .padding → s.payload.length = s.lcid.sizeofCe

theorem Decodes.fits (h : Decodes pos room bytes subpdus) : ∀ s ∈ subpdus, s.Fits := by
  induction h with
  | nil pos room | full pos bytes => exact nofun
  | @cons pos room s head rest subpdus hs _ _ _ ih =>
    intro s' hs'
    rcases List.mem_cons.1 hs' with rfl | hs'
    · cases hs with
      | shortLength _ hfield | longLength _ hfield => exact fun hno => by simp [hno] at hfield
      | padding hpadding => exact fun _ hne => absurd hpadding hne
      | fixedSize _ _ _ hlen => exact fun _ _ => hlen
    · exact ih s' hs'

end RadioStack.Mac
