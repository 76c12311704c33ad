import RadioStack.Rlc.AmPdu

/-!
# UM data PDUs

Header of a UMD PDU (`rlc_um_pdu_header`), its reader, its writer and the length that the receiver
strips. A PDU with a full SDU carries no SN. As for AM, the segment offset is read when the
segmentation info says middle or last segment and written when it is non-zero; here the length is
that of the writer. The reader is modelled with the bytes it leaves unread.
-/

namespace RadioStack.Rlc

inductive UmSnSize where
  | size6bits
  | size12bits
  deriving DecidableEq

namespace UmSnSize

def toNumber : UmSnSize → Nat
  | size6bits => 6
  | size12bits => 12

def mod (n : UmSnSize) : Nat := cardinality n.toNumber

def window (n : UmSnSize) : Nat := windowSize n.toNumber

variable (n : UmSnSize)

theorem mod_eq : n.mod = 2 * n.window := by cases n <;> rfl

theorem window_pos : 0 < n.window := by cases n <;> decide

theorem mod_pos : 0 < n.mod := by cases n <;> decide

end UmSnSize

structure UmPduHeader where
  si : SiField
  snSize : UmSnSize
  sn : Nat
  /-- Segment offset (`uint16_t`). -/
  so : Nat
  deriving DecidableEq

namespace Um

/-- The optional part: the segment offset of middle and last segments. -/
def readSo (h : UmPduHeader) (rest : List UInt8) : Option (UmPduHeader × List UInt8) :=
  if h.si = .lastSegment ∨ h.si = .middleSegment then
    match rest with
    | o₁ :: o₀ :: rest =>
      some ({ h with so := (o₁.toNat &&& 0xff) <<< 8 ||| (o₀.toNat &&& 0xff) }, rest)
    | _ => none
  else some (h, rest)

/-- `rlc_um_read_data_pdu_header`, with the bytes that are not read. -/
def readDataPduHeader (n : UmSnSize) (pdu : List UInt8) : Option (UmPduHeader × List UInt8) :=
  match pdu with
  | [] => none
  | b₀ :: rest =>
    let si := SiField.ofNumber ((b₀.toNat >>> 6) &&& 0x03)
    match n with
    | .size6bits =>
      let sn := b₀.toNat &&& 0x3f
      -- reserved bits must not be set
      if si = .fullSdu ∧ sn ≠ 0 then none
      else readSo { si, snSize := n, sn, so := 0 } rest
    | .size12bits =>
      let sn := (b₀.toNat &&& 0x0f) <<< 8
      if si = .fullSdu ∧ sn ≠ 0 then none
      else if si = .firstSegment ∧ (b₀.toNat >>> 4) &&& 0x03 ≠ 0 then none
      else if si ≠ .fullSdu then
        match rest with
        | [] => none
        | b₁ :: rest =>
          readSo { si, snSize := n, sn := sn ||| (b₁.toNat &&& 0xff), so := 0 } rest
      else readSo { si, snSize := n, sn, so := 0 } rest

/-- `rlc_um_nr_packed_length`. -/
def packedLength (h : UmPduHeader) : Nat :=
  if h.si = .fullSdu then 1
  else
    (match h.snSize with
      | .size6bits => 1
      | .size12bits => 2) +
    if h.so ≠ 0 then 2 else 0

/-- `rlc_um_write_data_pdu_header`. -/
def writeDataPduHeader (h : UmPduHeader) : List UInt8 :=
  let si := (h.si.toNumber &&& 0x03) <<< 6
  if h.si = .fullSdu then [.ofNat si]
  else
    (match h.snSize with
      | .size6bits => [.ofNat (si ||| h.sn &&& 0x3f)]
      | .size12bits => [.ofNat (si ||| (h.sn >>> 8) &&& 0xf), .ofNat (h.sn &&& 0xff)]) ++
    (if h.so ≠ 0 then [.ofNat (h.so >>> 8), .ofNat (h.so &&& 0xff)] else [])

/-! ## What the reader accepts -/

def fixedLength (n : UmSnSize) (si : SiField) : Nat :=
  if si = .fullSdu then 1
  else
    match n with
    | .size6bits => 1
    | .size12bits => 2

/-- Bytes of the header as the reader takes them: the offset is there by segmentation info. -/
def readLength (h : UmPduHeader) : Nat :=
  fixedLength h.snSize h.si + if h.si = .lastSegment ∨ h.si = .middleSegment then 2 else 0

/-- What is known of a header that was read. -/
structure Read (n : UmSnSize) (pdu : List UInt8) (h : UmPduHeader) (rest : List UInt8) : Prop where
  snSize : h.snSize = n
  sn_lt : h.sn < n.mod
  so_lt : h.so < 2 ^ 16
  so_eq : ¬ (h.si = .lastSegment ∨ h.si = .middleSegment) → h.so = 0
  length : pdu.length = readLength h + rest.length

variable {n : UmSnSize}

theorem read_of_readSo {pdu rest rest' : List UInt8} {h h' : UmPduHeader}
    (hr : readSo h rest = some (h', rest')) (hsize : h.snSize = n) (hsn : h.sn < n.mod)
    (hso : h.so = 0) (hlen : pdu.length = fixedLength n h.si + rest.length) :
    Read n pdu h' rest' := by
  unfold readSo at hr
  by_cases hsi : h.si = .lastSegment ∨ h.si = .middleSegment
  · rw [if_pos hsi] at hr
    match rest, hlen, hr with
    | o₁ :: o₀ :: rest, hlen, hr =>
      obtain ⟨rfl, rfl⟩ := Prod.mk.inj (Option.some.inj hr)
      refine ⟨hsize, hsn, join_byte_lt (m := 255) Nat.and_le_right o₀,
        fun hno => absurd hsi hno, ?_⟩
      show pdu.length = fixedLength h.snSize h.si +
        (if h.si = .lastSegment ∨ h.si = .middleSegment then 2 else 0) + rest.length
      rw [hlen, hsize, if_pos hsi, List.length_cons, List.length_cons]
      omega
  · rw [if_neg hsi] at hr
    cases hr
    refine ⟨hsize, hsn, hso ▸ Nat.two_pow_pos 16, fun _ => hso, ?_⟩
    rw [hlen, readLength, hsize, if_neg hsi, Nat.add_zero]

variable {h : UmPduHeader}

theorem read_of_readDataPduHeader {pdu rest : List UInt8}
    (hr : readDataPduHeader n pdu = some (h, rest)) : Read n pdu h rest := by
  cases pdu with
  | nil => cases hr
  | cons b₀ rest₀ =>
    have h₀ : b₀.toNat &&& 0x0f ≤ 15 := Nat.and_le_right
    cases n with
    | size6bits =>
      have hb : b₀.toNat &&& 0x3f ≤ 63 := Nat.and_le_right
      simp only [readDataPduHeader] at hr
      split_ifs at hr
      refine read_of_readSo hr rfl (Nat.lt_succ_of_le hb) rfl ?_
      rw [List.length_cons, fixedLength]
      split <;> exact Nat.add_comm _ _
    | size12bits =>
      simp only [readDataPduHeader] at hr
      split at hr
      · cases hr
      split at hr
      · cases hr
      split at hr
      · next hfull =>
        cases rest₀ with
        | nil => cases hr
        | cons b₁ rest₁ =>
          refine read_of_readSo hr rfl (join_byte_lt (m := 15) Nat.and_le_right b₁) rfl ?_
          rw [List.length_cons, List.length_cons, fixedLength, if_neg hfull]
          omega
      · next hfull =>
        refine read_of_readSo hr rfl ?_ rfl ?_
        · show (b₀.toNat &&& 0x0f) <<< 8 < 4096
          omega
        · rw [List.length_cons, fixedLength, if_pos (not_not.1 hfull)]
          exact Nat.add_comm _ _

theorem packedLength_eq (h : UmPduHeader) :
    packedLength h = fixedLength h.snSize h.si + if h.si ≠ .fullSdu ∧ h.so ≠ 0 then 2 else 0 := by
  unfold packedLength fixedLength
  by_cases hsi : h.si = .fullSdu
  · simp [hsi]
  · simp only [hsi, if_false, ne_eq, not_false_eq_true, true_and]

/-- The length that the receiver strips is the one that was read, unless a middle or last segment
has offset 0. -/
theorem readLength_eq_packedLength_iff {pdu rest : List UInt8} (hr : Read n pdu h rest) :
    readLength h = packedLength h ↔
      ¬ ((h.si = .lastSegment ∨ h.si = .middleSegment) ∧ h.so = 0) := by
  rw [packedLength_eq, readLength, Nat.add_left_cancel_iff]
  by_cases hsi : h.si = .lastSegment ∨ h.si = .middleSegment
  · have hfull : h.si ≠ .fullSdu := by
      rcases hsi with hsi | hsi <;> rw [hsi] <;> decide
    rw [if_pos hsi]
    by_cases hso : h.so = 0
    · simp [hsi, hso]
    · simp [hfull, hso]
  · simp [hsi, hr.so_eq hsi]

/-! ## Round trip -/

/-- Headers whose segment offset is written exactly when it is read. -/
structure Coherent (h : UmPduHeader) : Prop where
  sn_lt : h.sn < h.snSize.mod
  so_lt : h.so < 2 ^ 16
  so_iff : h.so ≠ 0 ↔ h.si = .lastSegment ∨ h.si = .middleSegment

theorem firstByte_fields (si : SiField) (hi : Fin 64) :
    let b := (UInt8.ofNat ((si.toNumber &&& 0x03) <<< 6 ||| hi.val)).toNat
    SiField.ofNumber ((b >>> 6) &&& 0x03) = si ∧ b &&& 0x3f = hi.val := by
  revert hi
  cases si <;> decide

theorem firstByte_fields_12 (si : SiField) (hi : Fin 16) :
    let b := (UInt8.ofNat ((si.toNumber &&& 0x03) <<< 6 ||| hi.val)).toNat
    SiField.ofNumber ((b >>> 6) &&& 0x03) = si ∧ b &&& 0x0f = hi.val ∧
      (b >>> 4) &&& 0x03 = 0 := by
  revert hi
  cases si <;> decide

theorem readSo_write (hc : Coherent h) (payload : List UInt8) :
    readSo { h with so := 0 }
      ((if h.so ≠ 0 then [.ofNat (h.so >>> 8), .ofNat (h.so &&& 0xff)] else []) ++ payload) =
      some (h, payload) := by
  unfold readSo
  by_cases hso : h.so ≠ 0
  · rw [if_pos (hc.so_iff.1 hso), if_pos hso]
    simp only [List.cons_append, join_two_bytes hc.so_lt]
    rfl
  · rw [if_neg (fun hsi => hso (hc.so_iff.2 hsi))]
    have hzero : h.so = 0 := not_not.1 hso
    simp [← hzero]

theorem readDataPduHeader_write (hc : Coherent h) (hsi : h.si ≠ .fullSdu) (payload : List UInt8) :
    readDataPduHeader h.snSize (writeDataPduHeader h ++ payload) = some (h, payload) := by
  have hsn := hc.sn_lt
  have hso := readSo_write hc payload
  obtain ⟨si, n, sn, so⟩ := h
  unfold writeDataPduHeader
  simp only [if_neg hsi]
  cases n with
  | size6bits =>
    obtain ⟨h₁, h₂⟩ := firstByte_fields si ⟨sn, hsn⟩
    have hlow : sn &&& 0x3f = sn :=
      (Nat.and_two_pow_sub_one_eq_mod sn 6).trans (Nat.mod_eq_of_lt hsn)
    simp only [List.cons_append, List.nil_append, readDataPduHeader, hlow]
    rw [h₁, h₂, if_neg (fun hno => hsi hno.1)]
    exact hso
  | size12bits =>
    have hsn : sn < 4096 := hsn
    have hhi : sn / 256 < 16 := by omega
    obtain ⟨h₁, h₂, h₃⟩ := firstByte_fields_12 si ⟨sn / 256, hhi⟩
    have hnib : (sn >>> 8) &&& 0xf = sn / 256 := shiftRight_and_of_lt (w := 4) hhi
    simp only [List.cons_append, List.nil_append, readDataPduHeader, hnib]
    rw [h₁, h₂, h₃, join_low_byte, if_neg (fun hno => hsi hno.1), if_neg (fun hno => hno.2 rfl),
      if_pos hsi]
    exact hso

/-- A full SDU is announced without its SN. -/
theorem readDataPduHeader_write_full (hsi : h.si = .fullSdu) (payload : List UInt8) :
    readDataPduHeader h.snSize (writeDataPduHeader h ++ payload) =
      some ({ h with sn := 0, so := 0 }, payload) := by
  obtain ⟨si, n, sn, so⟩ := h
  obtain rfl : si = .fullSdu := hsi
  cases n <;> simp [writeDataPduHeader, readDataPduHeader, readSo, SiField.toNumber,
    SiField.ofNumber]

/-- A header is read back unless it has an SN that a full SDU does not carry. -/
theorem readDataPduHeader_write_iff (hc : Coherent h) (payload : List UInt8) :
    (readDataPduHeader h.snSize (writeDataPduHeader h ++ payload)).map Prod.fst = some h ↔
      ¬ (h.si = .fullSdu ∧ h.sn ≠ 0) := by
  by_cases hsi : h.si = .fullSdu
  · have hso : h.so = 0 := not_not.1 fun hso => by
      rcases hc.so_iff.1 hso with hlast | hmiddle
      · cases hsi.symm.trans hlast
      · cases hsi.symm.trans hmiddle
    rw [readDataPduHeader_write_full hsi]
    obtain ⟨si, n, sn, so⟩ := h
    obtain rfl : so = 0 := hso
    obtain rfl : si = .fullSdu := hsi
    simp [eq_comm]
  · rw [readDataPduHeader_write hc hsi payload]
    exact iff_of_true rfl fun hno => hsi hno.1

end Um

end RadioStack.Rlc
