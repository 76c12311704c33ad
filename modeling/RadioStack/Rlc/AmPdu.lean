import Mathlib.Tactic.SplitIfs
import Mathlib.Algebra.GroupWithZero.Nat
import Mathlib.Tactic.Set

/-!
# AM data PDUs

Header of an AMD PDU (`rlc_am_pdu_header`), its reader and its writer. The segment offset is
written when it is non-zero and read when the segmentation info says middle or last segment.

**Theorem (`readDataPduHeader_write`).** A header in which these two conditions agree is read back
from what the writer produced, for both SN sizes.
-/

namespace RadioStack.Rlc

/-- Value range of sequence numbers of the given length in bits. -/
def cardinality (snSize : Nat) : Nat := 1 <<< snSize

/-- AM_Window_Size and UM_Window_Size. -/
def windowSize (snSize : Nat) : Nat := cardinality (snSize - 1)

/-- Reserved number representing an invalid RLC sequence number. -/
def invalidRlcSn : Nat := 0xffffffff

inductive AmSnSize where
  | size12bits
  | size18bits
  deriving DecidableEq

namespace AmSnSize

def toNumber : AmSnSize → Nat
  | size12bits => 12
  | size18bits => 18

def mod (n : AmSnSize) : Nat := cardinality n.toNumber

def window (n : AmSnSize) : Nat := windowSize n.toNumber

variable (n : AmSnSize)

theorem mod_eq : n.mod = 2 * n.window := by cases n <;> rfl

theorem mod_dvd : n.mod ∣ 2 ^ 32 := by cases n <;> decide

theorem window_pos : 0 < n.window := by cases n <;> decide

theorem mod_pos : 0 < n.mod := by cases n <;> decide

/-- Both window sizes exceed the largest NACK range. -/
theorem range_lt_window : 255 < n.window := by cases n <;> decide

theorem mod_lt_invalid : n.mod < invalidRlcSn := by cases n <;> decide

end AmSnSize

inductive SiField where
  | fullSdu
  | firstSegment
  | lastSegment
  | middleSegment
  deriving DecidableEq

namespace SiField

def toNumber : SiField → Nat
  | fullSdu => 0b00
  | firstSegment => 0b01
  | lastSegment => 0b10
  | middleSegment => 0b11

def ofNumber : Nat → SiField
  | 0 => fullSdu
  | 1 => firstSegment
  | 2 => lastSegment
  | _ => middleSegment

end SiField

inductive DcField where
  | control
  | data
  deriving DecidableEq

def DcField.toNumber : DcField → Nat
  | control => 0
  | data => 1

def DcField.ofNumber : Nat → DcField
  | 0 => control
  | _ => data

structure AmPduHeader where
  dc : DcField
  /-- Polling bit. -/
  p : Bool
  si : SiField
  snSize : AmSnSize
  sn : Nat
  /-- Segment offset (`uint16_t`). -/
  so : Nat
  deriving DecidableEq

def amPduHeaderMinSize : AmSnSize → Nat
  | .size12bits => 2
  | .size18bits => 3

def amPduHeaderMaxSize (n : AmSnSize) : Nat := amPduHeaderMinSize n + 2

def AmPduHeader.packedSize (h : AmPduHeader) : Nat :=
  if h.si = .lastSegment ∨ h.si = .middleSegment then amPduHeaderMaxSize h.snSize
  else amPduHeaderMinSize h.snSize

/-- The optional part, the segment offset of middle and last segments, with the bytes that are not
read. -/
def scanSo (h : AmPduHeader) (rest : List UInt8) : Option (AmPduHeader × List UInt8) :=
  if h.si = .lastSegment ∨ h.si = .middleSegment then
    match rest with
    | o₁ :: o₀ :: rest =>
      some ({ h with so := (o₁.toNat &&& 0xff) <<< 8 ||| (o₀.toNat &&& 0xff) }, rest)
    | _ => none
  else some (h, rest)

/-- `rlc_am_read_data_pdu_header`, with the bytes that are not read. -/
def scanDataPduHeader (n : AmSnSize) (pdu : List UInt8) : Option (AmPduHeader × List UInt8) :=
  if pdu.length ≤ amPduHeaderMinSize n then none
  else
    match n, pdu with
    | .size12bits, b₀ :: b₁ :: rest =>
      scanSo
        { dc := .ofNumber ((b₀.toNat >>> 7) &&& 0x01), p := (b₀.toNat >>> 6) &&& 0x01 != 0
          si := .ofNumber ((b₀.toNat >>> 4) &&& 0x03), snSize := n
          sn := (b₀.toNat &&& 0x0f) <<< 8 ||| (b₁.toNat &&& 0xff), so := 0 } rest
    | .size18bits, b₀ :: b₁ :: b₂ :: rest =>
      -- reserved bits must not be set
      if b₀.toNat &&& 0x0c ≠ 0 then none
      else
        scanSo
          { dc := .ofNumber ((b₀.toNat >>> 7) &&& 0x01), p := (b₀.toNat >>> 6) &&& 0x01 != 0
            si := .ofNumber ((b₀.toNat >>> 4) &&& 0x03), snSize := n
            sn := (b₀.toNat &&& 0x03) <<< 16 ||| (b₁.toNat &&& 0xff) <<< 8 ||| (b₂.toNat &&& 0xff)
            so := 0 } rest
    | _, _ => none

def readDataPduHeader (n : AmSnSize) (pdu : List UInt8) : Option AmPduHeader :=
  (scanDataPduHeader n pdu).map Prod.fst

/-- D/C field, polling bit and segmentation info: the upper four bits of the first byte. -/
def AmPduHeader.fixedPart (h : AmPduHeader) : Nat :=
  (h.dc.toNumber &&& 0x01) <<< 7 ||| (h.p.toNat &&& 0x01) <<< 6 ||| (h.si.toNumber &&& 0x03) <<< 4

def writeDataPduHeader (h : AmPduHeader) : List UInt8 :=
  (match h.snSize with
    | .size12bits =>
      [.ofNat (h.fixedPart ||| (h.sn >>> 8) &&& 0x0f), .ofNat (h.sn &&& 0xff)]
    | .size18bits =>
      [.ofNat (h.fixedPart ||| (h.sn >>> 16) &&& 0x3), .ofNat (h.sn >>> 8),
        .ofNat (h.sn &&& 0xff)]) ++
  (if h.so ≠ 0 then [.ofNat (h.so >>> 8), .ofNat (h.so &&& 0xff)] else [])

/-! ## Round trip -/

/-- Headers whose segment offset is written exactly when it is read. -/
structure AmPduHeader.Coherent (h : AmPduHeader) : Prop where
  sn_lt : h.sn < h.snSize.mod
  so_lt : h.so < 2 ^ 16
  so_iff : h.so ≠ 0 ↔ h.si = .lastSegment ∨ h.si = .middleSegment

theorem and_ff (x : Nat) : x &&& 0xff = x % 2 ^ 8 := Nat.and_two_pow_sub_one_eq_mod x 8

theorem toNat_ofNat_and_ff (x : Nat) : (UInt8.ofNat x).toNat &&& 0xff = x % 2 ^ 8 := by
  rw [and_ff, UInt8.toNat_ofNat']
  omega

theorem shift_or_byte (hi lo : Nat) (h : lo < 2 ^ 8) : hi <<< 8 ||| lo = hi * 256 + lo := by
  rw [← Nat.shiftLeft_add_eq_or_of_lt h, Nat.shiftLeft_eq]

theorem join_byte_lt {hi m : Nat} (h : hi ≤ m) (b : UInt8) :
    hi <<< 8 ||| (b.toNat &&& 0xff) < (m + 1) * 256 := by
  have hb : b.toNat &&& 0xff ≤ 255 := Nat.and_le_right
  rw [shift_or_byte _ _ (by omega)]
  omega

theorem join_low_byte (x : Nat) :
    (x / 256) <<< 8 ||| ((UInt8.ofNat (x &&& 0xff)).toNat &&& 0xff) = x := by
  rw [toNat_ofNat_and_ff, and_ff, shift_or_byte _ _ (Nat.mod_lt _ (by decide))]
  omega

theorem join_two_bytes {x : Nat} (h : x < 2 ^ 16) :
    ((UInt8.ofNat (x >>> 8)).toNat &&& 0xff) <<< 8 |||
      ((UInt8.ofNat (x &&& 0xff)).toNat &&& 0xff) = x := by
  have hhi : x / 2 ^ 8 < 2 ^ 8 := by omega
  rw [toNat_ofNat_and_ff, Nat.shiftRight_eq_div_pow, Nat.mod_eq_of_lt hhi]
  exact join_low_byte x

theorem shiftRight_and_of_lt {x k w : Nat} (h : x / 2 ^ k < 2 ^ w) :
    (x >>> k) &&& (2 ^ w - 1) = x / 2 ^ k := by
  rw [Nat.shiftRight_eq_div_pow, Nat.and_two_pow_sub_one_eq_mod, Nat.mod_eq_of_lt h]

theorem fixedPart_fields (dc : DcField) (p : Bool) (si : SiField) (hi : Fin 16) :
    let b := (UInt8.ofNat ((dc.toNumber &&& 0x01) <<< 7 ||| (p.toNat &&& 0x01) <<< 6 |||
      (si.toNumber &&& 0x03) <<< 4 ||| hi.val)).toNat
    DcField.ofNumber ((b >>> 7) &&& 0x01) = dc ∧ ((b >>> 6) &&& 0x01 != 0) = p ∧
      SiField.ofNumber ((b >>> 4) &&& 0x03) = si ∧ b &&& 0x0f = hi.val := by
  revert hi
  cases dc <;> cases p <;> cases si <;> decide

theorem scanSo_fields {h h' : AmPduHeader} {rest rest' : List UInt8} (hso : h.so = 0)
    (hr : scanSo h rest = some (h', rest')) : h'.sn = h.sn ∧ h'.so < 2 ^ 16 := by
  unfold scanSo at hr
  split at hr
  · split at hr
    · next o₁ o₀ _ =>
      cases hr
      exact ⟨rfl, join_byte_lt (m := 255) Nat.and_le_right o₀⟩
    · cases hr
  · cases hr
    exact ⟨rfl, hso ▸ Nat.two_pow_pos 16⟩

variable {h : AmPduHeader}

/-- Every header read carries an SN of the SN size and an offset of 16 bits. -/
theorem readDataPduHeader_fields {n : AmSnSize} {pdu : List UInt8}
    (hr : readDataPduHeader n pdu = some h) : h.sn < n.mod ∧ h.so < 2 ^ 16 := by
  obtain ⟨⟨_, rest'⟩, hscan, rfl⟩ := Option.map_eq_some_iff.1 hr
  unfold scanDataPduHeader at hscan
  split_ifs at hscan
  split at hscan
  · next b₀ b₁ rest _ =>
    obtain ⟨hsn, hso⟩ := scanSo_fields rfl hscan
    refine ⟨?_, hso⟩
    rw [hsn]
    exact join_byte_lt (m := 15) Nat.and_le_right b₁
  · next b₀ b₁ b₂ rest _ =>
    split_ifs at hscan
    obtain ⟨hsn, hso⟩ := scanSo_fields rfl hscan
    have h₀ : b₀.toNat &&& 0x03 ≤ 3 := Nat.and_le_right
    have h₁ : b₁.toNat &&& 0xff ≤ 255 := Nat.and_le_right
    have h₂ : b₂.toNat &&& 0xff ≤ 255 := Nat.and_le_right
    refine ⟨?_, hso⟩
    rw [hsn]
    refine Nat.or_lt_two_pow (n := 18) (Nat.or_lt_two_pow ?_ ?_) (by omega)
    · omega
    · omega
  · cases hscan

theorem readDataPduHeader_sn_lt {n : AmSnSize} {pdu : List UInt8}
    (hr : readDataPduHeader n pdu = some h) : h.sn < n.mod := (readDataPduHeader_fields hr).1

theorem scanSo_write (hc : h.Coherent) (payload : List UInt8) :
    scanSo { h with so := 0 }
      ((if h.so ≠ 0 then [.ofNat (h.so >>> 8), .ofNat (h.so &&& 0xff)] else []) ++ payload) =
      some (h, payload) := by
  unfold scanSo
  by_cases hso : h.so ≠ 0
  · rw [if_pos (hc.so_iff.1 hso), if_pos hso]
    simp only [List.cons_append, List.nil_append, join_two_bytes hc.so_lt]
  · rw [if_neg (fun hsi => hso (hc.so_iff.2 hsi))]
    have : h.so = 0 := not_not.1 hso
    simp [← this]

/-- A written header is read back, and the payload is left. -/
theorem scanDataPduHeader_write (hc : h.Coherent) {payload : List UInt8} (hp : payload ≠ []) :
    scanDataPduHeader h.snSize (writeDataPduHeader h ++ payload) = some (h, payload) := by
  have hsn := hc.sn_lt
  have hso := scanSo_write hc payload
  have hlen : 0 < payload.length := List.length_pos_iff.2 hp
  obtain ⟨dc, p, si, n, sn, so⟩ := h
  unfold scanDataPduHeader writeDataPduHeader
  cases n with
  | size12bits =>
    have hsn : sn < 4096 := hsn
    have hhi : sn / 256 < 16 := by omega
    have hnib : (sn >>> 8) &&& 0x0f = sn / 256 := shiftRight_and_of_lt (w := 4) hhi
    obtain ⟨h₁, h₂, h₃, h₄⟩ := fixedPart_fields dc p si ⟨sn / 256, hhi⟩
    rw [if_neg (by simp only [List.length_append, List.length_cons, amPduHeaderMinSize]; omega)]
    simp only [List.cons_append, List.nil_append, AmPduHeader.fixedPart, hnib]
    rw [h₁, h₂, h₃, h₄, join_low_byte]
    exact hso
  | size18bits =>
    have hsn : sn < 262144 := hsn
    have hhi : sn / 65536 < 16 := by omega
    have hnib : (sn >>> 16) &&& 0x3 = sn / 65536 :=
      shiftRight_and_of_lt (k := 16) (w := 2) (by omega)
    obtain ⟨h₁, h₂, h₃, h₄⟩ := fixedPart_fields dc p si ⟨sn / 65536, hhi⟩
    rw [if_neg (by simp only [List.length_append, List.length_cons, amPduHeaderMinSize]; omega)]
    simp only [List.cons_append, List.nil_append, AmPduHeader.fixedPart, hnib]
    set b := (UInt8.ofNat ((dc.toNumber &&& 0x01) <<< 7 ||| (p.toNat &&& 0x01) <<< 6 |||
      (si.toNumber &&& 0x03) <<< 4 ||| sn / 65536)).toNat
    -- the reserved bits and the upper SN bits are parts of the lower nibble
    have hand : ∀ m, m &&& 0x0f = m → b &&& m = sn / 65536 &&& m := by
      intro m hm
      have h₄ : b &&& 0x0f = sn / 65536 := h₄
      rw [← h₄, Nat.and_assoc, Nat.and_comm 0x0f m, hm]
    have hsmall : ∀ x : Fin 4, x.val &&& 0x0c = 0 ∧ x.val &&& 0x03 = x.val := by decide
    obtain ⟨hz, hx⟩ := hsmall ⟨sn / 65536, by omega⟩
    have hmid : (sn / 65536) <<< 16 ||| ((UInt8.ofNat (sn >>> 8)).toNat &&& 0xff) <<< 8 =
        (sn / 256) <<< 8 := by
      rw [toNat_ofNat_and_ff, show (16 : Nat) = 8 + 8 from rfl, Nat.shiftLeft_add,
        ← Nat.shiftLeft_or_distrib, shift_or_byte _ _ (Nat.mod_lt _ (by decide)),
        Nat.shiftRight_eq_div_pow]
      congr 1
      omega
    rw [h₁, h₂, h₃, hand 0x0c rfl, hand 0x03 rfl, hz, hx, if_neg (by simp), hmid, join_low_byte]
    exact hso

theorem readDataPduHeader_write (hc : h.Coherent) {payload : List UInt8} (hp : payload ≠ []) :
    readDataPduHeader h.snSize (writeDataPduHeader h ++ payload) = some h :=
  congrArg (Option.map Prod.fst) (scanDataPduHeader_write hc hp)

end RadioStack.Rlc
