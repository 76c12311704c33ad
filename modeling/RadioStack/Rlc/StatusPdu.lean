import RadioStack.Rlc.AmPdu
import Mathlib.Data.List.Basic

/-!
# AM status PDUs

A status PDU (`rlc_am_status_pdu`) carries an ACK_SN and a list of NACKs. `push_nack` merges a
NACK into the previous one where both form a continuous sequence, `trim` drops NACKs from the back
until the PDU fits a grant, and `pack`/`unpack` are the wire format for both SN sizes.

**Theorem (`unpack_pack`).** Unpacking a packed status PDU yields its ACK_SN, reduced to the SN
size, and its NACKs, pushed again one by one.

**Theorem (`unpack_wellFormed`).** All fields of an accepted status PDU are within the bounds of
the wire format, also after NACKs have been merged.
-/

namespace RadioStack.Rlc

/-- NACK up to the end of the SDU. -/
def soEndOfSdu : Nat := 0xffff

structure StatusNack where
  /-- SN of the first missing SDU. -/
  nackSn : Nat := 0
  /-- NACKs the bytes `soStart..soEnd`. -/
  hasSo : Bool := false
  soStart : Nat := 0
  soEnd : Nat := soEndOfSdu
  /-- NACKs a continuous sequence of SDUs. -/
  hasNackRange : Bool := false
  nackRange : Nat := 0
  deriving DecidableEq

/-- Number of SNs of a NACK. -/
def StatusNack.span (x : StatusNack) : Nat := if x.hasNackRange then x.nackRange else 1

/-- AM status PDU. `packedSize` is kept in sync with `nacks`. -/
structure StatusPdu where
  snSize : AmSnSize
  ackSn : Nat := invalidRlcSn
  nacks : List StatusNack := []
  packedSize : Nat := 3
  deriving DecidableEq

namespace StatusPdu

def reset (s : StatusPdu) : StatusPdu := { snSize := s.snSize }

/-! ## Building -/

def canBeMerged (s : StatusPdu) (left right : StatusNack) : Bool :=
  -- SN must be continuous
  right.nackSn = (if left.hasNackRange then left.nackSn + left.nackRange else left.nackSn + 1) %
      s.snSize.mod &&
    -- segments on the left must reach the end of the SDU
    !(left.hasSo && left.soEnd != soEndOfSdu) &&
    -- segments on the right must start from the beginning
    !(right.hasSo && right.soStart != 0) &&
    (if left.hasNackRange then left.nackRange else 1) +
        (if right.hasNackRange then right.nackRange else 1) ≤ 255

def nackSize (n : AmSnSize) (nack : StatusNack) : Nat :=
  (match n with | .size12bits => 2 | .size18bits => 3) + (if nack.hasSo then 4 else 0) +
    (if nack.hasNackRange then 1 else 0)

/-- The NACK that replaces `prev` when `nack` is merged into it. -/
def mergeNack (prev nack : StatusNack) : StatusNack :=
  let prev :=
    { prev with
      nackRange := (if prev.hasNackRange then prev.nackRange else 1) +
        (if nack.hasNackRange then nack.nackRange else 1)
      hasNackRange := true }
  if nack.hasSo then
    let prev := if !prev.hasSo then { prev with hasSo := true, soStart := 0 } else prev
    { prev with soEnd := nack.soEnd }
  else if prev.hasSo then { prev with soEnd := soEndOfSdu }
  else prev

def pushNack (s : StatusPdu) (nack : StatusNack) : StatusPdu :=
  match s.nacks.getLast? with
  | none =>
    { s with nacks := s.nacks ++ [nack], packedSize := s.packedSize + nackSize s.snSize nack }
  | some prev =>
    if s.canBeMerged prev nack then
      let merged := mergeNack prev nack
      { s with
        nacks := s.nacks.dropLast ++ [merged]
        packedSize := s.packedSize - nackSize s.snSize prev + nackSize s.snSize merged }
    else
      { s with nacks := s.nacks ++ [nack], packedSize := s.packedSize + nackSize s.snSize nack }

/-! ## Trimming -/

/-- The loop of `trim`, on the NACKs from the back. -/
def trimLoop (n : AmSnSize) (maxPackedSize : Nat) :
    List StatusNack → Nat → Nat → List StatusNack × Nat × Nat
  | [], packedSize, ackSn => ([], packedSize, ackSn)
  | nack :: nacks, packedSize, ackSn =>
    if maxPackedSize < packedSize ∨ nack.nackSn = ackSn then
      trimLoop n maxPackedSize nacks (packedSize - nackSize n nack) nack.nackSn
    else (nack :: nacks, packedSize, ackSn)

/-- `trim`: `none` if not even the fixed part fits. -/
def trim (s : StatusPdu) (maxPackedSize : Nat) : Option StatusPdu :=
  if maxPackedSize ≥ s.packedSize then some s
  else if maxPackedSize < 3 then none
  else
    let (nacks, packedSize, ackSn) :=
      trimLoop s.snSize maxPackedSize s.nacks.reverse s.packedSize s.ackSn
    some { s with nacks := nacks.reverse, packedSize := packedSize, ackSn := ackSn }

/-! ## Packing -/

def flag (b : Bool) (mask : Nat) : Nat := if b then mask else 0

def packNackOptions (nack : StatusNack) : List UInt8 :=
  (if nack.hasSo then
    [.ofNat (nack.soStart >>> 8), .ofNat nack.soStart, .ofNat (nack.soEnd >>> 8),
      .ofNat nack.soEnd]
  else []) ++
  (if nack.hasNackRange then [.ofNat nack.nackRange] else [])

/-- One NACK; `more` is the E1 flag. -/
def packNack (n : AmSnSize) (nack : StatusNack) (more : Bool) : List UInt8 :=
  (match n with
    | .size12bits =>
      [.ofNat ((nack.nackSn >>> 4) &&& 0xff),
        .ofNat ((nack.nackSn &&& 0x0f) <<< 4 ||| flag more 0x08 ||| flag nack.hasSo 0x04 |||
          flag nack.hasNackRange 0x02)]
    | .size18bits =>
      [.ofNat ((nack.nackSn >>> 10) &&& 0xff), .ofNat ((nack.nackSn >>> 2) &&& 0xff),
        .ofNat ((nack.nackSn <<< 6) &&& 0xc0 ||| flag more 0x20 ||| flag nack.hasSo 0x10 |||
          flag nack.hasNackRange 0x08)]) ++
  packNackOptions nack

def packNacks (n : AmSnSize) : List StatusNack → List UInt8
  | [] => []
  | nack :: nacks => packNack n nack (!nacks.isEmpty) ++ packNacks n nacks

def pack (s : StatusPdu) : List UInt8 :=
  (match s.snSize with
    | .size12bits =>
      [.ofNat ((s.ackSn >>> 8) &&& 0x0f), .ofNat (s.ackSn &&& 0xff),
        .ofNat (flag (!s.nacks.isEmpty) 0x80)]
    | .size18bits =>
      [.ofNat ((s.ackSn >>> 14) &&& 0x0f), .ofNat ((s.ackSn >>> 6) &&& 0xff),
        .ofNat ((s.ackSn <<< 2) &&& 0xfc ||| flag (!s.nacks.isEmpty) 0x02)]) ++
  packNacks s.snSize s.nacks

/-! ## Unpacking -/

def isControlPdu (pdu : List UInt8) : Bool :=
  match pdu with
  | b :: _ => (b.toNat >>> 7) &&& 0x01 == DcField.control.toNumber
  | [] => false

/-- Reads the segment offsets if E2 and the NACK range if E3 is set. -/
def readNackOptions (nack : StatusNack) (e₂ e₃ : Bool) (rest : List UInt8) :
    Option (StatusNack × List UInt8) := do
  let (nack, rest) ←
    if e₂ then
      match rest with
      | a₁ :: a₀ :: b₁ :: b₀ :: rest =>
        some ({ nack with
          hasSo := true
          soStart := a₁.toNat <<< 8 ||| a₀.toNat
          soEnd := b₁.toNat <<< 8 ||| b₀.toNat }, rest)
      | _ => none
    else some (nack, rest)
  if e₃ then
    match rest with
    | r :: rest => some ({ nack with hasNackRange := true, nackRange := r.toNat }, rest)
    | _ => none
  else some (nack, rest)

/-- Reads one NACK; also yields its E1 flag and the remaining bytes. -/
def readNack (n : AmSnSize) (pdu : List UInt8) : Option (StatusNack × Bool × List UInt8) :=
  match n, pdu with
  | .size12bits, b₁ :: b₂ :: rest =>
    if b₂.toNat &&& 0x01 ≠ 0 then none
    else do
      let (nack, rest) ← readNackOptions
        { nackSn := (b₁.toNat &&& 0xff) <<< 4 ||| (b₂.toNat &&& 0xf0) >>> 4 }
        (b₂.toNat &&& 0x04 != 0) (b₂.toNat &&& 0x02 != 0) rest
      some (nack, b₂.toNat &&& 0x08 != 0, rest)
  | .size18bits, b₁ :: b₂ :: b₃ :: rest =>
    if b₃.toNat &&& 0x07 ≠ 0 then none
    else do
      let (nack, rest) ← readNackOptions
        { nackSn := (b₁.toNat &&& 0xff) <<< 10 ||| (b₂.toNat &&& 0xff) <<< 2 |||
            (b₃.toNat &&& 0xc0) >>> 6 }
        (b₃.toNat &&& 0x10 != 0) (b₃.toNat &&& 0x08 != 0) rest
      some (nack, b₃.toNat &&& 0x20 != 0, rest)
  | _, _ => none

/-- The loop over NACKs. Every NACK takes at least one byte, so `fuel` can be the number of bytes.
-/
def readNacks : Nat → StatusPdu → List UInt8 → Option StatusPdu
  | 0, _, _ => none
  | fuel + 1, s, pdu => do
    let (nack, e₁, rest) ← readNack s.snSize pdu
    if e₁ then readNacks fuel (s.pushNack nack) rest else some (s.pushNack nack)

/-- `unpack`: `none` where the source returns false. -/
def unpack (n : AmSnSize) (pdu : List UInt8) : Option StatusPdu :=
  match pdu with
  | b₀ :: b₁ :: b₂ :: rest =>
    if !isControlPdu pdu then none
    -- control PDU type must be status PDU
    else if (b₀.toNat >>> 4) &&& 0x07 ≠ 0 then none
    else
      let (ackSn, e₁, reserved) :=
        match n with
        | .size12bits => ((b₀.toNat &&& 0x0f) <<< 8 ||| (b₁.toNat &&& 0xff),
            b₂.toNat &&& 0x80 != 0, b₂.toNat &&& 0x7f)
        | .size18bits => ((b₀.toNat &&& 0x0f) <<< 14 ||| (b₁.toNat &&& 0xff) <<< 6 |||
            (b₂.toNat &&& 0xfc) >>> 2, b₂.toNat &&& 0x02 != 0, b₂.toNat &&& 0x01)
      if reserved ≠ 0 then none
      else if e₁ then readNacks pdu.length { snSize := n, ackSn := ackSn } rest
      else some { snSize := n, ackSn := ackSn }
  | _ => none

/-! ## Round trip -/

/-- NACKs whose fields fit their wire format; absent options have their default values. -/
structure WellFormedNack (n : AmSnSize) (nack : StatusNack) : Prop where
  sn_lt : nack.nackSn < n.mod
  start_lt : nack.soStart < 2 ^ 16
  end_lt : nack.soEnd < 2 ^ 16
  range_lt : nack.nackRange < 2 ^ 8
  so_default : nack.hasSo = false → nack.soStart = 0 ∧ nack.soEnd = soEndOfSdu
  range_default : nack.hasNackRange = false → nack.nackRange = 0

theorem join_bytes {x : Nat} (h : x < 2 ^ 16) :
    (UInt8.ofNat (x >>> 8)).toNat <<< 8 ||| (UInt8.ofNat x).toNat = x := by
  rw [shift_or_byte _ _ (UInt8.toNat_lt _), UInt8.toNat_ofNat', UInt8.toNat_ofNat',
    Nat.shiftRight_eq_div_pow]
  omega

variable {n : AmSnSize} {nack : StatusNack}

theorem readNackOptions_pack (h : WellFormedNack n nack) (rest : List UInt8) :
    readNackOptions { nackSn := nack.nackSn } nack.hasSo nack.hasNackRange
      (packNackOptions nack ++ rest) = some (nack, rest) := by
  obtain ⟨-, hstart, hend, hrange, hso, hrg⟩ := h
  obtain ⟨sn, hasSo, soStart, soEnd, hasRange, range⟩ := nack
  have hr : (UInt8.ofNat range).toNat = range := by
    exact Nat.mod_eq_of_lt hrange
  cases hasSo with
  | false =>
    obtain ⟨rfl, rfl⟩ := hso rfl
    cases hasRange with
    | false =>
      obtain rfl : range = 0 := hrg rfl
      rfl
    | true => simp [readNackOptions, packNackOptions, hr]
  | true =>
    have hs := join_bytes hstart
    have he := join_bytes hend
    cases hasRange with
    | false =>
      obtain rfl : range = 0 := hrg rfl
      simp only [readNackOptions, packNackOptions, if_true, List.cons_append, List.nil_append, hs,
        he]
      rfl
    | true =>
      simp only [readNackOptions, packNackOptions, if_true, List.cons_append, List.nil_append, hs,
        he, Option.bind_eq_bind, Option.bind_some, hr]

theorem nackByte12 (lo : Fin 16) (e₁ e₂ e₃ : Bool) :
    let b := (UInt8.ofNat (lo.val <<< 4 ||| flag e₁ 0x08 ||| flag e₂ 0x04 ||| flag e₃ 0x02)).toNat
    b &&& 0x01 = 0 ∧ (b &&& 0xf0) >>> 4 = lo.val ∧ (b &&& 0x08 != 0) = e₁ ∧
      (b &&& 0x04 != 0) = e₂ ∧ (b &&& 0x02 != 0) = e₃ := by
  revert lo
  cases e₁ <;> cases e₂ <;> cases e₃ <;> decide

theorem nackByte18 (lo : Fin 4) (e₁ e₂ e₃ : Bool) :
    let b := (UInt8.ofNat (lo.val <<< 6 ||| flag e₁ 0x20 ||| flag e₂ 0x10 ||| flag e₃ 0x08)).toNat
    b &&& 0x07 = 0 ∧ (b &&& 0xc0) >>> 6 = lo.val ∧ (b &&& 0x20 != 0) = e₁ ∧
      (b &&& 0x10 != 0) = e₂ ∧ (b &&& 0x08 != 0) = e₃ := by
  revert lo
  cases e₁ <;> cases e₂ <;> cases e₃ <;> decide

theorem join_fields (x a k : Nat) : (x / 2 ^ k % 2 ^ a) <<< k ||| x % 2 ^ k = x % 2 ^ (k + a) := by
  rw [← Nat.shiftLeft_add_eq_or_of_lt (Nat.mod_lt _ (Nat.two_pow_pos k)), Nat.shiftLeft_eq,
    Nat.pow_add, Nat.mod_mul, Nat.add_comm, Nat.mul_comm]

theorem field_byte (x k : Nat) :
    (UInt8.ofNat ((x >>> k) &&& 0xff)).toNat &&& 0xff = x / 2 ^ k % 2 ^ 8 := by
  rw [toNat_ofNat_and_ff, and_ff, Nat.mod_mod, Nat.shiftRight_eq_div_pow]

theorem shift_and_mask (x k w : Nat) (mask : Nat) (hm : mask = (2 ^ w - 1) <<< k) :
    (x <<< k) &&& mask = (x % 2 ^ w) <<< k := by
  rw [hm, ← Nat.shiftLeft_and_distrib, Nat.and_two_pow_sub_one_eq_mod]

theorem readNack_pack (h : WellFormedNack n nack) (more : Bool) (rest : List UInt8) :
    readNack n (packNack n nack more ++ rest) = some (nack, more, rest) := by
  have hopt := readNackOptions_pack h rest
  have hsn := h.sn_lt
  cases n with
  | size12bits =>
    have hsn : nack.nackSn < 4096 := hsn
    have hlo : nack.nackSn &&& 0x0f = nack.nackSn % 16 := Nat.and_two_pow_sub_one_eq_mod _ 4
    obtain ⟨h₁, h₂, h₃, h₄, h₅⟩ := nackByte12 ⟨nack.nackSn % 16, Nat.mod_lt _ (by decide)⟩ more
      nack.hasSo nack.hasNackRange
    have hjoin : ((UInt8.ofNat ((nack.nackSn >>> 4) &&& 0xff)).toNat &&& 0xff) <<< 4 |||
        nack.nackSn % 16 = nack.nackSn := by
      rw [field_byte]
      exact (join_fields _ 8 4).trans (Nat.mod_eq_of_lt hsn)
    simp only [packNack, List.cons_append, List.nil_append, readNack, hlo]
    rw [h₁, h₂, h₃, h₄, h₅, if_neg (by simp)]
    simp only [hjoin, hopt]
    rfl
  | size18bits =>
    have hsn : nack.nackSn < 262144 := hsn
    have hlo : (nack.nackSn <<< 6) &&& 0xc0 = (nack.nackSn % 4) <<< 6 :=
      shift_and_mask _ 6 2 _ rfl
    obtain ⟨h₁, h₂, h₃, h₄, h₅⟩ := nackByte18 ⟨nack.nackSn % 4, Nat.mod_lt _ (by decide)⟩ more
      nack.hasSo nack.hasNackRange
    have hjoin : ((UInt8.ofNat ((nack.nackSn >>> 10) &&& 0xff)).toNat &&& 0xff) <<< 10 |||
        ((UInt8.ofNat ((nack.nackSn >>> 2) &&& 0xff)).toNat &&& 0xff) <<< 2 |||
        nack.nackSn % 4 = nack.nackSn := by
      rw [field_byte, field_byte, Nat.or_assoc]
      refine (congrArg (_ ||| ·) (join_fields nack.nackSn 8 2)).trans ?_
      exact (join_fields _ 8 10).trans (Nat.mod_eq_of_lt hsn)
    simp only [packNack, List.cons_append, List.nil_append, readNack, hlo]
    rw [h₁, h₂, h₃, h₄, h₅, if_neg (by simp)]
    simp only [hjoin, hopt]
    rfl

theorem packNack_ne_nil (n : AmSnSize) (nack : StatusNack) (more : Bool) :
    1 ≤ (packNack n nack more).length := by
  cases n <;> simp [packNack]

@[simp] theorem snSize_pushNack (s : StatusPdu) (nack : StatusNack) :
    (s.pushNack nack).snSize = s.snSize := by
  unfold pushNack
  split
  · rfl
  · split <;> rfl

variable {s : StatusPdu}

/-- Reading packed NACKs pushes them one by one. -/
theorem readNacks_pack {nacks : List StatusNack} (hne : nacks ≠ [])
    (h : ∀ x ∈ nacks, WellFormedNack s.snSize x) {fuel : Nat}
    (hfuel : (packNacks s.snSize nacks).length ≤ fuel) :
    readNacks fuel s (packNacks s.snSize nacks) = some (nacks.foldl pushNack s) := by
  induction nacks generalizing s fuel with
  | nil => exact absurd rfl hne
  | cons nack nacks ih =>
    have hlen := packNack_ne_nil s.snSize nack (!nacks.isEmpty)
    simp only [packNacks, List.length_append] at hfuel
    cases fuel with
    | zero => omega
    | succ fuel =>
      have hread := readNack_pack (h nack List.mem_cons_self) (!nacks.isEmpty)
        (packNacks s.snSize nacks)
      cases nacks with
      | nil =>
        simp only [readNacks, packNacks]
        simp only [packNacks] at hread
        rw [hread]
        rfl
      | cons nack' nacks =>
        have hfuel' : (packNacks (s.pushNack nack).snSize (nack' :: nacks)).length ≤ fuel := by
          rw [snSize_pushNack]
          omega
        have hrest := ih (s := s.pushNack nack) (by simp)
          (fun x hx => by rw [snSize_pushNack]; exact h x (List.mem_cons_of_mem _ hx)) hfuel'
        rw [snSize_pushNack] at hrest
        simp only [readNacks, packNacks] at hread hrest ⊢
        rw [hread]
        exact hrest

theorem headByte (hi : Fin 16) :
    let b := (UInt8.ofNat hi.val).toNat
    ((b >>> 7) &&& 0x01 == DcField.control.toNumber) = true ∧ (b >>> 4) &&& 0x07 = 0 ∧
      b &&& 0x0f = hi.val := by
  revert hi
  decide

theorem ackByte18 (lo : Fin 64) (e₁ : Bool) :
    let b := (UInt8.ofNat (lo.val <<< 2 ||| flag e₁ 0x02)).toNat
    b &&& 0x01 = 0 ∧ (b &&& 0xfc) >>> 2 = lo.val ∧ (b &&& 0x02 != 0) = e₁ := by
  revert lo
  cases e₁ <;> decide

theorem ackByte12 (e₁ : Bool) :
    let b := (UInt8.ofNat (flag e₁ 0x80)).toNat
    b &&& 0x7f = 0 ∧ (b &&& 0x80 != 0) = e₁ := by
  cases e₁ <;> decide

theorem unpack_pack (h : ∀ x ∈ s.nacks, WellFormedNack s.snSize x) :
    unpack s.snSize s.pack =
      some (s.nacks.foldl pushNack { snSize := s.snSize, ackSn := s.ackSn % s.snSize.mod }) := by
  obtain ⟨n, ack, nacks, size⟩ := s
  -- with the fixed part read, what is left is the loop over the NACKs
  have hloop : ∀ (hd : List UInt8) (x : Nat), 1 ≤ hd.length →
      (if (!nacks.isEmpty) = true then
          readNacks (hd ++ packNacks n nacks).length { snSize := n, ackSn := x } (packNacks n nacks)
        else some { snSize := n, ackSn := x }) =
        some (nacks.foldl pushNack { snSize := n, ackSn := x }) := by
    intro hd x hhd
    cases hn : nacks with
    | nil => rfl
    | cons a l =>
      rw [← hn, if_pos (by simp [hn])]
      exact readNacks_pack (s := { snSize := n, ackSn := x }) (by simp [hn]) h (by simp)
  cases n with
  | size12bits =>
    have hhi : (ack >>> 8) &&& 0x0f = ack / 256 % 16 := by
      rw [Nat.shiftRight_eq_div_pow]
      exact Nat.and_two_pow_sub_one_eq_mod _ 4
    obtain ⟨h₁, h₂, h₃⟩ := headByte ⟨ack / 256 % 16, Nat.mod_lt _ (by decide)⟩
    obtain ⟨h₄, h₅⟩ := ackByte12 (!nacks.isEmpty)
    have hack : (ack / 256 % 16) <<< 8 ||| ((UInt8.ofNat (ack &&& 0xff)).toNat &&& 0xff) =
        ack % AmSnSize.size12bits.mod := by
      rw [toNat_ofNat_and_ff, and_ff, Nat.mod_mod]
      exact join_fields ack 4 8
    simp only [pack, unpack, isControlPdu, List.cons_append, List.nil_append, hhi]
    rw [h₁, h₂, h₃, h₄, h₅, hack]
    exact hloop [_, _, _] _ (by simp)
  | size18bits =>
    have hhi : (ack >>> 14) &&& 0x0f = ack / 16384 % 16 := by
      rw [Nat.shiftRight_eq_div_pow]
      exact Nat.and_two_pow_sub_one_eq_mod _ 4
    have hlo : (ack <<< 2) &&& 0xfc = (ack % 64) <<< 2 := shift_and_mask _ 2 6 _ rfl
    obtain ⟨h₁, h₂, h₃⟩ := headByte ⟨ack / 16384 % 16, Nat.mod_lt _ (by decide)⟩
    obtain ⟨h₄, h₅, h₆⟩ := ackByte18 ⟨ack % 64, Nat.mod_lt _ (by decide)⟩ (!nacks.isEmpty)
    have hack : (ack / 16384 % 16) <<< 14 |||
        ((UInt8.ofNat ((ack >>> 6) &&& 0xff)).toNat &&& 0xff) <<< 6 ||| ack % 64 =
        ack % AmSnSize.size18bits.mod := by
      rw [field_byte, Nat.or_assoc]
      exact (congrArg (_ ||| ·) (join_fields ack 8 6)).trans (join_fields ack 4 14)
    simp only [pack, unpack, isControlPdu, List.cons_append, List.nil_append, hhi, hlo]
    rw [h₁, h₂, h₃, h₄, h₅, h₆, hack]
    exact hloop [_, _, _] _ (by simp)

/-! ## Merging -/

theorem canBeMerged_iff {left right : StatusNack} :
    s.canBeMerged left right = true ↔
      right.nackSn = (left.nackSn + left.span) % s.snSize.mod ∧
      (left.hasSo = true → left.soEnd = soEndOfSdu) ∧ (right.hasSo = true → right.soStart = 0) ∧
      left.span + right.span ≤ 255 := by
  have hsn : (if left.hasNackRange then left.nackSn + left.nackRange else left.nackSn + 1) =
      left.nackSn + left.span := by
    unfold StatusNack.span
    split <;> rfl
  simp only [canBeMerged, hsn, Bool.and_eq_true, decide_eq_true_eq, Bool.not_eq_true',
    Bool.and_eq_false_iff, bne_eq_false_iff_eq, and_assoc, StatusNack.span]
  cases left.hasSo <;> cases right.hasSo <;> simp

section

variable (prev nack : StatusNack)

theorem nackSn_mergeNack : (mergeNack prev nack).nackSn = prev.nackSn := by
  unfold mergeNack
  cases nack.hasSo <;> cases prev.hasSo <;> rfl

theorem span_mergeNack : (mergeNack prev nack).span = prev.span + nack.span := by
  unfold mergeNack StatusNack.span
  cases nack.hasSo <;> cases prev.hasSo <;> rfl

theorem hasSo_mergeNack : (mergeNack prev nack).hasSo = (prev.hasSo || nack.hasSo) := by
  unfold mergeNack
  cases nack.hasSo <;> cases prev.hasSo <;> simp

theorem soStart_mergeNack (h : prev.hasSo = true ∨ nack.hasSo = true) :
    (mergeNack prev nack).soStart = if prev.hasSo then prev.soStart else 0 := by
  unfold mergeNack
  cases hn : nack.hasSo <;> cases hp : prev.hasSo <;> simp_all

theorem soEnd_mergeNack (h : prev.hasSo = true ∨ nack.hasSo = true) :
    (mergeNack prev nack).soEnd = if nack.hasSo then nack.soEnd else soEndOfSdu := by
  unfold mergeNack
  cases hn : nack.hasSo <;> cases hp : prev.hasSo <;> simp_all

end

/-- What a list has and merging keeps, it has after one more NACK. -/
theorem forall_pushNack {P : StatusNack → Prop} (h : ∀ x ∈ s.nacks, P x) (hn : P nack)
    (hmerge : ∀ prev, P prev → s.canBeMerged prev nack = true → P (mergeNack prev nack)) :
    ∀ x ∈ (s.pushNack nack).nacks, P x := by
  have happend : ∀ x ∈ s.nacks ++ [nack], P x :=
    List.forall_mem_append.2 ⟨h, List.forall_mem_singleton.2 hn⟩
  unfold pushNack
  split
  · exact happend
  · next prev hprev =>
    split
    · next hm =>
      refine List.forall_mem_append.2 ⟨fun x hx => h x (List.dropLast_subset _ hx), ?_⟩
      exact List.forall_mem_singleton.2 (hmerge prev (h prev (List.mem_of_getLast? hprev)) hm)
    · exact happend

/-! ## What is accepted is well formed -/

theorem wellFormed_mergeNack {prev nack : StatusNack} (hp : WellFormedNack n prev)
    (hn : WellFormedNack n nack) (hmerge : s.canBeMerged prev nack = true) :
    WellFormedNack n (mergeNack prev nack) := by
  have hrange : prev.span + nack.span < 2 ^ 8 := Nat.lt_succ_of_le (canBeMerged_iff.1 hmerge).2.2.2
  have hzero : 0 < 2 ^ 16 := Nat.two_pow_pos 16
  have hend : soEndOfSdu < 2 ^ 16 := by decide
  unfold mergeNack
  cases hso : nack.hasSo with
  | true =>
    cases hps : prev.hasSo with
    | true => exact ⟨hp.sn_lt, hp.start_lt, hn.end_lt, hrange, nofun, nofun⟩
    | false => exact ⟨hp.sn_lt, hzero, hn.end_lt, hrange, nofun, nofun⟩
  | false =>
    cases hps : prev.hasSo with
    | true => exact ⟨hp.sn_lt, hp.start_lt, hend, hrange, nofun, nofun⟩
    | false => exact ⟨hp.sn_lt, hp.start_lt, hp.end_lt, hrange, fun _ => hp.so_default hps, nofun⟩

@[simp] theorem ackSn_pushNack (s : StatusPdu) (nack : StatusNack) :
    (s.pushNack nack).ackSn = s.ackSn := by
  unfold pushNack
  split
  · rfl
  · split <;> rfl

theorem join_bytes_lt (hi lo : UInt8) : hi.toNat <<< 8 ||| lo.toNat < 2 ^ 16 := by
  have hhi := hi.toNat_lt
  have hlo := lo.toNat_lt
  rw [shift_or_byte _ _ hlo]
  omega

theorem readNackOptions_spec {sn : Nat} (hsn : sn < n.mod) {e₂ e₃ : Bool}
    {rest rest' : List UInt8}
    (h : readNackOptions { nackSn := sn } e₂ e₃ rest = some (nack, rest')) :
    WellFormedNack n nack ∧ rest'.length ≤ rest.length := by
  -- the segment offsets first, then the range
  have hrange : ∀ (x : StatusNack) (rest : List UInt8), WellFormedNack n x →
      (if e₃ then
        match rest with
        | r :: rest => some ({ x with hasNackRange := true, nackRange := r.toNat }, rest)
        | _ => none
      else some (x, rest)) = some (nack, rest') →
      WellFormedNack n nack ∧ rest'.length ≤ rest.length := by
    intro x rest hx hr
    split at hr
    · split at hr
      · next r rest =>
        cases hr
        exact ⟨{ hx with range_lt := r.toNat_lt, range_default := nofun }, Nat.le_succ _⟩
      · cases hr
    · cases hr
      exact ⟨hx, Nat.le_refl _⟩
  have hbase : WellFormedNack n { nackSn := sn } :=
    ⟨hsn, Nat.two_pow_pos 16, Nat.lt_succ_self 65535, Nat.two_pow_pos 8, fun _ => ⟨rfl, rfl⟩,
      fun _ => rfl⟩
  unfold readNackOptions at h
  cases e₂ with
  | false => exact hrange _ _ hbase h
  | true =>
    simp only [if_true] at h
    split at h
    · next a₁ a₀ b₁ b₀ rest =>
      obtain ⟨hwf, hle⟩ := hrange { nackSn := sn, hasSo := true, soStart := _, soEnd := _ } rest
        ⟨hsn, join_bytes_lt a₁ a₀, join_bytes_lt b₁ b₀, hbase.range_lt, nofun, fun _ => rfl⟩ h
      exact ⟨hwf, Nat.le_trans hle (by simp only [List.length_cons]; omega)⟩
    · cases h

theorem and_shiftRight_lt {b mask k e : Nat} (hmask : mask < 2 ^ (k + e)) :
    (b &&& mask) >>> k < 2 ^ e := by
  rw [Nat.shiftRight_eq_div_pow]
  refine Nat.div_lt_of_lt_mul ?_
  rw [← Nat.pow_add]
  exact Nat.lt_of_le_of_lt Nat.and_le_right hmask

theorem and_shiftLeft_lt {b mask k e : Nat} (hmask : mask <<< k < 2 ^ e) :
    (b &&& mask) <<< k < 2 ^ e := by
  rw [Nat.shiftLeft_eq] at hmask ⊢
  exact Nat.lt_of_le_of_lt (Nat.mul_le_mul_right _ Nat.and_le_right) hmask

/-- A NACK that is read is well formed, and takes bytes. -/
theorem readNack_spec {pdu rest : List UInt8} {e₁ : Bool}
    (h : readNack n pdu = some (nack, e₁, rest)) :
    WellFormedNack n nack ∧ rest.length < pdu.length := by
  unfold readNack at h
  split at h
  · next b₁ b₂ rest =>
    split_ifs at h
    obtain ⟨⟨x, r⟩, hx, h⟩ := Option.bind_eq_some_iff.1 h
    cases h
    refine (readNackOptions_spec ?_ hx).imp_right fun hle => by simp only [List.length_cons]; omega
    show _ < 2 ^ 12
    exact Nat.or_lt_two_pow (and_shiftLeft_lt (by decide)) (and_shiftRight_lt (by decide))
  · next b₁ b₂ b₃ rest =>
    split_ifs at h
    obtain ⟨⟨x, r⟩, hx, h⟩ := Option.bind_eq_some_iff.1 h
    cases h
    refine (readNackOptions_spec ?_ hx).imp_right fun hle => by simp only [List.length_cons]; omega
    show _ < 2 ^ 18
    exact Nat.or_lt_two_pow (Nat.or_lt_two_pow (and_shiftLeft_lt (by decide))
      (and_shiftLeft_lt (by decide))) (and_shiftRight_lt (by decide))
  · cases h

/-- Status PDUs whose fields are within the bounds of the wire format. -/
structure WellFormed (n : AmSnSize) (s : StatusPdu) : Prop where
  ack_lt : s.ackSn < n.mod
  nacks : ∀ x ∈ s.nacks, WellFormedNack n x

theorem wellFormed_foldl {nacks : List StatusNack} (hs : ∀ x ∈ s.nacks, WellFormedNack s.snSize x)
    (h : ∀ x ∈ nacks, WellFormedNack s.snSize x) :
    ∀ x ∈ (nacks.foldl StatusPdu.pushNack s).nacks, WellFormedNack s.snSize x :=
  List.foldlRecOn (motive := fun t : StatusPdu => ∀ x ∈ t.nacks, WellFormedNack s.snSize x) nacks
    _ hs fun _ ht nack hnack =>
      forall_pushNack ht (h nack hnack) fun _ hp => wellFormed_mergeNack hp (h nack hnack)

@[simp] theorem snSize_foldl (s : StatusPdu) (nacks : List StatusNack) :
    (nacks.foldl StatusPdu.pushNack s).snSize = s.snSize :=
  List.foldlRecOn (motive := fun t : StatusPdu => t.snSize = s.snSize) nacks _ rfl
    fun t ht nack _ => (snSize_pushNack t nack).trans ht

@[simp] theorem ackSn_foldl (s : StatusPdu) (nacks : List StatusNack) :
    (nacks.foldl StatusPdu.pushNack s).ackSn = s.ackSn :=
  List.foldlRecOn (motive := fun t : StatusPdu => t.ackSn = s.ackSn) nacks _ rfl
    fun t ht nack _ => (ackSn_pushNack t nack).trans ht

/-- The loop pushes well-formed NACKs. -/
theorem readNacks_eq_foldl {fuel : Nat} {s s' : StatusPdu} {pdu : List UInt8}
    (h : readNacks fuel s pdu = some s') :
    ∃ nacks : List StatusNack, (∀ x ∈ nacks, WellFormedNack s.snSize x) ∧
      s' = nacks.foldl pushNack s := by
  induction fuel generalizing s pdu with
  | zero => cases h
  | succ fuel ih =>
    obtain ⟨⟨nack, e₁, rest⟩, hread, h⟩ := Option.bind_eq_some_iff.1 h
    have hnack := (readNack_spec hread).1
    simp only at h
    split at h
    · obtain ⟨nacks, hnacks, rfl⟩ := ih h
      rw [snSize_pushNack] at hnacks
      exact ⟨nack :: nacks, List.forall_mem_cons.2 ⟨hnack, hnacks⟩, rfl⟩
    · cases h
      exact ⟨[nack], List.forall_mem_singleton.2 hnack, rfl⟩

/-- The fixed part of `unpack_12bit` and `unpack_18bit`: ACK_SN, E1 and the reserved bits. -/
def unpackFixed (n : AmSnSize) (b₀ b₁ b₂ : UInt8) : Nat × Bool × Nat :=
  match n with
  | .size12bits => ((b₀.toNat &&& 0x0f) <<< 8 ||| (b₁.toNat &&& 0xff), b₂.toNat &&& 0x80 != 0,
      b₂.toNat &&& 0x7f)
  | .size18bits => ((b₀.toNat &&& 0x0f) <<< 14 ||| (b₁.toNat &&& 0xff) <<< 6 |||
      (b₂.toNat &&& 0xfc) >>> 2, b₂.toNat &&& 0x02 != 0, b₂.toNat &&& 0x01)

theorem unpack_cons (n : AmSnSize) (b₀ b₁ b₂ : UInt8) (rest : List UInt8) :
    unpack n (b₀ :: b₁ :: b₂ :: rest) =
      if ((b₀.toNat >>> 7) &&& 0x01 != DcField.control.toNumber) = true then none
      else if (b₀.toNat >>> 4) &&& 0x07 ≠ 0 then none
      else if (unpackFixed n b₀ b₁ b₂).2.2 ≠ 0 then none
      else if (unpackFixed n b₀ b₁ b₂).2.1 then
        readNacks (b₀ :: b₁ :: b₂ :: rest).length
          { snSize := n, ackSn := (unpackFixed n b₀ b₁ b₂).1 } rest
      else some { snSize := n, ackSn := (unpackFixed n b₀ b₁ b₂).1 } := by
  cases n <;> rfl

theorem unpackFixed_lt (b₀ b₁ b₂ : UInt8) : (unpackFixed n b₀ b₁ b₂).1 < n.mod := by
  cases n with
  | size12bits =>
    exact Nat.or_lt_two_pow (n := 12) (and_shiftLeft_lt (by decide))
      (Nat.lt_of_le_of_lt Nat.and_le_right (by decide))
  | size18bits =>
    exact Nat.or_lt_two_pow (n := 18) (Nat.or_lt_two_pow (and_shiftLeft_lt (by decide))
      (and_shiftLeft_lt (by decide))) (and_shiftRight_lt (by decide))

/-- What is accepted has an ACK_SN in range and NACKs that were pushed one by one. -/
theorem unpack_eq_foldl {pdu : List UInt8} (h : unpack n pdu = some s) :
    ∃ (ack : Nat) (nacks : List StatusNack), ack < n.mod ∧ (∀ x ∈ nacks, WellFormedNack n x) ∧
      s = nacks.foldl pushNack { snSize := n, ackSn := ack } := by
  match pdu with
  | b₀ :: b₁ :: b₂ :: rest =>
    have hack := unpackFixed_lt (n := n) b₀ b₁ b₂
    rw [unpack_cons] at h
    split_ifs at h with hcontrol hcpt hreserved hmore
    · obtain ⟨nacks, hnacks, hs⟩ := readNacks_eq_foldl h
      exact ⟨_, nacks, hack, hnacks, hs⟩
    · cases h
      exact ⟨_, [], hack, nofun, rfl⟩

theorem unpack_wellFormed {pdu : List UInt8} (h : unpack n pdu = some s) : s.WellFormed n := by
  obtain ⟨ack, nacks, hack, hnacks, rfl⟩ := unpack_eq_foldl h
  refine ⟨?_, wellFormed_foldl (s := { snSize := n, ackSn := ack }) nofun hnacks⟩
  rw [ackSn_foldl]
  exact hack

end StatusPdu

end RadioStack.Rlc
