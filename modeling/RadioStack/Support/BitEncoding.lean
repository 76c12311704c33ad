import RadioStack.Lib.BitString

/-!
# Encoding bits in a byte buffer

`bit_encoder` and `bit_decoder` (`bit_encoding.h`): fields of up to 64 bits are appended to a byte
buffer, most significant bit first, and read back. Both work byte by byte, with the offset of the
next bit in the current byte.

**Theorem (`BitEncoder.Encodes.pack`).** Packing appends the bits of the field.

**Theorem (`BitDecoder.unpack_eq`).** Unpacking returns the number of the next bits. At the end of
the buffer it fails; the bits that are there are read, followed by zeros.
-/

namespace RadioStack

open BitString

/-! ## Encoder -/

structure BitEncoder where
  bytes : List UInt8 := []
  /-- Offset of the next bit to be set, from the most significant bit. -/
  offset : Nat := 0
  deriving DecidableEq

namespace BitEncoder

/-- `writer.back() += val`. -/
def addToBack (bytes : List UInt8) (val : Nat) : List UInt8 :=
  match bytes.getLast? with
  | some b => bytes.dropLast ++ [UInt8.ofNat (b.toNat + val)]
  | none => []

/-- The rounds of `pack`; every round packs at least one bit. -/
def packLoop : Nat → BitEncoder → Nat → Nat → BitEncoder
  | 0, e, _, _ => e
  | fuel + 1, e, val, nBits =>
    if nBits = 0 then e
    else
      let bytes := if e.offset = 0 then e.bytes ++ [0] else e.bytes
      let val := if nBits < 64 then val &&& (2 ^ nBits - 1) else val
      if nBits < 8 - e.offset then
        { bytes := addToBack bytes (val <<< (8 - e.offset - nBits) % 256)
          offset := e.offset + nBits }
      else
        packLoop fuel
          { bytes := addToBack bytes (val >>> (nBits - (8 - e.offset)) % 256), offset := 0 } val
          (nBits - (8 - e.offset))

def pack (e : BitEncoder) (val nBits : Nat) : BitEncoder := packLoop nBits e val nBits

/-- The buffer holds `bits`, padded with zeros to whole bytes. -/
structure Encodes (e : BitEncoder) (bits : List Bool) : Prop where
  offset_eq : e.offset = bits.length % 8
  bytes_eq : bytesBits e.bytes = bits ++ List.replicate ((8 - e.offset) % 8) false

theorem encodes_empty : Encodes {} [] := ⟨rfl, rfl⟩

variable {e : BitEncoder} {bits : List Bool} {val nBits k : Nat}

theorem addToBack_concat (front : List UInt8) (b : UInt8) (val : Nat) :
    addToBack (front ++ [b]) val = front ++ [UInt8.ofNat (b.toNat + val)] := by
  rw [addToBack, List.getLast?_concat, List.dropLast_concat]

theorem ofBits_byteBits (b : UInt8) : ofBits (byteBits b) = b.toNat := by
  rw [byteBits, ofBits_natBits]
  exact Nat.mod_eq_of_lt b.toNat_lt

theorem bytesBits_addToBack {bytes : List UInt8} {pad : Nat}
    (h : bytesBits bytes = bits ++ List.replicate pad false) (hpad : pad ≤ 8) (hpos : 0 < pad)
    (hk : k ≤ pad) (hval : val < 2 ^ k) :
    bytesBits (addToBack bytes (val * 2 ^ (pad - k))) =
      bits ++ natBits k val ++ List.replicate (pad - k) false := by
  obtain rfl | ⟨front, b, hconcat⟩ := List.eq_nil_or_concat bytes
  · have := congrArg List.length h
    rw [length_bytesBits, List.length_append, List.length_replicate, List.length_nil] at this
    omega
  rw [List.concat_eq_append] at hconcat
  subst hconcat
  rw [bytesBits_append, show bytesBits [b] = byteBits b from List.append_nil _] at h
  -- the bits of the last byte that are in use
  obtain ⟨used, hbits, hb⟩ : ∃ used, bits = bytesBits front ++ used ∧
      byteBits b = used ++ List.replicate pad false := by
    rcases List.append_eq_append_iff.1 h with h | ⟨c, hfront, hzeros⟩
    · exact h
    · have hlen := congrArg List.length hzeros
      rw [List.length_append, length_byteBits, List.length_replicate] at hlen
      obtain rfl : c = [] := List.length_eq_zero_iff.1 (by omega)
      exact ⟨[], by rw [hfront, List.append_nil, List.append_nil], hzeros.symm⟩
  have hlen : 8 = used.length + pad := by
    have := congrArg List.length hb
    rwa [length_byteBits, List.length_append, List.length_replicate] at this
  have hvalue : b.toNat = ofBits used * 2 ^ pad := by
    rw [← ofBits_byteBits, hb, ofBits_append, List.length_replicate, ← natBits_zero,
      ofBits_natBits, Nat.zero_mod, Nat.add_zero]
  -- the byte with the field
  have hsum : b.toNat + val * 2 ^ (pad - k) =
      (ofBits used * 2 ^ k + val) * 2 ^ (pad - k) + 0 := by
    rw [hvalue, Nat.add_mul, Nat.mul_assoc, ← Nat.pow_add, Nat.add_sub_cancel' hk, Nat.add_zero]
  rw [addToBack_concat, bytesBits_append, hbits, hsum]
  have hbyte : bytesBits [UInt8.ofNat ((ofBits used * 2 ^ k + val) * 2 ^ (pad - k) + 0)] =
      used ++ natBits k val ++ List.replicate (pad - k) false := by
    show byteBits _ ++ [] = _
    rw [List.append_nil, byteBits, natBits_congr (UInt8.toNat_ofNat' .. ▸ Nat.mod_mod _ _),
      show (8 : Nat) = used.length + k + (pad - k) by omega,
      natBits_mul_add (Nat.two_pow_pos _), natBits_mul_add hval, natBits_ofBits, natBits_zero]
  rw [hbyte]
  simp only [List.append_assoc]

/-- The buffer with room for the next bit. -/
theorem Encodes.room (h : Encodes e bits) :
    bytesBits (if e.offset = 0 then e.bytes ++ [0] else e.bytes) =
      bits ++ List.replicate (8 - e.offset) false := by
  split
  · next h0 =>
    rw [bytesBits_append, h.bytes_eq, h0, Nat.sub_zero, Nat.mod_self]
    exact List.append_nil _ ▸ rfl
  · next h0 => rw [h.bytes_eq, Nat.mod_eq_of_lt (by omega)]

theorem Encodes.packLoop {fuel : Nat} (h : Encodes e bits) (hfuel : nBits ≤ fuel)
    (hn : nBits ≤ 64) (hval : val < 2 ^ 64) :
    Encodes (packLoop fuel e val nBits) (bits ++ natBits nBits val) := by
  induction fuel generalizing e bits val nBits with
  | zero =>
    obtain rfl := Nat.le_zero.1 hfuel
    simpa [BitEncoder.packLoop, natBits] using h
  | succ fuel ih =>
    have hlt : e.offset < 8 := h.offset_eq ▸ Nat.mod_lt _ (by decide)
    have hroom := h.room
    rw [BitEncoder.packLoop]
    by_cases h0 : nBits = 0
    · subst h0
      simpa [natBits] using h
    rw [if_neg h0]
    generalize (if e.offset = 0 then e.bytes ++ [0] else e.bytes) = bytes at hroom ⊢
    -- the field, cut to its width
    have hmask : (if nBits < 64 then val &&& (2 ^ nBits - 1) else val) = val % 2 ^ nBits := by
      split
      · exact Nat.and_two_pow_sub_one_eq_mod val nBits
      · rw [show nBits = 64 by omega, Nat.mod_eq_of_lt hval]
    simp only [hmask]
    rw [show natBits nBits val = natBits nBits (val % 2 ^ nBits) from
      natBits_congr (Nat.mod_mod _ _).symm]
    have hcut : val % 2 ^ nBits < 2 ^ nBits := Nat.mod_lt _ (Nat.two_pow_pos _)
    generalize val % 2 ^ nBits = u at hcut ⊢
    by_cases hfit : nBits < 8 - e.offset
    · rw [if_pos hfit, Nat.shiftLeft_eq]
      have hsmall : u * 2 ^ (8 - e.offset - nBits) < 256 :=
        calc u * 2 ^ (8 - e.offset - nBits) < 2 ^ nBits * 2 ^ (8 - e.offset - nBits) :=
              Nat.mul_lt_mul_of_pos_right hcut (Nat.two_pow_pos _)
          _ = 2 ^ (8 - e.offset) := by rw [← Nat.pow_add, Nat.add_sub_cancel' (Nat.le_of_lt hfit)]
          _ ≤ 2 ^ 8 := Nat.pow_le_pow_right (by decide) (Nat.sub_le _ _)
      rw [Nat.mod_eq_of_lt hsmall]
      refine ⟨?_, ?_⟩
      · rw [List.length_append, length_natBits, Nat.add_mod, ← h.offset_eq]
        show e.offset + nBits = _
        omega
      · rw [bytesBits_addToBack hroom (Nat.sub_le _ _) (by omega) (Nat.le_of_lt hfit) hcut]
        show _ = _ ++ List.replicate ((8 - (e.offset + nBits)) % 8) false
        congr 2
        omega
    · rw [if_neg hfit, Nat.shiftRight_eq_div_pow]
      have hk : 8 - e.offset ≤ nBits := Nat.le_of_not_lt hfit
      have hhigh : u / 2 ^ (nBits - (8 - e.offset)) < 2 ^ (8 - e.offset) := by
        rw [Nat.div_lt_iff_lt_mul (Nat.two_pow_pos _), ← Nat.pow_add, Nat.add_sub_cancel' hk]
        exact hcut
      have hsmall : u / 2 ^ (nBits - (8 - e.offset)) < 256 :=
        Nat.lt_of_lt_of_le hhigh (Nat.pow_le_pow_right (by decide) (Nat.sub_le _ _))
      rw [Nat.mod_eq_of_lt hsmall]
      have hadd := bytesBits_addToBack hroom (Nat.sub_le _ _) (by omega) (Nat.le_refl _) hhigh
      have hstep : Encodes
          { bytes := addToBack bytes (u / 2 ^ (nBits - (8 - e.offset))), offset := 0 }
          (bits ++ natBits (8 - e.offset) (u / 2 ^ (nBits - (8 - e.offset)))) := by
        refine ⟨?_, by simpa using hadd⟩
        rw [List.length_append, length_natBits, Nat.add_mod, ← h.offset_eq]
        show 0 = _
        omega
      have hleft : nBits - (8 - e.offset) ≤ fuel := by omega
      have hrest := ih hstep hleft (by omega)
        (Nat.lt_of_lt_of_le hcut (Nat.pow_le_pow_right (by decide) hn))
      rw [List.append_assoc, ← natBits_add, Nat.add_sub_cancel' hk] at hrest
      exact hrest

theorem Encodes.pack (h : Encodes e bits) (hn : nBits ≤ 64) (hval : val < 2 ^ 64) :
    Encodes (e.pack val nBits) (bits ++ natBits nBits val) :=
  h.packLoop (Nat.le_refl _) hn hval

end BitEncoder

/-! ## Decoder -/

structure BitDecoder where
  /-- Number of whole bytes read. -/
  pos : Nat := 0
  /-- The bytes from the current one on. -/
  rest : List UInt8
  /-- Offset of the next bit to be read, from the most significant bit. -/
  offset : Nat := 0
  deriving DecidableEq

namespace BitDecoder

/-- The rounds of `unpack`: the value so far, and whether all bits could be read. -/
def unpackLoop : Nat → BitDecoder → Nat → Nat → BitDecoder × Nat × Bool
  | 0, d, val, _ => (d, val, true)
  | fuel + 1, d, val, nBits =>
    if nBits = 0 then (d, val, true)
    else
      match d.rest with
      | [] => (d, val, false)
      | b :: rest =>
        if nBits < 8 - d.offset then
          let mask := 2 ^ (8 - d.offset) - 2 ^ (8 - d.offset - nBits)
          ({ d with offset := d.offset + nBits },
            val + (b.toNat &&& mask) >>> (8 - d.offset - nBits), true)
        else
          let mask := 2 ^ (8 - d.offset) - 1
          unpackLoop fuel { pos := d.pos + 1, rest, offset := 0 }
            (val + (b.toNat &&& mask) <<< (nBits - (8 - d.offset))) (nBits - (8 - d.offset))

/-- `unpack` of a field that fits its type. -/
def unpack (d : BitDecoder) (nBits : Nat) : BitDecoder × Nat × Bool := unpackLoop nBits d 0 nBits

/-- The bits that have not been read. -/
def bits (d : BitDecoder) : List Bool := (bytesBits d.rest).drop d.offset

variable {d : BitDecoder} {val nBits : Nat}

theorem bits_cons (pos : Nat) (b : UInt8) (rest : List UInt8) {offset : Nat} (h : offset ≤ 8) :
    bits ⟨pos, b :: rest, offset⟩ = natBits (8 - offset) b.toNat ++ bytesBits rest := by
  have hsplit : byteBits b = natBits offset (b.toNat / 2 ^ (8 - offset)) ++
      natBits (8 - offset) b.toNat := by
    rw [← natBits_add, Nat.add_sub_cancel' h, byteBits]
  rw [bits, bytesBits_cons, hsplit, List.append_assoc, List.drop_left' (length_natBits _ _)]

/-- The bits of a byte selected by a mask from `q` to `p`. -/
theorem and_mask_shiftRight (b : Nat) {p q : Nat} (h : q ≤ p) :
    (b &&& (2 ^ p - 2 ^ q)) >>> q = b / 2 ^ q % 2 ^ (p - q) := by
  have hmask : 2 ^ p - 2 ^ q = (2 ^ (p - q) - 1) <<< q := by
    rw [Nat.shiftLeft_eq, Nat.sub_mul, ← Nat.pow_add, Nat.sub_add_cancel h, Nat.one_mul]
  rw [hmask, Nat.shiftRight_and_distrib, Nat.shiftLeft_shiftRight, Nat.and_two_pow_sub_one_eq_mod,
    Nat.shiftRight_eq_div_pow]

/-- Reading the next bits, and what is left; behind the end the bits read as zeros. -/
theorem unpackLoop_eq {fuel : Nat} (val : Nat) (hoffset : d.offset < 8) (hfuel : nBits ≤ fuel) :
    ∃ d' : BitDecoder, d'.offset < 8 ∧ d'.bits = d.bits.drop nBits ∧
      unpackLoop fuel d val nBits =
        (d', val + ofBits (d.bits.take nBits) * 2 ^ (nBits - d.bits.length),
          decide (nBits ≤ d.bits.length)) := by
  induction fuel generalizing d val nBits with
  | zero =>
    obtain rfl := Nat.le_zero.1 hfuel
    exact ⟨d, hoffset, rfl, by simp [unpackLoop, ofBits]⟩
  | succ fuel ih =>
    rw [unpackLoop]
    by_cases h0 : nBits = 0
    · subst h0
      exact ⟨d, hoffset, rfl, by simp [ofBits]⟩
    rw [if_neg h0]
    obtain ⟨pos, rest, offset⟩ := d
    change offset < 8 at hoffset
    cases rest with
    | nil =>
      have hnil : bits ⟨pos, [], offset⟩ = [] := List.drop_nil
      refine ⟨⟨pos, [], offset⟩, hoffset, ?_, ?_⟩
      · rw [hnil, List.drop_nil]
      · rw [hnil, List.take_nil, ofBits, Nat.zero_mul, Nat.add_zero, List.length_nil,
          decide_eq_false (by omega)]
        rfl
    | cons b rest =>
      have hbits := bits_cons pos b rest (Nat.le_of_lt hoffset)
      have hlen : (bits ⟨pos, b :: rest, offset⟩).length = 8 - offset + 8 * rest.length := by
        rw [hbits, List.length_append, length_natBits, length_bytesBits]
      simp only
      by_cases hfit : nBits < 8 - offset
      · rw [if_pos hfit, and_mask_shiftRight _ (by omega)]
        have hsplit : natBits (8 - offset) b.toNat =
            natBits nBits (b.toNat / 2 ^ (8 - offset - nBits)) ++
              natBits (8 - offset - nBits) b.toNat := by
          rw [← natBits_add, Nat.add_sub_cancel' (Nat.le_of_lt hfit)]
        refine ⟨⟨pos, b :: rest, offset + nBits⟩, by show offset + nBits < 8; omega, ?_, ?_⟩
        · rw [bits_cons pos b rest (by omega), hbits, hsplit, List.append_assoc,
            List.drop_left' (length_natBits _ _), Nat.sub_sub]
        · rw [show nBits - (bits ⟨pos, b :: rest, offset⟩).length = 0 by omega,
            decide_eq_true (show nBits ≤ (bits ⟨pos, b :: rest, offset⟩).length by omega),
            hbits, hsplit, List.append_assoc, List.take_left' (length_natBits _ _),
            ofBits_natBits, Nat.pow_zero, Nat.mul_one,
            show 8 - offset - (8 - offset - nBits) = nBits by omega]
      · rw [if_neg hfit, Nat.and_two_pow_sub_one_eq_mod, Nat.shiftLeft_eq]
        have hk : 8 - offset ≤ nBits := Nat.le_of_not_lt hfit
        have hleft : nBits - (8 - offset) ≤ fuel := by omega
        obtain ⟨d', hd', hbits', hloop⟩ := ih (d := ⟨pos + 1, rest, 0⟩)
          (val + b.toNat % 2 ^ (8 - offset) * 2 ^ (nBits - (8 - offset))) (Nat.zero_lt_succ 7) hleft
        have hrest : bits ⟨pos + 1, rest, 0⟩ = bytesBits rest := List.drop_zero
        rw [hrest] at hbits' hloop
        have hshort : (natBits (8 - offset) b.toNat).length ≤ nBits := by rwa [length_natBits]
        refine ⟨d', hd', ?_, ?_⟩
        · rw [hbits', hbits, List.drop_append, length_natBits, List.drop_eq_nil_of_le hshort,
            List.nil_append]
        · have htake : (bits ⟨pos, b :: rest, offset⟩).take nBits =
              natBits (8 - offset) b.toNat ++ (bytesBits rest).take (nBits - (8 - offset)) := by
            rw [hbits, List.take_append, length_natBits, List.take_of_length_le hshort]
          -- the bits of the byte stand before those of the rest, read or not
          have hexp : ((bytesBits rest).take (nBits - (8 - offset))).length +
              (nBits - (8 - offset + 8 * rest.length)) = nBits - (8 - offset) := by
            rw [List.length_take, length_bytesBits]
            omega
          rw [hloop, hlen, length_bytesBits, htake, ofBits_append, ofBits_natBits, Nat.add_mul,
            Nat.mul_assoc, ← Nat.pow_add, hexp, Nat.add_assoc, Nat.sub_sub]
          congr 3
          exact propext (by omega)

/-- Unpacking returns the number of the next bits; it fails if there are not enough. -/
theorem unpack_eq (nBits : Nat) (hoffset : d.offset < 8) :
    ∃ d' : BitDecoder, d'.offset < 8 ∧ d'.bits = d.bits.drop nBits ∧
      d.unpack nBits =
        (d', ofBits (d.bits.take nBits) * 2 ^ (nBits - d.bits.length),
          decide (nBits ≤ d.bits.length)) := by
  have := unpackLoop_eq (d := d) 0 hoffset (Nat.le_refl nBits)
  rwa [Nat.zero_add] at this

/-- Unpacking reads back a field. -/
theorem unpack_field {rest : List Bool} (hoffset : d.offset < 8)
    (hbits : d.bits = natBits nBits val ++ rest) (hval : val < 2 ^ nBits) :
    ∃ d' : BitDecoder, d'.offset < 8 ∧ d'.bits = rest ∧ d.unpack nBits = (d', val, true) := by
  obtain ⟨d', hoffset', hbits', hunpack⟩ := unpack_eq nBits hoffset
  have hlen : nBits ≤ d.bits.length := by
    rw [hbits, List.length_append, length_natBits]
    exact Nat.le_add_right _ _
  rw [Nat.sub_eq_zero_of_le hlen, decide_eq_true hlen] at hunpack
  rw [hbits, List.take_left' (length_natBits _ _), ofBits_natBits, Nat.mod_eq_of_lt hval,
    Nat.pow_zero, Nat.mul_one] at hunpack
  rw [hbits, List.drop_left' (length_natBits _ _)] at hbits'
  exact ⟨d', hoffset', hbits', hunpack⟩

end BitDecoder

end RadioStack
