import RadioStack.Security.Algorithms

/-!
# The PDCP security engine

`security_engine_impl` and its ciphering and integrity engines, over buffers that are stored in
segments: protecting a PDU appends a MAC of the whole PDU and ciphers it from an offset on,
receiving deciphers, checks the MAC and removes it.

**Theorem (`securityEngine_correct`).** For all algorithms and a PDU of up to 9000 bytes that is
longer than the offset: receiving undoes protecting; a PDU is accepted exactly if its last four
bytes are, after deciphering, the MAC of those before, or integrity is off; bytes before the offset
do not change; and the results depend on the bytes of the PDU only, not on its segments.

Every ciphering algorithm is a scan of the bytes from the offset on with a stream that does not
depend on them (`applyCiphering_spec`), and XOR is an involution, so ciphering twice changes
nothing. -/

namespace RadioStack.Security

open Pdcp Segmented

/-- Why the engine returns no PDU. -/
inductive EngineFault where
  | assertion
  | outOfBounds
  | error (e : SecurityError)
  deriving DecidableEq

/-! ## Model -/

/-- `byte_buffer::append`: the last segment is filled up first. -/
def appendBytes (room : Nat) (bytes : List UInt8) : Segments → Segments
  | [] => [bytes]
  | [seg] => [seg ++ bytes.take room, bytes.drop room]
  | seg :: segs => seg :: appendBytes room bytes segs

def secMacLen : Nat := 4

section Engines

variable (p : Primitives) (key : Sec128Key) (bearer : UInt8) (direction : SecurityDirection)

/-- `protect_integrity`; `room` is the place in the last segment, `none` if appending fails. -/
def protectIntegrity (algo : IntegrityAlgorithm) (room : Option Nat) (buf : Segments)
    (count : UInt32) : Except EngineFault Segments :=
  match computeMac p key count bearer direction algo buf, room with
  | none, _ => .error .assertion
  | some _, none => .error (.error .bufferFailure)
  | some mac, some room => .ok (appendBytes room mac buf)

def verifyIntegrity (algo : IntegrityAlgorithm) (buf : Segments) (count : UInt32) :
    Except EngineFault Segments :=
  let length := buf.flatten.length
  if length ≤ secMacLen then .error (.error .integrityFailure)
  else
    let v := takeElems (length - secMacLen) buf
    let m := takeElems secMacLen (dropElems (length - secMacLen) buf)
    match computeMac p key count bearer direction algo v with
    | none => .error .assertion
    | some mac =>
      if mac = m.flatten then .ok (takeElems (length - secMacLen) buf)
      else .error (.error .integrityFailure)

def applyCiphering (algo : CipheringAlgorithm) (buf : Segments) (offset : Nat) (count : UInt32) :
    Except EngineFault Segments :=
  match algo with
  | .nea0 => .ok buf
  | .nea1 =>
    match securityNea1 p key count bearer direction offset buf with
    | some buf => .ok buf
    | none => .error .outOfBounds
  | .nea2 =>
    match nea2Segments p key (ctrStart count bearer direction) offset buf with
    | some buf => .ok buf
    | none => .error (.error .cipheringFailure)
  | .nea3 =>
    match securityNea3 p key count bearer direction offset buf with
    | some buf => .ok buf
    | none => .error .outOfBounds

end Engines

variable (p : Primitives) (e : SecurityEngine)

/-- The ciphering step of both directions. -/
def cipherStep (buf : Segments) (offset : Nat) (count : UInt32) : Except EngineFault Segments :=
  match e.cipherEng with
  | some (algo, key) => applyCiphering p key e.bearerId.toUInt8 e.direction algo buf offset count
  | none => .ok buf

def encryptAndProtectIntegrity (room : Option Nat) (buf : Segments) (offset : Nat)
    (count : UInt32) : Except EngineFault Segments := do
  let buf ← match e.integEng with
    | some (algo, key) => protectIntegrity p key e.bearerId.toUInt8 e.direction algo room buf count
    | none => .ok buf
  cipherStep p e buf offset count

def decryptAndVerifyIntegrity (buf : Segments) (offset : Nat) (count : UInt32) :
    Except EngineFault Segments := do
  let buf ← cipherStep p e buf offset count
  match e.integEng with
  | some (algo, key) => verifyIntegrity p key e.bearerId.toUInt8 e.direction algo buf count
  | none => .ok buf

/-- The MAC the engine computes of a message, if integrity is on. -/
def macOf (msg : List UInt8) (count : UInt32) : Option (List UInt8) :=
  e.integEng.bind fun (algo, key) =>
    computeMac p key count e.bearerId.toUInt8 e.direction algo [msg]

/-! ## Bytes -/

variable {offset : Nat} {bytes : List UInt8}

section XorFrom

variable {σ : Type} (next : σ → UInt8 × σ) (s : σ)

/-- XOR of the bytes from `offset` on with a stream. -/
def xorFrom (offset : Nat) (bytes : List UInt8) : List UInt8 :=
  bytes.take offset ++ (scan next (· ^^^ ·) s (bytes.drop offset)).2

theorem length_xorFrom (offset : Nat) (bytes : List UInt8) :
    (xorFrom next s offset bytes).length = bytes.length := by
  rw [xorFrom, List.length_append, length_scan, List.length_take, List.length_drop]
  omega

theorem take_xorFrom (h : offset ≤ bytes.length) :
    (xorFrom next s offset bytes).take offset = bytes.take offset :=
  List.take_left' (List.length_take_of_le h)

theorem xorFrom_xorFrom (h : offset ≤ bytes.length) :
    xorFrom next s offset (xorFrom next s offset bytes) = bytes := by
  have hdrop : (xorFrom next s offset bytes).drop offset =
      (scan next (· ^^^ ·) s (bytes.drop offset)).2 := List.drop_left' (List.length_take_of_le h)
  have hxor (x b : UInt8) : x ^^^ b ^^^ b = x := by
    rw [UInt8.xor_assoc, UInt8.xor_self, UInt8.xor_zero]
  rw [xorFrom, take_xorFrom next s h, hdrop, scan_scan next _ hxor, List.take_append_drop]

end XorFrom

/-- What a ciphering step has to do to the bytes. -/
structure IsCipher (offset : Nat) (f : List UInt8 → List UInt8) : Prop where
  length : ∀ bytes, (f bytes).length = bytes.length
  take : ∀ bytes, offset ≤ bytes.length → (f bytes).take offset = bytes.take offset
  involutive : ∀ bytes, offset ≤ bytes.length → f (f bytes) = bytes

theorem isCipher_id (offset : Nat) : IsCipher offset id :=
  ⟨fun _ => rfl, fun _ _ => rfl, fun _ _ => rfl⟩

theorem isCipher_xorFrom {σ : Type} (next : σ → UInt8 × σ) (s : σ) (offset : Nat) :
    IsCipher offset (xorFrom next s offset) :=
  ⟨length_xorFrom next s offset, fun _ h => take_xorFrom next s h,
    fun _ h => xorFrom_xorFrom next s h⟩

/-- Every ciphering algorithm is a function of the bytes. -/
theorem applyCiphering_spec (key : Sec128Key) (bearer : UInt8) (direction : SecurityDirection)
    (algo : CipheringAlgorithm) (offset : Nat) (count : UInt32) :
    ∃ f, IsCipher offset f ∧ ∀ buf : Segments, offset < buf.flatten.length →
      ∃ out, applyCiphering p key bearer direction algo buf offset count = .ok out ∧
        out.flatten = f buf.flatten := by
  have hwords (ks : Nat → UInt32) := isCipher_xorFrom (wordStream ks) 0 offset
  cases algo with
  | nea0 => exact ⟨id, isCipher_id offset, fun buf _ => ⟨buf, rfl, rfl⟩⟩
  | nea1 =>
    refine ⟨_, hwords (nea1Keystream p key count bearer direction), fun buf h => ?_⟩
    obtain ⟨out, hout, hflat⟩ := flatten_applyKeystream _ h
    exact ⟨out, by rw [applyCiphering, securityNea1, hout], hflat⟩
  | nea2 =>
    refine ⟨_, isCipher_xorFrom (p.ctr.next key) (ctrStart count bearer direction) offset,
      fun buf _ => ?_⟩
    have hout := nea2Segments_eq p key (s := ctrStart count bearer direction)
      (by decide : 0 < 16) offset buf
    exact ⟨_, by rw [applyCiphering, hout], flatten_scanFrom _ _ _ _ _⟩
  | nea3 =>
    refine ⟨_, hwords (nea3Keystream p key count bearer direction), fun buf h => ?_⟩
    obtain ⟨out, hout, hflat⟩ := flatten_applyKeystream _ h
    exact ⟨out, by rw [applyCiphering, securityNea3, hout], hflat⟩

theorem cipherStep_spec (offset : Nat) (count : UInt32) :
    ∃ f, IsCipher offset f ∧ ∀ buf : Segments, offset < buf.flatten.length →
      ∃ out, cipherStep p e buf offset count = .ok out ∧ out.flatten = f buf.flatten := by
  rw [show cipherStep p e = fun buf offset count => match e.cipherEng with
    | some (algo, key) => applyCiphering p key e.bearerId.toUInt8 e.direction algo buf offset count
    | none => .ok buf from rfl]
  rcases e.cipherEng with _ | ⟨algo, key⟩
  · exact ⟨id, isCipher_id offset, fun buf _ => ⟨buf, rfl, rfl⟩⟩
  · exact applyCiphering_spec p key _ _ algo offset count

theorem flatten_appendBytes (room : Nat) (bytes : List UInt8) (segs : Segments) :
    (appendBytes room bytes segs).flatten = segs.flatten ++ bytes := by
  induction segs with
  | nil => exact List.append_nil _
  | cons seg segs ih =>
    cases segs with
    | nil =>
      change (seg ++ bytes.take room) ++ (bytes.drop room ++ []) = seg ++ [] ++ bytes
      rw [List.append_nil, List.append_nil, List.append_assoc, List.take_append_drop]
    | cons seg' segs =>
      change seg ++ (appendBytes room bytes (seg' :: segs)).flatten = _
      rw [ih, ← List.append_assoc]
      rfl

/-- Protecting appends the MAC of the bytes. -/
theorem protectIntegrity_spec (key : Sec128Key) (bearer : UInt8) (direction : SecurityDirection)
    (algo : IntegrityAlgorithm) (count : UInt32) (bytes : List UInt8) (h : bytes.length ≤ 9000) :
    ∃ mac, computeMac p key count bearer direction algo [bytes] = some mac ∧
      mac.length = secMacLen ∧ ∀ (buf : Segments) (room : Nat), buf.flatten = bytes →
        ∃ out, protectIntegrity p key bearer direction algo (some room) buf count = .ok out ∧
          out.flatten = bytes ++ mac := by
  have hbytes : [bytes].flatten.length ≤ 9000 := by
    rw [List.flatten_singleton]
    exact h
  obtain ⟨mac, hmac, hlen⟩ := computeMac_spec p key count bearer direction algo hbytes
  refine ⟨mac, hmac, hlen, fun buf room hbuf => ⟨appendBytes room mac buf, ?_, ?_⟩⟩
  · have hbufMac : computeMac p key count bearer direction algo buf = some mac := by
      rw [computeMac_flatten, hbuf, hmac]
    simp [protectIntegrity, hbufMac]
  · rw [flatten_appendBytes, hbuf]

/-- Verifying compares the last bytes with the MAC of those before, and removes them. -/
theorem verifyIntegrity_spec (key : Sec128Key) (bearer : UInt8) (direction : SecurityDirection)
    (algo : IntegrityAlgorithm) (count : UInt32) (buf : Segments)
    (h : buf.flatten.length ≤ 9000 + secMacLen) :
    (verifyIntegrity p key bearer direction algo buf count).map List.flatten =
      let n := buf.flatten.length - secMacLen
      if secMacLen < buf.flatten.length ∧
          computeMac p key count bearer direction algo [buf.flatten.take n] =
            some (buf.flatten.drop n)
      then .ok (buf.flatten.take n) else .error (.error .integrityFailure) := by
  rw [verifyIntegrity]
  by_cases hshort : buf.flatten.length ≤ secMacLen
  · simp only [if_pos hshort, Nat.not_lt_of_le hshort, false_and, if_false]
    rfl
  · have hbody : (takeElems (buf.flatten.length - secMacLen) buf).flatten.length ≤ 9000 := by
      rw [flatten_takeElems, List.length_take]
      omega
    obtain ⟨mac, hmac, hlen⟩ := computeMac_spec p key count bearer direction algo hbody
    have hflat := hmac
    rw [computeMac_flatten, flatten_takeElems] at hflat
    have hm : (takeElems secMacLen (dropElems (buf.flatten.length - secMacLen) buf)).flatten =
        buf.flatten.drop (buf.flatten.length - secMacLen) := by
      rw [flatten_takeElems, flatten_dropElems, List.take_of_length_le]
      rw [List.length_drop]
      omega
    simp only [if_neg hshort, hmac, hflat, hm, Nat.lt_of_not_le hshort, true_and,
      Option.some.injEq]
    split
    · rw [← flatten_takeElems]
      rfl
    · rfl

def resultBytes (r : Except EngineFault Segments) : Except EngineFault (List UInt8) :=
  r.map List.flatten

theorem exists_resultBytes {r : Except EngineFault Segments} :
    (∃ bytes, resultBytes r = .ok bytes) ↔ ∃ out, r = .ok out := by
  cases r <;> simp [resultBytes, Except.map]

/-- What receiving makes of the deciphered bytes. -/
def receiveBytes (plain : List UInt8) (count : UInt32) : Except EngineFault (List UInt8) :=
  let n := plain.length - secMacLen
  if e.integEng = none then .ok plain
  else if secMacLen < plain.length ∧ macOf p e (plain.take n) count = some (plain.drop n) then
    .ok (plain.take n)
  else .error (.error .integrityFailure)

theorem exists_receiveBytes {plain : List UInt8} {count : UInt32} :
    (∃ sdu, receiveBytes p e plain count = .ok sdu) ↔ e.integEng = none ∨
      secMacLen < plain.length ∧ macOf p e (plain.take (plain.length - secMacLen)) count =
        some (plain.drop (plain.length - secMacLen)) := by
  rw [receiveBytes]
  split_ifs with hoff hmac
  · exact iff_of_true ⟨_, rfl⟩ (.inl hoff)
  · exact iff_of_true ⟨_, rfl⟩ (.inr hmac)
  · exact iff_of_false (by simp) (not_or.2 ⟨hoff, hmac⟩)

theorem receiveBytes_prefix {plain sdu : List UInt8} {count : UInt32}
    (h : receiveBytes p e plain count = .ok sdu) : sdu <+: plain := by
  rw [receiveBytes] at h
  split_ifs at h
  · cases h
    exact List.prefix_refl _
  · cases h
    exact List.take_prefix _ _

/-- The bytes the engine appends to a message: its MAC, or nothing if integrity is off. -/
theorem exists_trailer (hpos : 0 < bytes.length) (h : bytes.length ≤ 9000) (count : UInt32) :
    ∃ trailer, trailer.length ≤ secMacLen ∧
      receiveBytes p e (bytes ++ trailer) count = .ok bytes ∧
      ∀ (buf : Segments) (room offset : Nat), buf.flatten = bytes →
        ∃ out, out.flatten = bytes ++ trailer ∧
          encryptAndProtectIntegrity p e (some room) buf offset count =
            cipherStep p e out offset count := by
  cases hinteg : e.integEng with
  | none =>
    refine ⟨[], Nat.zero_le _, ?_, fun buf room offset hbuf =>
      ⟨buf, by rw [hbuf, List.append_nil], ?_⟩⟩
    · rw [receiveBytes, if_pos hinteg, List.append_nil]
    · simp only [encryptAndProtectIntegrity, hinteg]
      rfl
  | some eng =>
    obtain ⟨algo, key⟩ := eng
    obtain ⟨mac, hmac, hlen, hprotect⟩ := protectIntegrity_spec p key e.bearerId.toUInt8 e.direction
      algo count bytes h
    refine ⟨mac, Nat.le_of_eq hlen, ?_, fun buf room offset hbuf => ?_⟩
    · have hmacOf : macOf p e bytes count = some mac := by
        rw [macOf, hinteg]
        exact hmac
      have hn : (bytes ++ mac).length - secMacLen = bytes.length := by
        rw [List.length_append, hlen, Nat.add_sub_cancel]
      have hlong : secMacLen < (bytes ++ mac).length := by omega
      have hoff : e.integEng ≠ none := by simp [hinteg]
      rw [receiveBytes]
      simp only [if_neg hoff, hn, List.take_left, List.drop_left, hmacOf, hlong, and_self, if_true]
    · obtain ⟨out, hout, hflat⟩ := hprotect buf room hbuf
      refine ⟨out, hflat, ?_⟩
      simp only [encryptAndProtectIntegrity, hinteg, hout]
      rfl

theorem resultBytes_decrypt {buf plain : Segments} {count : UInt32}
    (hplain : cipherStep p e buf offset count = .ok plain)
    (hlen : plain.flatten.length ≤ 9000 + secMacLen) :
    resultBytes (decryptAndVerifyIntegrity p e buf offset count) =
      receiveBytes p e plain.flatten count := by
  cases hinteg : e.integEng with
  | none =>
    simp only [decryptAndVerifyIntegrity, hplain, hinteg, receiveBytes, if_true]
    rfl
  | some eng =>
    obtain ⟨algo, key⟩ := eng
    have hverify := verifyIntegrity_spec p key e.bearerId.toUInt8 e.direction algo count plain hlen
    have hne : ¬ some (algo, key) = none := nofun
    simp only [decryptAndVerifyIntegrity, hplain, hinteg, receiveBytes, macOf, if_neg hne]
    exact hverify

/-- **The security engine.** -/
theorem securityEngine_correct (count : UInt32) {offset : Nat} {buf : Segments}
    (hoffset : offset < buf.flatten.length) (hmax : buf.flatten.length ≤ 9000) :
    -- receiving undoes protecting
    (∀ room, ∃ pdu, encryptAndProtectIntegrity p e (some room) buf offset count = .ok pdu ∧
      pdu.flatten.take offset = buf.flatten.take offset ∧
      resultBytes (decryptAndVerifyIntegrity p e pdu offset count) = .ok buf.flatten) ∧
    -- a PDU is accepted if its last bytes are the MAC of the bytes before
    (∃ plain, cipherStep p e buf offset count = .ok plain ∧
      plain.flatten.length = buf.flatten.length ∧
      plain.flatten.take offset = buf.flatten.take offset ∧
      ((∃ sdu, decryptAndVerifyIntegrity p e buf offset count = .ok sdu) ↔
        e.integEng = none ∨ secMacLen < plain.flatten.length ∧
          macOf p e (plain.flatten.take (plain.flatten.length - secMacLen)) count =
            some (plain.flatten.drop (plain.flatten.length - secMacLen))) ∧
      ∀ sdu, decryptAndVerifyIntegrity p e buf offset count = .ok sdu →
        sdu.flatten <+: plain.flatten) ∧
    -- the segments do not matter
    (∀ buf' : Segments, buf'.flatten = buf.flatten →
      (∀ room room', resultBytes (encryptAndProtectIntegrity p e (some room') buf' offset count) =
        resultBytes (encryptAndProtectIntegrity p e (some room) buf offset count)) ∧
      resultBytes (decryptAndVerifyIntegrity p e buf' offset count) =
        resultBytes (decryptAndVerifyIntegrity p e buf offset count)) := by
  obtain ⟨f, hf, hcipher⟩ := cipherStep_spec p e offset count
  obtain ⟨trailer, htrailer, hreceive, hencrypt⟩ :=
    exists_trailer p e (Nat.zero_lt_of_lt hoffset) hmax count
  have hprotected (out : Segments) (hout : out.flatten = buf.flatten ++ trailer) :
      offset < out.flatten.length ∧ out.flatten.length ≤ 9000 + secMacLen := by
    rw [hout, List.length_append]
    omega
  refine ⟨fun room => ?_, ?_, fun buf' hbuf' => ⟨fun room room' => ?_, ?_⟩⟩
  · obtain ⟨out, hout, hstep⟩ := hencrypt buf room offset rfl
    obtain ⟨hlt, hle⟩ := hprotected out hout
    obtain ⟨pdu, hpdu, hbytes⟩ := hcipher out hlt
    have hpduLen : pdu.flatten.length = out.flatten.length := by rw [hbytes, hf.length]
    obtain ⟨plain, hplain, hplainBytes⟩ := hcipher pdu (hpduLen ▸ hlt)
    rw [hbytes, hf.involutive _ (Nat.le_of_lt hlt), hout] at hplainBytes
    refine ⟨pdu, hstep.trans hpdu, ?_, ?_⟩
    · rw [hbytes, hf.take _ (Nat.le_of_lt hlt), hout,
        List.take_append_of_le_length (Nat.le_of_lt hoffset)]
    · rw [resultBytes_decrypt p e hplain (by rw [hplainBytes, ← hout]; exact hle), hplainBytes,
        hreceive]
  · obtain ⟨plain, hplain, hbytes⟩ := hcipher buf hoffset
    have hlen : plain.flatten.length = buf.flatten.length := by rw [hbytes, hf.length]
    have hdecrypt := resultBytes_decrypt p e hplain
      (by rw [hlen]; exact Nat.le_add_right_of_le hmax)
    refine ⟨plain, hplain, hlen, by rw [hbytes, hf.take _ (Nat.le_of_lt hoffset)], ?_, ?_⟩
    · rw [← exists_resultBytes, hdecrypt, exists_receiveBytes]
    · intro sdu hsdu
      rw [hsdu] at hdecrypt
      exact receiveBytes_prefix p e hdecrypt.symm
  · obtain ⟨out, hout, hstep⟩ := hencrypt buf room offset rfl
    obtain ⟨out', hout', hstep'⟩ := hencrypt buf' room' offset hbuf'
    obtain ⟨pdu, hpdu, hbytes⟩ := hcipher out (hprotected out hout).1
    obtain ⟨pdu', hpdu', hbytes'⟩ := hcipher out' (hprotected out' hout').1
    rw [hstep, hstep', hpdu, hpdu', resultBytes, resultBytes]
    change Except.ok pdu'.flatten = Except.ok pdu.flatten
    rw [hbytes, hbytes', hout, hout']
  · obtain ⟨plain, hplain, hbytes⟩ := hcipher buf hoffset
    obtain ⟨plain', hplain', hbytes'⟩ := hcipher buf' (hbuf' ▸ hoffset)
    have hlen : plain.flatten.length ≤ 9000 + secMacLen := by
      rw [hbytes, hf.length]
      exact Nat.le_add_right_of_le hmax
    have heq : plain'.flatten = plain.flatten := by rw [hbytes, hbytes', hbuf']
    rw [resultBytes_decrypt p e hplain hlen, resultBytes_decrypt p e hplain' (heq ▸ hlen), heq]

/-- A counter mode that takes its bytes from a stream. -/
def Ctr.ofStream (next : Sec128Key → CtrState → UInt8 × CtrState)
    (hnext : ∀ key s, (next key s).2.ncOff < 16) : Ctr where
  crypt key s input := some (scan (next key) (· ^^^ ·) s input)
  crypt_nil _ _ _ := rfl
  crypt_byte key s _ := ⟨(next key s).1, (next key s).2, hnext key s, fun _ => rfl⟩
  crypt_append key s xs ys := by rw [scan_append]; rfl

/-- Primitives with simple streams, and a CMAC that adds up the bytes. -/
def countingPrimitives : Primitives where
  aes _ block := block.map (· + 1)
  ctr := .ofStream (fun key s =>
    (key.toList.getD 0 0 + s.nonceCounter.toList.getD s.ncOff 0,
      { s with ncOff := (s.ncOff + 1) % 16 })) fun _ _ => Nat.mod_lt _ (by decide)
  snow3g k iv i := k.getD 0 0 + iv.getD 1 0 + i.toUInt32
  zuc key iv i := (key.toList.getD 0 0).toUInt32 + (iv.getD 3 0).toUInt32 + i.toUInt32
  cmac := some
    { State := UInt8
      starts := fun key => key.toList.getD 0 0
      update := List.foldl (· + ·)
      finish := Vector.replicate 16
      update_nil := fun _ => rfl
      update_append := fun _ _ _ => List.foldl_append }

def nia2Nea2 : SecurityEngine where
  bearerId := 4
  direction := .downlink
  integEng := some (.nia2, Vector.replicate 16 7)
  cipherEng := some (.nea2, Vector.replicate 16 9)

/-- Three bytes in two segments, ciphered after the first byte. -/
theorem securityEngine_threeBytes : ∃ pdu,
    encryptAndProtectIntegrity countingPrimitives nia2Nea2 (some 1) [[0x81, 2], [3]] 1 5 = .ok pdu ∧
    pdu.flatten.take 1 = [0x81] ∧
    resultBytes (decryptAndVerifyIntegrity countingPrimitives nia2Nea2 pdu 1 5) =
      .ok [0x81, 2, 3] :=
  (@securityEngine_correct countingPrimitives nia2Nea2 5 1 [[0x81, 2], [3]]
    (by decide) (by decide)).1 1

end RadioStack.Security
