import RadioStack.Lib.Segmented
import RadioStack.Pdcp.Base

/-!
# Ciphering and integrity algorithms

NEA1 to NEA3 and NIA0 to NIA3 (`ciphering.h`, `integrity.h`, `s3g.cpp`), over a buffer that is
stored in segments. AES, SNOW 3G and ZUC are functions of their key and of their block or
initialisation vector, counter mode and CMAC those of a crypto library with the laws of `Ctr` and
`Cmac`; what is modelled is how the code drives them.

NEA1 and NEA3 apply 32-bit words of the keystream, byte by byte in place, with the last word apart.
NEA2 runs counter mode over the segments, with the state carried from one to the next. The lemmas
say what each does to the bytes: `flatten_applyKeystream`, `nea2Segments_eq`. The integrity
algorithms read the message by position, except CMAC, which is updated with each segment; in both
cases the MAC is a function of the bytes (`computeMac_flatten`).
-/

namespace RadioStack.Security

open Pdcp Segmented

/-- A buffer as its segments. -/
abbrev Segments := List (List UInt8)

abbrev Block := Vector UInt8 16

/-- The CMAC of the crypto library: updates with two pieces are an update with both. -/
structure Cmac where
  State : Type
  starts : Sec128Key → State
  update : State → List UInt8 → State
  finish : State → Block
  update_nil : ∀ s, update s [] = s
  update_append : ∀ s xs ys, update s (xs ++ ys) = update (update s xs) ys

/-- The state of counter mode between two calls of `aes_crypt_ctr`. -/
structure CtrState where
  ncOff : Nat
  nonceCounter : Block
  streamBlock : Block

/-- The counter mode of the crypto library: each byte is XORed with one that does not depend on it,
and a call resumes where the one before it stopped. -/
structure Ctr where
  /-- `aes_crypt_ctr`: the next state and the output; `none` is an error. -/
  crypt : Sec128Key → CtrState → List UInt8 → Option (CtrState × List UInt8)
  crypt_nil : ∀ key s, s.ncOff < 16 → crypt key s [] = some (s, [])
  crypt_byte : ∀ key s, s.ncOff < 16 →
    ∃ b s', s'.ncOff < 16 ∧ ∀ x, crypt key s [x] = some (s', [x ^^^ b])
  crypt_append : ∀ key s xs ys, crypt key s (xs ++ ys) =
    (crypt key s xs).bind fun r => (crypt key r.1 ys).map fun r' => (r'.1, r.2 ++ r'.2)

structure Primitives where
  /-- `aes_crypt_ecb` with `aes_encrypt`. -/
  aes : Sec128Key → Block → Block
  ctr : Ctr
  /-- The words of the SNOW 3G keystream, for `k` and `iv`. -/
  snow3g : List UInt32 → List UInt32 → Nat → UInt32
  /-- The words of the ZUC keystream. -/
  zuc : Sec128Key → List UInt8 → Nat → UInt32
  /-- The CMAC of the library, if it is built with it (`MBEDTLS_CMAC_C`). -/
  cmac : Option Cmac

def toNumber : SecurityDirection → UInt8
  | .uplink => 0
  | .downlink => 1

/-- The four bytes of a word, most significant first. -/
def wordBytes (w : UInt32) : List UInt8 :=
  [(w >>> 24).toUInt8, (w >>> 16).toUInt8, (w >>> 8).toUInt8, w.toUInt8]

/-- Word `i` of a key. -/
def keyWord (key : Sec128Key) (i : Nat) : UInt32 :=
  (key.toList.getD (4 * i) 0).toUInt32 <<< 24 |||
    (key.toList.getD (4 * i + 1) 0).toUInt32 <<< 16 |||
    (key.toList.getD (4 * i + 2) 0).toUInt32 <<< 8 |||
    (key.toList.getD (4 * i + 3) 0).toUInt32

def snow3gKey (key : Sec128Key) : List UInt32 :=
  [keyWord key 3, keyWord key 2, keyWord key 1, keyWord key 0]

/-! ## Ciphering -/

section Ciphering

variable (p : Primitives) (key : Sec128Key) (count : UInt32) (bearer : UInt8)
  (direction : SecurityDirection)

/-- Changes bytes by XOR, one after the other; `none` if one is outside the buffer. -/
def xorBytes (xs : List (Nat × UInt8)) (segs : Segments) : Option Segments :=
  xs.foldlM (fun segs x => modifyAt (· ^^^ x.2) segs x.1) segs

/-- `zero_tailing_bits` of a byte. -/
def zeroTailingBits (tailByte : UInt8) (lengthBits : UInt8) : UInt8 :=
  tailByte &&& (0xff <<< ((8 - (lengthBits &&& 0x07)) &&& 0x07))

/-- The body of `security_nea1` and `security_nea3` for the bytes from `offset` on: all words but
the last, the last bytes, and the tailing bits. For an empty message the loop of the last bytes
starts before the message. -/
def applyKeystream (ks : Nat → UInt32) (offset : Nat) (segs : Segments) : Option Segments :=
  let len := segs.flatten.length - offset
  let msgLen := len * 8
  let msgLenBlock8 := (msgLen + 7) / 8
  let msgLenBlock32 := (msgLen + 31) / 32
  if msgLenBlock32 = 0 then none
  else if msgLenBlock8 ≤ len then do
    let segs ← (List.range (msgLenBlock32 - 1)).foldlM (fun segs i =>
      xorBytes [(offset + 4 * i, (ks i >>> 24).toUInt8),
        (offset + 4 * i + 1, (ks i >>> 16).toUInt8),
        (offset + 4 * i + 2, (ks i >>> 8).toUInt8), (offset + 4 * i + 3, (ks i).toUInt8)] segs) segs
    let segs ← (List.range' ((msgLenBlock32 - 1) * 4)
      (msgLenBlock8 - (msgLenBlock32 - 1) * 4)).foldlM (fun segs i =>
        xorBytes [(offset + i, (ks (i / 4) >>> ((3 - i % 4) * 8).toUInt32).toUInt8)] segs) segs
    modifyAt (zeroTailingBits · msgLen.toUInt8) segs (offset + (msgLenBlock8 - 1))
  else some segs

def nea1Keystream : Nat → UInt32 :=
  let iv2 := (bearer &&& 0x1f).toUInt32 <<< 27 ||| (toNumber direction &&& 0x01).toUInt32 <<< 26
  p.snow3g (snow3gKey key) [iv2, count, iv2, count]

def securityNea1 (offset : Nat) (segs : Segments) : Option Segments :=
  applyKeystream (nea1Keystream p key count bearer direction) offset segs

/-- The COUNT, bearer and direction at the start of nonces and initialisation vectors. -/
def countBearer : List UInt8 :=
  wordBytes count ++ [(bearer &&& 0x1f) <<< 3 ||| (toNumber direction &&& 0x01) <<< 2, 0, 0, 0]

def nea3Keystream : Nat → UInt32 :=
  p.zuc key (countBearer count bearer direction ++ countBearer count bearer direction)

def securityNea3 (offset : Nat) (segs : Segments) : Option Segments :=
  applyKeystream (nea3Keystream p key count bearer direction) offset segs

/-- The state counter mode starts with. -/
def ctrStart : CtrState where
  ncOff := 0
  nonceCounter := Vector.ofFn fun i => (countBearer count bearer direction).getD i.val 0
  streamBlock := Vector.replicate 16 0

/-- The loop of `ciphering_engine_nea2::apply_ciphering` over the segments from `offset` on; `none`
is a ciphering failure. -/
def nea2Segments : CtrState → Nat → Segments → Option Segments
  | _, _, [] => some []
  | s, offset, seg :: segs =>
    if seg.length ≤ offset then
      (nea2Segments s (offset - seg.length) segs).map (seg :: ·)
    else do
      let (s, out) ← p.ctr.crypt key s (seg.drop offset)
      let segs ← nea2Segments s 0 segs
      some ((seg.take offset ++ out) :: segs)

end Ciphering

/-! ### What ciphering does to the bytes -/

section CipheringBytes

variable {segs : Segments} {offset : Nat}

section

variable (ks : Nat → UInt32)

def ksByte (j : Nat) : UInt8 :=
  (ks (j / 4) >>> ((3 - j % 4) * 8).toUInt32).toUInt8

/-- The keystream from byte `j` on. -/
def wordStream (j : Nat) : UInt8 × Nat := (ksByte ks j, j + 1)

theorem xorBytes_append (xs ys : List (Nat × UInt8)) (segs : Segments) :
    xorBytes (xs ++ ys) segs = (xorBytes xs segs).bind (xorBytes ys) :=
  List.foldlM_append

theorem foldlM_xorBytes {ι : Type} (f : ι → List (Nat × UInt8)) (is : List ι) (segs : Segments) :
    is.foldlM (fun segs i => xorBytes (f i) segs) segs = xorBytes (is.flatMap f) segs := by
  induction is generalizing segs with
  | nil => rfl
  | cons i is ih =>
    rw [List.flatMap_cons, xorBytes_append, List.foldlM_cons]
    exact congrArg _ (funext ih)

/-- XORs at consecutive positions are a scan of that part. -/
theorem xorBytes_consecutive {pre mid post : List UInt8} {a : Nat}
    (hpre : pre.length = offset + a) (hsegs : segs.flatten = pre ++ mid ++ post) :
    ∃ segs', xorBytes ((List.range' a mid.length).map fun j => (offset + j, ksByte ks j)) segs =
        some segs' ∧
      segs'.flatten = pre ++ (scan (wordStream ks) (· ^^^ ·) a mid).2 ++ post := by
  induction mid generalizing segs pre a with
  | nil => exact ⟨segs, rfl, hsegs⟩
  | cons x mid ih =>
    have hi : offset + a < segs.flatten.length := by
      rw [hsegs, List.length_append, List.length_append, List.length_cons]
      omega
    obtain ⟨segs₁, hmod, hflat⟩ := modifyAt_spec (· ^^^ ksByte ks a) hi
    have hflat₁ : segs₁.flatten = pre ++ [x ^^^ ksByte ks a] ++ mid ++ post := by
      rw [hflat, hsegs, List.append_assoc, modify_append, if_neg (by omega), ← hpre, Nat.sub_self]
      simp
    obtain ⟨segs', hrest, hflat'⟩ := ih (a := a + 1) (by
      rw [List.length_append, List.length_singleton, hpre, Nat.add_assoc]) hflat₁
    refine ⟨segs', ?_, ?_⟩
    · rw [List.length_cons, List.range'_succ, List.map_cons, ← List.singleton_append,
        xorBytes_append]
      change ((modifyAt (· ^^^ ksByte ks a) segs (offset + a)).bind some).bind _ = _
      rw [hmod]
      exact hrest
    · rw [hflat', scan]
      simp only [List.append_assoc, List.cons_append, List.nil_append]
      rfl

theorem flatMap_words (offset n : Nat) :
    ((List.range n).flatMap fun i =>
      [(offset + 4 * i, (ks i >>> 24).toUInt8), (offset + 4 * i + 1, (ks i >>> 16).toUInt8),
        (offset + 4 * i + 2, (ks i >>> 8).toUInt8), (offset + 4 * i + 3, (ks i).toUInt8)]) =
      (List.range' 0 (4 * n)).map fun j => (offset + j, ksByte ks j) := by
  induction n with
  | zero => rfl
  | succ n ih =>
    have hbyte (c : Nat) (hc : c < 4) :
        ksByte ks (4 * n + c) = (ks n >>> ((3 - c) * 8).toUInt32).toUInt8 := by
      rw [ksByte, show (4 * n + c) / 4 = n by omega, show (4 * n + c) % 4 = c by omega]
    have hlast : List.range' (4 * n) 4 = [4 * n, 4 * n + 1, 4 * n + 2, 4 * n + 3] := rfl
    have h0 := hbyte 0 (by decide)
    have h1 := hbyte 1 (by decide)
    have h2 := hbyte 2 (by decide)
    have h3 := hbyte 3 (by decide)
    rw [Nat.add_zero] at h0
    rw [List.range_succ, List.flatMap_append, ih, Nat.mul_succ, List.range'_append_1.symm,
      List.map_append, List.flatMap_singleton]
    congr 1
    rw [Nat.zero_add, hlast]
    simp only [List.map_cons, List.map_nil, h0, h1, h2, h3, Nat.add_assoc]
    rfl

theorem zeroTailingBits_of_bytes (b : UInt8) (len : Nat) :
    zeroTailingBits b (len * 8).toUInt8 = b := by
  have hlow : (len * 8).toUInt8 &&& 0x07 = 0 := by
    refine UInt8.toNat_inj.1 ?_
    change (len * 8) % 256 &&& 2 ^ 3 - 1 = 0
    rw [Nat.and_two_pow_sub_one_eq_mod]
    omega
  rw [zeroTailingBits, hlow]
  refine UInt8.toNat_inj.1 ?_
  change b.toNat &&& 2 ^ 8 - 1 = b.toNat
  rw [Nat.and_two_pow_sub_one_eq_mod]
  exact Nat.mod_eq_of_lt b.toNat_lt

/-- **NEA1 and NEA3** XOR the bytes from `offset` on with the bytes of the keystream. -/
theorem flatten_applyKeystream (h : offset < segs.flatten.length) :
    ∃ segs', applyKeystream ks offset segs = some segs' ∧ segs'.flatten =
      segs.flatten.take offset ++
        (scan (wordStream ks) (· ^^^ ·) 0 (segs.flatten.drop offset)).2 := by
  have hlen : (segs.flatten.drop offset).length = segs.flatten.length - offset := List.length_drop
  have hpre : (segs.flatten.take offset).length = offset + 0 := by
    rw [List.length_take, Nat.add_zero, Nat.min_eq_left (Nat.le_of_lt h)]
  have hsegs : segs.flatten = segs.flatten.take offset ++ segs.flatten.drop offset ++ [] := by
    rw [List.append_nil, List.take_append_drop]
  obtain ⟨segs₁, hxor, hflat⟩ := xorBytes_consecutive ks hpre hsegs
  rw [List.append_nil] at hflat
  rw [hlen] at hxor
  generalize hn : segs.flatten.length - offset = len at hxor hlen
  have hblock8 : (len * 8 + 7) / 8 = len := by omega
  obtain ⟨n, hblock32, hle⟩ : ∃ n, (len * 8 + 31) / 32 = n + 1 ∧ n * 4 ≤ len :=
    ⟨(len * 8 + 31) / 32 - 1, by omega, by omega⟩
  have hlast : offset + (len - 1) < segs₁.flatten.length := by
    rw [hflat, List.length_append, length_scan, List.length_take, hlen]
    omega
  have hid : (zeroTailingBits · (len * 8).toUInt8) = id :=
    funext fun b => zeroTailingBits_of_bytes b len
  obtain ⟨segs₂, hmod, hflat₂⟩ := modifyAt_spec (id : UInt8 → UInt8) hlast
  refine ⟨segs₂, ?_, by rw [hflat₂, List.modify_id, hflat]⟩
  -- both loops are XORs of consecutive bytes
  have hsplit : List.range' 0 len =
      List.range' 0 (4 * n) ++ List.range' (n * 4) (len - n * 4) := by
    rw [show n * 4 = 0 + 4 * n by omega, List.range'_append_1]
    congr 1
    omega
  rw [hsplit, List.map_append, xorBytes_append] at hxor
  rw [applyKeystream]
  simp only [hn, hblock8, hblock32, Nat.succ_ne_zero, if_false, Nat.le_refl, if_true,
    Nat.add_sub_cancel, foldlM_xorBytes, flatMap_words, ← List.map_eq_flatMap, hid]
  change (xorBytes _ segs).bind (fun segs => (xorBytes _ segs).bind _) = _
  rw [← Option.bind_assoc]
  exact (congrArg (Option.bind · _) hxor).trans hmod

end

variable (p : Primitives) (key : Sec128Key)

/-- The byte that counter mode XORs next. -/
def Ctr.next (ctr : Ctr) (s : CtrState) : UInt8 × CtrState :=
  match ctr.crypt key s [0] with
  | some (s', b :: _) => (b, s')
  | _ => (0, s)

theorem Ctr.crypt_cons (ctr : Ctr) {s : CtrState} (hs : s.ncOff < 16) (x : UInt8)
    (xs : List UInt8) : (ctr.next key s).2.ncOff < 16 ∧ ctr.crypt key s (x :: xs) =
      (ctr.crypt key (ctr.next key s).2 xs).map fun r =>
        (r.1, (x ^^^ (ctr.next key s).1) :: r.2) := by
  obtain ⟨b, s', hs', hbyte⟩ := ctr.crypt_byte key s hs
  have hnext : ctr.next key s = (b, s') := by rw [Ctr.next, hbyte, UInt8.zero_xor]
  rw [hnext, ← List.singleton_append, ctr.crypt_append, hbyte]
  exact ⟨hs', rfl⟩

/-- Counter mode is a scan, from any state that calls lead to. -/
theorem Ctr.crypt_eq_scan (ctr : Ctr) {s : CtrState} (hs : s.ncOff < 16) (xs : List UInt8) :
    ctr.crypt key s xs = some (scan (ctr.next key) (· ^^^ ·) s xs) ∧
      (scan (ctr.next key) (· ^^^ ·) s xs).1.ncOff < 16 := by
  induction xs generalizing s with
  | nil => exact ⟨ctr.crypt_nil key s hs, hs⟩
  | cons x xs ih =>
    obtain ⟨hs', hcons⟩ := ctr.crypt_cons key hs x xs
    obtain ⟨hcrypt, hoff⟩ := ih hs'
    rw [hcons, hcrypt]
    exact ⟨rfl, hoff⟩

theorem nea2Segments_eq {s : CtrState} (hs : s.ncOff < 16) (offset : Nat) (segs : Segments) :
    nea2Segments p key s offset segs =
      some (scanFrom (p.ctr.next key) (· ^^^ ·) s offset segs) := by
  induction segs generalizing s offset with
  | nil => rfl
  | cons seg segs ih =>
    rw [nea2Segments, scanFrom]
    split
    · rw [ih hs]
      rfl
    · obtain ⟨hcrypt, hoff⟩ := p.ctr.crypt_eq_scan key hs (seg.drop offset)
      rw [hcrypt]
      change (nea2Segments p key _ 0 segs).bind _ = _
      rw [ih hoff]
      rfl

end CipheringBytes

/-! ## Integrity -/

section Integrity

def s3gMul64x (v c : UInt64) : UInt64 :=
  if v &&& 0x8000000000000000 ≠ 0 then (v <<< 1) ^^^ c else v <<< 1

def s3gMul64xPow (v : UInt64) : Nat → UInt64 → UInt64
  | 0, _ => v
  | i + 1, c => s3gMul64x (s3gMul64xPow v i c) c

def s3gMul64 (v p c : UInt64) : UInt64 :=
  (List.range 64).foldl (fun result i =>
    if (p >>> i.toUInt64) &&& 0x1 ≠ 0 then result ^^^ s3gMul64xPow v i c else result) 0

def mask8bit (n : Nat) : UInt8 := (0xff : UInt8) ^^^ (((1 : UInt8) <<< (8 - n).toUInt8) - 1)

/-- `s3g_f9` with the keystream words `z`. -/
def s3gF9 (z : Nat → UInt32) (data : List UInt8) (length : Nat) : List UInt8 :=
  let byte (i : Nat) : UInt64 := (data.getD i 0).toUInt64
  let p := (z 0).toUInt64 <<< 32 ||| (z 1).toUInt64
  let q := (z 2).toUInt64 <<< 32 ||| (z 3).toUInt64
  let d := if length % 64 = 0 then length / 64 + 1 else length / 64 + 2
  let c : UInt64 := 0x1b
  let eval := (List.range (d - 2)).foldl (fun eval i =>
    let m := (List.range 8).foldl (fun m j => m ||| byte (8 * i + j) <<< (56 - 8 * j).toUInt64) 0
    s3gMul64 (eval ^^^ m) p c) 0
  let remBits := if length % 64 = 0 then 64 else length % 64
  let m := (List.range (remBits / 8)).foldl (fun m i =>
    m ||| byte (8 * (d - 2) + i) <<< (8 * (7 - i)).toUInt64) 0
  let m := if 0 < remBits % 8 then
      m ||| (data.getD (8 * (d - 2) + remBits / 8) 0 &&& mask8bit (remBits % 8)).toUInt64 <<<
        (8 * (7 - remBits / 8)).toUInt64
    else m
  let eval := s3gMul64 (eval ^^^ m) p c
  let eval := s3gMul64 (eval ^^^ length.toUInt64) q c
  (List.range 4).map fun i =>
    (eval >>> (56 - i * 8).toUInt64).toUInt8 ^^^ (z 4 >>> (24 - i * 8).toUInt32).toUInt8

/-- The left shift of a block by one bit, with the reduction of the CMAC subkeys. -/
def doubleBlock (l : Block) : Block :=
  let byte (i : Nat) : UInt8 := l.toList.getD i 0
  Vector.ofFn fun i =>
    if i.val < 15 then byte i.val <<< 1 ||| ((byte (i.val + 1) >>> 7) &&& 0x01)
    else if byte 0 &&& 0x80 ≠ 0 then (byte 15 <<< 1) ^^^ 0x87 else byte 15 <<< 1

def secMaxPduSize : Nat := 9100

variable (p : Primitives) (key : Sec128Key) (count : UInt32) (bearer : UInt8)
  (direction : SecurityDirection)

/-- The bytes before the message in NIA2. -/
def nia2Preamble : List UInt8 :=
  wordBytes count ++ [bearer <<< 3 ||| toNumber direction <<< 2, 0, 0, 0]

variable (get : Nat → Option UInt8)

/-- `integrity_engine_nia2_non_cmac::compute_mac` of a message of `len` bytes that is read with
`get`; `none` if the assertion on the length fails. -/
def nia2NonCmac (len : Nat) : Option (List UInt8) :=
  if len + 8 + 16 ≤ secMaxPduSize then do
    let v ← (List.range len).mapM get
    let k1 := doubleBlock (p.aes key (Vector.replicate 16 0))
    let k2 := doubleBlock k1
    let msg := nia2Preamble count bearer direction ++ v ++ List.replicate 16 0
    let n := (len + 8 + 15) / 16
    let block (msg : List UInt8) (i : Nat) (j : Fin 16) : UInt8 := msg.getD (i * 16 + j.val) 0
    let t : Block := (List.range (n - 1)).foldl (fun t i =>
      p.aes key (Vector.ofFn fun j => t.get j ^^^ block msg i j)) (Vector.replicate 16 0)
    let padBits := (len * 8 + 64) % 128
    let t :=
      if padBits = 0 then
        p.aes key (Vector.ofFn fun j => t.get j ^^^ k1.get j ^^^ block msg (n - 1) j)
      else
        let padBits := 128 - padBits - 1
        let msg := msg.modify ((n - 1) * 16 + (15 - padBits / 8))
          (· ||| 0x1 <<< (padBits % 8).toUInt8)
        p.aes key (Vector.ofFn fun j => t.get j ^^^ k2.get j ^^^ block msg (n - 1) j)
    some (t.toList.take 4)
  else none

/-- `integrity_engine_nia2_cmac::compute_mac`. -/
def nia2Cmac (cmac : Cmac) (msg : Segments) : List UInt8 :=
  let s := cmac.update (cmac.starts key) (nia2Preamble count bearer direction)
  (cmac.finish (msg.foldl cmac.update s)).toList.take 4

def securityNia1 (len : Nat) : Option (List UInt8) := do
  let continuousBuf ← (List.range len).mapM get
  let fresh := bearer.toUInt32 <<< 27
  let dir := (toNumber direction).toUInt32
  let iv := [fresh ^^^ (dir <<< 15), count ^^^ (dir <<< 31), fresh, count]
  some (s3gF9 (p.snow3g (snow3gKey key) iv) continuousBuf (len * 8))

def getWord (data : Nat → UInt32) (i : Nat) : UInt32 :=
  let ti := i % 32
  if ti = 0 then data (i / 32)
  else data (i / 32) <<< ti.toUInt32 ||| data (i / 32 + 1) >>> (32 - ti).toUInt32

/-- The MAC of NIA3 after bit `i` of the message, which is in byte `b`. -/
def nia3Bit (ks : Nat → UInt32) (t : UInt32) (i : Nat) (b : UInt8) : UInt32 :=
  if b &&& (1 <<< (7 - i % 8).toUInt8) ≠ 0 then t ^^^ getWord ks i else t

def securityNia3 (len : Nat) : Option (List UInt8) := do
  let msgLen := len * 8
  let dir := (toNumber direction &&& 1) <<< 7
  let iv := wordBytes count ++ [(bearer <<< 3) &&& 0xf8, 0, 0, 0] ++
    [(count >>> 24).toUInt8 ^^^ dir, (count >>> 16).toUInt8, (count >>> 8).toUInt8, count.toUInt8,
      (bearer <<< 3) &&& 0xf8, 0, dir, 0]
  let ks := p.zuc key iv
  let l := (msgLen + 64 + 31) / 32
  let t ← (List.range msgLen).foldlM (fun t i => (get (i / 8)).map (nia3Bit ks t i)) 0
  let t := t ^^^ getWord ks msgLen
  some (wordBytes (t ^^^ ks (l - 1)))

variable (algo : IntegrityAlgorithm)

/-- The MAC of a message, by the engine of the algorithm; `none` if an assertion fails. -/
def computeMac (msg : Segments) : Option (List UInt8) :=
  let len := msg.flatten.length
  match algo with
  | .nia0 => some [0, 0, 0, 0]
  | .nia1 => securityNia1 p key count bearer direction (at? msg) len
  | .nia2 =>
    match p.cmac with
    | some cmac => some (nia2Cmac key count bearer direction cmac msg)
    | none => nia2NonCmac p key count bearer direction (at? msg) len
  | .nia3 => securityNia3 p key count bearer direction (at? msg) len

/-! ### What a MAC depends on -/

theorem mapM_range' {get : Nat → Option UInt8} {bytes : List UInt8} {a : Nat}
    (h : ∀ i, get (a + i) = bytes[i]?) : (List.range' a bytes.length).mapM get = some bytes := by
  induction bytes generalizing a with
  | nil => rfl
  | cons x bytes ih =>
    have hfirst : get a = some x := h 0
    have hrest := ih (a := a + 1) fun i => by
      rw [Nat.add_assoc, Nat.add_comm 1 i, h (i + 1), List.getElem?_cons_succ]
    rw [List.length_cons, List.range'_succ, List.mapM_cons, hfirst, hrest]
    rfl

theorem mapM_at? (msg : Segments) :
    (List.range msg.flatten.length).mapM (at? msg) = some msg.flatten := by
  rw [List.range_eq_range']
  exact mapM_range' fun i => by rw [Nat.zero_add, at?_eq]

theorem foldl_cmacUpdate (cmac : Cmac) (s : cmac.State) (msg : Segments) :
    msg.foldl cmac.update s = cmac.update s msg.flatten := by
  induction msg generalizing s with
  | nil => exact (cmac.update_nil s).symm
  | cons seg msg ih => rw [List.foldl_cons, ih, List.flatten_cons, cmac.update_append]

/-- **The MAC is a function of the bytes.** -/
theorem computeMac_flatten (msg : Segments) :
    computeMac p key count bearer direction algo msg =
      computeMac p key count bearer direction algo [msg.flatten] := by
  have hget : at? msg = at? [msg.flatten] := by
    funext i
    rw [at?_eq, at?_eq, List.flatten_singleton]
  have hcmac (cmac : Cmac) : nia2Cmac key count bearer direction cmac msg =
      nia2Cmac key count bearer direction cmac [msg.flatten] := by
    rw [nia2Cmac, nia2Cmac, foldl_cmacUpdate, foldl_cmacUpdate, List.flatten_singleton]
  cases algo with
  | nia2 => simp only [computeMac, hget, hcmac, List.flatten_singleton]
  | _ => simp only [computeMac, hget, List.flatten_singleton]

theorem foldlM_at? (f : UInt32 → Nat → UInt8 → UInt32) {is : List Nat} {msg : Segments}
    (his : ∀ i ∈ is, i / 8 < msg.flatten.length) (t : UInt32) :
    ∃ t', is.foldlM (fun t i => (at? msg (i / 8)).map (f t i)) t = some t' := by
  induction is generalizing t with
  | nil => exact ⟨t, rfl⟩
  | cons i is ih =>
    have hi := his i List.mem_cons_self
    obtain ⟨t', ht'⟩ := ih (fun j hj => his j (List.mem_cons_of_mem i hj))
      (f t i (msg.flatten.get ⟨i / 8, hi⟩))
    refine ⟨t', ?_⟩
    rw [List.foldlM_cons, at?_eq, List.getElem?_eq_getElem hi]
    exact ht'

/-- Every message of up to 9000 bytes has a MAC, of four bytes. -/
theorem computeMac_spec {msg : Segments} (h : msg.flatten.length ≤ 9000) :
    ∃ mac, computeMac p key count bearer direction algo msg = some mac ∧ mac.length = 4 := by
  have htake (b : Block) : (b.toList.take 4).length = 4 := by
    rw [List.length_take, Vector.length_toList]
    rfl
  cases algo with
  | nia0 => exact ⟨_, rfl, rfl⟩
  | nia1 =>
    refine ⟨_, by rw [computeMac, securityNia1, mapM_at?]; rfl, ?_⟩
    rw [s3gF9, List.length_map, List.length_range]
  | nia2 =>
    rw [computeMac]
    cases p.cmac with
    | some cmac => exact ⟨_, rfl, htake _⟩
    | none =>
      have hlen : msg.flatten.length + 8 + 16 ≤ secMaxPduSize := by
        rw [secMaxPduSize]
        omega
      simp only [nia2NonCmac, if_pos hlen, mapM_at?]
      exact ⟨_, rfl, htake _⟩
  | nia3 =>
    have his : ∀ i ∈ List.range (msg.flatten.length * 8), i / 8 < msg.flatten.length := by
      intro i hi
      have := List.mem_range.1 hi
      omega
    rw [computeMac, securityNia3]
    obtain ⟨t, ht⟩ := foldlM_at? (nia3Bit _) his 0
    exact ⟨_, by rw [ht]; rfl, rfl⟩

end Integrity

end RadioStack.Security
