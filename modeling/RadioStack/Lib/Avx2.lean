import Mathlib.Data.List.GetD
import Mathlib.Data.Fintype.Basic
import Mathlib.Tactic.FinCases
import RadioStack.Lib.Tournament

/-!
# AVX2 registers and intrinsics

A 256-bit register is its 32 bytes, the least significant first. The 16-bit and 32-bit elements
are views of these bytes. The definitions follow the pseudocode of the intrinsics guide; memory
is a list of bytes.
-/

namespace RadioStack.Avx2

open Tournament

abbrev M256 := Fin 32 → BitVec 8

/-! ## Elements -/

variable (r : M256)

/-- Element `i` of sixteen 16-bit elements. -/
def epi16 (i : Fin 16) : BitVec 16 :=
  r ⟨2 * i.val + 1, by omega⟩ ++ r ⟨2 * i.val, by omega⟩

/-- Element `i` of eight 32-bit elements. -/
def epi32 (i : Fin 8) : BitVec 32 :=
  r ⟨4 * i.val + 3, by omega⟩ ++ r ⟨4 * i.val + 2, by omega⟩ ++ r ⟨4 * i.val + 1, by omega⟩ ++
    r ⟨4 * i.val, by omega⟩

def ofEpi16 (f : Fin 16 → BitVec 16) : M256 := fun k =>
  (f ⟨k.val / 2, by omega⟩).extractLsb' (8 * (k.val % 2)) 8

def ofEpi32 (f : Fin 8 → BitVec 32) : M256 := fun k =>
  (f ⟨k.val / 4, by omega⟩).extractLsb' (8 * (k.val % 4)) 8

@[simp] theorem epi16_ofEpi16 (f : Fin 16 → BitVec 16) (i : Fin 16) :
    epi16 (ofEpi16 f) i = f i := by
  have hbytes (x : BitVec 16) : x.extractLsb' 8 8 ++ x.extractLsb' 0 8 = x :=
    (BitVec.extractLsb'_append_extractLsb'_eq_extractLsb' rfl).trans BitVec.extractLsb'_eq_self
  fin_cases i <;> exact hbytes _

/-! ## Loads, constants and stores -/

/-- `_mm256_loadu_si256` of 16-bit elements, from element `start` on. -/
def loadu (mem : List (BitVec 16)) (start : Nat) : M256 :=
  ofEpi16 fun i => mem.getD (start + i.val) 0

section

variable (mem : List (BitVec 8))

/-- `_mm_loadu_si128`, in the low half of a register: sixteen bytes that have to be there. -/
def loaduSi128 (start : Nat) : Option M256 :=
  if start + 16 ≤ mem.length then some fun k => if k.val < 16 then mem.getD (start + k.val) 0 else 0
  else none

def setrEpi8 (bytes : List (BitVec 8)) : M256 := fun k => bytes.getD k.val 0

def setrEpi32 (words : List (BitVec 32)) : M256 := ofEpi32 fun i => words.getD i.val 0

def setrEpi64x (words : List (BitVec 64)) : M256 := fun k =>
  (words.getD (k.val / 8) 0).extractLsb' (8 * (k.val % 8)) 8

/-- The bytes of a register, as `_mm256_storeu_si256` writes them. -/
def bytes : List (BitVec 8) := List.ofFn r

/-- Writes the bytes that `src` gives at and after `pos`, and keeps the others. -/
def overlay (pos : Nat) (src : Nat → Option (BitVec 8)) :
    List (BitVec 8) :=
  mem.mapIdx fun p b => if pos ≤ p then (src (p - pos)).getD b else b

/-- `_mm256_storeu_si256`. -/
def storeu (pos : Nat) (r : M256) : List (BitVec 8) :=
  overlay mem pos fun k => if h : k < 32 then some (r ⟨k, h⟩) else none

/-- `_mm256_maskstore_epi32`: only the words whose mask has its top bit set. -/
def maskstoreEpi32 (pos : Nat) (mask r : M256) : List (BitVec 8) :=
  overlay mem pos fun k =>
    if h : k < 32 then
      if (epi32 mask ⟨k / 4, by omega⟩).msb then some (r ⟨k, h⟩) else none
    else none

/-- `_mm_maskstore_epi32`, on the low half of a register. -/
def maskstoreEpi32Low (pos : Nat) (mask r : M256) : List (BitVec 8) :=
  overlay mem pos fun k =>
    if h : k < 16 then
      if (epi32 mask ⟨k / 4, by omega⟩).msb then some (r ⟨k, by omega⟩) else none
    else none

@[simp] theorem length_overlay (pos : Nat)
    (src : Nat → Option (BitVec 8)) : (overlay mem pos src).length = mem.length := by
  simp [overlay]

end

theorem getD_overlay {mem : List (BitVec 8)} {k : Nat} (hk : k < mem.length) (pos : Nat)
    (src : Nat → Option (BitVec 8)) :
    (overlay mem pos src).getD k 0 =
      if pos ≤ k then (src (k - pos)).getD (mem.getD k 0) else mem.getD k 0 := by
  rw [List.getD_eq_getElem _ _ (by simpa using hk), List.getD_eq_getElem _ _ hk]
  simp [overlay]

/-! ## Arithmetic and logic -/

def map2Epi16 (op : BitVec 16 → BitVec 16 → BitVec 16) (a b : M256) : M256 :=
  ofEpi16 fun i => op (epi16 a i) (epi16 b i)

def minEpi16 : M256 → M256 → M256 := map2Epi16 signedMin

def maxEpi16 : M256 → M256 → M256 := map2Epi16 signedMax

def absEpi16 (a : M256) : M256 :=
  ofEpi16 fun i => if (epi16 a i).slt 0 then -epi16 a i else epi16 a i

def sraiEpi16 (a : M256) (count : Nat) : M256 := ofEpi16 fun i => (epi16 a i).sshiftRight count

def sllvEpi32 (a count : M256) : M256 := ofEpi32 fun i => epi32 a i <<< (epi32 count i).toNat

def andSi256 (a b : M256) : M256 := fun k => a k &&& b k

def orSi256 (a b : M256) : M256 := fun k => a k ||| b k

/-! ## Permutations -/

/-- `_mm_srli_si128`, on the low half of a register: a shift by bytes. -/
def srliSi128 (a : M256) (count : Nat) : M256 := fun k =>
  if h : k.val + count < 16 then a ⟨k.val + count, by omega⟩ else 0

/-- The half that two control bits select, or zero. -/
def selectHalf (a b : M256) (control : Nat) (k : Fin 16) : BitVec 8 :=
  if control / 8 % 2 = 1 then 0
  else
    match control % 4 with
    | 0 => a ⟨k.val, by omega⟩
    | 1 => a ⟨16 + k.val, by omega⟩
    | 2 => b ⟨k.val, by omega⟩
    | _ => b ⟨16 + k.val, by omega⟩

def permute2f128 (a b : M256) (imm : Nat) : M256 := fun k =>
  if h : k.val < 16 then selectHalf a b (imm % 16) ⟨k.val, h⟩
  else selectHalf a b (imm / 16 % 16) ⟨k.val - 16, by omega⟩

/-- `_mm256_extracti128_si256`, in the low half of a register. -/
def extracti128 (a : M256) (imm : Nat) : M256 := fun k =>
  if k.val < 16 then selectHalf a a (imm % 2) ⟨k.val % 16, by omega⟩ else 0

def shuffleEpi8 (a mask : M256) : M256 := fun k =>
  if (mask k).msb then 0 else a ⟨16 * (k.val / 16) + (mask k).toNat % 16, by omega⟩

def shuffleEpi32 (a : M256) (imm : Nat) : M256 := fun k =>
  a ⟨16 * (k.val / 16) + 4 * (imm / 4 ^ (k.val % 16 / 4) % 4) + k.val % 4, by omega⟩

def permutevar8x32 (a idx : M256) : M256 := fun k =>
  a ⟨4 * ((epi32 idx ⟨k.val / 4, by omega⟩).toNat % 8) + k.val % 4, by omega⟩

def permute4x64 (a : M256) (imm : Nat) : M256 := fun k =>
  a ⟨8 * (imm / 4 ^ (k.val / 8) % 4) + k.val % 8, by omega⟩

def blendvEpi8 (a b mask : M256) : M256 := fun k => if (mask k).msb then b k else a k

/-! ## Element views of the operations -/

section

variable (a b : M256) (i : Fin 16)

@[simp] theorem epi16_loadu (mem : List (BitVec 16)) (start : Nat) :
    epi16 (loadu mem start) i = mem.getD (start + i.val) 0 :=
  epi16_ofEpi16 _ _

@[simp] theorem epi16_map2Epi16 (op : BitVec 16 → BitVec 16 → BitVec 16) :
    epi16 (map2Epi16 op a b) i = op (epi16 a i) (epi16 b i) :=
  epi16_ofEpi16 _ _

@[simp] theorem epi16_sraiEpi16 (count : Nat) :
    epi16 (sraiEpi16 a count) i = (epi16 a i).sshiftRight count :=
  epi16_ofEpi16 _ _

@[simp] theorem epi16_absEpi16 :
    epi16 (absEpi16 a) i = if (epi16 a i).slt 0 then -epi16 a i else epi16 a i :=
  epi16_ofEpi16 _ _

end

/-- A shuffle of 32-bit elements moves 16-bit elements in pairs. -/
theorem epi16_shuffleEpi32 (a : M256) (imm : Nat) (i : Fin 16) :
    epi16 (shuffleEpi32 a imm) i =
      epi16 a ⟨8 * (i.val / 8) + 2 * (imm / 4 ^ (i.val % 8 / 2) % 4) + i.val % 2, by omega⟩ := by
  have hodd : (2 * i.val + 1) % 16 / 4 = i.val % 8 / 2 := by omega
  have heven : 2 * i.val % 16 / 4 = i.val % 8 / 2 := by omega
  simp only [epi16, shuffleEpi32, hodd, heven]
  congr 3 <;> omega

section

variable (a b : M256) {i : Fin 16}

theorem epi16_permute2f128_0x20 : epi16 (permute2f128 a b 0x20) i =
    if h : i.val < 8 then epi16 a i else epi16 b ⟨i.val - 8, by omega⟩ := by
  fin_cases i <;> rfl

theorem epi16_permute2f128_0x31 : epi16 (permute2f128 a b 0x31) i =
    if h : i.val < 8 then epi16 a ⟨i.val + 8, by omega⟩ else epi16 b i := by
  fin_cases i <;> rfl

theorem epi16_permute2f128_0x30 : epi16 (permute2f128 a b 0x30) i =
    if i.val < 8 then epi16 a i else epi16 b i := by
  fin_cases i <;> rfl

end

/-! ## Wirings

Shifts, masks, shuffles and permutations with constant controls move bits: a bit of the result is a
bit of an operand, or zero. A wiring says which bit it is. Composing the operations composes the
wirings, and a closed wiring can be evaluated. -/

/-- Bit `p` of a register, the least significant first. -/
def bit (p : Nat) : Bool := (r (Fin.ofNat 32 (p / 8))).getLsbD (p % 8)

theorem getLsbD_byte (k : Fin 32) {j : Nat} (hj : j < 8) : (r k).getLsbD j = bit r (8 * k + j) := by
  rw [bit, show (8 * k.val + j) / 8 = k by omega, show (8 * k.val + j) % 8 = j by omega,
    Fin.ofNat_val_eq_self]

theorem getLsbD_epi16 (i : Fin 16) {j : Nat} (hj : j < 16) :
    (epi16 r i).getLsbD j = bit r (16 * i + j) := by
  rw [epi16, BitVec.getLsbD_append]
  split <;> rw [getLsbD_byte _ _ (by omega)] <;> congr 1 <;> simp <;> omega

theorem getLsbD_epi32 (i : Fin 8) {j : Nat} (hj : j < 32) :
    (epi32 r i).getLsbD j = bit r (32 * i + j) := by
  simp only [epi32, BitVec.getLsbD_append]
  split
  · rw [getLsbD_byte _ _ (by omega)]
    congr 1
    simp
    omega
  · split
    · rw [getLsbD_byte _ _ (by omega)]
      congr 1
      simp
      omega
    · split <;> rw [getLsbD_byte _ _ (by omega)] <;> congr 1 <;> simp <;> omega

/-- What a bit of a result is: zero, a bit of the operands, or several of them merged. -/
inductive Wire
  | zero
  | bit (q : Nat)
  | mixed
  deriving DecidableEq

namespace Wire

def Carries (src : Nat → Bool) (b : Bool) : Wire → Prop
  | zero => b = false
  | bit q => b = src q
  | mixed => True

def or : Wire → Wire → Wire
  | zero, v => v
  | v, zero => v
  | v, v' => if v = v' then v else mixed

def bind : Wire → (Nat → Wire) → Wire
  | bit q, w => w q
  | v, _ => v

theorem Carries.or {src : Nat → Bool} {b b' : Bool} {v v' : Wire} (h : v.Carries src b)
    (h' : v'.Carries src b') : (v.or v').Carries src (b || b') := by
  cases v <;> cases v' <;> simp only [Carries, Wire.or] at h h' ⊢ <;> subst_vars <;> try simp
  next p q =>
    by_cases hpq : p = q
    · simp [hpq]
    · simp [hpq]

end Wire

/-- The bits of the register are those of `src` that the wiring names. -/
def Wired (src : Nat → Bool) (w : Nat → Wire) (r : M256) : Prop :=
  ∀ p < 256, (w p).Carries src (bit r p)

theorem wired_self : Wired (bit r) .bit r := fun _ _ => rfl

/-- The byte of `r` that is selected, or zero. -/
def pick : Option (Fin 32) → BitVec 8
  | none => 0
  | some k => r k

/-- The selection of a byte shuffle. -/
def shuffleSel (mask : M256) (k : Fin 32) : Option (Fin 32) :=
  if (mask k).msb then none else some ⟨16 * (k.val / 16) + (mask k).toNat % 16, by omega⟩

/-- The place that `permutevar8x32` takes a byte from. -/
def permuteIdx (idx : M256) (k : Fin 32) : Fin 32 :=
  ⟨4 * ((epi32 idx ⟨k.val / 4, by omega⟩).toNat % 8) + k.val % 4, by omega⟩

/-- The place that `permute4x64` takes a byte from. -/
def permute4Idx (imm : Nat) (k : Fin 32) : Fin 32 :=
  ⟨8 * (imm / 4 ^ (k.val / 8) % 4) + k.val % 8, by omega⟩

/-- The bits of selected bytes. -/
def selectWire (w : Nat → Wire) (sel : Fin 32 → Option (Fin 32)) (p : Nat) : Wire :=
  (sel (Fin.ofNat 32 (p / 8))).elim .zero fun k => w (8 * k + p % 8)

namespace Wired

variable {src : Nat → Bool} {w w' : Nat → Wire} {a b : M256}

theorem congr (h : Wired src w a) (hw : ∀ p < 256, w p = w' p) : Wired src w' a :=
  fun p hp => hw p hp ▸ h p hp

/-- The wiring of a register whose bits are wired themselves. -/
theorem trans (h : Wired src w a) (hb : Wired (bit a) w' b)
    (hw : ∀ p < 256, ∀ q, w' p = .bit q → q < 256) : Wired src (fun p => (w' p).bind w) b := by
  intro p hp
  have hp' := hb p hp
  dsimp only
  cases hq : w' p with rw [hq] at hp'
  | zero => exact hp'
  | bit q =>
    have hp' : bit b p = bit a q := hp'
    exact hp' ▸ h q (hw p hp q hq)
  | mixed => trivial

theorem select {f : M256} (h : Wired src w a) {sel : Fin 32 → Option (Fin 32)}
    (hf : ∀ k, f k = pick a (sel k)) : Wired src (selectWire w sel) f := by
  intro p hp
  rw [bit, hf, selectWire]
  cases sel (Fin.ofNat 32 (p / 8)) with
  | none => exact BitVec.getLsbD_zero
  | some k =>
    have hbit := getLsbD_byte a k (Nat.mod_lt p (by decide : 0 < 8))
    exact hbit ▸ h _ (by omega)

theorem shuffle (h : Wired src w a) (mask : M256) :
    Wired src (selectWire w (shuffleSel mask)) (shuffleEpi8 a mask) := by
  refine h.select fun k => ?_
  unfold shuffleEpi8 shuffleSel
  split <;> rfl

theorem permutevar (h : Wired src w a) (idx : M256) :
    Wired src (selectWire w fun k => some (permuteIdx idx k)) (permutevar8x32 a idx) :=
  h.select fun _ => rfl

theorem permute4 (h : Wired src w a) (imm : Nat) :
    Wired src (selectWire w fun k => some (permute4Idx imm k)) (permute4x64 a imm) :=
  h.select fun _ => rfl

theorem blendv (ha : Wired src w a) (hb : Wired src w' b) (mask : M256) :
    Wired src (fun p => if (mask (Fin.ofNat 32 (p / 8))).msb then w' p else w p)
      (blendvEpi8 a b mask) := by
  intro p hp
  rw [bit, blendvEpi8]
  dsimp only
  split
  · exact hb p hp
  · exact ha p hp

theorem and (h : Wired src w a) (m : M256) :
    Wired src (fun p => if bit m p then w p else .zero) (andSi256 a m) := by
  intro p hp
  have hand : bit (andSi256 a m) p = (bit a p && bit m p) := BitVec.getLsbD_and
  dsimp only
  rw [hand]
  split
  · next hm => simpa [hm] using h p hp
  · next hm => simp [Wire.Carries, hm]

theorem or (ha : Wired src w a) (hb : Wired src w' b) :
    Wired src (fun p => (w p).or (w' p)) (orSi256 a b) := by
  intro p hp
  have hor : bit (orSi256 a b) p = (bit a p || bit b p) := BitVec.getLsbD_or
  exact hor ▸ (ha p hp).or (hb p hp)

theorem sllv (h : Wired src w a) (count : M256) :
    Wired src (fun p => if p % 32 < (epi32 count (Fin.ofNat 8 (p / 32))).toNat then .zero
      else w (p - (epi32 count (Fin.ofNat 8 (p / 32))).toNat)) (sllvEpi32 a count) := by
  intro p hp
  have hi : (⟨(Fin.ofNat 32 (p / 8)).val / 4, by omega⟩ : Fin 8) = Fin.ofNat 8 (p / 32) := by
    apply Fin.ext
    simp only [Fin.val_ofNat]
    omega
  have hj : 8 * ((Fin.ofNat 32 (p / 8)).val % 4) + p % 8 = p % 32 := by
    rw [Fin.val_ofNat]
    omega
  rw [bit, sllvEpi32, ofEpi32, BitVec.getLsbD_extractLsb', hi, hj, BitVec.getLsbD_shiftLeft,
    decide_eq_true (Nat.mod_lt p (by decide)), decide_eq_true (Nat.mod_lt p (by decide))]
  dsimp only
  generalize (epi32 count (Fin.ofNat 8 (p / 32))).toNat = n
  split
  · next hn => simp [Wire.Carries, hn]
  · next hn =>
    rw [getLsbD_epi32 _ _ (by omega), decide_eq_false hn, Fin.val_ofNat,
      show 32 * (p / 32 % 8) + (p % 32 - n) = p - n by omega]
    exact h _ (by omega)

/-- The top bit of an element is repeated. -/
theorem srai (h : Wired src w a) (count : Nat) :
    Wired src (fun p => w (16 * (p / 16) + min (p % 16 + count) 15)) (sraiEpi16 a count) := by
  intro p hp
  have hlt := Nat.mod_lt p (by decide : 0 < 16)
  have hbit := getLsbD_epi16 (sraiEpi16 a count) ⟨p / 16, by omega⟩ hlt
  rw [Nat.div_add_mod, epi16_sraiEpi16, BitVec.getLsbD_sshiftRight,
    decide_eq_false (Nat.not_le.2 hlt)] at hbit
  rw [← hbit]
  dsimp only
  split
  · rw [getLsbD_epi16 _ _ (by omega), Nat.min_eq_left (by omega), Nat.add_comm count]
    exact h _ (by omega)
  · rw [BitVec.msb_eq_getLsbD_last, getLsbD_epi16 _ _ (by decide), Nat.min_eq_right (by omega)]
    exact h _ (by omega)

end Wired

end RadioStack.Avx2
