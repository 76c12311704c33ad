import Mathlib.Data.List.GetD
import Mathlib.Data.Fintype.Basic
import Mathlib.Tactic.FinCases
import RadioStack.Lib.Tournament

/-!
# AVX512 registers and intrinsics

A 512-bit register is four lanes of 16 bytes, the least significant first, so byte `k` is byte
`k % 16` of lane `k / 16`. Most operations work within the lanes; the shuffle of 128-bit parts moves
whole lanes. The definitions follow the pseudocode of the intrinsics guide.
-/

namespace RadioStack.Avx512

open Tournament

/-- The 16 bytes of a 128-bit lane. -/
abbrev Lane := Fin 16 → BitVec 8

abbrev M512 := Fin 4 → Lane

def byteAt (r : M512) (k : Fin 64) : BitVec 8 := r ⟨k.val / 16, by omega⟩ ⟨k.val % 16, by omega⟩

/-! ## Elements -/

/-- Element `i` of the eight 16-bit elements of a lane. -/
def epi16 (a : Lane) (i : Fin 8) : BitVec 16 :=
  a ⟨2 * i.val + 1, by omega⟩ ++ a ⟨2 * i.val, by omega⟩

/-- Element `i` of the four 32-bit elements of a lane. -/
def epi32 (a : Lane) (i : Fin 4) : BitVec 32 :=
  epi16 a ⟨2 * i.val + 1, by omega⟩ ++ epi16 a ⟨2 * i.val, by omega⟩

def ofEpi16 (f : Fin 8 → BitVec 16) : Lane := fun k =>
  (f ⟨k.val / 2, by omega⟩).extractLsb' (8 * (k.val % 2)) 8

def ofEpi32 (f : Fin 4 → BitVec 32) : Lane := fun k =>
  (f ⟨k.val / 4, by omega⟩).extractLsb' (8 * (k.val % 4)) 8

/-! ## Loads and constants -/

/-- `loadu_epi16_avx512`: 32 elements from `start` on. -/
def loaduEpi16 (mem : List (BitVec 16)) (start : Nat) : M512 := fun l =>
  ofEpi16 fun i => mem.getD (start + (8 * l.val + i.val)) 0

/-- `_mm512_maskz_loadu_epi16`: elements outside the mask are zero and are not read. -/
def maskzLoaduEpi16 (mask : Nat) (mem : List (BitVec 16)) (start : Nat) : M512 := fun l =>
  ofEpi16 fun i =>
    if mask.testBit (8 * l.val + i.val) then mem.getD (start + (8 * l.val + i.val)) 0 else 0

def set1Epi16 (x : BitVec 16) : M512 := fun _ => ofEpi16 fun _ => x

def set1Epi32 (x : BitVec 32) : M512 := fun _ => ofEpi32 fun _ => x

def set1Epi64 (x : BitVec 64) : M512 := fun _ k => x.extractLsb' (8 * (k.val % 8)) 8

def setrEpi64 (words : List (BitVec 64)) : M512 := fun l k =>
  (words.getD (2 * l.val + k.val / 8) 0).extractLsb' (8 * (k.val % 8)) 8

/-! ## Arithmetic and logic -/

def map2Epi16 (op : BitVec 16 → BitVec 16 → BitVec 16) (a b : M512) : M512 := fun l =>
  ofEpi16 fun i => op (epi16 (a l) i) (epi16 (b l) i)

def minEpi16 : M512 → M512 → M512 := map2Epi16 signedMin

def maxEpi16 : M512 → M512 → M512 := map2Epi16 signedMax

def maxEpu16 : M512 → M512 → M512 := map2Epi16 fun x y => if x.toNat < y.toNat then y else x

/-- Subtraction of unsigned elements that stops at zero. -/
def subsEpu16 : M512 → M512 → M512 := map2Epi16 fun x y => BitVec.ofNat 16 (x.toNat - y.toNat)

def absEpi16 (a : M512) : M512 := fun l =>
  ofEpi16 fun i => if (epi16 (a l) i).slt 0 then -epi16 (a l) i else epi16 (a l) i

def andEpi32 (a b : M512) : M512 := fun l k => a l k &&& b l k

def lzcnt32 (x : BitVec 32) : Nat := if x = 0 then 32 else 31 - x.toNat.log2

def lzcntEpi32 (a : M512) : M512 := fun l =>
  ofEpi32 fun i => BitVec.ofNat 32 (lzcnt32 (epi32 (a l) i))

/-! ## Permutations -/

/-- `_mm512_mask_shuffle_epi32`: 32-bit elements within each lane. -/
def maskShuffleEpi32 (src : M512) (mask : Nat) (a : M512) (imm : Nat) : M512 := fun l k =>
  if mask.testBit (4 * l.val + k.val / 4) then
    a l ⟨4 * (imm / 4 ^ (k.val / 4) % 4) + k.val % 4, by omega⟩
  else src l k

def shuffleEpi8 (a control : M512) : M512 := fun l k =>
  if (control l k).msb then 0 else a l ⟨(control l k).toNat % 16, by omega⟩

/-- `_mm512_mask_shuffle_i64x2`: two lanes of `a` and two of `b`; the mask has a bit for each half
of a lane. -/
def maskShuffleI64x2 (src : M512) (mask : Nat) (a b : M512) (imm : Nat) : M512 := fun l k =>
  if mask.testBit (2 * l.val + k.val / 8) then
    (if l.val < 2 then a else b) ⟨imm / 4 ^ l.val % 4, by omega⟩ k
  else src l k

/-! ## Element views of the operations -/

@[simp] theorem epi16_ofEpi16 (f : Fin 8 → BitVec 16) (i : Fin 8) : epi16 (ofEpi16 f) i = f i := by
  have hbytes (x : BitVec 16) : x.extractLsb' 8 8 ++ x.extractLsb' 0 8 = x :=
    (BitVec.extractLsb'_append_extractLsb'_eq_extractLsb' rfl).trans BitVec.extractLsb'_eq_self
  fin_cases i <;> exact hbytes _

theorem toNat_byte (a : Lane) (i : Fin 8) :
    (a ⟨2 * i.val, by omega⟩).toNat = (epi16 a i).toNat % 256 := by
  have hlt := (a ⟨2 * i.val, by omega⟩).isLt
  rw [epi16, BitVec.toNat_append, ← Nat.shiftLeft_add_eq_or_of_lt hlt, Nat.shiftLeft_eq]
  omega

theorem epi16_ofEpi32 (f : Fin 4 → BitVec 32) (i : Fin 4) :
    epi16 (ofEpi32 f) ⟨2 * i.val, by omega⟩ = (f i).extractLsb' 0 16 := by
  have hbytes (x : BitVec 32) : x.extractLsb' 8 8 ++ x.extractLsb' 0 8 = x.extractLsb' 0 16 :=
    BitVec.extractLsb'_append_extractLsb'_eq_extractLsb' rfl
  fin_cases i <;> exact hbytes _

theorem epi16_andEpi32 (a b : M512) (l : Fin 4) (i : Fin 8) :
    epi16 (andEpi32 a b l) i = epi16 (a l) i &&& epi16 (b l) i := by
  rw [epi16, epi16, epi16, BitVec.and_append]
  rfl

section

variable (a b : M512) (l : Fin 4) (i : Fin 8)

@[simp] theorem epi16_loaduEpi16 (mem : List (BitVec 16)) (start : Nat) :
    epi16 (loaduEpi16 mem start l) i = mem.getD (start + (8 * l.val + i.val)) 0 :=
  epi16_ofEpi16 _ _

@[simp] theorem epi16_maskzLoaduEpi16 (mask : Nat) (mem : List (BitVec 16)) (start : Nat) :
    epi16 (maskzLoaduEpi16 mask mem start l) i =
      if mask.testBit (8 * l.val + i.val) then mem.getD (start + (8 * l.val + i.val)) 0 else 0 :=
  epi16_ofEpi16 _ _

@[simp] theorem epi16_map2Epi16 (op : BitVec 16 → BitVec 16 → BitVec 16) :
    epi16 (map2Epi16 op a b l) i = op (epi16 (a l) i) (epi16 (b l) i) :=
  epi16_ofEpi16 _ _

@[simp] theorem epi16_absEpi16 : epi16 (absEpi16 a l) i =
    if (epi16 (a l) i).slt 0 then -epi16 (a l) i else epi16 (a l) i :=
  epi16_ofEpi16 _ _

end

theorem epi16_maskShuffleEpi32 (src a : M512) {mask : Nat} (imm : Nat) (l : Fin 4) (i : Fin 8)
    (hmask : mask.testBit (4 * l.val + i.val / 2) = true) :
    epi16 (maskShuffleEpi32 src mask a imm l) i =
      epi16 (a l) ⟨2 * (imm / 4 ^ (i.val / 2) % 4) + i.val % 2, by omega⟩ := by
  have hodd : (2 * i.val + 1) / 4 = i.val / 2 := by omega
  have heven : 2 * i.val / 4 = i.val / 2 := by omega
  simp only [epi16, maskShuffleEpi32, hodd, heven, hmask, if_true]
  congr 3 <;> omega

/-- A shuffle of bytes that moves one 16-bit element. -/
theorem epi16_shuffleEpi8 {a control : M512} {l : Fin 4} {i j : Fin 8}
    (hlow : control l ⟨2 * i.val, by omega⟩ = BitVec.ofNat 8 (2 * j.val))
    (hhigh : control l ⟨2 * i.val + 1, by omega⟩ = BitVec.ofNat 8 (2 * j.val + 1)) :
    epi16 (shuffleEpi8 a control l) i = epi16 (a l) j := by
  have hpick : ∀ n : Nat, n < 16 → (BitVec.ofNat 8 n).msb = false ∧
      (BitVec.ofNat 8 n).toNat % 16 = n := by
    decide
  obtain ⟨hm, hn⟩ := hpick (2 * j.val) (by omega)
  obtain ⟨hm', hn'⟩ := hpick (2 * j.val + 1) (by omega)
  simp only [epi16, shuffleEpi8, hlow, hhigh, hm, hm', hn, hn', Bool.false_eq_true, if_false]

end RadioStack.Avx512
