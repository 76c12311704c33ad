import Mathlib.Data.List.Basic
import Mathlib.Tactic.Ring

/-!
# LDPC code block dimensions

The constants and the arithmetic of `ldpc.h`: how many code blocks a transport block is cut into,
the lifting size of their code and the number of bits of each. The lifting size is the smallest one
for which the code blocks hold the transport block with all its checksums
(`computeLiftingSize_spec`), and there is one for every transport block. -/

namespace RadioStack.Phy

/-- Why a step of the transport chain stops. -/
inductive PhyFault
  | assertion
  /-- A loop ran out of the iterations given to it. -/
  | fuel
  deriving DecidableEq, Repr

def ensure (c : Prop) [Decidable c] : Except PhyFault Unit :=
  if c then .ok () else .error .assertion

theorem ensure_ok {c : Prop} [Decidable c] (hc : c) : ensure c = .ok () := if_pos hc

theorem ensure_error {c : Prop} [Decidable c] (hc : ¬ c) : ensure c = .error .assertion := if_neg hc

inductive BaseGraph
  | bg1 | bg2
  deriving DecidableEq, Repr

inductive Modulation
  | pi2Bpsk | bpsk | qpsk | qam16 | qam64 | qam256
  deriving DecidableEq, Repr

def Modulation.bitsPerSymbol : Modulation → Nat
  | pi2Bpsk => 1
  | bpsk => 1
  | qpsk => 2
  | qam16 => 4
  | qam64 => 6
  | qam256 => 8

def divideCeil (num den : Nat) : Nat := (num + (den - 1)) / den

/-- The available lifting sizes, in increasing order. -/
def allLiftingSizes : List Nat :=
  [2, 3, 4, 5, 6, 7, 8, 9, 10, 11, 12, 13, 14, 15, 16, 18, 20, 22, 24, 26, 28, 30, 32, 36, 40, 44,
    48, 52, 56, 60, 64, 72, 80, 88, 96, 104, 112, 120, 128, 144, 160, 176, 192, 208, 224, 240, 256,
    288, 320, 352, 384]

def maxSegLength : Nat := 22 * 384

def maxNofSegments : Nat := 156 * 275 * 4 * 8 / maxSegLength

def computeTbCrcSize (tbs : Nat) : Nat := if tbs ≤ 3824 then 16 else 24

/-- The bits of a transport block with its checksum. -/
def tbBitsIn (tbs : Nat) : Nat := tbs + computeTbCrcSize tbs

def maxCodeblockLength : BaseGraph → Nat
  | .bg1 => 8448
  | .bg2 => 3840

def computeNofCodeblocks (tbs : Nat) (bg : BaseGraph) : Nat :=
  if tbBitsIn tbs ≤ maxCodeblockLength bg then 1
  else divideCeil (tbBitsIn tbs) (maxCodeblockLength bg - 24)

/-- The number of columns of the base graph that carry the transport block. -/
def refLength (bg : BaseGraph) (nofTbBitsIn : Nat) : Nat :=
  match bg with
  | .bg1 => 22
  | .bg2 =>
    if 640 < nofTbBitsIn then 10
    else if 560 < nofTbBitsIn then 9
    else if 192 < nofTbBitsIn then 8
    else 6

/-- The bits of a transport block with all checksums. -/
def withSegmentCrcs (nofTbBitsIn nofSegments : Nat) : Nat :=
  if 1 < nofSegments then nofTbBitsIn + nofSegments * 24 else nofTbBitsIn

/-- `compute_lifting_size`; it asserts that there is one. -/
def computeLiftingSize (tbs : Nat) (bg : BaseGraph) (nofSegments : Nat) : Option Nat :=
  allLiftingSizes.find? fun ls =>
    withSegmentCrcs (tbBitsIn tbs) nofSegments ≤ ls * (nofSegments * refLength bg (tbBitsIn tbs))

def baseLength : BaseGraph → Nat
  | .bg1 => 22
  | .bg2 => 10

def computeCodeblockSize (bg : BaseGraph) (liftingSize : Nat) : Nat := baseLength bg * liftingSize

def inverseRate : BaseGraph → Nat
  | .bg1 => 3
  | .bg2 => 5

def computeFullCodeblockSize (bg : BaseGraph) (codeblockSize : Nat) : Nat :=
  codeblockSize * inverseRate bg

/-! ## Ceilings -/

variable {den : Nat}

theorem le_divideCeil_mul (num : Nat) (hden : 0 < den) :
    num ≤ divideCeil num den * den := by
  have h := Nat.div_add_mod (num + (den - 1)) den
  have hlt := Nat.mod_lt (num + (den - 1)) hden
  rw [divideCeil, Nat.mul_comm]
  omega

theorem divideCeil_mul_lt (num : Nat) (hden : 0 < den) :
    divideCeil num den * den < num + den := by
  have h := Nat.div_mul_le_self (num + (den - 1)) den
  rw [divideCeil]
  omega

theorem divideCeil_le_iff {num den k : Nat} (hden : 0 < den) :
    divideCeil num den ≤ k ↔ num ≤ k * den := by
  constructor
  · intro h
    exact Nat.le_trans (le_divideCeil_mul num hden) (Nat.mul_le_mul_right den h)
  · intro h
    refine Nat.le_of_lt_succ (Nat.lt_of_mul_lt_mul_right (a := den) ?_)
    rw [Nat.succ_mul]
    exact Nat.lt_of_lt_of_le (divideCeil_mul_lt num hden) (Nat.add_le_add_right h den)

theorem divideCeil_add_mul (num k : Nat) (hden : 0 < den) :
    divideCeil (num + den * k) den = divideCeil num den + k := by
  rw [divideCeil, divideCeil, Nat.add_right_comm, Nat.add_mul_div_left _ _ hden]

/-- A ceiling is the quotient, plus one if there is a remainder. -/
theorem divideCeil_eq (num : Nat) (hden : 0 < den) :
    divideCeil num den = num / den + if num % den = 0 then 0 else 1 := by
  have hnum := Nat.div_add_mod num den
  have hlt := Nat.mod_lt num hden
  rw [divideCeil, ← hnum, Nat.add_assoc, Nat.mul_add_div hden, Nat.mul_add_mod, Nat.mod_mod,
    Nat.mul_add_div hden, Nat.div_eq_of_lt hlt, Nat.add_zero]
  split
  · next h =>
    have hpred : den - 1 < den := by omega
    rw [h, Nat.zero_add, Nat.div_eq_of_lt hpred]
  · next h =>
    congr 1
    exact Nat.div_eq_of_lt_le (by omega) (by omega)

/-! ## The number of code blocks -/

section Dimensions

variable (tbs : Nat) (bg : BaseGraph)

theorem computeTbCrcSize_mem : computeTbCrcSize tbs = 16 ∨ computeTbCrcSize tbs = 24 := by
  rw [computeTbCrcSize]
  split
  · exact .inl rfl
  · exact .inr rfl

theorem maxCodeblockLength_bounds :
    3840 ≤ maxCodeblockLength bg ∧ maxCodeblockLength bg ≤ 8448 := by
  cases bg <;> decide

theorem computeNofCodeblocks_pos : 0 < computeNofCodeblocks tbs bg := by
  have hbounds := maxCodeblockLength_bounds bg
  rw [computeNofCodeblocks]
  split
  · exact Nat.one_pos
  · next h =>
    by_contra hzero
    have hle := (divideCeil_le_iff (by omega)).1 (Nat.le_of_not_lt hzero)
    omega

/-- Every code block has room for its part of the transport block and its checksum. -/
theorem withSegmentCrcs_le :
    withSegmentCrcs (tbBitsIn tbs) (computeNofCodeblocks tbs bg) ≤
      computeNofCodeblocks tbs bg * maxCodeblockLength bg := by
  have hbounds := maxCodeblockLength_bounds bg
  rw [withSegmentCrcs]
  by_cases hone : tbBitsIn tbs ≤ maxCodeblockLength bg
  · have hC : computeNofCodeblocks tbs bg = 1 := if_pos hone
    rw [hC, if_neg (Nat.lt_irrefl 1), Nat.one_mul]
    exact hone
  · have hC : computeNofCodeblocks tbs bg =
        divideCeil (tbBitsIn tbs) (maxCodeblockLength bg - 24) := if_neg hone
    have hle := le_divideCeil_mul (tbBitsIn tbs) (by omega : 0 < maxCodeblockLength bg - 24)
    rw [← hC] at hle
    have hmul : computeNofCodeblocks tbs bg * maxCodeblockLength bg =
        computeNofCodeblocks tbs bg * (maxCodeblockLength bg - 24) +
          computeNofCodeblocks tbs bg * 24 := by
      rw [← Nat.mul_add]
      congr 1
      omega
    split <;> omega

/-- If there are several code blocks, each has a part that is much longer than a checksum. -/
theorem nofCodeblocks_mul_lt (h : 1 < computeNofCodeblocks tbs bg) :
    1908 * computeNofCodeblocks tbs bg < tbBitsIn tbs := by
  have hbounds := maxCodeblockLength_bounds bg
  have hone : ¬ tbBitsIn tbs ≤ maxCodeblockLength bg := fun hle => by
    rw [computeNofCodeblocks, if_pos hle] at h
    exact Nat.lt_irrefl 1 h
  have hC : computeNofCodeblocks tbs bg =
      divideCeil (tbBitsIn tbs) (maxCodeblockLength bg - 24) := if_neg hone
  have hlt := divideCeil_mul_lt (tbBitsIn tbs) (by omega : 0 < maxCodeblockLength bg - 24)
  rw [← hC] at hlt
  have hmul : computeNofCodeblocks tbs bg * 3816 + (maxCodeblockLength bg - 24 - 3816) * 2 ≤
      computeNofCodeblocks tbs bg * (maxCodeblockLength bg - 24) := by
    have hsplit : maxCodeblockLength bg - 24 =
        3816 + (maxCodeblockLength bg - 24 - 3816) := by omega
    rw [hsplit, Nat.mul_add, Nat.add_sub_cancel_left,
      Nat.mul_comm (maxCodeblockLength bg - 24 - 3816)]
    exact Nat.add_le_add_left (Nat.mul_le_mul_right _ h) _
  omega

/-! ## The lifting size -/

theorem refLength_bounds (n : Nat) : 6 ≤ refLength bg n ∧ refLength bg n ≤ baseLength bg := by
  cases bg with
  | bg1 =>
    rw [refLength, baseLength]
    decide
  | bg2 =>
    rw [refLength]
    split_ifs <;> decide

theorem le_maxLiftingSize :
    withSegmentCrcs (tbBitsIn tbs) (computeNofCodeblocks tbs bg) ≤
      384 * (computeNofCodeblocks tbs bg * refLength bg (tbBitsIn tbs)) := by
  have hle := withSegmentCrcs_le tbs bg
  cases bg with
  | bg1 =>
    simp only [maxCodeblockLength, refLength] at hle ⊢
    omega
  | bg2 =>
    by_cases hbig : 640 < tbBitsIn tbs
    · simp only [maxCodeblockLength, refLength, if_pos hbig] at hle ⊢
      omega
    · -- A short transport block is one code block.
      have hC : computeNofCodeblocks tbs .bg2 = 1 :=
        if_pos (by simp only [maxCodeblockLength]; omega)
      have href := (refLength_bounds .bg2 (tbBitsIn tbs)).1
      rw [hC, withSegmentCrcs, if_neg (Nat.lt_irrefl 1)]
      omega

theorem allLiftingSizes_sorted : allLiftingSizes.Pairwise (· < ·) := by
  decide

theorem allLiftingSizes_bounds {ls : Nat} (h : ls ∈ allLiftingSizes) : 2 ≤ ls ∧ ls ≤ 384 := by
  have hall : ∀ ls ∈ allLiftingSizes, 2 ≤ ls ∧ ls ≤ 384 := by decide
  exact hall ls h

/-- The first element of a sorted list with a property is the smallest one. -/
theorem find?_le {l : List Nat} {p : Nat → Bool} {a b : Nat} (hsorted : l.Pairwise (· < ·))
    (h : l.find? p = some a) (hb : b ∈ l) (hp : p b) : a ≤ b := by
  induction l with
  | nil => cases hb
  | cons x l ih =>
    obtain ⟨hx, hl⟩ := List.pairwise_cons.1 hsorted
    rw [List.find?_cons] at h
    split at h
    · next hpx =>
      cases h
      rcases List.mem_cons.1 hb with rfl | hb
      · exact Nat.le_refl _
      · exact Nat.le_of_lt (hx b hb)
    · next hpx =>
      rcases List.mem_cons.1 hb with rfl | hb
      · rw [hp] at hpx
        cases hpx
      · exact ih hl h hb

/-- A lifting size holds the transport block in the code blocks. -/
def Sufficient (ls : Nat) : Prop :=
  withSegmentCrcs (tbBitsIn tbs) (computeNofCodeblocks tbs bg) ≤
    ls * (computeNofCodeblocks tbs bg * refLength bg (tbBitsIn tbs))

instance (ls : Nat) : Decidable (Sufficient tbs bg ls) := Nat.decLe ..

def SmallestSufficient (ls : Nat) : Prop :=
  ls ∈ allLiftingSizes ∧ Sufficient tbs bg ls ∧
    ∀ ls' ∈ allLiftingSizes, Sufficient tbs bg ls' → ls ≤ ls'

/-- There is a sufficient lifting size, and the smallest one is found. -/
theorem computeLiftingSize_spec :
    ∃ ls, computeLiftingSize tbs bg (computeNofCodeblocks tbs bg) = some ls ∧
      SmallestSufficient tbs bg ls := by
  obtain ⟨ls, hls⟩ : ∃ ls, computeLiftingSize tbs bg (computeNofCodeblocks tbs bg) = some ls := by
    refine Option.isSome_iff_exists.1 (List.find?_isSome.2 ⟨384, by decide, ?_⟩)
    exact decide_eq_true (le_maxLiftingSize tbs bg)
  refine ⟨ls, hls, List.mem_of_find?_eq_some hls, ?_, fun ls' hmem hsuf => ?_⟩
  · have hp := List.find?_some hls
    exact of_decide_eq_true hp
  · exact find?_le allLiftingSizes_sorted hls hmem (decide_eq_true hsuf)

variable {tbs bg} {ls : Nat}

/-- A segment has room for a part of the transport block with its checksum. -/
theorem divideCeil_le_codeblockSize (h : Sufficient tbs bg ls) :
    divideCeil (withSegmentCrcs (tbBitsIn tbs) (computeNofCodeblocks tbs bg))
      (computeNofCodeblocks tbs bg) ≤ computeCodeblockSize bg ls := by
  refine (divideCeil_le_iff (computeNofCodeblocks_pos tbs bg)).2 (Nat.le_trans h ?_)
  have href := (refLength_bounds bg (tbBitsIn tbs)).2
  calc ls * (computeNofCodeblocks tbs bg * refLength bg (tbBitsIn tbs))
      = refLength bg (tbBitsIn tbs) * ls * computeNofCodeblocks tbs bg := by ring
    _ ≤ baseLength bg * ls * computeNofCodeblocks tbs bg :=
      Nat.mul_le_mul_right _ (Nat.mul_le_mul_right _ href)

theorem codeblockSize_bounds (h : ls ∈ allLiftingSizes) :
    0 < computeCodeblockSize bg ls ∧ computeCodeblockSize bg ls ≤ maxSegLength := by
  obtain ⟨hlow, hhigh⟩ := allLiftingSizes_bounds h
  cases bg with
  | bg1 | bg2 =>
    simp only [computeCodeblockSize, baseLength, maxSegLength]
    omega

end Dimensions

end RadioStack.Phy
