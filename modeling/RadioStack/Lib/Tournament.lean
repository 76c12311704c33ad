import Mathlib.Algebra.GroupWithZero.Nat
import Mathlib.Data.List.Basic

/-!
# Finding an extreme by comparing pairs

An operation that picks the better of two values, such as a minimum or a maximum. However the
comparisons are arranged, comparing the results of two groups gives the best value of both
groups together, so a tree of comparisons finds the best of its leaves.
-/

namespace RadioStack.Tournament

variable {α ι : Type*}

/-- `op` picks the one of two values that `le` puts first. -/
structure Selects (le : α → α → Prop) (op : α → α → α) : Prop where
  refl : ∀ x, le x x
  trans : ∀ {x y z}, le x y → le y z → le x z
  choice : ∀ x y, op x y = x ∨ op x y = y
  left : ∀ x y, le (op x y) x
  right : ∀ x y, le (op x y) y

/-- `r` is the best of the values at the places `I`. -/
def IsBest (le : α → α → Prop) (f : ι → α) (I : List ι) (r : α) : Prop :=
  (∃ i ∈ I, f i = r) ∧ ∀ i ∈ I, le r (f i)

variable {le : α → α → Prop} {op : α → α → α} {f : ι → α} {I J : List ι} {r s : α}

theorem Selects.leaf (h : Selects le op) (f : ι → α) (i : ι) : IsBest le f [i] (f i) :=
  ⟨⟨i, by simp, rfl⟩, by simpa using h.refl (f i)⟩

/-- The better of two groups' best values is the best of both groups. -/
theorem Selects.node (h : Selects le op) (hr : IsBest le f I r) (hs : IsBest le f J s) :
    IsBest le f (I ++ J) (op r s) := by
  obtain ⟨⟨i, hi, hfi⟩, hbestI⟩ := hr
  obtain ⟨⟨j, hj, hfj⟩, hbestJ⟩ := hs
  refine ⟨?_, fun k hk => ?_⟩
  · rcases h.choice r s with heq | heq
    · exact ⟨i, List.mem_append_left _ hi, hfi.trans heq.symm⟩
    · exact ⟨j, List.mem_append_right _ hj, hfj.trans heq.symm⟩
  · rcases List.mem_append.1 hk with hk | hk
    · exact h.trans (h.left r s) (hbestI k hk)
    · exact h.trans (h.right r s) (hbestJ k hk)

/-! ## Signed words -/

def signedMin {w : Nat} (x y : BitVec w) : BitVec w := if x.slt y then x else y

def signedMax {w : Nat} (x y : BitVec w) : BitVec w := if x.slt y then y else x

theorem selects_signedMin {w : Nat} :
    Selects (fun x y : BitVec w => x.toInt ≤ y.toInt) signedMin where
  refl x := Int.le_refl _
  trans hxy hyz := Int.le_trans hxy hyz
  choice x y := by
    unfold signedMin
    split <;> simp
  left x y := by
    simp only [signedMin, BitVec.slt, decide_eq_true_eq]
    split <;> omega
  right x y := by
    simp only [signedMin, BitVec.slt, decide_eq_true_eq]
    split <;> omega

theorem selects_signedMax {w : Nat} :
    Selects (fun x y : BitVec w => y.toInt ≤ x.toInt) signedMax where
  refl x := Int.le_refl _
  trans hxy hyz := Int.le_trans hyz hxy
  choice x y := by
    unfold signedMax
    split <;> simp
  left x y := by
    simp only [signedMax, BitVec.slt, decide_eq_true_eq]
    split <;> omega
  right x y := by
    simp only [signedMax, BitVec.slt, decide_eq_true_eq]
    split <;> omega

end RadioStack.Tournament
