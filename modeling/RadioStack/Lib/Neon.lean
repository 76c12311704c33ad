import Mathlib.Data.List.GetD
import RadioStack.Lib.Tournament

/-!
# NEON registers and intrinsics

A register is a function from its lanes. The definitions are the lane-wise integer operations
that the intrinsics document.
-/

namespace RadioStack.Neon

open Tournament

abbrev Int16x8 := Fin 8 → BitVec 16

abbrev Uint16x4 := Fin 4 → BitVec 16

abbrev Int16x8x3 := Fin 3 → Int16x8

/-- `vld1q_s16_x3`: 24 elements from `start` on, into three registers. -/
def vld1qS16X3 (mem : List (BitVec 16)) (start : Nat) : Int16x8x3 := fun r l =>
  mem.getD (start + (8 * r.val + l.val)) 0

def vmaxqS16 (a b : Int16x8) : Int16x8 := fun l => signedMax (a l) (b l)

def vminqS16 (a b : Int16x8) : Int16x8 := fun l => signedMin (a l) (b l)

/-- An operation across the lanes of a register. -/
def across (op : BitVec 16 → BitVec 16 → BitVec 16) (a : Int16x8) : BitVec 16 :=
  op (op (op (a 0) (a 1)) (op (a 2) (a 3))) (op (op (a 4) (a 5)) (op (a 6) (a 7)))

def vmaxvqS16 : Int16x8 → BitVec 16 := across signedMax

def vminvqS16 : Int16x8 → BitVec 16 := across signedMin

def vdupNU16 (x : BitVec 16) : Uint16x4 := fun _ => x

def clz16 (x : BitVec 16) : Nat := if x = 0 then 16 else 15 - x.toNat.log2

def vclzU16 (a : Uint16x4) : Uint16x4 := fun l => BitVec.ofNat 16 (clz16 (a l))

def vsubU16 (a b : Uint16x4) : Uint16x4 := fun l => a l - b l

def vgetLaneU16 (a : Uint16x4) (l : Fin 4) : BitVec 16 := a l

def vshrqNS16 (a : Int16x8) (n : Nat) : Int16x8 := fun l => (a l).sshiftRight n

/-- Comparing three registers lane by lane and then across the lanes finds the best of all 24
elements, counted register by register. -/
theorem isBest_across {le : BitVec 16 → BitVec 16 → Prop} {op : BitVec 16 → BitVec 16 → BitVec 16}
    (hop : Selects le op) (f : Nat → BitVec 16) {v : Int16x8x3}
    (hv : ∀ r l, v r l = f (8 * r.val + l.val)) :
    ∃ I : List Nat, (∀ n, n ∈ I ↔ n < 24) ∧
      IsBest le f I (across op fun l => op (op (v 0 l) (v 1 l)) (v 2 l)) := by
  have hcol : ∀ l : Fin 8, IsBest le f ([l.val] ++ [8 + l.val] ++ [16 + l.val])
      (op (op (v 0 l) (v 1 l)) (v 2 l)) := by
    intro l
    have h0 : v 0 l = f l.val := by simpa using hv 0 l
    have h1 : v 1 l = f (8 + l.val) := by simpa using hv 1 l
    have h2 : v 2 l = f (16 + l.val) := by simpa using hv 2 l
    rw [h0, h1, h2]
    exact hop.node (hop.node (hop.leaf _ _) (hop.leaf _ _)) (hop.leaf _ _)
  refine ⟨_, fun n => ?_, hop.node
    (hop.node (hop.node (hcol 0) (hcol 1)) (hop.node (hcol 2) (hcol 3)))
    (hop.node (hop.node (hcol 4) (hcol 5)) (hop.node (hcol 6) (hcol 7)))⟩
  simp
  omega

end RadioStack.Neon
