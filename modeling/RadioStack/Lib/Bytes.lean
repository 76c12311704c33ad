import Mathlib.Data.List.Basic
import Mathlib.Tactic.Ring

/-!
# Bytes in memory

A machine word of `k` bytes laid out in memory, low byte first, and the value read back from
such a layout. Words wider than their layout lose their high bytes, as a store does.

A buffer that is filled block by block: writing a block right after the blocks already written
extends them, and two such buffers are equal when their blocks are.
-/

namespace RadioStack.Bytes

/-! ## Little-endian words -/

/-- The `k` low bytes of `n`, low byte first. -/
def leBytes : Nat → Nat → List UInt8
  | 0, _ => []
  | k + 1, n => UInt8.ofNat n :: leBytes k (n / 256)

def leValue : List UInt8 → Nat
  | [] => 0
  | b :: bs => b.toNat + 256 * leValue bs

@[simp] theorem length_leBytes (k n : Nat) : (leBytes k n).length = k := by
  induction k generalizing n with
  | zero => rfl
  | succ k ih => simp [leBytes, ih]

theorem leValue_leBytes (k n : Nat) : leValue (leBytes k n) = n % 256 ^ k := by
  induction k generalizing n with
  | zero => simp [leBytes, leValue, Nat.mod_one]
  | succ k ih =>
    rw [leBytes, leValue, ih, UInt8.toNat_ofNat', pow_succ' 256 k, Nat.mod_mul]

theorem leValue_leBytes_of_lt {k n : Nat} (h : n < 256 ^ k) : leValue (leBytes k n) = n := by
  rw [leValue_leBytes, Nat.mod_eq_of_lt h]

/-! ## Writing a block into a buffer -/

section

variable {α : Type*}

/-- `mem` with `block` written from position `pos` on. -/
def splice (mem : List α) (pos : Nat) (block : List α) : List α :=
  mem.take pos ++ block ++ mem.drop (pos + block.length)

theorem length_splice {mem block : List α} {pos : Nat} (h : pos + block.length ≤ mem.length) :
    (splice mem pos block).length = mem.length := by
  rw [splice, List.length_append, List.length_append, List.length_take, List.length_drop]
  omega

theorem splice_append (done rest block : List α) {pos : Nat} (hpos : done.length = pos) :
    splice (done ++ rest) pos block = (done ++ block) ++ rest.drop block.length := by
  subst hpos
  rw [splice, List.take_left, ← List.drop_drop, List.drop_left]

/-- Concatenated blocks of one length are equal when all blocks are. -/
theorem flatMap_range_inj {f g : Nat → List α} {size : Nat} (n : Nat)
    (hf : ∀ i < n, (f i).length = size) (hg : ∀ i < n, (g i).length = size) :
    (List.range n).flatMap f = (List.range n).flatMap g ↔ ∀ i < n, f i = g i := by
  induction n with
  | zero => simp
  | succ n ih =>
    have ih' := ih (fun i hi => hf i (by omega)) (fun i hi => hg i (by omega))
    have hlast : (f n).length = (g n).length := by rw [hf n (by omega), hg n (by omega)]
    rw [List.range_succ, List.flatMap_append, List.flatMap_append, List.flatMap_singleton,
      List.flatMap_singleton]
    constructor
    · intro h i hi
      obtain ⟨hfront, hback⟩ := List.append_inj' h hlast
      rcases Nat.lt_succ_iff_lt_or_eq.1 hi with hlt | rfl
      · exact ih'.1 hfront i hlt
      · exact hback
    · intro h
      rw [ih'.2 fun i hi => h i (by omega), h n (by omega)]

theorem length_flatMap_range {f : Nat → List α} {size : Nat} (n : Nat)
    (hf : ∀ i < n, (f i).length = size) : ((List.range n).flatMap f).length = n * size := by
  induction n with
  | zero => simp
  | succ n ih =>
    rw [List.range_succ, List.flatMap_append, List.flatMap_singleton, List.length_append,
      ih fun i hi => hf i (by omega), hf n (by omega), Nat.succ_mul]

end

end RadioStack.Bytes
