import Mathlib.Algebra.GroupWithZero.Nat

/-!
# Slots and symbols

`slot_point` and `slot_symbol_point`: the slots of 1024 frames, and the OFDM symbols in them,
counted modulo the length of the 1024 frames. The numerology and the number of symbols of a slot
are fixed for a sector, so they are parameters here.
-/

namespace RadioStack.Ofh

def nofSfns : Nat := 1024

def nofSubframesPerFrame : Nat := 10

/-- `nof_slots_per_subframe`, by numerology. -/
def nofSlotsPerSubframe (μ : Nat) : Nat := 2 ^ μ

def nofSlotsPerFrame (μ : Nat) : Nat := nofSlotsPerSubframe μ * nofSubframesPerFrame

def nofSlotsPerSystemFrame (μ : Nat) : Nat := nofSlotsPerFrame μ * nofSfns

/-- A valid `slot_point` of numerology `μ`. -/
structure SlotPoint (μ : Nat) where
  /-- `count_val`. -/
  count : Nat
  count_lt : count < nofSlotsPerSystemFrame μ
  deriving DecidableEq

namespace SlotPoint

variable {μ : Nat}

variable (s : SlotPoint μ)

def sfn : Nat := s.count / nofSlotsPerFrame μ

def slotIndex : Nat := s.count % nofSlotsPerFrame μ

def subframeIndex : Nat := s.slotIndex / nofSlotsPerSubframe μ

def subframeSlotIndex : Nat := s.count % nofSlotsPerSubframe μ

def add (jump : Nat) : SlotPoint μ where
  count := (s.count + jump) % nofSlotsPerSystemFrame μ
  count_lt := Nat.mod_lt _ (Nat.zero_lt_of_lt s.count_lt)

/-- `operator-` by a jump: the sum with the negated jump, a negative remainder corrected. -/
def sub (jump : Nat) : SlotPoint μ where
  count := (((s.count : Int) - jump) % nofSlotsPerSystemFrame μ).toNat
  count_lt := by
    have hpos := Nat.zero_lt_of_lt s.count_lt
    have := Int.emod_lt_of_pos ((s.count : Int) - jump) (Int.natCast_pos.2 hpos)
    omega

/-- `operator<`, which accounts for the wrap-around. -/
def lt (other : SlotPoint μ) : Bool :=
  let v : Int := (other.count : Int) - s.count
  if 0 < v then v < nofSlotsPerSystemFrame μ / 2 else v < -nofSlotsPerSystemFrame μ / 2

def gt (other : SlotPoint μ) : Bool := s ≠ other ∧ ¬s.lt other

theorem add_add (m n : Nat) : (s.add m).add n = s.add (m + n) := by
  simp [add, Nat.add_assoc]

theorem add_zero : s.add 0 = s := by
  simp [add, Nat.mod_eq_of_lt s.count_lt]

theorem add_one_sub_one : (s.add 1).sub 1 = s := by
  obtain ⟨c, hc⟩ := s
  simp only [add, sub, mk.injEq, Int.natCast_emod, Int.emod_sub_emod]
  rw [Int.emod_eq_of_lt] <;> omega

variable {s} {n : Nat}

theorem count_add_cases (hlt : n < nofSlotsPerSystemFrame μ) : (s.add n).count = s.count + n ∨
    (s.add n).count + nofSlotsPerSystemFrame μ = s.count + n := by
  have hc := s.count_lt
  by_cases hwrap : s.count + n < nofSlotsPerSystemFrame μ
  · exact .inl (Nat.mod_eq_of_lt hwrap)
  · right
    simp only [add]
    rw [Nat.mod_eq_sub_mod (by omega), Nat.mod_eq_of_lt (by omega)]
    omega

/-- A slot less than half of the slots ahead is the later one. -/
theorem lt_add (hpos : 0 < n) (hlt : n < nofSlotsPerSystemFrame μ / 2) : s.lt (s.add n) := by
  have := s.count_lt
  have := s.count_add_cases (show n < nofSlotsPerSystemFrame μ by omega)
  simp only [lt]
  split <;> simp <;> omega

theorem not_add_lt (hlt : n < nofSlotsPerSystemFrame μ / 2) : ¬(s.add n).lt s := by
  have := s.count_lt
  have := s.count_add_cases (show n < nofSlotsPerSystemFrame μ by omega)
  simp only [lt]
  split <;> simp <;> omega

end SlotPoint

/-- A valid `slot_symbol_point`, with `n` symbols in a slot. -/
structure SlotSymbolPoint (μ n : Nat) where
  /-- `count_val`. -/
  count : Nat
  count_lt : count < nofSlotsPerSystemFrame μ * n
  deriving DecidableEq

end RadioStack.Ofh
