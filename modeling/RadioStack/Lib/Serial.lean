import Mathlib.Data.Nat.ModEq

/-!
# Serial numbers

Sequence numbers count modulo `m` and are compared by their distance from a base, computed in
unsigned 32-bit arithmetic as `(x - base) % m`. When the numbers stand for unbounded counters
that are close enough, this distance is the difference of the counters (`serialSub_eq`), so the
comparison of sequence numbers is the comparison of the counters.
-/

namespace RadioStack

/-- Counters less than one turn apart have different serial numbers. -/
theorem mod_ne_mod_of_lt {m a b : Nat} (hlt : a < b) (h : b < a + m) : a % m ≠ b % m := by
  intro heq
  have hmod : a + 0 ≡ a + (b - a) [MOD m] := by
    rw [Nat.add_zero, Nat.add_sub_cancel' (Nat.le_of_lt hlt)]
    exact heq
  have := Nat.ModEq.eq_of_lt_of_lt (Nat.ModEq.add_left_cancel' a hmod) (by omega) (by omega)
  omega

/-- `(a - b) % m` on `uint32_t`. -/
def serialSub (m a b : Nat) : Nat := (a + (2 ^ 32 - b % 2 ^ 32)) % 2 ^ 32 % m

variable {m a b A B : Nat}

theorem serialSub_lt (hm : 0 < m) : serialSub m a b < m := Nat.mod_lt _ hm

section

variable (hm : m ∣ 2 ^ 32)

include hm

/-- The 32-bit difference is congruent to the difference. -/
theorem serialSub_add_modEq : serialSub m a b + b ≡ a [MOD m] := by
  have hx : serialSub m a b ≡ a + (2 ^ 32 - b % 2 ^ 32) [MOD m] := by
    unfold serialSub
    rw [Nat.mod_mod_of_dvd _ hm]
    exact Nat.mod_modEq _ _
  have hb : b ≡ b % 2 ^ 32 [MOD m] := (Nat.mod_modEq b (2 ^ 32)).symm.of_dvd hm
  calc serialSub m a b + b
      ≡ a + (2 ^ 32 - b % 2 ^ 32) + b % 2 ^ 32 [MOD m] := hx.add hb
    _ = a + 2 ^ 32 := by omega
    _ ≡ a + 0 [MOD m] := (Nat.ModEq.refl a).add ((Nat.modEq_zero_iff_dvd).2 hm)

theorem serialSub_eq (ha : a ≡ A [MOD m]) (hb : b ≡ B [MOD m]) (hle : B ≤ A)
    (hlt : A - B < m) : serialSub m a b = A - B := by
  have hsum : serialSub m a b + B ≡ (A - B) + B [MOD m] := by
    rw [Nat.sub_add_cancel hle]
    exact ((Nat.ModEq.refl _).add hb.symm).trans ((serialSub_add_modEq hm).trans ha)
  exact Nat.ModEq.eq_of_lt_of_lt (Nat.ModEq.add_right_cancel' B hsum)
    (serialSub_lt (Nat.zero_lt_of_lt hlt)) hlt

/-- Distance of a number behind the base: it wraps. -/
theorem serialSub_eq_of_lt (ha : a ≡ A [MOD m]) (hb : b ≡ B [MOD m])
    (hlt : A < B) (hle : B ≤ A + m) : serialSub m a b = A + m - B := by
  have ha' : a ≡ A + m [MOD m] := by
    unfold Nat.ModEq
    rw [Nat.add_mod_right]
    exact ha
  exact serialSub_eq hm ha' hb hle (by omega)

/-- Every sequence number stands for one counter value in each block of `m`. -/
theorem exists_serial (hb : b ≡ B [MOD m]) :
    a ≡ B + serialSub m a b [MOD m] := by
  have h := serialSub_add_modEq (a := a) (b := b) hm
  rw [Nat.add_comm]
  exact h.symm.trans ((Nat.ModEq.refl _).add hb)

theorem serialSub_of_add {k : Nat} (hA : A ≡ a + k [MOD m])
    (hlt : serialSub m a b + k < m) : serialSub m A b = serialSub m a b + k := by
  have ha : a ≡ b + serialSub m a b [MOD m] := exists_serial hm (Nat.ModEq.refl b)
  have hA' : A ≡ b + (serialSub m a b + k) [MOD m] := by
    rw [← Nat.add_assoc]
    exact hA.trans (ha.add_right k)
  rw [serialSub_eq hm hA' (Nat.ModEq.refl b) (by omega) (by omega)]
  omega

/-- Distances from one base tell serial numbers apart. -/
theorem eq_of_serialSub_eq {a' : Nat} (ha : a < m) (ha' : a' < m)
    (h : serialSub m a b = serialSub m a' b) : a = a' := by
  have hmod : a ≡ a' [MOD m] := by
    have := exists_serial (a := a') hm (Nat.ModEq.refl b)
    rw [← h] at this
    exact (exists_serial hm (Nat.ModEq.refl b)).trans this.symm
  exact hmod.eq_of_lt_of_lt ha ha'

end

end RadioStack
