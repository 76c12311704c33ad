import Mathlib.Data.List.Basic

/-!
# Splitting a byte string into frames

`read` takes one frame from the front of a string. `splitFrames` applies it until nothing is left.

**Theorem (`splitFrames_flatMap`).** If `read` takes back what `wire` wrote exactly for the good
frames, a concatenation of frames is split into these frames iff all of them are good.
-/

namespace RadioStack.Framing

variable {α β : Type*} (read : List β → Option (α × List β))

/-- At most `fuel` frames, up to the end of the string. -/
def splitFuel : Nat → List β → Option (List α)
  | _, [] => some []
  | 0, _ :: _ => none
  | fuel + 1, b :: bs => (read (b :: bs)).bind fun r => (splitFuel fuel r.2).map (r.1 :: ·)

/-- The frames of a string. A frame has at least one byte. -/
def splitFrames (bytes : List β) : Option (List α) := splitFuel read bytes.length bytes

/-- Every frame takes something from the string. -/
def Consumes : Prop := ∀ bytes x rest, read bytes = some (x, rest) → rest.length < bytes.length

variable {read}

theorem splitFuel_nil (fuel : Nat) : splitFuel read fuel [] = some [] := by
  cases fuel <;> rfl

/-- More fuel than bytes changes nothing. -/
theorem splitFuel_congr (hread : Consumes read) {fuel fuel' : Nat} {bytes : List β}
    (hfuel : bytes.length ≤ fuel) (hfuel' : bytes.length ≤ fuel') :
    splitFuel read fuel bytes = splitFuel read fuel' bytes := by
  induction fuel generalizing fuel' bytes with
  | zero =>
    rw [List.eq_nil_of_length_eq_zero (Nat.le_zero.1 hfuel), splitFuel_nil, splitFuel_nil]
  | succ fuel ih =>
    match bytes, fuel' with
    | [], _ => rw [splitFuel_nil, splitFuel_nil]
    | b :: bs, fuel' + 1 =>
      rw [splitFuel, splitFuel]
      match hr : read (b :: bs) with
      | none => rfl
      | some (x, rest) =>
        have hlt : rest.length < bs.length + 1 := hread _ x rest hr
        simp only [Option.bind_some]
        rw [ih (Nat.le_trans (Nat.le_of_lt_succ hlt) (Nat.le_of_succ_le_succ hfuel))
          (Nat.le_trans (Nat.le_of_lt_succ hlt) (Nat.le_of_succ_le_succ hfuel'))]

theorem splitFrames_of_read (hread : Consumes read) {bytes rest : List β} {x : α}
    (h : read bytes = some (x, rest)) :
    splitFrames read bytes = (splitFrames read rest).map (x :: ·) := by
  match bytes, hread bytes x rest h with
  | b :: bs, hlt =>
    rw [splitFrames, List.length_cons, splitFuel, h, Option.bind_some,
      splitFuel_congr hread (Nat.le_of_lt_succ hlt) (Nat.le_refl _), splitFrames]

theorem splitFrames_of_none {bytes : List β} (hne : bytes ≠ []) (h : read bytes = none) :
    splitFrames read bytes = none := by
  match bytes, hne with
  | b :: bs, _ => rw [splitFrames, List.length_cons, splitFuel, h, Option.bind_none]

section

variable {wire : α → List β} {good : α → Prop}

theorem splitFrames_flatMap (hread : Consumes read) (xs ys : List α) (tail : List β)
    (hne : ∀ x ∈ xs, wire x ≠ [])
    (hgood : ∀ x ∈ xs, good x → ∀ rest, read (wire x ++ rest) = some (x, rest))
    (hbad : ∀ x ∈ xs, ∀ rest rest', read (wire x ++ rest) = some (x, rest') → good x) :
    splitFrames read (xs.flatMap wire ++ tail) = some (xs ++ ys) ↔
      (∀ x ∈ xs, good x) ∧ splitFrames read tail = some ys := by
  induction xs with
  | nil => exact ⟨fun h => ⟨nofun, h⟩, And.right⟩
  | cons x xs ih =>
    rw [List.forall_mem_cons] at hne hgood hbad
    rw [List.flatMap_cons, List.append_assoc, List.forall_mem_cons, and_assoc,
      ← ih hne.2 hgood.2 hbad.2]
    constructor
    · intro h
      match hr : read (wire x ++ (xs.flatMap wire ++ tail)) with
      | none =>
        rw [splitFrames_of_none (List.append_ne_nil_of_left_ne_nil hne.1 _) hr] at h
        cases h
      | some (y, rest') =>
        rw [splitFrames_of_read hread hr, Option.map_eq_some_iff] at h
        obtain ⟨zs, hzs, heq⟩ := h
        obtain ⟨rfl, rfl⟩ := List.cons.inj heq
        have hx := hbad.1 _ _ hr
        rw [hgood.1 hx, Option.some.injEq, Prod.mk.injEq] at hr
        exact ⟨hx, hr.2 ▸ hzs⟩
    · rintro ⟨hx, hrest⟩
      rw [splitFrames_of_read hread (hgood.1 hx _), hrest]
      rfl

end

end RadioStack.Framing
