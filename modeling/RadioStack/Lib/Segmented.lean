import Mathlib.Data.List.Basic

/-!
# Sequences stored in segments

A sequence may be stored in several segments, one after the other. The operations here work segment
by segment, as code with such a representation does; each comes with the operation on the whole
sequence (`List.flatten`) that it implements, so that what is computed from a segmented sequence
does not depend on where it is cut.

A stream that is combined with the elements one by one, with a state that is carried from one
segment to the next, is a function of the whole sequence too (`scan_append`). -/

namespace RadioStack.Segmented

variable {α β σ : Type*}

/-! ## Access by position -/

def at? : List (List α) → Nat → Option α
  | [], _ => none
  | seg :: segs, i => if i < seg.length then seg[i]? else at? segs (i - seg.length)

/-- Changes the element at a position; `none` if there is none. -/
def modifyAt (f : α → α) : List (List α) → Nat → Option (List (List α))
  | [], _ => none
  | seg :: segs, i =>
    if i < seg.length then some (seg.modify i f :: segs)
    else (modifyAt f segs (i - seg.length)).map (seg :: ·)

theorem at?_eq (segs : List (List α)) (i : Nat) : at? segs i = segs.flatten[i]? := by
  induction segs generalizing i with
  | nil => rfl
  | cons seg segs ih =>
    rw [at?, List.flatten_cons]
    split
    · next h => rw [List.getElem?_append_left h]
    · next h => rw [ih, List.getElem?_append_right (Nat.le_of_not_lt h)]

theorem modify_append (f : α → α) (xs ys : List α) (i : Nat) : (xs ++ ys).modify i f =
    if i < xs.length then xs.modify i f ++ ys else xs ++ ys.modify (i - xs.length) f := by
  induction xs generalizing i with
  | nil => rfl
  | cons x xs ih =>
    cases i with
    | zero => rfl
    | succ i =>
      rw [List.cons_append, List.modify_succ_cons, ih, List.length_cons, Nat.add_sub_add_right]
      simp only [Nat.add_lt_add_iff_right]
      split <;> rfl

theorem modifyAt_spec (f : α → α) {segs : List (List α)} {i : Nat} (hi : i < segs.flatten.length) :
    ∃ segs', modifyAt f segs i = some segs' ∧ segs'.flatten = segs.flatten.modify i f := by
  induction segs generalizing i with
  | nil => exact absurd hi (Nat.not_lt_zero i)
  | cons seg segs ih =>
    rw [modifyAt, List.flatten_cons]
    rw [List.flatten_cons, List.length_append] at hi
    split
    · next h => exact ⟨_, rfl, by rw [List.flatten_cons, modify_append, if_pos h]⟩
    · next h =>
      obtain ⟨segs', hsegs, hflat⟩ := ih (i := i - seg.length) (by omega)
      refine ⟨seg :: segs', by rw [hsegs]; rfl, ?_⟩
      rw [List.flatten_cons, hflat, modify_append, if_neg h]

/-! ## Parts -/

def takeElems : Nat → List (List α) → List (List α)
  | _, [] => []
  | n, seg :: segs =>
    if n ≤ seg.length then [seg.take n] else seg :: takeElems (n - seg.length) segs

def dropElems : Nat → List (List α) → List (List α)
  | _, [] => []
  | n, seg :: segs => if n < seg.length then seg.drop n :: segs else dropElems (n - seg.length) segs

theorem flatten_takeElems (n : Nat) (segs : List (List α)) :
    (takeElems n segs).flatten = segs.flatten.take n := by
  induction segs generalizing n with
  | nil => rw [takeElems, List.flatten_nil, List.take_nil]
  | cons seg segs ih =>
    rw [takeElems, List.flatten_cons, List.take_append]
    split
    · next h =>
      rw [Nat.sub_eq_zero_of_le h, List.take_zero, List.append_nil, List.flatten_singleton]
    · next h =>
      rw [List.flatten_cons, ih, List.take_of_length_le (l := seg) (Nat.le_of_not_le h)]

theorem flatten_dropElems (n : Nat) (segs : List (List α)) :
    (dropElems n segs).flatten = segs.flatten.drop n := by
  induction segs generalizing n with
  | nil => rw [dropElems, List.flatten_nil, List.drop_nil]
  | cons seg segs ih =>
    rw [dropElems, List.flatten_cons, List.drop_append]
    split
    · next h =>
      rw [Nat.sub_eq_zero_of_le (Nat.le_of_lt h), List.drop_zero, List.flatten_cons]
    · next h =>
      rw [ih, List.drop_of_length_le (l := seg) (Nat.le_of_not_lt h), List.nil_append]

/-! ## Streams -/

/-- Combines each element with the next item of a stream. -/
def scan (next : σ → β × σ) (f : α → β → α) : σ → List α → σ × List α
  | s, [] => (s, [])
  | s, x :: xs =>
    ((scan next f (next s).2 xs).1, f x (next s).1 :: (scan next f (next s).2 xs).2)

/-- The same on the elements after the first `n`, segment by segment. -/
def scanFrom (next : σ → β × σ) (f : α → β → α) : σ → Nat → List (List α) → List (List α)
  | _, _, [] => []
  | s, n, seg :: segs =>
    if seg.length ≤ n then seg :: scanFrom next f s (n - seg.length) segs
    else
      (seg.take n ++ (scan next f s (seg.drop n)).2) ::
        scanFrom next f (scan next f s (seg.drop n)).1 0 segs

variable (next : σ → β × σ) (f : α → β → α)

theorem scan_append (s : σ) (xs ys : List α) : scan next f s (xs ++ ys) =
    ((scan next f (scan next f s xs).1 ys).1,
      (scan next f s xs).2 ++ (scan next f (scan next f s xs).1 ys).2) := by
  induction xs generalizing s with
  | nil => rfl
  | cons x xs ih =>
    rw [List.cons_append, scan, scan, ih]
    rfl

theorem length_scan (s : σ) (xs : List α) : (scan next f s xs).2.length = xs.length := by
  induction xs generalizing s with
  | nil => rfl
  | cons x xs ih =>
    rw [scan]
    simp only [List.length_cons]
    rw [ih]

/-- The state after a scan does not depend on the elements, so a second scan undoes an involution.
-/
theorem scan_scan (hf : ∀ x b, f (f x b) b = x) (s : σ) (xs : List α) :
    (scan next f s (scan next f s xs).2).2 = xs := by
  induction xs generalizing s with
  | nil => rfl
  | cons x xs ih =>
    simp only [scan, hf]
    rw [ih]

theorem flatten_scanFrom (s : σ) (n : Nat) (segs : List (List α)) :
    (scanFrom next f s n segs).flatten =
      segs.flatten.take n ++ (scan next f s (segs.flatten.drop n)).2 := by
  induction segs generalizing s n with
  | nil =>
    rw [scanFrom, List.flatten_nil, List.take_nil, List.drop_nil]
    rfl
  | cons seg segs ih =>
    rw [scanFrom, List.flatten_cons, List.take_append, List.drop_append]
    split
    · next h =>
      rw [List.flatten_cons, ih, List.take_of_length_le h, List.drop_of_length_le h,
        List.nil_append, List.append_assoc]
    · next h =>
      have hle := Nat.le_of_not_le h
      rw [Nat.sub_eq_zero_of_le hle, List.take_zero, List.append_nil, List.drop_zero, scan_append,
        List.flatten_cons, ih, List.take_zero, List.drop_zero, List.nil_append, List.append_assoc]

end RadioStack.Segmented
