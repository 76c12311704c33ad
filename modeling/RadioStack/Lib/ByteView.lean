import RadioStack.Lib.Outcome

/-!
# Views of a byte buffer

A view is a contiguous part of a buffer, with its position there. Reading behind its end is an
error, so a computation that returns has only read bytes of the view.
-/

namespace RadioStack

/-- A read or an access behind the end of a view. -/
inductive OutOfBounds where
  | pastEnd
  deriving DecidableEq

structure ByteView where
  /-- Position of the first byte in the buffer. -/
  first : Nat
  bytes : List UInt8
  deriving DecidableEq

namespace ByteView

variable {v : ByteView} {buffer : List UInt8} {n : Nat}

def whole (buffer : List UInt8) : ByteView := ⟨0, buffer⟩

def length (v : ByteView) : Nat := v.bytes.length

/-- Reads the first byte and advances. -/
def read (v : ByteView) : Except OutOfBounds (UInt8 × ByteView) :=
  match v.bytes with
  | [] => .error .pastEnd
  | b :: bytes => .ok (b, ⟨v.first + 1, bytes⟩)

def get (v : ByteView) (i : Nat) : Except OutOfBounds UInt8 :=
  match v.bytes[i]? with
  | some b => .ok b
  | none => .error .pastEnd

/-- The first `n` bytes, and the view advanced by `n`. -/
def split (v : ByteView) (n : Nat) : Except OutOfBounds (ByteView × ByteView) :=
  if n ≤ v.length then .ok (⟨v.first, v.bytes.take n⟩, ⟨v.first + n, v.bytes.drop n⟩)
  else .error .pastEnd

/-- The bytes of the view are those of the buffer at its position. -/
structure IsSlice (v : ByteView) (buffer : List UInt8) : Prop where
  bounds : v.first + v.length ≤ buffer.length
  bytes_eq : v.bytes = (buffer.drop v.first).take v.length

theorem get_ok {i : Nat} (h : i < v.length) : ∃ b, v.get i = .ok b := by
  rw [get, List.getElem?_eq_getElem h]
  exact ⟨_, rfl⟩

theorem split_append {first : Nat} (xs ys : List UInt8) :
    split ⟨first, xs ++ ys⟩ xs.length = .ok (⟨first, xs⟩, ⟨first + xs.length, ys⟩) := by
  have hle : xs.length ≤ length ⟨first, xs ++ ys⟩ := by simp [length]
  rw [split, if_pos hle, List.take_left, List.drop_left]

theorem isSlice_append (pre xs post : List UInt8) :
    IsSlice ⟨pre.length, xs⟩ (pre ++ (xs ++ post)) := by
  refine ⟨by simp [length], ?_⟩
  simp only [length, List.drop_left, List.take_left]

end ByteView

end RadioStack
