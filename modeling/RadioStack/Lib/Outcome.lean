import Mathlib.Logic.Basic

/-!
# Postconditions of fallible computations

`Ensures bad post x`: if `x` returns, its result satisfies `post`, and if it fails, the failure
satisfies `bad`. With `bad := fun _ => False` this is total correctness, so a failure that is not
excluded stays visible in the statement.
-/

namespace RadioStack

variable {ε α β : Type}

theorem toOption_eq_some {x : Except ε α} {a : α} : x.toOption = some a ↔ x = .ok a := by
  cases x with
  | ok b => exact ⟨fun h => congrArg _ (Option.some.inj h), fun h => congrArg _ (Except.ok.inj h)⟩
  | error e => exact ⟨nofun, nofun⟩

section Bind

variable {x : Except ε α} {f : α → Except ε β} {g : α → β}

theorem bind_of_ok {a : α} (h : x = .ok a) : x >>= f = f a := by
  rw [h]
  rfl

theorem bind_of_error {e : ε} (h : x = .error e) : x >>= f = .error e := by
  rw [h]
  rfl

/-- A computation that succeeds has succeeded at each step. -/
theorem exists_of_bind_ok {b : β} (h : x >>= f = .ok b) : ∃ a, x = .ok a ∧ f a = .ok b := by
  cases x with
  | ok a => exact ⟨a, rfl, h⟩
  | error e => cases h

theorem exists_of_map_ok {b : β} (h : g <$> x = .ok b) : ∃ a, x = .ok a ∧ g a = b := by
  cases x with
  | ok a => exact ⟨a, rfl, Except.ok.inj h⟩
  | error e => cases h

end Bind

/-- `post` holds of the result and `bad` of the failure. -/
def Ensures (bad : ε → Prop) (post : α → Prop) : Except ε α → Prop
  | .ok a => post a
  | .error e => bad e

namespace Ensures

variable {bad : ε → Prop} {post post' : α → Prop} {Q : β → Prop} {x : Except ε α}

theorem of_ok {a : α} (h : Ensures bad post x) (hx : x = .ok a) : post a := by
  subst hx
  exact h

theorem of_error {e : ε} (h : Ensures bad post x) (hx : x = .error e) : bad e := by
  subst hx
  exact h

theorem exists_ok (h : Ensures (fun _ => False) post x) : ∃ a, x = .ok a ∧ post a := by
  cases x with
  | ok a => exact ⟨a, rfl, h⟩
  | error e => exact h.elim

theorem mono (h : Ensures bad post x) (hpost : ∀ a, post a → post' a) : Ensures bad post' x := by
  cases x with
  | ok a => exact hpost a h
  | error e => exact h

theorem bind {f : α → Except ε β} (h : Ensures bad post x)
    (hf : ∀ a, post a → Ensures bad Q (f a)) : Ensures bad Q (x >>= f) := by
  cases x with
  | ok a => exact hf a h
  | error e => exact h

theorem map {f : α → β} (h : Ensures bad post x) (hf : ∀ a, post a → Q (f a)) :
    Ensures bad Q (x.map f) := by
  cases x with
  | ok a => exact hf a h
  | error e => exact h

theorem ite {c : Prop} [Decidable c] {y : Except ε α} (hx : c → Ensures bad post x)
    (hy : ¬ c → Ensures bad post y) : Ensures bad post (if c then x else y) := by
  by_cases hc : c
  · rw [if_pos hc]
    exact hx hc
  · rw [if_neg hc]
    exact hy hc

end Ensures

/-- The computation returns exactly if `c` holds, and then a result that satisfies `post`. -/
def ReturnsIff (c : Prop) (post : α → Prop) : Except ε α → Prop :=
  Ensures (fun _ => ¬ c) fun a => c ∧ post a

namespace ReturnsIff

variable {c : Prop} {bad : ε → Prop} {post : α → Prop} {Q : β → Prop} {x : Except ε α}

theorem exists_ok (h : ReturnsIff c post x) (hc : c) : ∃ a, x = .ok a ∧ post a := by
  cases x with
  | ok a => exact ⟨a, rfl, h.2⟩
  | error e => exact absurd hc h

/-- The rule for a step of a computation: where it fails, so does the whole. -/
theorem bind {f : α → Except ε β} (h : ReturnsIff c post x) (hbad : ¬ c → ∀ e, bad e)
    (hf : ∀ a, c → post a → Ensures bad Q (f a)) : Ensures bad Q (x >>= f) := by
  cases x with
  | ok a => exact hf a h.1 h.2
  | error e => exact hbad h e

theorem map {f : α → β} (h : ReturnsIff c post x) (hbad : ¬ c → ∀ e, bad e)
    (hf : ∀ a, c → post a → Q (f a)) : Ensures bad Q (f <$> x) :=
  h.bind hbad hf

theorem imp {Q : α → Prop} (h : ReturnsIff c post x) (hbad : ¬ c → ∀ e, bad e)
    (hf : ∀ a, c → post a → Q a) : Ensures bad Q x := by
  cases x with
  | ok a => exact hf a h.1 h.2
  | error e => exact hbad h e

end ReturnsIff

/-- There is a result only if `absent` does not hold, for instance that the fuel is too short, and
then `post` holds of it. -/
def Yields (absent : Prop) (post : α → Prop) : Option α → Prop
  | none => absent
  | some a => post a

namespace Yields

variable {absent : Prop} {post post' : α → Prop} {o : Option α}

theorem of_some {a : α} (h : Yields absent post o) (ho : o = some a) : post a := by
  subst ho
  exact h

theorem exists_some (h : Yields absent post o) (hnot : ¬ absent) : ∃ a, o = some a ∧ post a := by
  cases o with
  | none => exact absurd h hnot
  | some a => exact ⟨a, rfl, h⟩

theorem isSome_iff {c : Prop} (h : Yields (¬ c) (fun a => c ∧ post a) o) : o.isSome ↔ c := by
  cases o with
  | none => exact iff_of_false nofun h
  | some a => exact iff_of_true rfl h.1

theorem mono (h : Yields absent post o) (hpost : ∀ a, post a → post' a) :
    Yields absent post' o := by
  cases o with
  | none => exact h
  | some a => exact hpost a h

theorem map {Q : β → Prop} {f : α → β} (h : Yields absent post o) (hf : ∀ a, post a → Q (f a)) :
    Yields absent Q (o.map f) := by
  cases o with
  | none => exact h
  | some a => exact hf a h

end Yields

/-- Both computations return results in the relation `R`, or fail in the same way. -/
def Agree (R : α → α → Prop) : Except ε α → Except ε α → Prop
  | .ok a, .ok b => R a b
  | .error e, .error f => e = f
  | _, _ => False

theorem Agree.bind {R : α → α → Prop} {S : β → β → Prop} {x y : Except ε α}
    {f g : α → Except ε β} (h : Agree R x y) (hf : ∀ a b, R a b → Agree S (f a) (g b)) :
    Agree S (x >>= f) (y >>= g) := by
  match x, y, h with
  | .ok a, .ok b, h => exact hf a b h
  | .error _, .error _, h => exact h

theorem Agree.map_eq {R : α → α → Prop} {x y : Except ε α} {f : α → β} (h : Agree R x y)
    (hf : ∀ a b, R a b → f a = f b) : x.map f = y.map f := by
  match x, y, h with
  | .ok a, .ok b, h => exact congrArg Except.ok (hf a b h)
  | .error _, .error _, h => exact congrArg Except.error h

end RadioStack
