import Mathlib.Algebra.GroupWithZero.Nat

/-!
# Runs of a labelled transition relation

A run is a finite sequence of labelled steps. An invariant of every step is an invariant of every
run (`Run.invariant`), and a run of steps that all satisfy a side condition is a run of the
restricted relation, so the same rule covers properties that hold only under a condition on the
steps taken.
-/

namespace RadioStack

variable {σ ε : Type*}

/-- `Run step s es t`: the labels `es` lead from `s` to `t`. -/
inductive Run (step : σ → ε → σ → Prop) : σ → List ε → σ → Prop
  | nil (s : σ) : Run step s [] s
  | cons {s t u : σ} {e : ε} {es : List ε} :
      step s e t → Run step t es u → Run step s (e :: es) u

namespace Run

variable {step step' : σ → ε → σ → Prop} {s t u : σ} {es es' : List ε}

/-- What every step preserves, every run preserves. -/
theorem invariant {P : σ → Prop} (hstep : ∀ s e t, P s → step s e t → P t)
    (hrun : Run step s es t) (hs : P s) : P t := by
  induction hrun with
  | nil => exact hs
  | cons h _ ih => exact ih (hstep _ _ _ hs h)

theorem append (h : Run step s es t) (h' : Run step t es' u) : Run step s (es ++ es') u := by
  induction h with
  | nil => exact h'
  | cons hs _ ih => exact .cons hs (ih h')

theorem single {e : ε} (h : step s e t) : Run step s [e] t :=
  .cons h (.nil t)

theorem mono (hsub : ∀ s e t, step s e t → step' s e t) (h : Run step s es t) :
    Run step' s es t := by
  induction h with
  | nil s => exact .nil s
  | cons hs _ ih => exact .cons (hsub _ _ _ hs) ih

theorem map {τ : Type*} {part : τ → ε → τ → Prop} (f : σ → τ)
    (hstep : ∀ s e t, step s e t → part (f s) e (f t)) (h : Run step s es t) :
    Run part (f s) es (f t) := by
  induction h with
  | nil s => exact .nil (f s)
  | cons hs _ ih => exact .cons (hstep _ _ _ hs) ih

end Run

/-- The state a sequence of labels leads to, for an executable step. -/
def exec (step : σ → ε → Option σ) : σ → List ε → Option σ
  | s, [] => some s
  | s, e :: es => (step s e).bind fun t => exec step t es

theorem run_of_exec {step : σ → ε → Option σ} {es : List ε} {s t : σ}
    (h : exec step s es = some t) : Run (fun s e t => step s e = some t) s es t := by
  induction es generalizing s with
  | nil =>
    obtain rfl := Option.some.inj h
    exact .nil s
  | cons e es ih =>
    obtain ⟨u, hu, h⟩ := Option.bind_eq_some_iff.1 h
    exact .cons hu (ih h)

/-- A step restricted to the labels that meet a condition. -/
def guarded (step : σ → ε → Option σ) (C : σ → ε → Prop) [∀ s e, Decidable (C s e)] (s : σ)
    (e : ε) : Option σ :=
  if C s e then step s e else none

theorem run_of_guarded {step : σ → ε → Option σ} {C : σ → ε → Prop} [∀ s e, Decidable (C s e)]
    {es : List ε} {s t : σ} (h : exec (guarded step C) s es = some t) :
    Run (fun s e t => step s e = some t ∧ C s e) s es t := by
  refine (run_of_exec h).mono fun s e t hstep => ?_
  rw [guarded] at hstep
  split at hstep
  · next hc => exact ⟨hstep, hc⟩
  · cases hstep

end RadioStack
