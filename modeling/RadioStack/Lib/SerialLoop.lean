import RadioStack.Lib.Serial

/-!
# Loops over serial numbers

`serialLoop` is the loop `for (; (sn - base) % m < (stop - base) % m; sn = (sn + 1) % m)` with a
body that may break. Read over the counters the serial numbers stand for it is an ordinary bounded
loop (`serialLoop_eq`), whose rule is `countLoop_invariant`.
-/

namespace RadioStack

variable {σ : Type*}

/-- The loop over serial numbers from `sn` to `stop`; the body breaks with `none`. -/
def serialLoop (m base stop : Nat) (body : σ → Nat → Option σ) : Nat → σ → Nat → σ × Nat
  | 0, s, sn => (s, sn)
  | fuel + 1, s, sn =>
    if serialSub m sn base < serialSub m stop base then
      match body s sn with
      | some s' => serialLoop m base stop body fuel s' ((sn + 1) % m)
      | none => (s, sn)
    else (s, sn)

/-- The loop over at most `k` counters from `n` on; the body breaks with `none`. -/
def countLoop (body : σ → Nat → Option σ) : Nat → σ → Nat → σ × Nat
  | 0, s, n => (s, n)
  | k + 1, s, n =>
    match body s n with
    | some s' => countLoop body k s' (n + 1)
    | none => (s, n)

variable {f : σ → Nat → Option σ}

/-- The loop over serial numbers is the loop over counters. -/
theorem serialLoop_eq {m base t B S : Nat} (hm : m ∣ 2 ^ 32) (hbase : base ≡ B [MOD m])
    (hstop : t ≡ S [MOD m]) (hlt : S < B + m) {k A : Nat} (hBA : B ≤ A) (hAS : A ≤ S)
    (hfuel : S - A ≤ k) (s : σ) :
    serialLoop m base t f k s (A % m) =
      Prod.map id (· % m) (countLoop (fun s n => f s (n % m)) (S - A) s A) := by
  induction k generalizing A s with
  | zero =>
    have : S - A = 0 := by omega
    rw [this]
    rfl
  | succ k ih =>
    have hd : serialSub m (A % m) base = A - B :=
      serialSub_eq hm (Nat.mod_modEq A m) hbase hBA (by omega)
    have hs : serialSub m t base = S - B :=
      serialSub_eq hm hstop hbase (by omega) (by omega)
    unfold serialLoop
    rw [hd, hs]
    by_cases hlast : A = S
    · subst hlast
      rw [if_neg (Nat.lt_irrefl _), Nat.sub_self]
      rfl
    · obtain ⟨j, hj⟩ : ∃ j, S - A = j + 1 := ⟨S - A - 1, by omega⟩
      rw [if_pos (by omega), hj, countLoop]
      cases hb : f s (A % m) with
      | none => rfl
      | some s' =>
        have hnext := ih (A := A + 1) (by omega) (by omega) (by omega) s'
        rw [show S - (A + 1) = j by omega] at hnext
        simpa using hnext

/-- What one round preserves, the loop preserves. -/
theorem serialLoop_invariant {m base t : Nat} {P : σ → Nat → Prop}
    (hbody : ∀ s n s', P s n → serialSub m n base < serialSub m t base → f s n = some s' →
      P s' ((n + 1) % m)) {k : Nat} {s : σ} {n : Nat} (hs : P s n) :
    P (serialLoop m base t f k s n).1 (serialLoop m base t f k s n).2 := by
  induction k generalizing s n with
  | zero => exact hs
  | succ k ih =>
    unfold serialLoop
    split
    · next hlt =>
      cases hb : f s n with
      | none => exact hs
      | some s' => exact ih (hbody s n s' hs hlt hb)
    · exact hs

section Rule

variable {f : σ → Nat → Option σ} {k a : Nat} {s : σ}

theorem le_countLoop : a ≤ (countLoop f k s a).2 := by
  induction k generalizing s a with
  | zero => exact Nat.le_refl a
  | succ k ih =>
    unfold countLoop
    cases f s a with
    | none => exact Nat.le_refl a
    | some s' => exact Nat.le_of_succ_le ih

theorem countLoop_le : (countLoop f k s a).2 ≤ a + k := by
  induction k generalizing s a with
  | zero => exact Nat.le_refl a
  | succ k ih =>
    unfold countLoop
    cases f s a with
    | none => exact Nat.le_add_right a _
    | some s' =>
      have := ih (s := s') (a := a + 1)
      show (countLoop f k s' (a + 1)).2 ≤ _
      omega

theorem countLoop_invariant {P : σ → Nat → Prop}
    (hbody : ∀ s n s', a ≤ n → n < a + k → P s n → f s n = some s' → P s' (n + 1))
    (hs : P s a) : P (countLoop f k s a).1 (countLoop f k s a).2 := by
  induction k generalizing s a with
  | zero => exact hs
  | succ k ih =>
    unfold countLoop
    cases hb : f s a with
    | none => exact hs
    | some s' =>
      refine ih ?_ (hbody s a s' (Nat.le_refl a) (by omega) hs hb)
      exact fun s n s' hn hn' => hbody s n s' (by omega) (by omega)

/-- The loop ends before its bound only where the body breaks. -/
theorem countLoop_break (h : (countLoop f k s a).2 < a + k) :
    f (countLoop f k s a).1 (countLoop f k s a).2 = none := by
  induction k generalizing s a with
  | zero => exact absurd h (Nat.lt_irrefl a)
  | succ k ih =>
    unfold countLoop at h ⊢
    cases hb : f s a with
    | none => exact hb
    | some s' =>
      rw [hb] at h
      exact ih (by simp only at h; omega)

/-- Where the loop ends. -/
theorem countLoop_end {res : σ × Nat} (h : countLoop f k s a = res) :
    a ≤ res.2 ∧ res.2 ≤ a + k ∧ (res.2 < a + k → f res.1 res.2 = none) :=
  h ▸ ⟨le_countLoop, countLoop_le, countLoop_break⟩

theorem countLoop_congr {g : σ → Nat → Option σ}
    (h : ∀ s n, a ≤ n → n < a + k → f s n = g s n) :
    countLoop f k s a = countLoop g k s a := by
  induction k generalizing s a with
  | zero => rfl
  | succ k ih =>
    unfold countLoop
    rw [← h s a (Nat.le_refl a) (by omega)]
    cases f s a with
    | none => rfl
    | some s' => exact ih fun s n hn hn' => h s n (by omega) (by omega)

theorem countLoop_snd_eq (h : ∀ s n, f s n ≠ none) : (countLoop f k s a).2 = a + k := by
  rcases Nat.lt_or_eq_of_le (countLoop_le (f := f) (k := k) (s := s) (a := a)) with hlt | heq
  · exact absurd (countLoop_break hlt) (h _ _)
  · exact heq

end Rule

/-! ## Loops that end at equality -/

/-- The loop `while (cur != stop) { body; cur = (cur + 1) % m; }`; the body breaks with `none`. The
result is `none` if the loop has not ended after `fuel` rounds. -/
def loopUntil (m stop : Nat) (body : σ → Nat → Option σ) : Nat → σ → Nat → Option (σ × Nat)
  | 0, s, cur => if cur = stop then some (s, cur) else none
  | fuel + 1, s, cur =>
    if cur = stop then some (s, cur)
    else
      match body s cur with
      | some s' => loopUntil m stop body fuel s' ((cur + 1) % m)
      | none => some (s, cur)

/-- Less than one turn behind its end, the loop ends, and is the loop over counters. -/
theorem loopUntil_eq {m A S : Nat} (hAS : A ≤ S) (hlt : S < A + m) {k : Nat} (hfuel : S - A ≤ k)
    (s : σ) :
    loopUntil m (S % m) f k s (A % m) =
      some (Prod.map id (· % m) (countLoop (fun s n => f s (n % m)) (S - A) s A)) := by
  induction k generalizing A s with
  | zero =>
    obtain rfl : A = S := by omega
    rw [Nat.sub_self]
    exact if_pos rfl
  | succ k ih =>
    unfold loopUntil
    by_cases hlast : A = S
    · subst hlast
      rw [if_pos rfl, Nat.sub_self]
      rfl
    · obtain ⟨j, hj⟩ : ∃ j, S - A = j + 1 := ⟨S - A - 1, by omega⟩
      rw [if_neg (mod_ne_mod_of_lt (by omega) hlt), hj, countLoop]
      cases hb : f s (A % m) with
      | none => rfl
      | some s' =>
        have hnext := ih (A := A + 1) (by omega) (by omega) (by omega) s'
        rw [show S - (A + 1) = j by omega] at hnext
        simpa using hnext

theorem loopUntil_lt {m stop : Nat} {k : Nat} {s s' : σ} {cur cur' : Nat}
    (h : loopUntil m stop f k s cur = some (s', cur')) (hcur : cur < m) : cur' < m := by
  induction k generalizing s cur with
  | zero =>
    rw [loopUntil] at h
    split_ifs at h
    cases h
    exact hcur
  | succ k ih =>
    rw [loopUntil] at h
    split at h
    · cases h
      exact hcur
    · split at h
      · exact ih h (Nat.mod_lt _ (Nat.zero_lt_of_lt hcur))
      · cases h
        exact hcur

/-! ## Searching -/

/-- The first counter in `[a, stop)` that fails `p`, else `stop`. -/
def firstFail (p : Nat → Bool) (a stop : Nat) : Nat :=
  (countLoop (fun (_ : Unit) n => if p n then some () else none) (stop - a) () a).2

section Search

variable {p : Nat → Bool} {a t r : Nat}

theorem le_firstFail : a ≤ firstFail p a t := le_countLoop

theorem firstFail_le (h : a ≤ t) : firstFail p a t ≤ t := by
  have := countLoop_le (f := fun (_ : Unit) n => if p n then some () else none)
    (k := t - a) (s := ()) (a := a)
  unfold firstFail
  omega

theorem of_lt_firstFail {n : Nat} (h : a ≤ n) (h' : n < firstFail p a t) : p n = true := by
  have hinv := countLoop_invariant
    (f := fun (_ : Unit) n => if p n then some () else none) (k := t - a) (s := ()) (a := a)
    (P := fun _ m => ∀ n, a ≤ n → n < m → p n = true) ?_ (fun n hn hn' => by omega)
  · exact hinv n h h'
  · intro s m s' _ _ hP hm n hn hn'
    rcases Nat.lt_or_eq_of_le (Nat.le_of_lt_succ hn') with hlt | rfl
    · exact hP n hn hlt
    · by_contra hpn
      simp [hpn] at hm

theorem firstFail_fails (h : firstFail p a t < t) : p (firstFail p a t) = false := by
  have hle : a ≤ firstFail p a t := le_firstFail
  have hbreak := countLoop_break (f := fun (_ : Unit) n => if p n then some () else none)
    (k := t - a) (s := ()) (a := a) (by unfold firstFail at h hle; omega)
  by_contra hp
  have hp : p (firstFail p a t) = true := by simpa using hp
  unfold firstFail at hp
  rw [hp] at hbreak
  cases hbreak

/-- The counters before it all satisfy `p` and it does not: that determines it. -/
theorem firstFail_unique (har : a ≤ r) (hr : r ≤ t) (hall : ∀ n, a ≤ n → n < r → p n = true)
    (hfail : r < t → p r = false) : firstFail p a t = r := by
  rcases Nat.lt_trichotomy (firstFail p a t) r with hlt | heq | hgt
  · have := firstFail_fails (p := p) (a := a) (t := t) (by omega)
    rw [hall _ le_firstFail hlt] at this
    cases this
  · exact heq
  · have hle := firstFail_le (p := p) (a := a) (t := t) (by omega)
    have := of_lt_firstFail har hgt
    rw [hfail (by omega)] at this
    cases this

theorem firstFail_congr {q : Nat → Bool} (h : a ≤ t)
    (hpq : ∀ n, a ≤ n → n < t → p n = q n) : firstFail p a t = firstFail q a t := by
  have hle := firstFail_le (p := q) h
  refine firstFail_unique le_firstFail hle (fun n hn hn' => ?_) (fun hlt => ?_)
  · rw [hpq n hn (by omega)]
    exact of_lt_firstFail hn hn'
  · rw [hpq _ le_firstFail hlt]
    exact firstFail_fails hlt

end Search

end RadioStack
