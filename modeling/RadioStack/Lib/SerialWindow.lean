import Mathlib.Data.Nat.ModEq

/-!
# Circular maps as windows over unbounded counters

A circular map keeps at most one entry per residue of its key modulo its size `N`. Keyed by
serial numbers modulo a multiple `M ≥ 2 N` and used for a window of `N` consecutive counters, it is
a partial map from counters to values: `view M lo` reads it as one, and each operation on the map
is the corresponding update of that partial map, because two counters of one window never share a
slot.
-/

namespace RadioStack

/-- Serial numbers modulo `M` for windows of `N`: the slot is a function of the serial number, and
two adjacent windows share no serial number. -/
structure WindowModulus (M N : Nat) : Prop where
  dvd : N ∣ M
  two_mul_le : 2 * N ≤ M

theorem WindowModulus.of_eq {M N : Nat} (h : M = 2 * N) : WindowModulus M N :=
  ⟨h ▸ Nat.dvd_mul_left N 2, h ▸ Nat.le_refl _⟩

/-- A map with one slot per residue modulo `N`; the key is stored with the value. -/
structure CircularMap (N : Nat) (α : Type*) where
  slots : Nat → Option (Nat × α)
  count : Nat
  key_mod : ∀ {i k : Nat} {v : α}, slots i = some (k, v) → k % N = i

namespace CircularMap

variable {N : Nat} {α : Type*}

def empty : CircularMap N α := ⟨fun _ => none, 0, nofun⟩

def get? (c : CircularMap N α) (k : Nat) : Option α :=
  match c.slots (k % N) with
  | some (k', v) => if k' = k then some v else none
  | none => none

def contains (c : CircularMap N α) (k : Nat) : Bool := (c.get? k).isSome

def full (c : CircularMap N α) : Bool := c.count == N

def isEmpty (c : CircularMap N α) : Bool := c.count == 0

variable {k : Nat}

section

variable (c : CircularMap N α)

theorem update_key_mod {x : Option (Nat × α)}
    (hx : ∀ k' v, x = some (k', v) → k' % N = k % N) {i k' : Nat} {v : α}
    (h : Function.update c.slots (k % N) x i = some (k', v)) : k' % N = i := by
  by_cases hi : i = k % N
  · subst hi
    rw [Function.update_self] at h
    exact hx k' v h
  · rw [Function.update_of_ne hi] at h
    exact c.key_mod h

def erase (k : Nat) : CircularMap N α :=
  if c.contains k then
    ⟨Function.update c.slots (k % N) none, c.count - 1,
      c.update_key_mod (x := none) nofun⟩
  else c

def insert (k : Nat) (v : α) : CircularMap N α :=
  match c.slots (k % N) with
  | some _ => c
  | none =>
    ⟨Function.update c.slots (k % N) (some (k, v)), c.count + 1,
      c.update_key_mod fun _ _ h => by cases h; rfl⟩

/-- Inserts, after erasing whatever occupies the slot. -/
def overwrite (k : Nat) (v : α) : CircularMap N α :=
  match c.slots (k % N) with
  | some (k', _) => (c.erase k').insert k v
  | none => c.insert k v

/-- Updates the value of a present key in place. -/
def modify (k : Nat) (f : α → α) : CircularMap N α :=
  match c.get? k with
  | some v =>
    ⟨Function.update c.slots (k % N) (some (k, f v)), c.count,
      c.update_key_mod fun _ _ h => by cases h; rfl⟩
  | none => c

end

/-! ## Lookup after each operation -/

variable {c : CircularMap N α}

theorem get?_eq_some {v : α} :
    c.get? k = some v ↔ c.slots (k % N) = some (k, v) := by
  unfold get?
  cases h : c.slots (k % N) with
  | none => simp
  | some p =>
    obtain ⟨k', v'⟩ := p
    by_cases hk : k' = k
    · simp [hk]
    · simp [hk]

theorem get?_of_slots {c c' : CircularMap N α} (h : c'.slots (k % N) = c.slots (k % N)) :
    c'.get? k = c.get? k := by
  simp [get?, h]

@[simp] theorem get?_empty (k : Nat) : (empty : CircularMap N α).get? k = none := rfl

theorem contains_iff : c.contains k ↔ ∃ v, c.get? k = some v :=
  Option.isSome_iff_exists

theorem slots_erase {k i : Nat} :
    (c.erase k).slots i = if c.contains k ∧ i = k % N then none else c.slots i := by
  unfold erase
  by_cases hc : c.contains k
  · by_cases hi : i = k % N
    · simp [hc, hi]
    · simp [hc, hi]
  · simp [hc]

theorem get?_erase (c : CircularMap N α) (k k' : Nat) :
    (c.erase k).get? k' = if k' = k then none else c.get? k' := by
  by_cases hk : k' = k
  · subst hk
    rw [if_pos rfl]
    by_cases hc : c.contains k'
    · simp [get?, slots_erase, hc]
    · have hnone : c.get? k' = none := by simpa [contains] using hc
      rw [get?_of_slots (c := c) (by simp [slots_erase, hc]), hnone]
  · rw [if_neg hk]
    by_cases hslot : k' % N = k % N
    · by_cases hc : c.contains k
      · -- the slot belongs to `k`, so `k'` was absent
        obtain ⟨v, hv⟩ := contains_iff.1 hc
        rw [get?_eq_some] at hv
        simp only [get?, slots_erase, hc, hslot, and_self, if_true, hv]
        rw [if_neg (Ne.symm hk)]
      · exact get?_of_slots (by simp [slots_erase, hc])
    · exact get?_of_slots (by simp [slots_erase, hslot])

theorem slots_overwrite (c : CircularMap N α) (k : Nat) (v : α) (i : Nat) :
    (c.overwrite k v).slots i = if i = k % N then some (k, v) else c.slots i := by
  unfold overwrite
  cases h : c.slots (k % N) with
  | none =>
    simp only [insert, h]
    by_cases hi : i = k % N
    · simp [hi]
    · simp [hi]
  | some p =>
    obtain ⟨k', v'⟩ := p
    have hmod := c.key_mod h
    have hc : c.contains k' := contains_iff.2 ⟨v', get?_eq_some.2 (hmod ▸ h)⟩
    have herase : (c.erase k').slots (k % N) = none := by rw [slots_erase, if_pos ⟨hc, hmod.symm⟩]
    simp only [insert, herase]
    by_cases hi : i = k % N
    · simp [hi]
    · simp [hi, slots_erase, hmod]

theorem get?_overwrite (c : CircularMap N α) (k : Nat) (v : α) (k' : Nat) :
    (c.overwrite k v).get? k' =
      if k' = k then some v else if k' % N = k % N then none else c.get? k' := by
  by_cases hk : k' = k
  · subst hk
    simp [get?, slots_overwrite]
  · by_cases hslot : k' % N = k % N
    · simp [get?, slots_overwrite, hslot, hk, Ne.symm hk]
    · rw [if_neg hk, if_neg hslot]
      exact get?_of_slots (by rw [slots_overwrite, if_neg hslot])

theorem get?_modify (c : CircularMap N α) (k : Nat) (f : α → α) (k' : Nat) :
    (c.modify k f).get? k' = if k' = k then (c.get? k).map f else c.get? k' := by
  unfold modify
  cases hg : c.get? k with
  | none =>
    by_cases hk : k' = k
    · simp [hk, hg]
    · simp [hk]
  | some v =>
    by_cases hk : k' = k
    · subst hk
      simp [get?]
    · rw [if_neg hk]
      by_cases hslot : k' % N = k % N
      · have hslots := get?_eq_some.1 hg
        simp only [get?, hslot, Function.update_self, hslots]
        rw [if_neg (Ne.symm hk), if_neg (Ne.symm hk)]
      · exact get?_of_slots (Function.update_of_ne hslot _ _)

theorem count_erase (h : c.contains k) :
    (c.erase k).count = c.count - 1 := by
  simp [erase, h]

theorem count_overwrite (h : c.slots (k % N) = none) (v : α) :
    (c.overwrite k v).count = c.count + 1 := by
  simp [overwrite, insert, h]

theorem full_overwrite (hN : 1 < N) (h : c.full = false) (v : α) :
    (c.overwrite k v).full = true ↔ c.slots (k % N) = none ∧ c.count + 1 = N := by
  have hc : c.count ≠ N := by simpa [full] using h
  cases hs : c.slots (k % N) with
  | none => simp [full, count_overwrite hs]
  | some p =>
    obtain ⟨k', v'⟩ := p
    have hmod := c.key_mod hs
    have hin : c.contains k' := contains_iff.2 ⟨v', get?_eq_some.2 (hmod ▸ hs)⟩
    have hfree : (c.erase k').slots (k % N) = none := by rw [slots_erase, if_pos ⟨hin, hmod.symm⟩]
    have hcount : (c.overwrite k v).count = c.count - 1 + 1 := by
      simp [overwrite, hs, insert, hfree, count_erase hin]
    refine iff_of_false ?_ (by simp)
    simp only [full, hcount, beq_iff_eq]
    omega

@[simp] theorem count_modify (c : CircularMap N α) (k : Nat) (f : α → α) :
    (c.modify k f).count = c.count := by
  unfold modify
  split <;> rfl

/-! ## Windows -/

/-- The entry of counter `n`, for counters of the window that starts at `lo`. -/
def view (c : CircularMap N α) (M lo n : Nat) : Option α :=
  if lo ≤ n ∧ n < lo + N then c.get? (n % M) else none

/-- Every entry belongs to a counter of the window that starts at `lo`. -/
def Within (c : CircularMap N α) (M lo : Nat) : Prop :=
  ∀ k, c.contains k → ∃ n, lo ≤ n ∧ n < lo + N ∧ k = n % M

section Window

variable {c : CircularMap N α} {M lo n n' : Nat}

theorem view_of_mem (h : lo ≤ n) (h' : n < lo + N) : c.view M lo n = c.get? (n % M) :=
  if_pos ⟨h, h'⟩

theorem view_of_not_mem (h : n < lo ∨ lo + N ≤ n) : c.view M lo n = none :=
  if_neg (by omega)

theorem within_empty : (empty : CircularMap N α).Within M lo := by
  intro k hk
  cases hk

theorem view_empty : (empty : CircularMap N α).view M lo n = none := by
  unfold view
  split <;> rfl

theorem eq_of_mod_eq (h : lo ≤ n) (h' : n < lo + N) (hn : lo ≤ n') (hn' : n' < lo + N)
    (heq : n % N = n' % N) : n = n' := by
  have hmod : (n - lo) + lo ≡ (n' - lo) + lo [MOD N] := by
    rw [Nat.sub_add_cancel h, Nat.sub_add_cancel hn]
    exact heq
  have := Nat.ModEq.eq_of_lt_of_lt (Nat.ModEq.add_right_cancel' lo hmod) (by omega) (by omega)
  omega

variable (hM : WindowModulus M N)
include hM

theorem mod_mod_window : n % M % N = n % N := Nat.mod_mod_of_dvd n hM.dvd

theorem slots_of_view_none (hw : c.Within M lo) (h : lo ≤ n) (h' : n < lo + N)
    (hv : c.view M lo n = none) : c.slots (n % M % N) = none := by
  cases hs : c.slots (n % M % N) with
  | none => rfl
  | some p =>
    obtain ⟨k, v⟩ := p
    have hk := c.key_mod hs
    have hget : c.get? k = some v := get?_eq_some.2 (hk.symm ▸ hs)
    obtain ⟨m, hm, hm', rfl⟩ := hw k (contains_iff.2 ⟨v, hget⟩)
    have : m = n := by
      refine eq_of_mod_eq hm hm' h h' ?_
      rw [← mod_mod_window hM, hk, mod_mod_window hM]
    subst this
    rw [view_of_mem h h', hget] at hv
    cases hv

theorem view_update {c' : CircularMap N α} {x : Option α} (h : lo ≤ n) (h' : n < lo + N)
    (hself : c'.get? (n % M) = x)
    (hother : ∀ m, m % M % N ≠ n % M % N → c'.get? (m % M) = c.get? (m % M)) :
    c'.view M lo = Function.update (c.view M lo) n x := by
  funext m
  by_cases hmn : m = n
  · rw [hmn, view_of_mem h h', hself, Function.update_self]
  · rw [Function.update_of_ne hmn]
    by_cases hm : lo ≤ m ∧ m < lo + N
    · rw [view_of_mem hm.1 hm.2, view_of_mem hm.1 hm.2]
      refine hother m fun he => hmn (eq_of_mod_eq hm.1 hm.2 h h' ?_)
      rwa [mod_mod_window hM, mod_mod_window hM] at he
    · rw [view, view, if_neg hm, if_neg hm]

theorem view_overwrite (h : lo ≤ n) (h' : n < lo + N) (v : α) :
    (c.overwrite (n % M) v).view M lo = Function.update (c.view M lo) n (some v) := by
  refine view_update hM h h' (by rw [get?_overwrite, if_pos rfl]) fun m hm => ?_
  rw [get?_overwrite, if_neg (fun he => hm (congrArg (· % N) he)), if_neg hm]

omit hM in
theorem within_overwrite (hw : c.Within M lo) (h : lo ≤ n) (h' : n < lo + N) (v : α) :
    (c.overwrite (n % M) v).Within M lo := by
  intro k hk
  obtain ⟨u, hu⟩ := contains_iff.1 hk
  rw [get?_overwrite] at hu
  split at hu
  · next hkn => exact ⟨n, h, h', hkn⟩
  · split_ifs at hu
    exact hw k (contains_iff.2 ⟨u, hu⟩)

theorem view_erase (h : lo ≤ n) (h' : n < lo + N) :
    (c.erase (n % M)).view M lo = Function.update (c.view M lo) n none := by
  refine view_update hM h h' (by rw [get?_erase, if_pos rfl]) fun m hm => ?_
  rw [get?_erase, if_neg (fun he => hm (congrArg (· % N) he))]

theorem view_modify (h : lo ≤ n) (h' : n < lo + N) (f : α → α) :
    (c.modify (n % M) f).view M lo =
      Function.update (c.view M lo) n ((c.view M lo n).map f) := by
  refine view_update hM h h' (by rw [get?_modify, if_pos rfl, view_of_mem h h']) fun m hm => ?_
  rw [get?_modify, if_neg (fun he => hm (congrArg (· % N) he))]

omit hM in
theorem within_erase (hw : c.Within M lo) (k : Nat) : (c.erase k).Within M lo := by
  intro k' hk
  obtain ⟨u, hu⟩ := contains_iff.1 hk
  rw [get?_erase] at hu
  split_ifs at hu
  exact hw k' (contains_iff.2 ⟨u, hu⟩)

omit hM in
theorem within_modify (hw : c.Within M lo) (k : Nat) (f : α → α) :
    (c.modify k f).Within M lo := by
  intro k' hk
  obtain ⟨u, hu⟩ := contains_iff.1 hk
  rw [get?_modify] at hu
  split at hu
  · next heq =>
    subst heq
    obtain ⟨w, hw', -⟩ := Option.map_eq_some_iff.1 hu
    exact hw k' (contains_iff.2 ⟨w, hw'⟩)
  · exact hw k' (contains_iff.2 ⟨u, hu⟩)

omit hM in
/-- The window moves past counters without entries. -/
theorem within_advance (hw : c.Within M lo) {hi : Nat}
    (hnone : ∀ n, lo ≤ n → n < hi → c.view M lo n = none) (hle : lo ≤ hi) : c.Within M hi := by
  intro k hk
  obtain ⟨n, hn, hn', rfl⟩ := hw k hk
  have hge : hi ≤ n := by
    by_contra hlt
    have hv := hnone n hn (by omega)
    rw [view_of_mem hn hn'] at hv
    simp [contains, hv] at hk
  exact ⟨n, hge, by omega, rfl⟩

theorem view_advance (hw : c.Within M lo) {hi : Nat}
    (hnone : ∀ n, lo ≤ n → n < hi → c.view M lo n = none) (hle : lo ≤ hi) (hle' : hi ≤ lo + N) :
    c.view M hi = c.view M lo := by
  funext n
  by_cases hlo : n < hi
  · rw [view_of_not_mem (.inl hlo)]
    by_cases hn : lo ≤ n
    · exact (hnone n hn hlo).symm
    · exact (view_of_not_mem (.inl (by omega))).symm
  · by_cases hlt : n < lo + N
    · rw [view_of_mem (by omega) (by omega), view_of_mem (by omega) hlt]
    · rw [show c.view M lo n = none from view_of_not_mem (.inr (by omega))]
      by_cases hn : n < hi + N
      · rw [view_of_mem (by omega) hn]
        -- a key of the old window with this serial number would be `M ≥ 2 N` below
        cases hg : c.get? (n % M) with
        | none => rfl
        | some v =>
          obtain ⟨m, hm, hm', heq⟩ := hw _ (contains_iff.2 ⟨v, hg⟩)
          have hmod : m + (n - m) ≡ m + 0 [MOD M] := by
            rw [Nat.add_sub_cancel' (by omega), Nat.add_zero]
            exact heq
          have hwide := hM.two_mul_le
          have := Nat.ModEq.eq_of_lt_of_lt (Nat.ModEq.add_left_cancel' m hmod) (by omega) (by omega)
          omega
      · exact view_of_not_mem (.inr (by omega))

/-- The first counter of the window is removed, and the window moves past it. -/
theorem eraseFirst (hN : 0 < N) (hw : c.Within M lo) :
    (c.erase (lo % M)).Within M (lo + 1) ∧
      (c.erase (lo % M)).view M (lo + 1) = fun n => if n < lo + 1 then none else c.view M lo n := by
  have hview := view_erase (c := c) hM (Nat.le_refl lo) (Nat.lt_add_of_pos_right hN)
  have hnone : ∀ n, lo ≤ n → n < lo + 1 → (c.erase (lo % M)).view M lo n = none := by
    intro n hn hn'
    obtain rfl : n = lo := by omega
    rw [hview, Function.update_self]
  refine ⟨within_advance (within_erase hw _) hnone (Nat.le_succ lo), ?_⟩
  rw [view_advance hM (within_erase hw _) hnone (Nat.le_succ lo) (Nat.add_le_add_left hN lo)]
  funext n
  split
  · next hn =>
    rcases Nat.lt_or_eq_of_le (Nat.le_of_lt_succ hn) with hlt | rfl
    · exact view_of_not_mem (.inl hlt)
    · exact hnone n (Nat.le_refl n) hn
  · rw [hview, Function.update_of_ne (by omega)]

end Window

end CircularMap

end RadioStack
