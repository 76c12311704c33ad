import Mathlib.Data.List.Range
import Mathlib.Data.List.Perm.Basic
import RadioStack.Lib.SerialLoop
import RadioStack.Lib.SerialWindow

/-!
# Reordering buffers

A receiver that restores the order of numbered units keeps the units behind the first missing one
in a buffer and passes them on in order, either because the missing ones have arrived or because it
gives up on them. Over unbounded counters the buffer is a partial map on `[deliv, next)`; passing
on everything below some counter (`passTo`) is the only way out of it.

Programs keep the buffer in a circular map and the counters modulo `M`. `Holds` ties the two, and
the loops that empty the map from the front are `passTo` (`popAny_spec`, `popNext_spec`).
-/

namespace RadioStack

variable {α : Type*}

/-! ## Entries of a range of counters -/

/-- The entries of the counters in `[lo, hi)`, in ascending order. -/
def slice (w : Nat → Option α) (lo hi : Nat) : List (Nat × α) :=
  (List.range' lo (hi - lo)).filterMap fun n => (w n).map (n, ·)

section Slice

variable {w w' : Nat → Option α} {lo mid hi n : Nat} {v : α}

theorem mem_slice {p : Nat × α} :
    p ∈ slice w lo hi ↔ (lo ≤ p.1 ∧ p.1 < hi) ∧ w p.1 = some p.2 := by
  obtain ⟨n, v⟩ := p
  simp only [slice, List.mem_filterMap, List.mem_range'_1, Option.map_eq_some_iff, Prod.mk.injEq]
  constructor
  · rintro ⟨m, hm, u, hu, rfl, rfl⟩
    exact ⟨⟨hm.1, by omega⟩, hu⟩
  · rintro ⟨⟨hlo, hhi⟩, hv⟩
    exact ⟨n, ⟨hlo, by omega⟩, v, hv, rfl, rfl⟩

theorem slice_self : slice w lo lo = [] := by
  rw [slice, Nat.sub_self]
  rfl

theorem slice_append (h : lo ≤ mid) (h' : mid ≤ hi) :
    slice w lo mid ++ slice w mid hi = slice w lo hi := by
  have hr : List.range' lo (mid - lo) ++ List.range' mid (hi - mid) = List.range' lo (hi - lo) := by
    have := List.range'_append_1 (s := lo) (m := mid - lo) (n := hi - mid)
    rwa [Nat.add_sub_cancel' h, show mid - lo + (hi - mid) = hi - lo by omega] at this
  rw [slice, slice, slice, ← List.filterMap_append, hr]

theorem slice_congr (h : ∀ n, lo ≤ n → n < hi → w n = w' n) : slice w lo hi = slice w' lo hi := by
  apply List.filterMap_congr
  intro n hn
  have hn := List.mem_range'_1.1 hn
  rw [h n hn.1 (by omega)]

theorem slice_succ (h : lo ≤ n) :
    slice w lo (n + 1) = slice w lo n ++ ((w n).map (n, ·)).toList := by
  rw [← slice_append h (Nat.le_succ n)]
  congr 1
  rw [slice, Nat.succ_sub (Nat.le_refl n), Nat.sub_self]
  cases hw : w n <;> simp [hw]

theorem pairwise_slice : ((slice w lo hi).map Prod.fst).Pairwise (· < ·) := by
  have hfst : (slice w lo hi).map Prod.fst =
      (List.range' lo (hi - lo)).filter fun n => (w n).isSome := by
    rw [slice, List.map_filterMap, ← List.filterMap_eq_filter]
    apply List.filterMap_congr
    intro n _
    cases hw : w n <;> simp [Option.guard, hw]
  rw [hfst]
  exact List.Pairwise.filter _ List.pairwise_lt_range'

theorem slice_update_perm (hlo : lo ≤ n) (hhi : n < hi) (hn : w n = none) :
    (slice (Function.update w n (some v)) lo hi).Perm ((n, v) :: slice w lo hi) := by
  have hlow : slice (Function.update w n (some v)) lo n = slice w lo n :=
    slice_congr fun m _ hm => Function.update_of_ne (Nat.ne_of_lt hm) _ _
  have hhigh : slice (Function.update w n (some v)) (n + 1) hi = slice w (n + 1) hi :=
    slice_congr fun m hm _ => Function.update_of_ne (Nat.ne_of_gt hm) _ _
  rw [← slice_append (Nat.le_succ_of_le hlo) hhi, ← slice_append (Nat.le_succ_of_le hlo) hhi,
    slice_succ hlo, slice_succ hlo, hlow, hhigh, Function.update_self, hn]
  simp

end Slice

/-! ## The buffer -/

/-- A reordering buffer over unbounded counters. -/
structure Reordering (α : Type*) where
  /-- The first counter that is still waited for. -/
  deliv : Nat
  /-- The counter after the highest one received. -/
  next : Nat
  window : Nat → Option α

namespace Reordering

def init : Reordering α := ⟨0, 0, fun _ => none⟩

/-- Passes on all entries below `stop` and gives up the other counters below it. -/
def passTo (r : Reordering α) (stop : Nat) : Reordering α :=
  { r with deliv := stop, window := fun n => if n < stop then none else r.window n }

def front (r : Reordering α) : Nat := firstFail (fun n => (r.window n).isSome) r.deliv r.next

def put (r : Reordering α) (n : Nat) (v : α) : Reordering α :=
  { r with next := max r.next (n + 1), window := Function.update r.window n (some v) }

def buffered (r : Reordering α) : List (Nat × α) := slice r.window r.deliv r.next

/-- All entries are in `[deliv, next)`, which fits a window of `W`. -/
structure Inv (W : Nat) (r : Reordering α) : Prop where
  le : r.deliv ≤ r.next
  room : r.next ≤ r.deliv + W
  mem : ∀ n v, r.window n = some v → r.deliv ≤ n ∧ n < r.next

/-- What was put into the buffer has been passed on, in ascending order, or is still there. -/
structure History (accepted delivered : List (Nat × α)) (r : Reordering α) : Prop where
  perm : accepted.Perm (delivered ++ r.buffered)
  sorted : (delivered.map Prod.fst).Pairwise (· < ·)
  below : ∀ p ∈ delivered, p.1 < r.deliv

variable {r : Reordering α} {W n stop : Nat} {v : α} {accepted delivered : List (Nat × α)}

@[simp] theorem window_put_self : (r.put n v).window n = some v := Function.update_self ..

theorem window_put_of_ne {m : Nat} (h : m ≠ n) : (r.put n v).window m = r.window m :=
  Function.update_of_ne h _ _

theorem inv_init : (init : Reordering α).Inv W :=
  ⟨Nat.le_refl 0, Nat.zero_le _, nofun⟩

theorem history_init : (init : Reordering α).History [] [] :=
  ⟨.refl _, .nil, nofun⟩

theorem le_front : r.deliv ≤ r.front := le_firstFail

theorem front_le (h : r.deliv ≤ r.next) : r.front ≤ r.next := firstFail_le h

theorem Inv.window_eq_none (h : r.Inv W) (hn : n < r.deliv ∨ r.next ≤ n) : r.window n = none := by
  cases hw : r.window n with
  | none => rfl
  | some v =>
    have := h.mem n v hw
    omega

theorem Inv.slice_eq (h : r.Inv W) {hi : Nat} (hle : r.next ≤ hi) :
    slice r.window r.deliv hi = r.buffered := by
  rw [← slice_append h.le hle, buffered, List.append_right_eq_self]
  refine List.eq_nil_iff_forall_not_mem.2 fun p hp => ?_
  obtain ⟨⟨hlo, -⟩, hw⟩ := mem_slice.1 hp
  rw [h.window_eq_none (.inr hlo)] at hw
  cases hw

theorem Inv.mono {W' : Nat} (h : r.Inv W) (hle : W ≤ W') : r.Inv W' :=
  ⟨h.le, Nat.le_trans h.room (Nat.add_le_add_left hle _), h.mem⟩

/-- After the consecutive entries have been passed on, the front is missing. -/
theorem passTo_front_gap (h : r.Inv W) : (r.passTo r.front).window r.front = none := by
  show (if r.front < r.front then none else r.window r.front) = none
  rw [if_neg (Nat.lt_irrefl _)]
  rcases Nat.lt_or_eq_of_le (front_le h.le) with hlt | heq
  · exact Option.not_isSome_iff_eq_none.1 (ne_true_of_eq_false (firstFail_fails hlt))
  · exact h.window_eq_none (.inr (Nat.le_of_eq heq.symm))

theorem Inv.passTo (h : r.Inv W) (hle : r.deliv ≤ stop) (hstop : stop ≤ r.next) :
    (r.passTo stop).Inv W := by
  refine ⟨hstop, Nat.le_trans h.room (Nat.add_le_add_right hle W), fun n v hn => ?_⟩
  change (if n < stop then none else r.window n) = some v at hn
  split_ifs at hn with hge
  exact ⟨Nat.le_of_not_lt hge, (h.mem n v hn).2⟩

theorem Inv.put (h : r.Inv W) (hle : r.deliv ≤ n) (hlt : n < r.deliv + W) : (r.put n v).Inv W := by
  refine ⟨Nat.le_trans h.le (Nat.le_max_left _ _), Nat.max_le.2 ⟨h.room, hlt⟩, fun m u hm => ?_⟩
  by_cases hmn : m = n
  · exact ⟨hmn ▸ hle, hmn ▸ Nat.le_max_right _ _⟩
  · have := h.mem m u (by rwa [← Function.update_of_ne hmn (some v) r.window])
    exact ⟨this.1, Nat.lt_of_lt_of_le this.2 (Nat.le_max_left _ _)⟩

theorem History.passTo (h : r.History accepted delivered) (hle : r.deliv ≤ stop)
    (hstop : stop ≤ r.next) :
    (r.passTo stop).History accepted (delivered ++ slice r.window r.deliv stop) := by
  have hrest : (r.passTo stop).buffered = slice r.window stop r.next :=
    slice_congr fun n hn _ => if_neg (Nat.not_lt.2 hn)
  refine ⟨?_, ?_, fun p hp => ?_⟩
  · rw [hrest, List.append_assoc, slice_append hle hstop]
    exact h.perm
  · rw [List.map_append, List.pairwise_append]
    refine ⟨h.sorted, pairwise_slice, fun a ha b hb => ?_⟩
    obtain ⟨p, hp, rfl⟩ := List.mem_map.1 ha
    obtain ⟨q, hq, rfl⟩ := List.mem_map.1 hb
    exact Nat.lt_of_lt_of_le (h.below p hp) (mem_slice.1 hq).1.1
  · rcases List.mem_append.1 hp with hp | hp
    · exact Nat.lt_of_lt_of_le (h.below p hp) hle
    · exact (mem_slice.1 hp).1.2

theorem History.put (h : r.History accepted delivered) (hinv : r.Inv W) (hle : r.deliv ≤ n)
    (hnone : r.window n = none) : (r.put n v).History (accepted ++ [(n, v)]) delivered := by
  refine ⟨?_, h.sorted, h.below⟩
  have hput : (r.put n v).buffered.Perm ((n, v) :: r.buffered) :=
    hinv.slice_eq (Nat.le_max_left _ _) ▸ slice_update_perm hle (Nat.le_max_right _ _) hnone
  calc (accepted ++ [(n, v)])
    _ |>.Perm ((n, v) :: accepted) := List.perm_append_singleton _ _
    _ |>.Perm ((n, v) :: (delivered ++ r.buffered)) := h.perm.cons _
    _ |>.Perm (delivered ++ ((n, v) :: r.buffered)) := List.perm_middle.symm
    _ |>.Perm (delivered ++ (r.put n v).buffered) := hput.symm.append_left _

/-- The range `[deliv, x)` ends with an entry, unless it is empty. -/
def Ends (r : Reordering α) (x : Nat) : Prop := r.deliv < x → (r.window (x - 1)).isSome

theorem ends_front : r.Ends r.front := fun hlt =>
  of_lt_firstFail (p := fun n => (r.window n).isSome) (Nat.le_sub_one_of_lt hlt)
    (Nat.sub_one_lt_of_lt hlt)

theorem Ends.passTo {x : Nat} (h : r.Ends x) (hle : r.deliv ≤ stop) : (r.passTo stop).Ends x := by
  intro hlt
  change stop < x at hlt
  show (if x - 1 < stop then none else r.window (x - 1)).isSome
  rw [if_neg (Nat.not_lt.2 (Nat.le_sub_one_of_lt hlt))]
  exact h (Nat.lt_of_le_of_lt hle hlt)

theorem Ends.put {x : Nat} (h : r.Ends x) : (r.put n v).Ends x := by
  intro hlt
  by_cases hx : x - 1 = n
  · rw [hx, window_put_self]
    rfl
  · rw [window_put_of_ne hx]
    exact h hlt

theorem Ends.put_next (h : r.Ends r.next) : (r.put n v).Ends (r.put n v).next := by
  show (r.put n v).Ends (max r.next (n + 1))
  rcases Nat.le_total r.next (n + 1) with hle | hle
  · rw [Nat.max_eq_right hle]
    intro _
    rw [Nat.add_sub_cancel, window_put_self]
    rfl
  · rw [Nat.max_eq_left hle]
    exact h.put

/-- The counters passed on are at most `W` apart, and the last one was just before `deliv`. -/
structure Paced (W : Nat) (delivered : List (Nat × α)) (r : Reordering α) : Prop where
  chain : (delivered.map Prod.fst).IsChain fun a b => b ≤ a + W
  last : ∀ p ∈ delivered.getLast?, p.1 + 1 = r.deliv

theorem paced_init : (init : Reordering α).Paced W [] := ⟨.nil, nofun⟩

theorem Paced.passTo (h : r.Paced W delivered) (hinv : r.Inv W) (hends : r.Ends stop)
    (hle : r.deliv ≤ stop) (hstop : stop ≤ r.next) :
    (r.passTo stop).Paced W (delivered ++ slice r.window r.deliv stop) := by
  rcases Nat.eq_or_lt_of_le hle with rfl | hlt
  · rw [slice_self, List.append_nil]
    exact ⟨h.chain, h.last⟩
  · -- the slice ends with the entry just below `stop`
    obtain ⟨v, hv⟩ := Option.isSome_iff_exists.1 (hends hlt)
    have hlast : slice r.window r.deliv stop =
        slice r.window r.deliv (stop - 1) ++ [(stop - 1, v)] := by
      conv_lhs => rw [show stop = stop - 1 + 1 by omega]
      rw [slice_succ (Nat.le_sub_one_of_lt hlt), hv]
      rfl
    refine ⟨?_, fun p hp => ?_⟩
    · rw [List.map_append, List.isChain_append]
      have hroom := hinv.room
      refine ⟨h.chain, ?_, fun a ha b hb => ?_⟩
      · refine List.Pairwise.isChain (List.pairwise_of_forall_mem_list fun a ha b hb => ?_)
        obtain ⟨p, hp, rfl⟩ := List.mem_map.1 ha
        obtain ⟨q, hq, rfl⟩ := List.mem_map.1 hb
        have hp := (mem_slice.1 hp).1
        have hq := (mem_slice.1 hq).1
        omega
      · rw [List.getLast?_map] at ha
        obtain ⟨p, hp, rfl⟩ := Option.map_eq_some_iff.1 ha
        rw [List.head?_map] at hb
        obtain ⟨q, hq, rfl⟩ := Option.map_eq_some_iff.1 hb
        have hp := h.last p hp
        have hq := (mem_slice.1 (List.mem_of_mem_head? hq)).1
        omega
    · rw [hlast, ← List.append_assoc, List.getLast?_concat] at hp
      cases hp
      exact Nat.sub_add_cancel (Nat.zero_lt_of_lt hlt)

theorem Paced.put (h : r.Paced W delivered) : (r.put n v).Paced W delivered := ⟨h.chain, h.last⟩

theorem passTo_self (h : r.Inv W) : r.passTo r.deliv = r := by
  have hw : (fun n => if n < r.deliv then none else r.window n) = r.window := by
    funext n
    by_cases hn : n < r.deliv
    · rw [if_pos hn, h.window_eq_none (.inl hn)]
    · rw [if_neg hn]
  cases r
  exact congrArg (Reordering.mk _ _) hw

theorem passTo_passTo {a b : Nat} (h : a ≤ b) : (r.passTo a).passTo b = r.passTo b := by
  have hw : (fun n => if n < b then none else if n < a then none else r.window n) =
      fun n => if n < b then none else r.window n := by
    funext n
    by_cases hn : n < b
    · rw [if_pos hn, if_pos hn]
    · rw [if_neg hn, if_neg hn, if_neg fun hlt => hn (Nat.lt_of_lt_of_le hlt h)]
  exact congrArg (Reordering.mk _ _) hw

end Reordering

/-! ## The buffer in a circular map -/

namespace CircularMap

variable {N M : Nat}

/-- Passes on the entry of `cur`; breaks if there is none. -/
def popNext (s : CircularMap N α × List (Nat × α)) (cur : Nat) :
    Option (CircularMap N α × List (Nat × α)) :=
  (s.1.get? cur).map fun v => (s.1.erase cur, s.2 ++ [(cur, v)])

/-- Passes on the entry of `cur` if there is one. -/
def popAny (s : CircularMap N α × List (Nat × α)) (cur : Nat) :
    Option (CircularMap N α × List (Nat × α)) :=
  some ((popNext s cur).getD s)

/-- The map holds the entries of the buffer under the serial numbers of their counters. -/
structure Holds (M : Nat) (c : CircularMap N α) (r : Reordering α) : Prop where
  within : c.Within M r.deliv
  view : c.view M r.deliv = r.window

/-- The entries under their serial numbers. -/
def serials (M : Nat) (l : List (Nat × α)) : List (Nat × α) := l.map fun p => (p.1 % M, p.2)

section Holds

variable {c : CircularMap N α} {r : Reordering α} {n : Nat} {v : α}

theorem holds_init : (empty : CircularMap N α).Holds M Reordering.init :=
  ⟨within_empty, funext fun _ => view_empty⟩

theorem Holds.get? (h : c.Holds M r) (hle : r.deliv ≤ n) (hlt : n < r.deliv + N) :
    c.get? (n % M) = r.window n := by
  rw [← h.view, view_of_mem hle hlt]

theorem Holds.exists_entry (h : c.Holds M r) {k : Nat} (hk : c.contains k) :
    ∃ n, r.deliv ≤ n ∧ n < r.deliv + N ∧ k = n % M ∧ c.get? k = r.window n := by
  obtain ⟨n, hn, hn', rfl⟩ := h.within k hk
  exact ⟨n, hn, hn', rfl, h.get? hn hn'⟩

variable (hM : WindowModulus M N)
include hM

theorem Holds.overwrite (h : c.Holds M r) (hle : r.deliv ≤ n) (hlt : n < r.deliv + N) :
    (c.overwrite (n % M) v).Holds M (r.put n v) :=
  ⟨within_overwrite h.within hle hlt v, by rw [Reordering.put, view_overwrite hM hle hlt, h.view]⟩

theorem Holds.skip (h : c.Holds M r) (hN : 0 < N) (hnone : r.window r.deliv = none) :
    c.Holds M (r.passTo (r.deliv + 1)) := by
  have hgone : ∀ n, r.deliv ≤ n → n < r.deliv + 1 → c.view M r.deliv n = none := by
    intro n hn hn'
    rw [show n = r.deliv by omega, h.view, hnone]
  refine ⟨within_advance h.within hgone (Nat.le_succ _), ?_⟩
  show c.view M (r.deliv + 1) = _
  rw [view_advance hM h.within hgone (Nat.le_succ _) (Nat.add_le_add_left hN _)]
  funext n
  show c.view M r.deliv n = if n < r.deliv + 1 then none else r.window n
  split
  · next hn =>
    by_cases hd : n = r.deliv
    · rw [h.view, hd, hnone]
    · exact view_of_not_mem (.inl (by omega))
  · rw [h.view]

theorem Holds.erase (h : c.Holds M r) (hN : 0 < N) :
    (c.erase (r.deliv % M)).Holds M (r.passTo (r.deliv + 1)) := by
  obtain ⟨hwithin, hview⟩ := eraseFirst hM hN h.within
  exact ⟨hwithin, hview.trans (by rw [h.view]; rfl)⟩

/-- What the loops have done when they are at `n`. -/
structure PoppedTo (M : Nat) (r : Reordering α) (log : List (Nat × α))
    (s : CircularMap N α × List (Nat × α)) (n : Nat) : Prop where
  holds : s.1.Holds M (r.passTo n)
  log_eq : s.2 = log ++ serials M (slice r.window r.deliv n)

section Rounds

variable {log : List (Nat × α)} {s s' : CircularMap N α × List (Nat × α)}

omit hM in
theorem PoppedTo.start (h : c.Holds M r) {W : Nat} (hinv : r.Inv W) :
    PoppedTo M r log (c, log) r.deliv :=
  ⟨by rwa [Reordering.passTo_self hinv], by simp [slice_self, serials]⟩

omit hM in
theorem PoppedTo.popNext_eq (h : PoppedTo M r log s n) (hN : 0 < N) :
    popNext s (n % M) = (r.window n).map fun v => (s.1.erase (n % M), s.2 ++ [(n % M, v)]) := by
  have hget := h.holds.get? (Nat.le_refl _) (Nat.lt_add_of_pos_right hN)
  rw [show (r.passTo n).deliv = n from rfl,
    show (r.passTo n).window n = r.window n from if_neg (Nat.lt_irrefl n)] at hget
  rw [popNext, hget]

theorem PoppedTo.step (h : PoppedTo M r log s n) (hN : 0 < N) (hle : r.deliv ≤ n)
    (hs : popNext s (n % M) = some s') : PoppedTo M r log s' (n + 1) := by
  rw [h.popNext_eq hN] at hs
  obtain ⟨v, hv, rfl⟩ := Option.map_eq_some_iff.1 hs
  refine ⟨?_, ?_⟩
  · rw [← Reordering.passTo_passTo (Nat.le_succ n)]
    exact h.holds.erase hM hN
  · rw [slice_succ hle, hv, h.log_eq]
    simp [serials]

theorem PoppedTo.skip (h : PoppedTo M r log s n) (hN : 0 < N) (hle : r.deliv ≤ n)
    (hs : popNext s (n % M) = none) : PoppedTo M r log s (n + 1) := by
  rw [h.popNext_eq hN] at hs
  have hw : r.window n = none := Option.map_eq_none_iff.1 hs
  refine ⟨?_, ?_⟩
  · rw [← Reordering.passTo_passTo (Nat.le_succ n)]
    exact h.holds.skip hM hN ((if_neg (Nat.lt_irrefl n)).trans hw)
  · rw [slice_succ hle, hw, h.log_eq]
    simp

end Rounds

/-- The loop that passes on or gives up everything below `stop`. -/
theorem popAny_spec (h : c.Holds M r) {W : Nat} (hinv : r.Inv W) (hN : 0 < N) {stop fuel : Nat}
    (hle : r.deliv ≤ stop) (hroom : stop ≤ r.deliv + N) (hfuel : stop - r.deliv ≤ fuel)
    (log : List (Nat × α)) :
    ∃ c' : CircularMap N α, c'.Holds M (r.passTo stop) ∧
      loopUntil M (stop % M) popAny fuel (c, log) (r.deliv % M) =
        some ((c', log ++ serials M (slice r.window r.deliv stop)), stop % M) := by
  have hwide := hM.two_mul_le
  generalize hres : countLoop (fun s n => popAny s (n % M)) (stop - r.deliv) (c, log) r.deliv = res
  have hend : res.2 = stop := by
    rw [← hres, countLoop_snd_eq (f := fun s n => popAny s (n % M)) fun _ _ => nofun]
    exact Nat.add_sub_cancel' hle
  have hdone : PoppedTo M r log res.1 res.2 := by
    rw [← hres]
    refine countLoop_invariant (P := PoppedTo M r log) ?_ (.start h hinv)
    intro s n s' hn _ hs hpop
    cases hnext : popNext s (n % M) with
    | some t =>
      rw [popAny, hnext, Option.getD_some, Option.some.injEq] at hpop
      exact hpop ▸ hs.step hM hN hn hnext
    | none =>
      rw [popAny, hnext, Option.getD_none, Option.some.injEq] at hpop
      exact hpop ▸ hs.skip hM hN hn hnext
  rw [hend] at hdone
  refine ⟨res.1.1, hdone.holds, ?_⟩
  rw [loopUntil_eq hle (by omega) hfuel, hres, Prod.map, hend, ← hdone.log_eq]
  rfl

/-- The loop that passes on the consecutive entries. -/
theorem popNext_spec (h : c.Holds M r) (hinv : r.Inv N) (hN : 0 < N) {fuel : Nat}
    (hfuel : r.next - r.deliv ≤ fuel) (log : List (Nat × α)) :
    ∃ c' : CircularMap N α, c'.Holds M (r.passTo r.front) ∧
      loopUntil M (r.next % M) popNext fuel (c, log) (r.deliv % M) =
        some ((c', log ++ serials M (slice r.window r.deliv r.front)), r.front % M) := by
  have hwide := hM.two_mul_le
  have hle := hinv.le
  have hroom := hinv.room
  generalize hres : countLoop (fun s n => popNext s (n % M)) (r.next - r.deliv) (c, log) r.deliv =
    res
  have hdone : PoppedTo M r log res.1 res.2 ∧
      ∀ n, r.deliv ≤ n → n < res.2 → (r.window n).isSome = true := by
    rw [← hres]
    refine countLoop_invariant (P := fun s m => PoppedTo M r log s m ∧
      ∀ n, r.deliv ≤ n → n < m → (r.window n).isSome = true) ?_
      ⟨.start h hinv, fun n hn hn' => absurd hn (Nat.not_le.2 hn')⟩
    rintro s m s' hm - ⟨hpopped, hall⟩ hpop
    refine ⟨hpopped.step hM hN hm hpop, fun n hn hn' => ?_⟩
    rcases Nat.lt_or_eq_of_le (Nat.le_of_lt_succ hn') with hlt | rfl
    · exact hall n hn hlt
    · rw [hpopped.popNext_eq hN] at hpop
      obtain ⟨v, hv, -⟩ := Option.map_eq_some_iff.1 hpop
      rw [hv]
      rfl
  obtain ⟨hge, hbound, hbreak⟩ := countLoop_end hres
  have hfront : r.front = res.2 := by
    refine firstFail_unique hge (by omega) hdone.2 fun hlt => ?_
    have hnone : popNext res.1 (res.2 % M) = none := hbreak (by omega)
    rw [hdone.1.popNext_eq hN] at hnone
    rw [Option.map_eq_none_iff.1 hnone]
    rfl
  rw [hfront]
  refine ⟨res.1.1, hdone.1.holds, ?_⟩
  rw [loopUntil_eq hle (by omega) hfuel, hres, Prod.map, ← hdone.1.log_eq]
  rfl

end Holds

end CircularMap

end RadioStack
