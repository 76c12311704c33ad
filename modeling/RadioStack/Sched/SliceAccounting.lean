import Mathlib.Data.Int.ModEq
import RadioStack.Lib.Run
import RadioStack.Sched.NtnHarqHistory

/-!
# The uplink resource blocks of a slice

A slice counts the resource blocks stored for each PUSCH slot in a ring of slots. Slots are
indicated in downlink slots only, so an indication clears the slots of a whole TDD period before
it, and those since the indication before it.

The ring is only as long as the farthest grant asks, and the slots that are cleared share it with
the slots that grants are stored for. After `g` slots, a period of `P` slots reaches back to the
place of the farthest grant when the ring has no more than `M + P - g` places, where
`M = SCHEDULER_MAX_K2 + ntn_cs_koffset`.

**Theorem (`accurate_iff`).** The counters of the slots that grants can be stored for are right in
every reachable state exactly when the ring has more than `M` places, and more than `M + P - g`
whenever two downlink slots are `g ≤ M` slots apart. The counters have 32 bits, so the grants of a
slot are taken to be of fewer than `2 ^ 32` blocks together.
-/

namespace RadioStack.Sched

open Ofh

/-- What a slice reads of its cell. -/
structure SliceCell (μ : Nat) where
  ntnCsKoffset : Nat
  koffset_le : ntnCsKoffset ≤ ntnCellSpecificKoffsetMax
  /-- `nof_slots_per_tdd_period` of `tdd_cfg_common`, none for FDD. -/
  tddPeriod : Option Nat
  period_dvd : ∀ p ∈ tddPeriod, p ∣ nofSlotsPerFrame μ
  isDlEnabled : SlotPoint μ → Bool

/-- `ran_slice_instance`. -/
structure SliceInstance (μ : Nat) where
  pdschRbCount : Nat
  /-- The counters, by place of the ring (`unsigned`). -/
  puschRbCountPerSlot : Nat → Nat
  lastPdschAllocSlot : Option (SlotPoint μ)
  lastPuschAllocSlot : Option (SlotPoint μ)

def maxSlotsSinceLastPxsch : Nat := 256

def minSlot {μ : Nat} (a b : SlotPoint μ) : SlotPoint μ := if b.lt a then b else a

/-- The scheduler and a slice, with the blocks stored so far for each slot from the current one. -/
structure SliceRun (μ : Nat) where
  currentSlot : SlotPoint μ
  inst : SliceInstance μ
  stored : Nat → Nat

/-- After the first indication, which finds an empty ring. -/
def SliceRun.init {μ : Nat} (sl : SlotPoint μ) : SliceRun μ :=
  ⟨sl, ⟨0, fun _ => 0, none, none⟩, fun _ => 0⟩

inductive SliceEvent
  | slotIndication (gap : Nat)
  | storePuschGrant (crbs ahead : Nat)

namespace SliceCell

variable {μ : Nat} (C : SliceCell μ)

/-- How far ahead a grant can be. -/
def maxAhead : Nat := schedulerMaxK2 + C.ntnCsKoffset

def ringSize : Nat := getAllocatorRingSizeGtMin C.maxAhead 0

def nofSlotsToClear : Nat := C.tddPeriod.getD 1

def place (sl : SlotPoint μ) : Nat := sl.count % C.ringSize

def nofPuschRbsAllocated (st : SliceInstance μ) (puschSlot : SlotPoint μ) : Nat :=
  st.puschRbCountPerSlot (C.place puschSlot)

def storePuschGrant (st : SliceInstance μ) (crbs : Nat) (puschSlot : SlotPoint μ) :
    SliceInstance μ :=
  { st with
    puschRbCountPerSlot := Function.update st.puschRbCountPerSlot (C.place puschSlot)
      ((st.puschRbCountPerSlot (C.place puschSlot) + crbs) % 2 ^ 32)
    lastPuschAllocSlot := some puschSlot }

def slotIndication (st : SliceInstance μ) (slotTx : SlotPoint μ) : SliceInstance μ where
  pdschRbCount := 0
  puschRbCountPerSlot := (List.range C.nofSlotsToClear).foldl
    (fun counts count => Function.update counts (C.place ((slotTx.sub 1).sub count)) 0)
    st.puschRbCountPerSlot
  lastPdschAllocSlot :=
    st.lastPdschAllocSlot.filter fun sl => !slotTx.gt (sl.add maxSlotsSinceLastPxsch)
  lastPuschAllocSlot :=
    st.lastPuschAllocSlot.filter fun sl => !slotTx.gt (sl.add maxSlotsSinceLastPxsch)

def skippedLoop : Nat → SliceInstance μ → SlotPoint μ → SlotPoint μ → SliceInstance μ
  | 0, st, _, _ => st
  | fuel + 1, st, sl, currentSlot =>
    let sl := sl.add C.nofSlotsToClear
    let st := C.slotIndication st (minSlot sl currentSlot)
    if sl.lt currentSlot then skippedLoop fuel st sl currentSlot else st

/-- Every round moves on, so there are fewer than the slots of the system frame. -/
def skippedSlotIndication (st : SliceInstance μ) (prevSlot currentSlot : SlotPoint μ) :
    SliceInstance μ :=
  C.skippedLoop (nofSlotsPerSystemFrame μ) st prevSlot currentSlot

/-- What `slice_scheduler::slot_indication` does to a slice. -/
def schedulerSlotIndication (st : SliceInstance μ) (currentSlot slotTx : SlotPoint μ) :
    SliceInstance μ :=
  C.slotIndication
    (if currentSlot.add 1 ≠ slotTx then C.skippedSlotIndication st currentSlot slotTx else st)
    slotTx

/-- An indication is of a downlink slot that slot points can tell to be the later one; a grant keeps
the blocks of its slot within the range of a counter. -/
def step (r : SliceRun μ) : SliceEvent → Option (SliceRun μ)
  | .slotIndication gap =>
    let slotTx := r.currentSlot.add gap
    if 0 < gap ∧ gap < nofSlotsPerSystemFrame μ / 2 ∧ C.isDlEnabled slotTx then
      some ⟨slotTx, C.schedulerSlotIndication r.inst r.currentSlot slotTx,
        fun d => r.stored (gap + d)⟩
    else none
  | .storePuschGrant crbs ahead =>
    if ahead ≤ C.maxAhead ∧ r.stored ahead + crbs < 2 ^ 32 then
      some ⟨r.currentSlot, C.storePuschGrant r.inst crbs (r.currentSlot.add ahead),
        Function.update r.stored ahead (r.stored ahead + crbs)⟩
    else none

/-- The counter of every slot that a grant can be stored for is right. -/
def Accurate (r : SliceRun μ) : Prop :=
  ∀ d ≤ C.maxAhead, C.nofPuschRbsAllocated r.inst (r.currentSlot.add d) = r.stored d

/-! ## Places -/

theorem ringSize_dvd : C.ringSize ∣ nofSlotsPerSystemFrame μ :=
  ringSize_dvd_systemFrame (Nat.add_le_add_left C.koffset_le _) μ

theorem nofSlotsPerFrame_ge (μ : Nat) : 10 ≤ nofSlotsPerFrame μ :=
  Nat.le_mul_of_pos_left 10 (Nat.two_pow_pos μ)

theorem ringSize_pos : 0 < C.ringSize := by
  apply Nat.pos_of_dvd_of_pos C.ringSize_dvd
  have := nofSlotsPerFrame_ge μ
  simp only [nofSlotsPerSystemFrame, nofSfns]
  omega

variable (s : SlotPoint μ) {n e g : Nat}

theorem place_add : C.place (s.add n) = (s.count + n) % C.ringSize :=
  Nat.mod_mod_of_dvd _ C.ringSize_dvd

theorem place_add_inj (hn : n < C.ringSize) (he : e < C.ringSize) :
    C.place (s.add n) = C.place (s.add e) ↔ n = e := by
  rw [place_add, place_add]
  constructor
  · intro h
    exact (Nat.ModEq.add_left_cancel' _ h).eq_of_lt_of_lt hn he
  · intro h
    rw [h]

theorem count_sub_modEq (j : Nat) : (s.sub j).count + j ≡ s.count [MOD C.ringSize] := by
  apply Nat.ModEq.of_dvd C.ringSize_dvd
  have hpos : (0 : Int) < nofSlotsPerSystemFrame μ := by
    have := s.count_lt
    omega
  rw [← Int.natCast_modEq_iff]
  simp only [SlotPoint.sub, Nat.cast_add, Int.toNat_of_nonneg (Int.emod_nonneg _ hpos.ne')]
  have h := (Int.mod_modEq ((s.count : Int) - j) (nofSlotsPerSystemFrame μ)).add_right (j : Int)
  rwa [sub_add_cancel] at h

/-- The slot `count + 1` before slot `n` has the place of slot `e`. -/
theorem place_sub_eq_iff (count : Nat) :
    C.place (((s.add n).sub 1).sub count) = C.place (s.add e) ↔
      n ≡ e + count + 1 [MOD C.ringSize] := by
  have hback := (C.count_sub_modEq ((s.add n).sub 1) count).add_right 1
  have hback := hback.trans (C.count_sub_modEq (s.add n) 1)
  have hn : (s.add n).count ≡ s.count + n [MOD C.ringSize] := C.place_add s
  have he : (s.add e).count ≡ s.count + e [MOD C.ringSize] := C.place_add s
  constructor
  · intro h
    have h := ((Nat.ModEq.trans h he).add_right (count + 1)).symm.trans (hback.trans hn)
    exact (Nat.ModEq.add_left_cancel' s.count (by simpa [Nat.add_assoc] using h)).symm
  · intro h
    have h := (hback.trans hn).trans (h.add_left s.count)
    have h := h.trans (by simpa [Nat.add_assoc] using (he.add_right (count + 1)).symm)
    exact Nat.ModEq.add_right_cancel' (count + 1) (by simpa [Nat.add_assoc] using h)

/-! ## What an indication clears -/

theorem foldl_update_zero (f counts : Nat → Nat) (n i : Nat) :
    (List.range n).foldl (fun counts count => Function.update counts (f count) 0) counts i =
      if ∃ count < n, f count = i then 0 else counts i := by
  induction n with
  | zero => simp
  | succ n ih =>
    rw [List.range_succ, List.foldl_append]
    by_cases hi : f n = i
    · subst hi
      simp only [List.foldl_cons, List.foldl_nil, Function.update_self]
      rw [if_pos ⟨n, by simp⟩]
    · simp only [List.foldl_cons, List.foldl_nil, Function.update_of_ne (Ne.symm hi), ih,
        Nat.exists_lt_succ_right, hi, or_false]

variable (st : SliceInstance μ)

theorem nofPuschRbs_slotIndication :
    C.nofPuschRbsAllocated (C.slotIndication st (s.add n)) (s.add e) =
      if ∃ count < C.nofSlotsToClear, n ≡ e + count + 1 [MOD C.ringSize] then 0
      else C.nofPuschRbsAllocated st (s.add e) := by
  simp only [nofPuschRbsAllocated, slotIndication, foldl_update_zero, place_sub_eq_iff]

theorem nofSlotsToClear_bounds :
    0 < C.nofSlotsToClear ∧ C.nofSlotsToClear < nofSlotsPerSystemFrame μ / 2 := by
  have hge := nofSlotsPerFrame_ge μ
  have hdvd : C.nofSlotsToClear ∣ nofSlotsPerFrame μ := by
    cases h : C.tddPeriod with
    | none => simp [nofSlotsToClear, h]
    | some p => simpa [nofSlotsToClear, h] using C.period_dvd p h
  have hpos := Nat.pos_of_dvd_of_pos hdvd (by omega)
  have hle := Nat.le_of_dvd (by omega) hdvd
  simp only [nofSlotsPerSystemFrame, nofSfns]
  omega

/-- The rounds of the loop clear the slots from the one it starts at, and a period of slots before
the current slot. -/
theorem nofPuschRbs_skippedLoop {fuel : Nat} (hn : n < g) (hg : g < nofSlotsPerSystemFrame μ / 2)
    (hfuel : g - n ≤ fuel) :
    C.nofPuschRbsAllocated (C.skippedLoop fuel st (s.add n) (s.add g)) (s.add e) =
      if ∃ count < max C.nofSlotsToClear (g - n), g ≡ e + count + 1 [MOD C.ringSize] then 0
      else C.nofPuschRbsAllocated st (s.add e) := by
  have hP := C.nofSlotsToClear_bounds
  induction fuel generalizing n st with
  | zero => omega
  | succ fuel ih =>
    simp only [skippedLoop, SlotPoint.add_add]
    by_cases hlast : n + C.nofSlotsToClear < g
    · obtain ⟨k, rfl⟩ := Nat.exists_eq_add_of_lt hlast
      have hlt := (s.add (n + C.nofSlotsToClear)).lt_add (Nat.succ_pos k) (by omega)
      have hge := (s.add (n + C.nofSlotsToClear)).not_add_lt (n := k + 1) (by omega)
      rw [SlotPoint.add_add, Nat.add_succ] at hlt hge
      rw [if_pos hlt, ih _ hlast (by omega), minSlot, if_neg hge, nofPuschRbs_slotIndication,
        ← ite_or]
      -- The round ends `k + 1` slots before the current slot.
      apply if_congr _ rfl rfl
      constructor
      · rintro (⟨count, hc, h⟩ | ⟨count, hc, h⟩)
        · exact ⟨count, by omega, h⟩
        · refine ⟨count + (k + 1), by omega, ?_⟩
          have h := h.add_right (k + 1)
          rwa [show e + count + 1 + (k + 1) = e + (count + (k + 1)) + 1 by omega] at h
      · rintro ⟨count, hc, h⟩
        by_cases hk : count ≤ k
        · exact .inl ⟨count, by omega, h⟩
        · refine .inr ⟨count - (k + 1), by omega, Nat.ModEq.add_right_cancel' (k + 1) ?_⟩
          rwa [show e + (count - (k + 1)) + 1 + (k + 1) = e + count + 1 by omega]
    · obtain ⟨k, hk⟩ := Nat.exists_eq_add_of_le (Nat.le_of_not_lt hlast)
      have hmin : minSlot ((s.add g).add k) (s.add g) = s.add g := by
        rw [minSlot]
        rcases Nat.eq_zero_or_pos k with rfl | hpos
        · rw [SlotPoint.add_zero, ite_self]
        · exact if_pos (SlotPoint.lt_add hpos (by omega))
      rw [hk, ← SlotPoint.add_add, if_neg (SlotPoint.not_add_lt (by omega)), hmin,
        nofPuschRbs_slotIndication, Nat.max_eq_left (by omega)]

/-- An indication after `g` slots clears `g` slots, or a period of them if that is more. -/
theorem nofPuschRbs_schedulerSlotIndication (hpos : 0 < g)
    (hg : g < nofSlotsPerSystemFrame μ / 2) :
    C.nofPuschRbsAllocated (C.schedulerSlotIndication st s (s.add g)) (s.add e) =
      if ∃ count < max C.nofSlotsToClear g, g ≡ e + count + 1 [MOD C.ringSize] then 0
      else C.nofPuschRbsAllocated st (s.add e) := by
  rw [schedulerSlotIndication, nofPuschRbs_slotIndication]
  by_cases hone : g = 1
  · rw [hone, if_neg (not_not_intro rfl), Nat.max_eq_left C.nofSlotsToClear_bounds.1]
  · have hne : s.add 1 ≠ s.add g := by
      intro h
      have hlt := (s.add 1).lt_add (n := g - 1) (by omega) (by omega)
      rw [SlotPoint.add_add, Nat.add_sub_cancel' hpos, ← h] at hlt
      have hself := (s.add 1).not_add_lt (n := 0) (by omega)
      exact hself ((s.add 1).add_zero.symm ▸ hlt)
    have hloop := C.nofPuschRbs_skippedLoop s st (e := e) (n := 0) hpos hg
      (show g - 0 ≤ nofSlotsPerSystemFrame μ by omega)
    rw [SlotPoint.add_zero, Nat.sub_zero] at hloop
    rw [if_pos hne, skippedSlotIndication, hloop, ← ite_or]
    apply if_congr _ rfl rfl
    constructor
    · rintro (⟨count, hc, h⟩ | h)
      · exact ⟨count, Nat.lt_of_lt_of_le hc (Nat.le_max_left _ _), h⟩
      · exact h
    · exact .inr

/-! ## Runs -/

/-- Every counter of the ring is that of a slot from the current one, none of them too far ahead
for a grant. -/
structure Inv (r : SliceRun μ) : Prop where
  counts : ∀ d < C.ringSize, C.nofPuschRbsAllocated r.inst (r.currentSlot.add d) = r.stored d
  future : ∀ d, C.maxAhead < d → r.stored d = 0

/-- The ring has room for the slots ahead, and for those that an indication clears. -/
def RoomAfter (sl : SlotPoint μ) : Prop :=
  C.maxAhead < C.ringSize ∧ ∀ g, 0 < g → g ≤ C.maxAhead → C.isDlEnabled (sl.add g) →
    C.maxAhead + C.nofSlotsToClear < C.ringSize + g

variable {C} {r r' : SliceRun μ} {ev : SliceEvent}

theorem Inv.step (hinv : C.Inv r) (hroom : C.RoomAfter r.currentSlot)
    (hstep : C.step r ev = some r') : C.Inv r' := by
  cases ev with
  | slotIndication gap =>
    simp only [SliceCell.step, Option.ite_none_right_eq_some, Option.some.injEq] at hstep
    obtain ⟨⟨hpos, hgap, hdl⟩, rfl⟩ := hstep
    refine ⟨fun d hd => ?_, fun d hd => hinv.future _ (by omega)⟩
    simp only [SlotPoint.add_add, C.nofPuschRbs_schedulerSlotIndication _ _ hpos hgap]
    have hroom' := hroom.2 gap hpos
    split
    · next h =>
      -- A cleared slot with the place of slot `gap + d` is a turn of the ring before it.
      obtain ⟨count, hc, h⟩ := h
      have hdvd : C.ringSize ∣ d + count + 1 := by
        rw [Nat.add_assoc, Nat.add_assoc] at h
        exact (Nat.modEq_zero_iff_dvd).1 (Nat.ModEq.add_left_cancel' gap h).symm
      have hle := Nat.le_of_dvd (Nat.succ_pos _) hdvd
      apply (hinv.future _ _).symm
      have := hroom.1
      by_cases hg : gap ≤ C.maxAhead
      · have := hroom' hg hdl
        omega
      · omega
    · next h =>
      apply hinv.counts
      by_contra hge
      refine h ⟨C.ringSize - (d + 1), by omega, ?_⟩
      rw [show gap + d + (C.ringSize - (d + 1)) + 1 = gap + C.ringSize by omega]
      simp [Nat.ModEq]
  | storePuschGrant crbs ahead =>
    simp only [SliceCell.step, Option.ite_none_right_eq_some, Option.some.injEq] at hstep
    obtain ⟨⟨hahead, hcrbs⟩, rfl⟩ := hstep
    have hlt := Nat.lt_of_le_of_lt hahead hroom.1
    constructor
    · intro d hd
      have h := hinv.counts d hd
      simp only [nofPuschRbsAllocated, storePuschGrant, Function.update_apply,
        C.place_add_inj _ hd hlt] at h ⊢
      split
      · next heq =>
        rw [← heq] at hcrbs ⊢
        rw [h, Nat.mod_eq_of_lt hcrbs]
      · exact h
    · intro d hd
      dsimp only
      rw [Function.update_of_ne (by omega), hinv.future d hd]

variable (C)

/-- **When the counters are right.** -/
theorem accurate_iff :
    (∀ sl evs r, C.isDlEnabled sl → exec C.step (.init sl) evs = some r → C.Accurate r) ↔
      ∀ sl, C.isDlEnabled sl → C.RoomAfter sl := by
  constructor
  · intro hacc sl hdl
    have hsize : C.maxAhead < C.ringSize := by
      by_contra hge
      -- One turn of the ring ahead is the place of the current slot.
      have h := hacc sl [.storePuschGrant 1 C.ringSize] _ hdl
        (by simp only [exec, step, SliceRun.init, Nat.le_of_not_lt hge, Nat.reduceAdd,
              Nat.reducePow, Nat.reduceLT, and_self, if_true]; rfl) 0 (Nat.zero_le _)
      simp [nofPuschRbsAllocated, storePuschGrant, place_add, C.ringSize_pos.ne] at h
    refine ⟨hsize, fun g hpos hle hdl' => ?_⟩
    by_contra hge
    have hg : g < nofSlotsPerSystemFrame μ / 2 := by
      have hM := C.koffset_le
      have hF := nofSlotsPerFrame_ge μ
      simp only [maxAhead, schedulerMaxK2, ntnCellSpecificKoffsetMax, nofSlotsPerSystemFrame,
        nofSfns] at hle hM ⊢
      omega
    have h := hacc sl [.storePuschGrant 1 C.maxAhead, .slotIndication g] _ hdl
      (by simp only [exec, step, SliceRun.init, Nat.le_refl, Nat.reduceAdd, Nat.reducePow,
            Nat.reduceLT, and_self, if_true, Option.bind_some, hpos, hg, hdl']; rfl)
      (C.maxAhead - g) (Nat.sub_le _ _)
    simp only [SlotPoint.add_add, C.nofPuschRbs_schedulerSlotIndication _ _ hpos hg,
      Nat.add_sub_cancel' hle, Function.update_self] at h
    have hturn : C.maxAhead + (C.ringSize + g - C.maxAhead - 1) + 1 = g + C.ringSize := by omega
    rw [if_pos ⟨C.ringSize + g - C.maxAhead - 1, by omega, by simp [hturn, Nat.ModEq]⟩] at h
    cases h
  · intro hroom sl evs r hdl hrun
    have hinv : C.Inv r ∧ C.isDlEnabled r.currentSlot := by
      apply Run.invariant (P := fun r => C.Inv r ∧ C.isDlEnabled r.currentSlot) _ (run_of_exec hrun)
        ⟨⟨fun _ _ => rfl, fun _ _ => rfl⟩, hdl⟩
      intro r ev r' hr hstep
      refine ⟨hr.1.step (hroom _ hr.2) hstep, ?_⟩
      cases ev <;> simp only [step, Option.ite_none_right_eq_some, Option.some.injEq] at hstep
      · exact hstep.2 ▸ hstep.1.2.2
      · exact hstep.2 ▸ hr.2
    intro d hd
    exact hinv.1.counts d (Nat.lt_of_le_of_lt hd (hroom _ hinv.2).1)

/-- An FDD cell on the ground has a ring of 20 places for grants of up to 11 slots ahead. -/
theorem accurate_fdd :
    let C : SliceCell 1 := ⟨0, by decide, none, by simp, fun _ => true⟩
    C.ringSize = 20 ∧ ∀ sl evs r, exec C.step (.init sl) evs = some r → C.Accurate r :=
  ⟨by decide, fun sl evs r => (accurate_iff _).2
    (fun _ _ => ⟨by decide, fun g _ _ _ => Nat.lt_add_right g (by decide)⟩) sl evs r rfl⟩

/-- A TDD period of 20 slots at 30 kHz with 15 downlink slots has a ring of 20 places: the grant
of slot 4 is forgotten in slot 1. -/
theorem not_accurate_twenty :
    let C : SliceCell 1 := ⟨0, by decide, some 20, by decide, fun sl => sl.slotIndex < 15⟩
    C.ringSize = 20 ∧ C.isDlEnabled ⟨0, by decide⟩ ∧
      (exec C.step (.init ⟨0, by decide⟩) [.storePuschGrant 10 4, .slotIndication 1]).map
        (fun r => (C.nofPuschRbsAllocated r.inst (r.currentSlot.add 3), r.stored 3)) =
          some (0, 10) := by
  decide

end SliceCell

end RadioStack.Sched
