import Mathlib.Data.List.Infix
import RadioStack.Ofh.SlotPoint
import RadioStack.Phy.Ldpc

/-!
# The HARQ history of a non-terrestrial cell

The round trip of a non-terrestrial network is longer than a HARQ process can be kept, so the
scheduler copies each process to a history when it is allocated, and looks the copy up when the
acknowledgement arrives `ntn_cs_koffset` slots after the slot it was meant for. The history is a
ring of slots: a copy stands at its acknowledgement slot plus the offset, and a slot indication
empties the place of the slot before it.

The ring is only as long as the offset asks. A copy saved `d` slots before its acknowledgement
slot has to stay for `d + ntn_cs_koffset` slots, and the ring comes back to its place before that
unless it is longer.

**Theorem (`retained_iff_lt_ringSize`).** Whatever is saved in between, a process is found up to
its acknowledgement slot plus the offset, and not after, exactly when the ring is longer than the
slots it has to stay for, and when the history did not already answer its query with another one.
-/

namespace RadioStack.Sched

open Ofh Phy

/-! ## The length of the ring -/

def schedulerMaxK0 : Nat := 15

def schedulerMaxK1 : Nat := 15

def schedulerMaxK2 : Nat := 11

def maxMsg3Delta : Nat := 6

def ntnCellSpecificKoffsetMax : Nat := 512

def getMaxSlotUlAllocDelay (ntnCsKoffset : Nat) : Nat :=
  schedulerMaxK0 + max schedulerMaxK1 (schedulerMaxK2 + maxMsg3Delta) + ntnCsKoffset

/-- The loop of `power2_ceil`. It halves `x`, so `x` rounds are enough. -/
def power2Loop : Nat → Nat → Nat → Nat
  | 0, _, power => power
  | fuel + 1, x, power => if x / 2 = 0 then power else power2Loop fuel (x / 2) (power * 2)

def power2Ceil (x : Nat) : Nat :=
  if x ≤ 1 then 1 else power2Loop x (x - 1) 2

/-- `get_allocator_ring_size_gt_min`, by numerology. -/
def getAllocatorRingSizeGtMin (minimumValue μ : Nat) : Nat :=
  power2Ceil (divideCeil minimumValue (nofSlotsPerFrame μ)) * nofSlotsPerFrame μ

/-- A ring for up to `SCHEDULER_MAX_K2` slots over the largest offset fits the system frame. -/
theorem ringSize_dvd_systemFrame {n : Nat} (hn : n ≤ schedulerMaxK2 + ntnCellSpecificKoffsetMax)
    (μ : Nat) : getAllocatorRingSizeGtMin n 0 ∣ nofSlotsPerSystemFrame μ := by
  have hall : ∀ n ≤ schedulerMaxK2 + ntnCellSpecificKoffsetMax,
      getAllocatorRingSizeGtMin n 0 ∣ nofSlotsPerSystemFrame 0 := by decide +kernel
  apply (hall n hn).trans
  simp only [nofSlotsPerSystemFrame, nofSlotsPerFrame, nofSlotsPerSubframe]
  exact Nat.mul_dvd_mul_right (Nat.mul_dvd_mul_right (Nat.pow_dvd_pow 2 μ.zero_le) _) _

/-- An offset that the constructor of the history accepts. -/
structure NtnCsKoffset where
  val : Nat
  pos : 0 < val
  le_max : val ≤ ntnCellSpecificKoffsetMax

namespace NtnCsKoffset

variable (K : NtnCsKoffset) {μ : Nat}

/-- The size of `history`; the numerology is the default of 15 kHz. -/
def ringSize : Nat := getAllocatorRingSizeGtMin K.val 0

theorem ringSize_dvd (μ : Nat) : K.ringSize ∣ nofSlotsPerSystemFrame μ :=
  ringSize_dvd_systemFrame (Nat.le_add_left_of_le K.le_max) μ

theorem ringSize_pos : 0 < K.ringSize :=
  Nat.pos_of_dvd_of_pos (K.ringSize_dvd 0) (by decide)

def mod (idx : Nat) : Fin K.ringSize := ⟨idx % K.ringSize, Nat.mod_lt _ K.ringSize_pos⟩

def getCurrentIndex (sl : SlotPoint μ) : Fin K.ringSize := K.mod sl.count

def getOffsetIndex (sl : SlotPoint μ) : Fin K.ringSize := K.getCurrentIndex (sl.add K.val)

/-- The ring divides the slots of the system frame, so their wrap-around does not show in it. -/
theorem getCurrentIndex_add (sl : SlotPoint μ) (n : Nat) :
    K.getCurrentIndex (sl.add n) = K.mod (sl.count + n) := by
  simp [getCurrentIndex, SlotPoint.add, mod, Nat.mod_mod_of_dvd _ (K.ringSize_dvd μ)]

theorem getCurrentIndex_ne (sl : SlotPoint μ) {n : Nat} (hpos : 0 < n) (hlt : n < K.ringSize) :
    K.getCurrentIndex (sl.add n) ≠ K.getCurrentIndex sl := by
  rw [getCurrentIndex_add]
  intro h
  have hmod := Nat.sub_mod_eq_zero_of_mod_eq (Fin.mk.inj h)
  rw [Nat.add_sub_cancel_left, Nat.mod_eq_of_lt hlt] at hmod
  omega

end NtnCsKoffset

/-! ## The history -/

/-- `harq_state_t`. -/
inductive HarqState
  | empty
  | pendingRetx
  | waitingAck
  deriving DecidableEq

/-- A `dl_harq_process_impl` or `ul_harq_process_impl`. A downlink process has a `harq_bit_idx` of
type `β = Nat`, an uplink process none: `β = Unit`. The queries do not read the last three fields.
-/
structure HarqProcess (μ : Nat) (β γ : Type) where
  ueIdx : Nat
  status : HarqState
  slotAck : SlotPoint μ
  harqBitIdx : β
  hId : Nat
  ndi : Bool
  /-- The rest: RNTI, timeout, retransmissions and `prev_tx_params`. -/
  params : γ
  deriving DecidableEq

/-- `base_ntn_harq_history`. -/
structure NtnHarqHistory (μ : Nat) (K : NtnCsKoffset) (β γ : Type) where
  history : Fin K.ringSize → List (HarqProcess μ β γ)
  lastSlInd : Option (SlotPoint μ)
  lastSlAck : Option (SlotPoint μ)

/-- What the scheduler does to the history: the indication of the next slot, or a save. -/
inductive HistoryEvent (μ : Nat) (β γ : Type)
  | slotIndication
  | saveHarqNewtxInfo (h : HarqProcess μ β γ)
  deriving DecidableEq

namespace NtnHarqHistory

variable {μ : Nat} {K : NtnCsKoffset} {β γ : Type} [DecidableEq β] [DecidableEq γ]

def init : NtnHarqHistory μ K β γ := ⟨fun _ => [], none, none⟩

def slotIndication (st : NtnHarqHistory μ K β γ) (slTx : SlotPoint μ) : NtnHarqHistory μ K β γ where
  lastSlInd := some slTx
  lastSlAck := st.lastSlAck.filter fun sl => !sl.lt (slTx.sub K.val)
  history := Function.update st.history (K.getCurrentIndex (slTx.sub 1)) []

def saveHarqNewtxInfo (st : NtnHarqHistory μ K β γ) (h : HarqProcess μ β γ) :
    NtnHarqHistory μ K β γ where
  lastSlInd := st.lastSlInd
  lastSlAck := if st.lastSlAck.all fun sl => h.slotAck.gt sl then some h.slotAck else st.lastSlAck
  history := Function.update st.history (K.getOffsetIndex h.slotAck)
    (st.history (K.getOffsetIndex h.slotAck) ++ [h])

/-- The test of the queries. -/
def answers (ueIdx : Nat) (slot : SlotPoint μ) (bit : β) (h : HarqProcess μ β γ) : Bool :=
  h.ueIdx = ueIdx ∧ h.status = .waitingAck ∧ h.slotAck = slot ∧ h.harqBitIdx = bit

/-- The loop of both queries. -/
def findHarq (st : NtnHarqHistory μ K β γ) (ueIdx : Nat) (slot : SlotPoint μ) (bit : β) :
    Option (HarqProcess μ β γ) :=
  (st.history (K.getOffsetIndex slot)).find? (answers ueIdx slot bit)

def findDlHarq (st : NtnHarqHistory μ K Nat γ) (ueIdx : Nat) (uciSlot : SlotPoint μ)
    (harqBitIdx : Nat) : Option (HarqProcess μ Nat γ) :=
  st.findHarq ueIdx uciSlot harqBitIdx

def findUlHarq (st : NtnHarqHistory μ K Unit γ) (ueIdx : Nat) (puschSlot : SlotPoint μ) :
    Option (HarqProcess μ Unit γ) :=
  st.findHarq ueIdx puschSlot ()

/-- An event, in the slot of the last indication. -/
def next : SlotPoint μ × NtnHarqHistory μ K β γ → HistoryEvent μ β γ →
    SlotPoint μ × NtnHarqHistory μ K β γ
  | (sl, st), .slotIndication => (sl.add 1, st.slotIndication (sl.add 1))
  | (sl, st), .saveHarqNewtxInfo h => (sl, st.saveHarqNewtxInfo h)

/-- The history after events that start in slot `sl`. -/
def after (st : NtnHarqHistory μ K β γ) (sl : SlotPoint μ) (es : List (HistoryEvent μ β γ)) :
    NtnHarqHistory μ K β γ :=
  (es.foldl next (sl, st)).2

/-- The process `h`, saved in slot `sl` with `d` slots to its acknowledgement, is the answer to
its query up to `K` slots after the acknowledgement slot. From the next indication on there is
none, unless another process that answers the query is saved. -/
structure Retained (st : NtnHarqHistory μ K β γ) (sl : SlotPoint μ) (h : HarqProcess μ β γ)
    (d : Nat) : Prop where
  found : ∀ es : List (HistoryEvent μ β γ), es.count .slotIndication ≤ d + K.val →
    ((st.saveHarqNewtxInfo h).after sl es).findHarq h.ueIdx h.slotAck h.harqBitIdx = some h
  cleared : ∀ es es' : List (HistoryEvent μ β γ), es.count .slotIndication = d + K.val →
    (∀ g, .saveHarqNewtxInfo g ∈ es' → answers h.ueIdx h.slotAck h.harqBitIdx g = false) →
    ((st.saveHarqNewtxInfo h).after sl (es ++ .slotIndication :: es')).findHarq h.ueIdx
      h.slotAck h.harqBitIdx = none

/-! ## Runs -/

variable (st : NtnHarqHistory μ K β γ) (sl : SlotPoint μ) (es es' : List (HistoryEvent μ β γ))

omit [DecidableEq β] [DecidableEq γ] in
theorem history_slotIndication :
    (st.slotIndication (sl.add 1)).history =
      Function.update st.history (K.getCurrentIndex sl) [] := by
  simp only [slotIndication, SlotPoint.add_one_sub_one]

omit [DecidableEq β] [DecidableEq γ] in
theorem prefix_save (h : HarqProcess μ β γ) (i : Fin K.ringSize) :
    st.history i <+: (st.saveHarqNewtxInfo h).history i := by
  by_cases hi : i = K.getOffsetIndex h.slotAck
  · subst hi
    simp [saveHarqNewtxInfo]
  · simp [saveHarqNewtxInfo, hi]

theorem foldl_next_fst :
    (es.foldl next (sl, st)).1 = sl.add (es.count .slotIndication) := by
  induction es generalizing sl st with
  | nil => simp [SlotPoint.add_zero]
  | cons e es ih =>
    cases e with
    | slotIndication => simp [next, ih, SlotPoint.add_add, Nat.add_comm]
    | saveHarqNewtxInfo h => simp [next, ih]

/-- A place less than one turn ahead is only added to until its slot is over. -/
theorem prefix_after {n : Nat} (hlt : n < K.ringSize) (hle : es.count .slotIndication ≤ n) :
    st.history (K.getCurrentIndex (sl.add n)) <+:
      (st.after sl es).history (K.getCurrentIndex (sl.add n)) := by
  induction es generalizing st sl n with
  | nil => exact List.prefix_rfl
  | cons e es ih =>
    cases e with
    | slotIndication =>
      rw [List.count_cons_self] at hle
      obtain ⟨n, rfl⟩ := Nat.exists_eq_add_of_lt (Nat.zero_lt_of_lt hle)
      have hrest := ih (st.slotIndication (sl.add 1)) (sl.add 1) (Nat.lt_of_succ_lt hlt)
        (Nat.le_of_succ_le_succ hle)
      -- The indication empties the place of the slot it ends, which is another one.
      rw [history_slotIndication, SlotPoint.add_add, Nat.add_comm 1, Function.update_of_ne
        (K.getCurrentIndex_ne sl (Nat.succ_pos _) hlt)] at hrest
      exact hrest
    | saveHarqNewtxInfo h =>
      rw [List.count_cons_of_ne (by simp)] at hle
      exact (prefix_save st h _).trans (ih _ sl hlt hle)

/-- The next indication empties the place of the slot that the events have reached. -/
theorem history_after_indication :
    (st.after sl (es ++ [.slotIndication])).history
      (K.getCurrentIndex (sl.add (es.count .slotIndication))) = [] := by
  rw [after, List.foldl_append, ← foldl_next_fst st]
  simp [next, history_slotIndication]

omit [DecidableEq γ] in
/-- A query without an answer keeps having none until a process that answers it is saved. -/
theorem findHarq_after_eq_none {ueIdx : Nat} {slot : SlotPoint μ} {bit : β}
    (hnone : st.findHarq ueIdx slot bit = none)
    (hsave : ∀ g, .saveHarqNewtxInfo g ∈ es → answers ueIdx slot bit g = false) :
    (st.after sl es).findHarq ueIdx slot bit = none := by
  induction es generalizing st sl with
  | nil => exact hnone
  | cons e es ih =>
    have hrest := fun g hg => hsave g (List.mem_cons_of_mem _ hg)
    cases e with
    | slotIndication =>
      apply ih _ _ _ hrest
      rw [findHarq, history_slotIndication, Function.update_apply]
      split
      · rfl
      · exact hnone
    | saveHarqNewtxInfo g =>
      apply ih _ _ _ hrest
      simp only [findHarq, saveHarqNewtxInfo, Function.update_apply]
      split
      · next heq =>
        rw [List.find?_append, ← heq]
        simp [show List.find? _ _ = none from hnone, hsave g List.mem_cons_self]
      · exact hnone

/-! ## Retention -/

variable {h : HarqProcess μ β γ}

omit [DecidableEq γ] in
/-- The saved process is the answer unless an earlier one is. -/
theorem findHarq_save_iff (hw : h.status = .waitingAck) :
    (st.saveHarqNewtxInfo h).findHarq h.ueIdx h.slotAck h.harqBitIdx = some h ↔
      ∀ g, st.findHarq h.ueIdx h.slotAck h.harqBitIdx = some g → g = h := by
  simp only [findHarq, saveHarqNewtxInfo, Function.update_self, List.find?_append]
  cases (st.history (K.getOffsetIndex h.slotAck)).find?
    (answers h.ueIdx h.slotAck h.harqBitIdx) with
  | none => simp [answers, hw]
  | some g => simp

/-- **How long a process is retained.** -/
theorem retained_iff_lt_ringSize {d : Nat} (hack : h.slotAck = sl.add d)
    (hw : h.status = .waitingAck) :
    st.Retained sl h d ↔ d + K.val < K.ringSize ∧
      ∀ g, st.findHarq h.ueIdx h.slotAck h.harqBitIdx = some g → g = h := by
  have hidx : K.getOffsetIndex h.slotAck = K.getCurrentIndex (sl.add (d + K.val)) := by
    rw [NtnCsKoffset.getOffsetIndex, hack, SlotPoint.add_add]
  constructor
  · intro hret
    refine ⟨?_, (findHarq_save_iff st hw).1 (hret.found [] (Nat.zero_le _))⟩
    by_contra hge
    -- One turn of the ring earlier, the indication of another slot empties the same place.
    have hcount : (List.replicate (d + K.val - K.ringSize) HistoryEvent.slotIndication).count
        (.slotIndication : HistoryEvent μ β γ) = d + K.val - K.ringSize :=
      List.count_replicate_self
    have hplace : K.getCurrentIndex (sl.add (d + K.val - K.ringSize)) =
        K.getCurrentIndex (sl.add (d + K.val)) := by
      rw [K.getCurrentIndex_add, K.getCurrentIndex_add]
      apply Fin.ext
      dsimp only [NtnCsKoffset.mod]
      rw [← Nat.add_mod_right]
      congr 1
      omega
    have hempty := history_after_indication (st.saveHarqNewtxInfo h) sl
      (List.replicate (d + K.val - K.ringSize) .slotIndication)
    rw [hcount, hplace, ← hidx] at hempty
    have hfound := hret.found (List.replicate (d + K.val - K.ringSize) .slotIndication ++
      [.slotIndication]) (by
        have := K.ringSize_pos
        rw [List.count_append, hcount]
        simp
        omega)
    rw [findHarq, hempty] at hfound
    cases hfound
  · rintro ⟨hlt, hfirst⟩
    constructor
    · intro es hle
      apply List.IsPrefix.find?_eq_some _ ((findHarq_save_iff st hw).2 hfirst)
      rw [hidx]
      exact prefix_after _ sl es hlt hle
    · intro es es' hcount hother
      have hempty := history_after_indication (st.saveHarqNewtxInfo h) sl es
      rw [hcount, ← hidx] at hempty
      rw [← List.singleton_append, ← List.append_assoc, after, List.foldl_append]
      apply findHarq_after_eq_none _ _ _ _ hother
      rw [findHarq]
      exact hempty ▸ rfl

/-- An offset of 10 has a ring of 10 slots: an acknowledgement due in 4 slots is forgotten at the
fifth indication. -/
theorem not_retained_ten :
    4 ≤ getMaxSlotUlAllocDelay 0 ∧
      ¬(init : NtnHarqHistory 0 ⟨10, by decide, by decide⟩ Nat Unit).Retained ⟨0, by decide⟩
        ⟨0, .waitingAck, ⟨4, by decide⟩, 0, 1, true, ()⟩ 4 :=
  ⟨by decide, fun hret =>
    absurd (hret.found (List.replicate 5 .slotIndication) (by decide)) (by decide)⟩

/-- An offset of 41 has a ring of 80 slots, enough for the longest delay. -/
theorem retained_fortyOne :
    (init : NtnHarqHistory 0 ⟨41, by decide, by decide⟩ Nat Unit).Retained ⟨0, by decide⟩
      ⟨0, .waitingAck, ⟨32, by decide⟩, 0, 1, true, ()⟩ 32 :=
  (retained_iff_lt_ringSize init ⟨0, by decide⟩ rfl rfl).2 ⟨by decide, by simp [init, findHarq]⟩

/-- Process 1 is not found behind process 2 of the same UE, slot and bit. -/
example : ¬((init : NtnHarqHistory 0 ⟨41, by decide, by decide⟩ Nat Unit).saveHarqNewtxInfo
    ⟨0, .waitingAck, ⟨32, by decide⟩, 0, 2, true, ()⟩).Retained ⟨0, by decide⟩
      ⟨0, .waitingAck, ⟨32, by decide⟩, 0, 1, true, ()⟩ 32 :=
  fun hret => absurd (hret.found [] (by decide)) (by decide)

end NtnHarqHistory

end RadioStack.Sched
