import Mathlib.Logic.Function.Iterate
import RadioStack.Lib.Run

/-!
# The lock-free SDU queue

`rlc_sdu_queue_lockfree` sits between one upper-layer thread, which writes and discards SDUs, and
one lower-layer thread, which reads them. Three separately updated atomics describe its contents:
an SPSC FIFO of SDUs, an array of slots indexed by PDCP SN modulo the capacity, and one packed
64-bit counter (number of SDUs in the upper half, number of bytes in the lower half).

The model takes one step per atomic access. A thread between two accesses of a call is described
by its program counter (`Producer`, `Consumer`), which holds the call's local variables; the two
threads interleave at every such point. The FIFO itself is linearisable, so a push or a pop is one
step.

The state also carries a history that no access reads: the SDUs pushed so far, how each popped
SDU left the queue, and which SDU each successful discard hit.
-/

namespace RadioStack.Rlc

/-! ## SDUs -/

/-- Sentinel value to mark a slot as free. -/
def stateFree : Nat := 0xffffffff

/-- Sentinel value to mark a slot as discarded. -/
def stateDiscarded : Nat := 0xfffffffe

/-- A PDCP SN. `get_pdcp_sn` yields 12 or 18 bits and a discard block of the F1-U interface starts
at a 24-bit SN and spans at most 255, so the two sentinel values never occur. -/
abbrev PdcpSn := { sn : Nat // sn < stateDiscarded }

/-- An RLC SDU as the upper layer hands it over (`rlc_sdu`). -/
structure RlcSdu where
  buf : List UInt8
  pdcpSn : Option PdcpSn
  isRetx : Bool := false
  deriving DecidableEq

namespace SduQueue

/-- Capacity (`uint16_t`) and byte limit (`uint32_t`) of a queue. -/
structure Config where
  capacity : Nat
  byteLimit : Nat
  capacity_lt : capacity < 2 ^ 16
  byteLimit_lt : byteLimit < 2 ^ 32

/-! ## State -/

/-- How an SDU left the queue. -/
inductive Fate where
  | returned
  | dropped
  deriving DecidableEq

/-- History of a successful `try_discard`: the PDCP SN, the position (in write order) of the SDU
in that slot, and how many SDUs had already left the queue. -/
structure Discard where
  sn : PdcpSn
  index : Nat
  gone : Nat

/-- Where the upper-layer thread stands, named by its next atomic access. -/
inductive Producer where
  | idle
  /-- `write`: load the slot state (SDUs without PDCP SN go on to push). -/
  | loadSlot (sdu : RlcSdu)
  /-- `write`: store the SDU size. -/
  | storeSize (sdu : RlcSdu) (sn : PdcpSn)
  /-- `write`: allocate the slot. -/
  | storeState (sdu : RlcSdu) (sn : PdcpSn)
  /-- `write`: push the SDU. -/
  | push (sdu : RlcSdu)
  /-- `write`: release the slot after a failed push. -/
  | freeSlot (sn : PdcpSn)
  /-- `write`: `state_add`. -/
  | addTotals (size : Nat)
  /-- `try_discard`: load the SDU size, after the compare-exchange. -/
  | loadSize (sn : PdcpSn) (success : Bool)
  /-- `try_discard`: `state_sub`. -/
  | subTotals (size : Nat)

/-- Where the lower-layer thread stands in `read`. -/
inductive Consumer where
  | idle
  /-- Pop the front. -/
  | pop
  /-- Load the SDU size (SDUs without PDCP SN go on to `state_sub`). -/
  | popped (sdu : RlcSdu)
  /-- Exchange the slot state with "free". -/
  | sized (sdu : RlcSdu) (sn : PdcpSn) (size : Nat)
  /-- `state_sub`, then return the SDU if it is valid. -/
  | released (sdu : RlcSdu) (size : Nat) (valid : Bool)

structure State where
  /-- Packed totals: `n_sdus` in the upper and `n_bytes` in the lower 32 bits. -/
  state : Nat := 0
  sduStates : Nat → Nat := fun _ => stateFree
  sduSizes : Nat → Nat := fun _ => 0
  queue : List RlcSdu := []
  producer : Producer := .idle
  consumer : Consumer := .idle
  /-- History: all SDUs pushed, in write order. -/
  accepted : List RlcSdu := []
  /-- History: the SDUs that left the queue, in that order. -/
  left : List (RlcSdu × Fate) := []
  /-- History: the successful discards. -/
  discards : List Discard := []

section

variable (s : State)

/-- `get_state().n_bytes`. -/
def State.nBytes : Nat := s.state &&& 0xffffffff

/-- `get_state().n_sdus`. -/
def State.nSdus : Nat := s.state >>> 32

def State.isEmpty : Bool := s.queue.isEmpty

/-- The operand of `state_add` and `state_sub`; `sdu_size` is a `uint32_t` there. -/
def stateChange (sduSize : Nat) : Nat := 1 <<< 32 ||| sduSize % 2 ^ 32

def State.stateAdd (sduSize : Nat) : State :=
  { s with state := (s.state + stateChange sduSize) % 2 ^ 64 }

def State.stateSub (sduSize : Nat) : State :=
  { s with state := (s.state + (2 ^ 64 - stateChange sduSize)) % 2 ^ 64 }

def State.setSlot (i v : Nat) : State :=
  { s with sduStates := Function.update s.sduStates i v }

def State.setSize (i v : Nat) : State :=
  { s with sduSizes := Function.update s.sduSizes i v }

/-- SDUs popped but neither returned nor dropped yet. -/
def Consumer.held : Consumer → List RlcSdu
  | .idle | .pop => []
  | .popped sdu | .sized sdu _ _ | .released sdu _ _ => [sdu]

/-- Number of SDUs in the consumer's hands whose slot is already released. -/
def Consumer.unslotted : Consumer → Nat
  | .released _ _ _ => 1
  | _ => 0

/-- Position of the oldest SDU that can still be discarded. -/
def State.lo : Nat := s.left.length + s.consumer.unslotted

/-- Positions of the discarded SDUs. -/
def State.discarded : List Nat := s.discards.map Discard.index

/-- Records that the SDU in the consumer's hands left the queue. -/
def State.leave (sdu : RlcSdu) (fate : Fate) : State :=
  { s with left := s.left ++ [(sdu, fate)] }

/-- Records a successful discard of `sn`: it hits the oldest SDU with that SN that can still be
discarded. -/
def State.recordDiscard (sn : PdcpSn) : State :=
  { s with
    discards := s.discards ++
      [⟨sn, s.lo + (s.accepted.drop s.lo).findIdx (fun x => x.pdcpSn = some sn), s.left.length⟩] }

end

/-! ## Atomic steps -/

section Steps

variable (cfg : Config)

section

variable (s : State)

/-- `write` up to its first access: the byte limit check. -/
def startWrite (sdu : RlcSdu) : State :=
  if sdu.buf.length + s.nBytes ≥ cfg.byteLimit then s
  else { s with producer := .loadSlot sdu }

/-- `try_discard` up to its first access: the compare-exchange. -/
def startDiscard (sn : PdcpSn) : State :=
  if s.sduStates (sn % cfg.capacity) = sn then
    { (s.setSlot (sn % cfg.capacity) stateDiscarded).recordDiscard sn with
      producer := .loadSize sn true }
  else { s with producer := .loadSize sn false }

def producerStep : State :=
  match s.producer with
  | .idle => s
  | .loadSlot sdu =>
    match sdu.pdcpSn with
    | none => { s with producer := .push sdu }
    | some sn =>
      if s.sduStates (sn % cfg.capacity) ≠ stateFree then { s with producer := .idle }
      else { s with producer := .storeSize sdu sn }
  | .storeSize sdu sn =>
    { s.setSize (sn % cfg.capacity) sdu.buf.length with producer := .storeState sdu sn }
  | .storeState sdu sn => { s.setSlot (sn % cfg.capacity) sn with producer := .push sdu }
  | .push sdu =>
    if s.queue.length < cfg.capacity then
      { s with
        queue := s.queue ++ [sdu], accepted := s.accepted ++ [sdu]
        producer := .addTotals sdu.buf.length }
    else
      match sdu.pdcpSn with
      | none => { s with producer := .idle }
      | some sn => { s with producer := .freeSlot sn }
  | .freeSlot sn => { s.setSlot (sn % cfg.capacity) stateFree with producer := .idle }
  | .addTotals size => { s.stateAdd size with producer := .idle }
  | .loadSize sn success =>
    { s with
      producer := if success then .subTotals (s.sduSizes (sn % cfg.capacity)) else .idle }
  | .subTotals size => { s.stateSub size with producer := .idle }

def consumerStep : State :=
  match s.consumer with
  | .idle => s
  | .pop =>
    match s.queue with
    | [] => { s with consumer := .idle }
    | sdu :: rest => { s with queue := rest, consumer := .popped sdu }
  | .popped sdu =>
    match sdu.pdcpSn with
    | none => { (s.stateSub sdu.buf.length).leave sdu .returned with consumer := .idle }
    | some sn => { s with consumer := .sized sdu sn (s.sduSizes (sn % cfg.capacity)) }
  | .sized sdu sn size =>
    let oldState := s.sduStates (sn % cfg.capacity)
    let s := s.setSlot (sn % cfg.capacity) stateFree
    if oldState = sn then { s with consumer := .released sdu size true }
    else if oldState = stateDiscarded then
      -- totals were already updated on discard; try the next SDU
      { s.leave sdu .dropped with consumer := .pop }
    else { s with consumer := .released sdu size false }
  | .released sdu size valid =>
    if valid then { (s.stateSub size).leave sdu .returned with consumer := .idle }
    else { (s.stateSub size).leave sdu .dropped with consumer := .pop }

inductive Event where
  | write (sdu : RlcSdu)
  | tryDiscard (sn : PdcpSn)
  | producer
  | read
  | consumer

/-- One step: a call starts on an idle thread, or a thread makes its next access. -/
def step : Event → Option State
  | .write sdu => match s.producer with
    | .idle => some (startWrite cfg s sdu)
    | _ => none
  | .tryDiscard sn => match s.producer with
    | .idle => some (startDiscard cfg s sn)
    | _ => none
  | .producer => some (producerStep cfg s)
  | .read => match s.consumer with
    | .idle => some { s with consumer := .pop }
    | _ => none
  | .consumer => some (consumerStep cfg s)

/-! ## Uninterrupted calls -/

/-- `write`, without a step of the other thread in between. -/
def write (sdu : RlcSdu) : State := (producerStep cfg)^[5] (startWrite cfg s sdu)

/-- `try_discard`, without a step of the other thread in between. -/
def tryDiscard (sn : PdcpSn) : State := (producerStep cfg)^[2] (startDiscard cfg s sn)

/-- `read`, without a step of the other thread in between: at most four accesses for each SDU, and
one more to find the FIFO empty. -/
def read : State × Option RlcSdu :=
  let s' := (consumerStep cfg)^[4 * s.queue.length + 1] { s with consumer := .pop }
  (s', match (s'.left.drop s.left.length).getLast? with
    | some (sdu, .returned) => some sdu
    | _ => none)

end

/-! ## Everything in the queue was written -/

/-- The SDU a write holds in its hands. -/
def Producer.held : Producer → List RlcSdu
  | .loadSlot sdu | .storeSize sdu _ | .storeState sdu _ | .push sdu => [sdu]
  | .idle | .freeSlot _ | .addTotals _ | .loadSize _ _ | .subTotals _ => []

/-- All SDUs in the queue, in the hands of a thread and in the history satisfy `P`. -/
structure State.All (P : RlcSdu → Prop) (s : State) : Prop where
  queue : ∀ x ∈ s.queue, P x
  producer : ∀ x ∈ s.producer.held, P x
  consumer : ∀ x ∈ s.consumer.held, P x
  left : ∀ x ∈ s.left, P x.1

variable {P : RlcSdu → Prop} {s : State} {sdu : RlcSdu}

theorem State.All.startWrite (h : s.All P) (hsdu : P sdu) :
    (startWrite cfg s sdu).All P := by
  unfold SduQueue.startWrite
  split
  · exact h
  · exact { h with producer := by simpa [Producer.held] using hsdu }

theorem State.All.startDiscard (h : s.All P) (sn : PdcpSn) : (startDiscard cfg s sn).All P := by
  unfold SduQueue.startDiscard
  split
  · exact ⟨h.queue, nofun, h.consumer, h.left⟩
  · exact { h with producer := nofun }

theorem State.All.producerStep (h : s.All P) : (producerStep cfg s).All P := by
  have hp := h.producer
  unfold SduQueue.producerStep
  split
  · exact h
  · next sdu hpc =>
    rw [hpc] at hp
    split
    · exact { h with producer := hp }
    · split
      · exact { h with producer := nofun }
      · exact { h with producer := hp }
  · next sdu sn hpc =>
    rw [hpc] at hp
    exact ⟨h.queue, hp, h.consumer, h.left⟩
  · next sdu sn hpc =>
    rw [hpc] at hp
    exact ⟨h.queue, hp, h.consumer, h.left⟩
  · next sdu hpc =>
    rw [hpc] at hp
    split
    · refine ⟨fun x hx => ?_, nofun, h.consumer, h.left⟩
      rcases List.mem_append.1 hx with hx | hx
      · exact h.queue x hx
      · exact hp x hx
    · split
      · exact { h with producer := nofun }
      · exact { h with producer := nofun }
  · exact ⟨h.queue, nofun, h.consumer, h.left⟩
  · exact ⟨h.queue, nofun, h.consumer, h.left⟩
  · refine { h with producer := ?_ }
    intro x hx
    split at hx <;> cases hx
  · exact ⟨h.queue, nofun, h.consumer, h.left⟩

theorem State.All.leave (h : s.All P) (hsdu : P sdu) (fate : Fate) :
    ∀ x ∈ (s.leave sdu fate).left, P x.1 := by
  intro x hx
  rcases List.mem_append.1 hx with hx | hx
  · exact h.left x hx
  · obtain rfl := List.mem_singleton.1 hx
    exact hsdu

theorem State.All.consumerStep (h : s.All P) : (consumerStep cfg s).All P := by
  have hc := h.consumer
  unfold SduQueue.consumerStep
  split
  · exact h
  · split
    · exact { h with consumer := nofun }
    · next sdu rest hq =>
      have hq' := h.queue
      rw [hq] at hq'
      refine ⟨fun x hx => hq' x (List.mem_cons_of_mem _ hx), h.producer, ?_, h.left⟩
      simpa [Consumer.held] using hq' sdu List.mem_cons_self
  · next sdu hpc =>
    rw [hpc] at hc
    have hsdu : P sdu := hc sdu List.mem_cons_self
    split
    · exact ⟨h.queue, h.producer, nofun, h.leave hsdu _⟩
    · exact { h with consumer := hc }
  · next sdu sn size hpc =>
    rw [hpc] at hc
    have hsdu : P sdu := hc sdu List.mem_cons_self
    simp only
    split
    · exact ⟨h.queue, h.producer, hc, h.left⟩
    · split
      · exact ⟨h.queue, h.producer, nofun, h.leave hsdu _⟩
      · exact ⟨h.queue, h.producer, hc, h.left⟩
  · next sdu size valid hpc =>
    rw [hpc] at hc
    have hsdu : P sdu := hc sdu List.mem_cons_self
    split
    · exact ⟨h.queue, h.producer, nofun, h.leave hsdu _⟩
    · exact ⟨h.queue, h.producer, nofun, h.leave hsdu _⟩

theorem State.All.iterate {f : State → State} (hf : ∀ s : State, s.All P → (f s).All P)
    (h : s.All P) (k : Nat) : (f^[k] s).All P := by
  induction k generalizing s with
  | zero => exact h
  | succ k ih => exact ih (hf s h)

theorem State.All.write (h : s.All P) (hsdu : P sdu) : (write cfg s sdu).All P :=
  (h.startWrite cfg hsdu).iterate (fun _ h => h.producerStep cfg) 5

theorem State.All.tryDiscard (h : s.All P) (sn : PdcpSn) : (tryDiscard cfg s sn).All P :=
  (h.startDiscard cfg sn).iterate (fun _ h => h.producerStep cfg) 2

theorem State.All.read (h : s.All P) :
    (read cfg s).1.All P ∧ ∀ sdu, (read cfg s).2 = some sdu → P sdu := by
  have hstart : State.All P { s with consumer := .pop } := { h with consumer := nofun }
  have hend := hstart.iterate (fun _ h => h.consumerStep cfg) (4 * s.queue.length + 1)
  refine ⟨hend, fun sdu hsdu => ?_⟩
  unfold SduQueue.read at hsdu
  simp only at hsdu
  split at hsdu
  · next sdu' heq =>
    cases hsdu
    exact hend.left _ (List.mem_of_mem_drop (List.mem_of_getLast? heq))
  · cases hsdu

/-! ## What a read takes -/

/-- The next SDU that is not discarded, with the SDUs behind it: those in front of it give their
slots free. -/
def nextValid : (Nat → Nat) → List RlcSdu → Option (RlcSdu × List RlcSdu)
  | _, [] => none
  | sduStates, sdu :: rest =>
    match sdu.pdcpSn with
    | none => some (sdu, rest)
    | some sn =>
      if sduStates (sn % cfg.capacity) = sn then some (sdu, rest)
      else nextValid (Function.update sduStates (sn % cfg.capacity) stateFree) rest

/-- The SDUs that leave the queue in a read: all are dropped but the one returned. -/
def Reads (s s' : State) : Option (RlcSdu × List RlcSdu) → Prop
  | some (sdu, rest) => s'.queue = rest ∧ ∃ l, s'.left = s.left ++ l ++ [(sdu, .returned)]
  | none => s'.queue = [] ∧ ∃ l, s'.left = s.left ++ l ∧ ∀ x ∈ l, x.2 = Fate.dropped

theorem consumerStep_iterate_idle (h : s.consumer = .idle) (k : Nat) :
    (consumerStep cfg)^[k] s = s :=
  Function.iterate_fixed (by simp [consumerStep, h]) k

theorem Reads.of_dropped {s t s' : State} {r : Option (RlcSdu × List RlcSdu)}
    (ht : t.left = s.left ++ [(sdu, .dropped)]) (h : Reads t s' r) : Reads s s' r := by
  cases r with
  | none =>
    obtain ⟨hq, l, hl, hall⟩ := h
    refine ⟨hq, (sdu, .dropped) :: l, by simp [hl, ht], fun x hx => ?_⟩
    rcases List.mem_cons.1 hx with rfl | hx
    · rfl
    · exact hall x hx
  | some p =>
    obtain ⟨hq, l, hl⟩ := h
    exact ⟨hq, (sdu, .dropped) :: l, by simp [hl, ht]⟩

/-- What happens to the front of the FIFO, in at most four accesses. -/
theorem serve_front {rest : List RlcSdu} (hc : s.consumer = .pop) (hq : s.queue = sdu :: rest) :
    ∃ k ≤ 4, ∃ t, (consumerStep cfg)^[k] s = t ∧ t.queue = rest ∧
      ((nextValid cfg s.sduStates s.queue = some (sdu, rest) ∧ t.consumer = .idle ∧
        t.left = s.left ++ [(sdu, .returned)]) ∨
      (nextValid cfg s.sduStates s.queue = nextValid cfg t.sduStates rest ∧ t.consumer = .pop ∧
        t.left = s.left ++ [(sdu, .dropped)])) := by
  have hpop : consumerStep cfg s = { s with queue := rest, consumer := .popped sdu } := by
    simp [consumerStep, hc, hq]
  generalize ht : ({ s with queue := rest, consumer := .popped sdu } : State) = t at hpop
  rw [hq, nextValid]
  cases hsn : sdu.pdcpSn with
  | none =>
    have h₂ : (consumerStep cfg)^[2] s =
        { (t.stateSub sdu.buf.length).leave sdu .returned with consumer := .idle } := by
      rw [Function.iterate_succ_apply, Function.iterate_one, hpop, ← ht]
      simp [consumerStep, hsn]
    subst ht
    exact ⟨2, by decide, _, h₂, rfl, .inl ⟨rfl, rfl, rfl⟩⟩
  | some sn =>
    generalize hsize : s.sduSizes (sn % cfg.capacity) = size
    generalize hu : t.setSlot (sn % cfg.capacity) stateFree = u
    have h₂ : (consumerStep cfg)^[2] s = { t with consumer := .sized sdu sn size } := by
      rw [Function.iterate_succ_apply, Function.iterate_one, hpop, ← ht, ← hsize]
      simp [consumerStep, hsn]
    have h₃ : ∀ k, (consumerStep cfg)^[k + 2] s =
        (consumerStep cfg)^[k] { t with consumer := .sized sdu sn size } := fun k => by
      rw [Function.iterate_add_apply, h₂]
    have hstates : t.sduStates = s.sduStates := ht ▸ rfl
    simp only [← hstates]
    by_cases hvalid : t.sduStates (sn % cfg.capacity) = sn
    · have h₄ : (consumerStep cfg)^[4] s =
          { (u.stateSub size).leave sdu .returned with consumer := .idle } := by
        rw [h₃ 2, Function.iterate_succ_apply, Function.iterate_one, ← hu]
        simp only [consumerStep, if_pos hvalid, if_true]
        rfl
      subst hu ht
      exact ⟨4, Nat.le_refl _, _, h₄, rfl, .inl ⟨if_pos hvalid, rfl, rfl⟩⟩
    · rw [if_neg hvalid]
      by_cases hdisc : t.sduStates (sn % cfg.capacity) = stateDiscarded
      · have h₄ : (consumerStep cfg)^[3] s = { u.leave sdu .dropped with consumer := .pop } := by
          rw [h₃ 1, Function.iterate_one, ← hu]
          simp only [consumerStep, if_neg hvalid, if_pos hdisc]
          rfl
        subst hu ht
        exact ⟨3, by decide, _, h₄, rfl, .inr ⟨rfl, rfl, rfl⟩⟩
      · have h₄ : (consumerStep cfg)^[4] s =
            { (u.stateSub size).leave sdu .dropped with consumer := .pop } := by
          rw [h₃ 2, Function.iterate_succ_apply, Function.iterate_one, ← hu]
          simp only [consumerStep, if_neg hvalid, if_neg hdisc, Bool.false_eq_true, if_false]
          rfl
        subst hu ht
        exact ⟨4, Nat.le_refl _, _, h₄, rfl, .inr ⟨rfl, rfl, rfl⟩⟩

theorem reads_iterate {fuel : Nat} (hc : s.consumer = .pop) (hf : 4 * s.queue.length + 1 ≤ fuel) :
    Reads s ((consumerStep cfg)^[fuel] s) (nextValid cfg s.sduStates s.queue) := by
  induction hq : s.queue generalizing s fuel with
  | nil =>
    obtain ⟨fuel, rfl⟩ := Nat.exists_eq_add_of_le' (Nat.le_of_add_left_le hf)
    have hstep : consumerStep cfg s = { s with consumer := .idle } := by
      simp [consumerStep, hc, hq]
    rw [Function.iterate_succ_apply, hstep, consumerStep_iterate_idle cfg rfl]
    exact ⟨hq, [], (List.append_nil _).symm, nofun⟩
  | cons sdu rest ih =>
    obtain ⟨k, hk, t, hiter, hrest, hcase⟩ := serve_front cfg hc hq
    rw [hq, List.length_cons] at hf
    obtain ⟨fuel, rfl⟩ : ∃ m, fuel = m + k := ⟨fuel - k, by omega⟩
    rw [Function.iterate_add_apply, hiter, ← hq]
    rcases hcase with ⟨hnext, hidle, hleft⟩ | ⟨hnext, hpop, hleft⟩
    · rw [hnext, consumerStep_iterate_idle cfg hidle]
      exact ⟨hrest, [], by rw [hleft, List.append_nil]⟩
    · rw [hnext]
      exact (ih hpop (by rw [hrest]; omega) hrest).of_dropped hleft

/-- The SDUs behind the next one that is not discarded; they may be discarded themselves. -/
def State.behindNext (s : State) : List RlcSdu :=
  ((nextValid cfg s.sduStates s.queue).map Prod.snd).getD []

/-- A read takes the next SDU that is not discarded, and leaves what is behind it. -/
theorem read_eq (s : State) :
    (read cfg s).2 = (nextValid cfg s.sduStates s.queue).map Prod.fst ∧
      (read cfg s).1.queue = s.behindNext cfg := by
  have h := reads_iterate cfg (s := { s with consumer := .pop }) rfl (Nat.le_refl _)
  unfold read State.behindNext
  simp only at h ⊢
  cases hn : nextValid cfg s.sduStates s.queue with
  | none =>
    rw [hn] at h
    obtain ⟨hq, l, hl, hall⟩ := h
    refine ⟨?_, hq⟩
    rw [hl, List.drop_left]
    split
    · next sdu hlast => exact nomatch hall _ (List.mem_of_getLast? hlast)
    · rfl
  | some p =>
    rw [hn] at h
    obtain ⟨hq, l, hl⟩ := h
    refine ⟨?_, hq⟩
    rw [hl, List.append_assoc, List.drop_left, List.getLast?_concat]
    rfl

end Steps

end SduQueue

end RadioStack.Rlc
