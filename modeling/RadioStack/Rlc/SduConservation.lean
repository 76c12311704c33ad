import Mathlib.Algebra.BigOperators.Intervals
import Mathlib.Algebra.BigOperators.Ring.Finset
import Mathlib.Algebra.Order.BigOperators.Group.Finset
import Mathlib.Tactic.Ring
import RadioStack.Rlc.SduQueue

/-!
# Conservation in the lock-free SDU queue

**Theorem (`sduQueue_conserves`).** In every state of every interleaving of one producer and one
consumer, the SDUs accepted so far are, in write order, the ones that left, the one in the
consumer's hands and the ones still queued. An SDU that left was dropped if and only if it had
been discarded, a discard hits an SDU that had not left yet and hits no SDU twice, and whenever
both threads are idle the packed counter holds the number and the total size of the queued SDUs
that are not discarded.

Three groups of facts are kept by every access: the history agrees with the FIFO (`Order`), a slot
holds the SN of the one SDU that owns it (`Slots`), and the counter is the sum over the live SDUs,
up to the totals a thread still has to add or subtract (`Totals`).
-/

namespace RadioStack.Rlc.SduQueue

open Finset

variable {cfg : Config} {s t : State}

/-! ## The steps -/

inductive Step (cfg : Config) (s : State) : Event → State → Prop
  | write (hp : s.producer = .idle) (sdu : RlcSdu) : Step cfg s (.write sdu) (startWrite cfg s sdu)
  | tryDiscard (hp : s.producer = .idle) (sn : PdcpSn) :
      Step cfg s (.tryDiscard sn) (startDiscard cfg s sn)
  | producer : Step cfg s .producer (producerStep cfg s)
  | read (hc : s.consumer = .idle) : Step cfg s .read { s with consumer := .pop }
  | consumer : Step cfg s .consumer (consumerStep cfg s)

theorem step_cases {e : Event} (h : step cfg s e = some t) : Step cfg s e t := by
  cases e with
  | write sdu =>
    cases hp : s.producer <;> simp only [step, hp, reduceCtorEq, Option.some.injEq] at h
    exact h ▸ .write hp sdu
  | tryDiscard sn =>
    cases hp : s.producer <;> simp only [step, hp, reduceCtorEq, Option.some.injEq] at h
    exact h ▸ .tryDiscard hp sn
  | producer => exact Option.some.inj h ▸ .producer
  | read =>
    cases hc : s.consumer <;> simp only [step, hc, reduceCtorEq, Option.some.injEq] at h
    exact h ▸ .read hc
  | consumer => exact Option.some.inj h ▸ .consumer

/-! ## The invariants -/

/-- The SDU at position `i` owns the slot of its SN. -/
def Holds (s : State) (i : Nat) (sdu : RlcSdu) (sn : PdcpSn) : Prop :=
  s.lo ≤ i ∧ s.accepted[i]? = some sdu ∧ sdu.pdcpSn = some sn

/-- The slot claimed by a `write` in progress. -/
def Producer.claim (cfg : Config) : Producer → Option Nat
  | .storeSize _ sn | .storeState _ sn | .freeSlot sn => some (sn % cfg.capacity)
  | .push sdu => sdu.pdcpSn.map fun sn : PdcpSn => (sn : Nat) % cfg.capacity
  | _ => none

/-- The history agrees with the FIFO and with the discards. -/
structure Order (s : State) : Prop where
  split : s.accepted = s.left.map Prod.fst ++ (s.consumer.held ++ s.queue)
  fate : ∀ i sdu f, s.left[i]? = some (sdu, f) → (f = .dropped ↔ i ∈ s.discarded)
  nodup : s.discarded.Nodup
  target : ∀ d ∈ s.discards, d.gone ≤ d.index ∧
    (s.accepted[d.index]?).bind RlcSdu.pdcpSn = some d.sn

/-- What the producer's program counter promises. -/
def ProducerOk (cfg : Config) (s : State) : Prop :=
  match s.producer with
  | .storeSize sdu sn => sdu.pdcpSn = some sn
  | .storeState sdu sn => sdu.pdcpSn = some sn ∧ s.sduSizes (sn % cfg.capacity) = sdu.buf.length
  | .push sdu => ∀ sn, sdu.pdcpSn = some sn →
      s.sduSizes (sn % cfg.capacity) = sdu.buf.length ∧ s.sduStates (sn % cfg.capacity) = sn
  | _ => True

/-- What the consumer's program counter promises. -/
def ConsumerOk (s : State) : Prop :=
  match s.consumer with
  | .sized sdu sn size => sdu.pdcpSn = some sn ∧ size = sdu.buf.length
  | .released sdu size valid =>
    valid = true ∧ size = sdu.buf.length ∧ s.left.length ∉ s.discarded
  | _ => True

/-- Each slot is free, claimed by the producer, or owned by exactly one SDU. -/
structure Slots (cfg : Config) (s : State) : Prop where
  state_eq : ∀ {i sdu sn}, Holds s i sdu sn →
    s.sduStates (sn % cfg.capacity) = if i ∈ s.discarded then stateDiscarded else sn
  size_eq : ∀ {i sdu sn}, Holds s i sdu sn → s.sduSizes (sn % cfg.capacity) = sdu.buf.length
  apart : ∀ {i sdu sn j sdu' sn'}, Holds s i sdu sn → Holds s j sdu' sn' →
    (sn : Nat) % cfg.capacity = sn' % cfg.capacity → i = j
  free : ∀ {k}, (∀ i sdu sn, Holds s i sdu sn → (sn : Nat) % cfg.capacity ≠ k) →
    s.producer.claim cfg ≠ some k → s.sduStates k = stateFree
  claimed : ∀ {k}, s.producer.claim cfg = some k →
    ∀ i sdu sn, Holds s i sdu sn → (sn : Nat) % cfg.capacity ≠ k

theorem PdcpSn.ne_free (sn : PdcpSn) : (sn : Nat) ≠ stateFree := by
  intro h
  have := sn.2
  rw [h] at this
  exact absurd this (by decide)

theorem PdcpSn.ne_discarded (sn : PdcpSn) : (sn : Nat) ≠ stateDiscarded :=
  Nat.ne_of_lt sn.2

variable {i : Nat} {sdu : RlcSdu} {sn : PdcpSn}

section

variable (h : Slots cfg s)

include h

theorem Slots.not_free (hold : Holds s i sdu sn) :
    s.sduStates (sn % cfg.capacity) ≠ stateFree := by
  rw [h.state_eq hold]
  split
  · decide
  · exact PdcpSn.ne_free sn

/-! ### Slots under each kind of access -/

theorem Slots.frame (hholds : ∀ {i sdu sn}, Holds t i sdu sn ↔ Holds s i sdu sn)
    (hst : t.sduStates = s.sduStates) (hsz : t.sduSizes = s.sduSizes)
    (hd : t.discarded = s.discarded) (hclaim : t.producer.claim cfg = s.producer.claim cfg) :
    Slots cfg t where
  state_eq hold := by rw [hst, hd]; exact h.state_eq (hholds.1 hold)
  size_eq hold := by rw [hsz]; exact h.size_eq (hholds.1 hold)
  apart hold hold' := h.apart (hholds.1 hold) (hholds.1 hold')
  free hk hc := by
    rw [hst]
    exact h.free (fun i sdu sn hold => hk i sdu sn (hholds.2 hold)) (hclaim ▸ hc)
  claimed hc i sdu sn hold := h.claimed (hclaim ▸ hc) i sdu sn (hholds.1 hold)

theorem Slots.setProducer {p q : Producer} (hq : s.producer = q)
    (hclaim : p.claim cfg = q.claim cfg) : Slots cfg { s with producer := p } :=
  h.frame Iff.rfl rfl rfl rfl (hclaim.trans (hq ▸ rfl))

theorem Slots.release (hold : Holds s s.lo sdu sn) (hlo : t.lo = s.lo + 1)
    (hacc : t.accepted = s.accepted)
    (hst : t.sduStates = Function.update s.sduStates (sn % cfg.capacity) stateFree)
    (hsz : t.sduSizes = s.sduSizes) (hd : t.discarded = s.discarded)
    (hp : t.producer = s.producer) : Slots cfg t := by
  have hholds : ∀ {i x m}, Holds t i x m → Holds s i x m ∧ i ≠ s.lo := by
    rintro i x m ⟨hi, hx⟩
    exact ⟨⟨by omega, hacc ▸ hx⟩, by omega⟩
  have hne : ∀ {i x m}, Holds t i x m → (m : Nat) % cfg.capacity ≠ sn % cfg.capacity := by
    intro i x m hm heq
    exact (hholds hm).2 (h.apart (hholds hm).1 hold heq)
  constructor
  · intro i x m hm
    rw [hst, Function.update_of_ne (hne hm), hd]
    exact h.state_eq (hholds hm).1
  · intro i x m hm
    rw [hsz]
    exact h.size_eq (hholds hm).1
  · intro i x m j x' m' hm hm' heq
    exact h.apart (hholds hm).1 (hholds hm').1 heq
  · intro k hk hc
    rw [hst]
    by_cases hkk : k = sn % cfg.capacity
    · rw [hkk, Function.update_self]
    · rw [Function.update_of_ne hkk]
      refine h.free (fun i x m hm => ?_) (hp ▸ hc)
      by_cases hi : i = s.lo
      · subst hi
        obtain rfl : sdu = x := Option.some.inj (hold.2.1.symm.trans hm.2.1)
        obtain rfl : sn = m := Option.some.inj (hold.2.2.symm.trans hm.2.2)
        exact Ne.symm hkk
      · refine hk i x m ⟨?_, hacc ▸ hm.2⟩
        have := hm.1
        omega
  · intro k hc i x m hm
    exact h.claimed (hp ▸ hc) i x m (hholds hm).1

theorem Slots.claim (hfree : s.sduStates (sn % cfg.capacity) = stateFree)
    (hc : s.producer.claim cfg = none) :
    Slots cfg { s with producer := .storeSize sdu sn } where
  state_eq hold := h.state_eq hold
  size_eq hold := h.size_eq hold
  apart hold hold' := h.apart hold hold'
  free hk _ := h.free hk (by rw [hc]; exact nofun)
  claimed hk i x m hold := by
    cases hk
    intro heq
    exact h.not_free hold (heq ▸ hfree)

theorem Slots.writeClaimed (hc : s.producer.claim cfg = some (sn % cfg.capacity))
    (hholds : ∀ {i sdu m}, Holds t i sdu m ↔ Holds s i sdu m)
    (hst : ∀ k, k ≠ sn % cfg.capacity → t.sduStates k = s.sduStates k)
    (hsz : ∀ k, k ≠ sn % cfg.capacity → t.sduSizes k = s.sduSizes k)
    (hd : t.discarded = s.discarded) (hct : t.producer.claim cfg = some (sn % cfg.capacity) ∨
      t.producer.claim cfg = none ∧ t.sduStates (sn % cfg.capacity) = stateFree) :
    Slots cfg t := by
  have hne : ∀ {i x m}, Holds t i x m → (m : Nat) % cfg.capacity ≠ sn % cfg.capacity :=
    fun hm => h.claimed hc _ _ _ (hholds.1 hm)
  constructor
  · intro i x m hm
    rw [hst _ (hne hm), hd]
    exact h.state_eq (hholds.1 hm)
  · intro i x m hm
    rw [hsz _ (hne hm)]
    exact h.size_eq (hholds.1 hm)
  · intro i x m j x' m' hm hm'
    exact h.apart (hholds.1 hm) (hholds.1 hm')
  · intro k hk hck
    by_cases hkk : k = sn % cfg.capacity
    · rcases hct with hct | ⟨-, hfree⟩
      · exact absurd (hkk ▸ hct) hck
      · rw [hkk, hfree]
    · rw [hst k hkk]
      refine h.free (fun i x m hm => hk i x m (hholds.2 hm)) ?_
      rw [hc]
      exact fun heq => hkk (Option.some.inj heq).symm
  · intro k hck i x m hm
    rcases hct with hct | ⟨hct, -⟩
    · obtain rfl : (sn : Nat) % cfg.capacity = k := Option.some.inj (hct.symm.trans hck)
      exact hne hm
    · rw [hct] at hck
      cases hck

theorem Slots.push (hp : s.producer = .push sdu) (hok : ProducerOk cfg s)
    (hlo : s.lo ≤ s.accepted.length) (hlt : ∀ i ∈ s.discarded, i < s.accepted.length) (n : Nat) :
    Slots cfg { s with
      queue := s.queue ++ [sdu], accepted := s.accepted ++ [sdu], producer := .addTotals n } := by
  set t : State := { s with
    queue := s.queue ++ [sdu], accepted := s.accepted ++ [sdu], producer := .addTotals n }
  simp only [ProducerOk, hp] at hok
  have hclaim : s.producer.claim cfg =
      sdu.pdcpSn.map fun sn : PdcpSn => (sn : Nat) % cfg.capacity := by rw [hp]; rfl
  have hcases : ∀ {i x m}, Holds t i x m →
      Holds s i x m ∨ i = s.accepted.length ∧ x = sdu ∧ sdu.pdcpSn = some m := by
    rintro i x m ⟨hi, hx, hm⟩
    rcases Nat.lt_or_ge i s.accepted.length with hlt | hge
    · rw [List.getElem?_append_left hlt] at hx
      exact .inl ⟨hi, hx, hm⟩
    · rw [List.getElem?_append_right hge] at hx
      obtain ⟨hk, rfl⟩ := List.getElem?_eq_some_iff.1 hx
      simp only [List.length_singleton, Nat.lt_one_iff] at hk
      exact .inr ⟨by omega, by simp [hk], by simpa [hk] using hm⟩
  have hold : ∀ {i x m}, Holds s i x m → Holds t i x m := by
    rintro i x m ⟨hi, hx, hm⟩
    refine ⟨hi, ?_, hm⟩
    show (s.accepted ++ [sdu])[i]? = some x
    rw [List.getElem?_append_left (List.getElem?_eq_some_iff.1 hx).1]
    exact hx
  have hnew : ∀ {i x m m'}, Holds s i x m → sdu.pdcpSn = some m' →
      (m : Nat) % cfg.capacity ≠ m' % cfg.capacity := by
    intro i x m m' hm hm'
    exact h.claimed (by rw [hclaim, hm']; rfl) i x m hm
  constructor
  · intro i x m hm
    rcases hcases hm with hm | ⟨rfl, rfl, hm⟩
    · exact h.state_eq hm
    · have hnot : s.accepted.length ∉ s.discarded := fun hd => Nat.lt_irrefl _ (hlt _ hd)
      show s.sduStates _ = if s.accepted.length ∈ s.discarded then _ else _
      rw [if_neg hnot]
      exact (hok m hm).2
  · intro i x m hm
    rcases hcases hm with hm | ⟨rfl, rfl, hm⟩
    · exact h.size_eq hm
    · exact (hok m hm).1
  · intro i x m j x' m' hm hm' heq
    rcases hcases hm with h₁ | ⟨h₁, -, hsn⟩ <;> rcases hcases hm' with h₂ | ⟨h₂, -, hsn'⟩
    · exact h.apart h₁ h₂ heq
    · exact absurd heq (hnew h₁ hsn')
    · exact absurd heq.symm (hnew h₂ hsn)
    · rw [h₁, h₂]
  · intro k hk _
    refine h.free (fun i x m hm => hk i x m (hold hm)) ?_
    rw [hclaim]
    intro hc
    obtain ⟨m, hm, rfl⟩ := Option.map_eq_some_iff.1 hc
    refine hk s.accepted.length sdu m ⟨hlo, ?_, hm⟩ rfl
    show (s.accepted ++ [sdu])[s.accepted.length]? = some sdu
    simp
  · intro k hk
    cases hk

/-- A discard marks the slot of the one SDU that owns it. -/
theorem Slots.discard (hold : Holds s i sdu sn)
    (hholds : ∀ {j x m}, Holds t j x m ↔ Holds s j x m)
    (hst : t.sduStates = Function.update s.sduStates (sn % cfg.capacity) stateDiscarded)
    (hsz : t.sduSizes = s.sduSizes) (hd : t.discarded = s.discarded ++ [i])
    (hcs : s.producer.claim cfg = none) (hct : t.producer.claim cfg = none) : Slots cfg t := by
  constructor
  · intro j x m hm
    have hm := hholds.1 hm
    rw [hst, hd]
    by_cases hk : (m : Nat) % cfg.capacity = sn % cfg.capacity
    · rw [hk, Function.update_self, h.apart hm hold hk, if_pos (by simp)]
    · have hji : j ≠ i := by
        rintro rfl
        obtain rfl : sdu = x := Option.some.inj (hold.2.1.symm.trans hm.2.1)
        obtain rfl : sn = m := Option.some.inj (hold.2.2.symm.trans hm.2.2)
        exact hk rfl
      rw [Function.update_of_ne hk, h.state_eq hm]
      simp [hji]
  · intro j x m hm
    rw [hsz]
    exact h.size_eq (hholds.1 hm)
  · intro j x m j' x' m' hm hm'
    exact h.apart (hholds.1 hm) (hholds.1 hm')
  · intro k hk _
    have hkk : k ≠ sn % cfg.capacity := fun he => hk i sdu sn (hholds.2 hold) he.symm
    rw [hst, Function.update_of_ne hkk]
    exact h.free (fun j x m hm => hk j x m (hholds.2 hm)) (by rw [hcs]; exact nofun)
  · intro k hk
    rw [hct] at hk
    cases hk

end

/-! ### Positions -/

theorem Order.length_accepted (h : Order s) :
    s.accepted.length = s.left.length + (s.consumer.held.length + s.queue.length) := by
  rw [h.split]
  simp

theorem Order.lo_le (h : Order s) : s.lo ≤ s.accepted.length := by
  rw [h.length_accepted, State.lo]
  cases s.consumer <;> simp [Consumer.unslotted, Consumer.held]

theorem Order.discarded_lt (h : Order s) (hi : i ∈ s.discarded) :
    i < s.accepted.length := by
  obtain ⟨d, hd, rfl⟩ := List.mem_map.1 hi
  obtain ⟨sdu, hsdu, -⟩ := Option.bind_eq_some_iff.1 (h.target d hd).2
  exact (List.getElem?_eq_some_iff.1 hsdu).1

/-- The SDU in the consumer's hands is the next one to leave. -/
theorem Order.held_eq (h : Order s) (hh : s.consumer.held = [sdu]) :
    s.accepted[s.left.length]? = some sdu := by
  rw [h.split, hh, List.getElem?_append_right (by simp)]
  simp

/-- A slot that holds an SN is owned by an SDU with that SN that is not discarded. -/
theorem Slots.exists_owner (h : Slots cfg s) (hsn : s.sduStates (sn % cfg.capacity) = sn)
    (hc : s.producer.claim cfg = none) :
    ∃ i sdu, Holds s i sdu sn ∧ i ∉ s.discarded := by
  by_contra hno
  refine PdcpSn.ne_free sn (hsn ▸ h.free (fun i x m hm heq => hno ?_) (by rw [hc]; exact nofun))
  have hst := h.state_eq hm
  rw [heq, hsn] at hst
  split at hst
  · exact absurd hst (PdcpSn.ne_discarded sn)
  · next hi =>
    obtain rfl : sn = m := Subtype.ext hst
    exact ⟨i, x, hm, hi⟩

/-- The position recorded by a discard is the position of the owner. -/
theorem Slots.recorded_eq (h : Slots cfg s) (hold : Holds s i sdu sn) :
    s.lo + (s.accepted.drop s.lo).findIdx (fun x => x.pdcpSn = some sn) = i := by
  obtain ⟨hlo, hi, hsn⟩ := hold
  have hdrop : (s.accepted.drop s.lo)[i - s.lo]? = some sdu := by
    rw [List.getElem?_drop, Nat.add_sub_cancel' hlo]
    exact hi
  set p : RlcSdu → Bool := fun x => x.pdcpSn = some sn
  have hfound : (s.accepted.drop s.lo).findIdx p < (s.accepted.drop s.lo).length :=
    List.findIdx_lt_length_of_exists ⟨sdu, List.mem_of_getElem? hdrop, by simpa [p] using hsn⟩
  have hfirst : Holds s (s.lo + (s.accepted.drop s.lo).findIdx p)
      ((s.accepted.drop s.lo)[(s.accepted.drop s.lo).findIdx p]) sn := by
    refine ⟨Nat.le_add_right _ _, ?_, ?_⟩
    · rw [← List.getElem?_drop]
      exact List.getElem?_eq_getElem hfound
    · have hp := List.findIdx_getElem (w := hfound)
      exact of_decide_eq_true hp
  exact h.apart hfirst ⟨hlo, hi, hsn⟩ rfl

/-! ### Totals -/

/-- Positions of the SDUs that own their slot (if they have an SN) and are not discarded. -/
def State.live (s : State) : Finset Nat := {i ∈ Ico s.lo s.accepted.length | i ∉ s.discarded}

def State.sizeAt (s : State) (i : Nat) : Nat := (s.accepted[i]?).elim 0 fun sdu => sdu.buf.length

/-- What the consumer still has to subtract, as a function of the SDU size. -/
def Consumer.pending (f : Nat → Nat) : Consumer → Nat
  | .released _ size _ => f size
  | _ => 0

/-- Sum of `f size` over the SDUs that count for the totals. -/
def State.total (s : State) (f : Nat → Nat) : Nat :=
  ∑ i ∈ s.live, f (s.sizeAt i) + s.consumer.pending f

/-- What the producer still has to add. -/
def Producer.toAdd : Producer → Nat
  | .addTotals size => stateChange size
  | _ => 0

/-- What the producer still has to subtract. -/
def State.toSub (cfg : Config) (s : State) : Nat :=
  match s.producer with
  | .loadSize sn true => stateChange (s.sduSizes (sn % cfg.capacity))
  | .subTotals size => stateChange size
  | _ => 0

/-- The SDU of a `write` in progress that passed the byte limit check and is not pushed yet. -/
def Producer.writing : Producer → Option RlcSdu
  | .loadSlot sdu | .storeSize sdu _ | .storeState sdu _ | .push sdu => some sdu
  | _ => none

/-- The packed counter is the sum over the live SDUs, up to pending updates, and never overflows
its lower half. -/
structure Totals (cfg : Config) (s : State) : Prop where
  lt : s.state < 2 ^ 64
  sum : (s.state + s.producer.toAdd) % 2 ^ 64 = (s.total stateChange + s.toSub cfg) % 2 ^ 64
  limit : s.total id ≤ cfg.byteLimit
  fits : ∀ sdu, s.producer.writing = some sdu → s.total id + sdu.buf.length < cfg.byteLimit
  room : s.queue.length ≤ cfg.capacity

theorem stateChange_le (n : Nat) : stateChange n ≤ 2 ^ 64 := by
  have h : stateChange n < 2 ^ 64 :=
    Nat.or_lt_two_pow (by decide) (Nat.lt_of_lt_of_le (Nat.mod_lt _ (by decide)) (by decide))
  exact h.le

theorem stateChange_eq {n : Nat} (hn : n < 2 ^ 32) : stateChange n = 2 ^ 32 + n := by
  unfold stateChange
  rw [Nat.mod_eq_of_lt hn, ← Nat.shiftLeft_add_eq_or_of_lt hn, Nat.shiftLeft_eq, one_mul]

section Total

variable (f : Nat → Nat)

theorem total_congr (hlo : t.lo = s.lo) (hacc : t.accepted = s.accepted)
    (hd : t.discarded = s.discarded) (hc : t.consumer.pending f = s.consumer.pending f) :
    t.total f = s.total f := by
  simp [State.total, State.live, State.sizeAt, hlo, hacc, hd, hc]

theorem sizeAt_congr (hacc : t.accepted = s.accepted) : t.sizeAt = s.sizeAt := by
  funext i
  rw [State.sizeAt, hacc, State.sizeAt]

theorem total_push (ho : Order s) (hlo : t.lo = s.lo) (hacc : t.accepted = s.accepted ++ [sdu])
    (hd : t.discarded = s.discarded) (hc : t.consumer = s.consumer) :
    t.total f = s.total f + f sdu.buf.length := by
  have hnot : s.accepted.length ∉ s.discarded := fun h => Nat.lt_irrefl _ (ho.discarded_lt h)
  have hlive : t.live = insert s.accepted.length s.live := by
    rw [State.live, hlo, hacc, hd, List.length_append, List.length_singleton,
      ← insert_Ico_right_eq_Ico_add_one ho.lo_le, filter_insert, if_pos hnot]
    rfl
  have hnew : s.accepted.length ∉ s.live := by simp [State.live]
  have hsize : ∀ i ∈ s.live, t.sizeAt i = s.sizeAt i := by
    intro i hi
    simp only [State.live, mem_filter, mem_Ico] at hi
    simp [State.sizeAt, hacc, List.getElem?_append_left hi.1.2]
  have hlast : t.sizeAt s.accepted.length = sdu.buf.length := by simp [State.sizeAt, hacc]
  unfold State.total
  rw [hlive, sum_insert hnew, hlast, hc, sum_congr rfl fun i hi => congrArg f (hsize i hi)]
  omega

theorem total_discard (hi : i ∈ s.live) (hlo : t.lo = s.lo) (hacc : t.accepted = s.accepted)
    (hd : t.discarded = s.discarded ++ [i]) (hc : t.consumer = s.consumer) :
    s.total f = t.total f + f (s.sizeAt i) := by
  have hlive : t.live = s.live.erase i := by
    ext j
    simp only [State.live, hlo, hacc, hd, List.mem_append, List.mem_singleton, mem_filter,
      mem_Ico, mem_erase, not_or]
    tauto
  have hsize := sizeAt_congr hacc
  unfold State.total
  rw [hlive, hsize, hc, ← add_sum_erase s.live (fun j => f (s.sizeAt j)) hi]
  omega

/-- Moving past the oldest position takes its share out of the sum. -/
theorem sum_live_succ (hlt : s.lo < s.accepted.length) (hlo : t.lo = s.lo + 1)
    (hacc : t.accepted = s.accepted) (hd : t.discarded = s.discarded) :
    ∑ i ∈ s.live, f (s.sizeAt i) =
      ∑ i ∈ t.live, f (t.sizeAt i) + if s.lo ∈ s.discarded then 0 else f (s.sizeAt s.lo) := by
  have hsize := sizeAt_congr hacc
  rw [State.live, State.live, hlo, hacc, hd, hsize, sum_filter, sum_filter,
    sum_eq_sum_Ico_succ_bot hlt, add_comm, ite_not]

end Total

/-! ## Preservation -/

structure Inv (cfg : Config) (s : State) : Prop where
  order : Order s
  slots : Slots cfg s
  producer : ProducerOk cfg s
  consumer : ConsumerOk s
  totals : Totals cfg s

/-- Summing the operands of `state_add` keeps number and bytes apart as long as the bytes fit. -/
theorem total_stateChange (h : s.total id < 2 ^ 32) :
    s.total stateChange = 2 ^ 32 * s.total (fun _ => 1) + s.total id := by
  have hpend : s.consumer.pending stateChange =
      2 ^ 32 * s.consumer.pending (fun _ => 1) + s.consumer.pending id := by
    have hle : s.consumer.pending id ≤ s.total id := Nat.le_add_left _ _
    cases hc : s.consumer with
    | released sdu size valid =>
      simp only [hc, Consumer.pending, id] at hle ⊢
      rw [stateChange_eq (by omega), mul_one]
    | _ => rfl
  have hsum : ∑ i ∈ s.live, stateChange (s.sizeAt i) =
      2 ^ 32 * ∑ i ∈ s.live, 1 + ∑ i ∈ s.live, id (s.sizeAt i) := by
    rw [mul_sum, ← sum_add_distrib]
    refine sum_congr rfl fun i hi => ?_
    have hle : s.sizeAt i ≤ _ :=
      single_le_sum (f := fun j => id (s.sizeAt j)) (fun _ _ => Nat.zero_le _) hi
    rw [mul_one, stateChange_eq ((hle.trans (Nat.le_add_right _ _)).trans_lt h)]
    rfl
  simp only [State.total, hpend, hsum]
  ring

theorem Inv.count_le (h : Inv cfg s) : s.total (fun _ => 1) ≤ cfg.capacity + 1 := by
  have hcard : s.live.card ≤ s.accepted.length - s.lo := by
    rw [← Nat.card_Ico]
    exact card_filter_le _ _
  have hlen := h.order.length_accepted
  have hroom := h.totals.room
  have hlo : s.lo = s.left.length + s.consumer.unslotted := rfl
  have hpend : s.consumer.pending (fun _ => 1) = s.consumer.unslotted := by
    cases s.consumer <;> rfl
  have hheld : s.consumer.held.length ≤ 1 ∧ s.consumer.unslotted ≤ s.consumer.held.length := by
    cases s.consumer <;> simp [Consumer.held, Consumer.unslotted]
  rw [State.total, hpend, ← card_eq_sum_ones]
  omega

theorem getState_of_eq {n b : Nat} (h : s.state = 2 ^ 32 * n + b) (hb : b < 2 ^ 32) :
    s.nSdus = n ∧ s.nBytes = b := by
  constructor
  · rw [State.nSdus, Nat.shiftRight_eq_div_pow, h]
    omega
  · rw [State.nBytes, show (0xffffffff : Nat) = 2 ^ 32 - 1 from rfl,
      Nat.and_two_pow_sub_one_eq_mod, h]
    omega

section

variable (h : Inv cfg s)

include h

/-- With the producer idle, the counter decodes to the number and the bytes of the SDUs that
count. -/
theorem Inv.getState_eq (hp : s.producer = .idle) :
    s.nSdus = s.total (fun _ => 1) ∧ s.nBytes = s.total id := by
  have hlimit := h.totals.limit
  have hbl := cfg.byteLimit_lt
  have hcl := cfg.capacity_lt
  have hcount := h.count_le
  have hchange := total_stateChange (s := s) (by omega)
  have hstate : s.state = s.total stateChange := by
    have hlt := h.totals.lt
    have hsum := h.totals.sum
    have hsub : s.toSub cfg = 0 := by simp [State.toSub, hp]
    simp only [hp, Producer.toAdd, hsub, add_zero] at hsum
    omega
  exact getState_of_eq (hstate.trans hchange) (by omega)

/-- Moves of the producer that touch no shared variable but the slots. -/
theorem Inv.setProducer {st sz : Nat → Nat} {p q : Producer} (hq : s.producer = q)
    (hslots : Slots cfg { s with sduStates := st, sduSizes := sz, producer := p })
    (hok : ProducerOk cfg { s with sduStates := st, sduSizes := sz, producer := p })
    (hadd : p.toAdd = q.toAdd)
    (hsub : State.toSub cfg { s with sduStates := st, sduSizes := sz, producer := p } =
      State.toSub cfg { s with producer := q })
    (hfits : ∀ sdu, p.writing = some sdu → s.total id + sdu.buf.length < cfg.byteLimit) :
    Inv cfg { s with sduStates := st, sduSizes := sz, producer := p } := by
  subst hq
  exact ⟨⟨h.order.split, h.order.fate, h.order.nodup, h.order.target⟩, hslots, hok, h.consumer,
    ⟨h.totals.lt, by rw [hsub]; exact hadd ▸ h.totals.sum, h.totals.limit, hfits, h.totals.room⟩⟩

/-- Moves of the consumer that keep what it holds, together with the queue. -/
theorem Inv.setConsumer {c d : Consumer} {q : List RlcSdu} (hd : s.consumer = d)
    (hheld : c.held ++ q = d.held ++ s.queue) (hq : q.length ≤ s.queue.length)
    (hun : c.unslotted = d.unslotted) (hpend : ∀ f, c.pending f = d.pending f)
    (hok : ConsumerOk { s with queue := q, consumer := c }) :
    Inv cfg { s with queue := q, consumer := c } := by
  subst hd
  have hlo : State.lo { s with queue := q, consumer := c } = s.lo :=
    congrArg (s.left.length + ·) hun
  have htotal : ∀ f, State.total { s with queue := q, consumer := c } f = s.total f :=
    fun f => total_congr f hlo rfl rfl (hpend f)
  refine ⟨⟨?_, h.order.fate, h.order.nodup, h.order.target⟩, ?_, h.producer, hok, ?_⟩
  · show s.accepted = _ ++ (c.held ++ q)
    rw [hheld]
    exact h.order.split
  · refine h.slots.frame ?_ rfl rfl rfl rfl
    intro i sdu sn
    unfold Holds
    rw [hlo]
  · refine ⟨h.totals.lt, ?_, ?_, ?_, hq.trans h.totals.room⟩
    · rw [htotal]
      exact h.totals.sum
    · rw [htotal]
      exact h.totals.limit
    · rw [htotal]
      exact h.totals.fits

/-- A successful discard hits the owner of the slot and takes it out of the totals. -/
theorem Inv.discarded_owner (hp : s.producer = .idle)
    (hsn : s.sduStates (sn % cfg.capacity) = sn) {t : State}
    (ht : t = { (s.setSlot (sn % cfg.capacity) stateDiscarded).recordDiscard sn with
      producer := .loadSize sn true }) :
    ∃ i sdu, Holds s i sdu sn ∧ i ∉ s.discarded ∧
      t.discards = s.discards ++ [⟨sn, i, s.left.length⟩] ∧
      t.discarded = s.discarded ++ [i] ∧ s.sduSizes (sn % cfg.capacity) = s.sizeAt i ∧
      ∀ f, s.total f = t.total f + f (s.sizeAt i) := by
  have hc : s.producer.claim cfg = none := by rw [hp]; rfl
  obtain ⟨i, sdu, hold, hi⟩ := h.slots.exists_owner hsn hc
  have hd : t.discards = s.discards ++ [⟨sn, i, s.left.length⟩] := by
    rw [ht, ← h.slots.recorded_eq hold]
    rfl
  have hdisc : t.discarded = s.discarded ++ [i] := by simp [State.discarded, hd]
  have hlt : i < s.accepted.length := (List.getElem?_eq_some_iff.1 hold.2.1).1
  have hlive : i ∈ s.live := by
    rw [State.live, mem_filter, mem_Ico]
    exact ⟨⟨hold.1, hlt⟩, hi⟩
  have hsize : s.sduSizes (sn % cfg.capacity) = s.sizeAt i := by
    rw [h.slots.size_eq hold, State.sizeAt, hold.2.1]
    rfl
  subst ht
  exact ⟨i, sdu, hold, hi, hd, hdisc, hsize, fun f => total_discard f hlive rfl rfl hdisc rfl⟩

theorem Inv.discardHit (hp : s.producer = .idle)
    (hsn : s.sduStates (sn % cfg.capacity) = sn) :
    Inv cfg { (s.setSlot (sn % cfg.capacity) stateDiscarded).recordDiscard sn with
      producer := .loadSize sn true } := by
  obtain ⟨i, sdu, hold, hi, hd, hdisc, hsize, htotal⟩ := h.discarded_owner hp hsn rfl
  set t : State := { (s.setSlot (sn % cfg.capacity) stateDiscarded).recordDiscard sn with
      producer := .loadSize sn true }
  have hc : s.producer.claim cfg = none := by rw [hp]; rfl
  have hleft : s.left.length ≤ i := (Nat.le_add_right _ _).trans hold.1
  refine ⟨⟨h.order.split, ?_, ?_, ?_⟩, ?_, trivial, ?_, ?_⟩
  · intro j x f hj
    have hji : j ≠ i := by
      have := (List.getElem?_eq_some_iff.1 hj).1
      show j ≠ i
      have hj' : j < s.left.length := this
      omega
    rw [hdisc, h.order.fate j x f hj]
    simp [hji]
  · rw [hdisc, List.nodup_append]
    exact ⟨h.order.nodup, List.nodup_singleton i, by
      intro a ha b hb
      obtain rfl := List.mem_singleton.1 hb
      exact fun he => hi (he ▸ ha)⟩
  · intro d hdm
    rw [hd, List.mem_append, List.mem_singleton] at hdm
    rcases hdm with hdm | rfl
    · exact h.order.target d hdm
    · exact ⟨hleft, by rw [Option.bind_eq_some_iff]; exact ⟨sdu, hold.2⟩⟩
  · exact h.slots.discard hold Iff.rfl rfl rfl hdisc hc rfl
  · have hcons := h.consumer
    unfold ConsumerOk at hcons ⊢
    show match s.consumer with
      | .sized sdu sn size => sdu.pdcpSn = some sn ∧ size = sdu.buf.length
      | .released sdu size valid =>
        valid = true ∧ size = sdu.buf.length ∧ s.left.length ∉ t.discarded
      | _ => True
    cases hcc : s.consumer with
    | released x size valid =>
      rw [hcc] at hcons
      refine ⟨hcons.1, hcons.2.1, ?_⟩
      have hlo := hold.1
      simp only [State.lo, hcc, Consumer.unslotted] at hlo
      rw [hdisc]
      simp only [List.mem_append, List.mem_singleton, not_or]
      exact ⟨hcons.2.2, by omega⟩
    | sized x m size => rw [hcc] at hcons; exact hcons
    | _ => trivial
  · have hsum := h.totals.sum
    have hsub : s.toSub cfg = 0 := by simp [State.toSub, hp]
    have htsub : t.toSub cfg = stateChange (s.sizeAt i) := congrArg stateChange hsize
    refine ⟨h.totals.lt, ?_, ?_, nofun, h.totals.room⟩
    · rw [htsub, ← htotal]
      simp only [hp, Producer.toAdd, hsub, add_zero] at hsum
      exact hsum
    · have := htotal id
      have hl := h.totals.limit
      omega

theorem Inv.pushed (hp : s.producer = .push sdu)
    (hroom : s.queue.length < cfg.capacity) :
    Inv cfg { s with
      queue := s.queue ++ [sdu], accepted := s.accepted ++ [sdu]
      producer := .addTotals sdu.buf.length } := by
  set t : State := { s with
    queue := s.queue ++ [sdu], accepted := s.accepted ++ [sdu]
    producer := .addTotals sdu.buf.length }
  have htotal : ∀ f, t.total f = s.total f + f sdu.buf.length :=
    fun f => total_push f h.order rfl rfl rfl rfl
  refine ⟨⟨?_, h.order.fate, h.order.nodup, ?_⟩, ?_, trivial, h.consumer, ?_⟩
  · show s.accepted ++ [sdu] = s.left.map Prod.fst ++ (s.consumer.held ++ (s.queue ++ [sdu]))
    rw [h.order.split]
    simp
  · intro d hd
    refine ⟨(h.order.target d hd).1, ?_⟩
    show ((s.accepted ++ [sdu])[d.index]?).bind RlcSdu.pdcpSn = some d.sn
    rw [List.getElem?_append_left (h.order.discarded_lt (List.mem_map_of_mem hd))]
    exact (h.order.target d hd).2
  · exact h.slots.push hp h.producer h.order.lo_le (fun _ hi => h.order.discarded_lt hi) _
  · have hsum := h.totals.sum
    have hfits := h.totals.fits sdu (by rw [hp]; rfl)
    have hsub : s.toSub cfg = 0 := by simp [State.toSub, hp]
    refine ⟨h.totals.lt, ?_, ?_, nofun, ?_⟩
    · rw [htotal]
      simp only [hp, Producer.toAdd, hsub, add_zero] at hsum
      show (s.state + stateChange sdu.buf.length) % 2 ^ 64 =
        (s.total stateChange + stateChange sdu.buf.length + 0) % 2 ^ 64
      omega
    · rw [htotal]
      exact hfits.le
    · show (s.queue ++ [sdu]).length ≤ _
      simp only [List.length_append, List.length_singleton]
      exact hroom

/-- The consumer is done with the oldest SDU: it leaves, or its slot is released. -/
theorem Inv.pass (hheld : s.consumer.held.length = 1)
    (hun : s.consumer.unslotted = 0) (hacc : t.accepted = s.accepted) (hq : t.queue = s.queue)
    (hd : t.discards = s.discards) (hp : t.producer = s.producer) (hsz : t.sduSizes = s.sduSizes)
    (hsplit : t.left.map Prod.fst ++ t.consumer.held = s.left.map Prod.fst ++ s.consumer.held)
    (hlo : t.lo = s.lo + 1) (hslots : Slots cfg t) (hok : ConsumerOk t)
    (hprod : ProducerOk cfg t)
    (hfate : ∀ i sdu f, t.left[i]? = some (sdu, f) → (f = .dropped ↔ i ∈ s.discarded))
    (hstate : t.state < 2 ^ 64)
    (hsum : (t.state + if s.lo ∈ s.discarded then 0 else stateChange (s.sizeAt s.lo)) % 2 ^ 64 =
      (s.state + t.consumer.pending stateChange) % 2 ^ 64)
    (hbytes : t.consumer.pending id ≤ if s.lo ∈ s.discarded then 0 else s.sizeAt s.lo) :
    Inv cfg t := by
  have hdisc : t.discarded = s.discarded := congrArg (List.map Discard.index) hd
  have hlt : s.lo < s.accepted.length := by
    rw [h.order.length_accepted, State.lo, hheld, hun]
    omega
  have hpend : ∀ f, s.consumer.pending f = 0 := by
    intro f
    cases hc : s.consumer with
    | released => simp [hc, Consumer.unslotted] at hun
    | _ => rfl
  have htotal : ∀ f, s.total f + t.consumer.pending f =
      t.total f + if s.lo ∈ s.discarded then 0 else f (s.sizeAt s.lo) := by
    intro f
    rw [State.total, hpend, sum_live_succ f hlt hlo hacc hdisc, State.total]
    omega
  have hbt : t.total id ≤ s.total id := by
    have := htotal id
    simp only [id] at this hbytes ⊢
    omega
  refine ⟨⟨?_, ?_, ?_, ?_⟩, hslots, hprod, hok, ⟨hstate, ?_, ?_, ?_, ?_⟩⟩
  · rw [hacc, h.order.split, hq, ← List.append_assoc, ← List.append_assoc, hsplit]
  · rw [hdisc]
    exact hfate
  · rw [hdisc]
    exact h.order.nodup
  · rw [hd, hacc]
    exact h.order.target
  · have hsub : t.toSub cfg = s.toSub cfg := by simp [State.toSub, hp, hsz]
    have hold := h.totals.sum
    have := htotal stateChange
    rw [hp, hsub]
    omega
  · exact hbt.trans h.totals.limit
  · intro sdu hw
    have := h.totals.fits sdu (hp ▸ hw)
    omega
  · rw [hq]
    exact h.totals.room

end

theorem Order.fate_leave (h : Order s) {fate : Fate}
    (hf : fate = .dropped ↔ s.left.length ∈ s.discarded) (i : Nat) (x : RlcSdu) (f : Fate)
    (hi : (s.left ++ [(sdu, fate)])[i]? = some (x, f)) : f = .dropped ↔ i ∈ s.discarded := by
  rcases Nat.lt_or_ge i s.left.length with hlt | hge
  · rw [List.getElem?_append_left hlt] at hi
    exact h.fate i x f hi
  · rw [List.getElem?_append_right hge] at hi
    obtain ⟨hk, heq⟩ := List.getElem?_eq_some_iff.1 hi
    simp only [List.length_singleton, Nat.lt_one_iff] at hk
    obtain rfl : fate = f := by
      simp only [hk, List.getElem_cons_zero, Prod.mk.injEq] at heq
      exact heq.2
    obtain rfl : i = s.left.length := by omega
    exact hf

theorem Inv.returnedPlain (h : Inv cfg s) (hc : s.consumer = .popped sdu) (hn : sdu.pdcpSn = none) :
    Inv cfg { (s.stateSub sdu.buf.length).leave sdu .returned with consumer := .idle } := by
  set t : State := { (s.stateSub sdu.buf.length).leave sdu .returned with consumer := .idle }
  have hlo : s.lo = s.left.length := by simp [State.lo, hc, Consumer.unslotted]
  have htlo : t.lo = s.lo + 1 := by
    rw [hlo]
    show (s.left ++ [(sdu, Fate.returned)]).length + 0 = _
    simp
  have hat : s.accepted[s.lo]? = some sdu := hlo ▸ h.order.held_eq (by rw [hc]; rfl)
  have hnot : s.lo ∉ s.discarded := by
    intro hd
    obtain ⟨d, hd, hidx⟩ := List.mem_map.1 hd
    have := (h.order.target d hd).2
    rw [hidx, hat, Option.bind_some, hn] at this
    cases this
  have hsize : s.sizeAt s.lo = sdu.buf.length := by rw [State.sizeAt, hat]; rfl
  refine h.pass (by rw [hc]; rfl) (by rw [hc]; rfl) rfl rfl rfl rfl rfl ?_ htlo ?_ trivial
    h.producer ?_ (Nat.mod_lt _ (by decide)) ?_ (Nat.zero_le _)
  · show (s.left ++ [(sdu, Fate.returned)]).map Prod.fst ++ [] = _
    simp [hc, Consumer.held]
  · refine h.slots.frame ?_ rfl rfl rfl rfl
    intro i x m
    constructor
    · rintro ⟨hi, hx⟩
      exact ⟨by omega, hx⟩
    · rintro ⟨hi, hx, hm⟩
      refine ⟨?_, hx, hm⟩
      have hne : s.lo ≠ i := by
        rintro rfl
        obtain rfl : sdu = x := Option.some.inj (hat.symm.trans hx)
        rw [hn] at hm
        cases hm
      omega
  · exact h.order.fate_leave (by simpa [← hlo] using hnot)
  · rw [if_neg hnot, hsize]
    have := stateChange_le sdu.buf.length
    show ((s.state + (2 ^ 64 - stateChange sdu.buf.length)) % 2 ^ 64 +
      stateChange sdu.buf.length) % 2 ^ 64 = (s.state + 0) % 2 ^ 64
    omega

section Release

variable {sdu : RlcSdu} {sn : PdcpSn} {size : Nat}

theorem Inv.holds_sized (h : Inv cfg s) (hc : s.consumer = .sized sdu sn size) :
    s.lo = s.left.length ∧ Holds s s.lo sdu sn ∧ size = s.sizeAt s.lo := by
  have hlo : s.lo = s.left.length := by simp [State.lo, hc, Consumer.unslotted]
  have hat : s.accepted[s.lo]? = some sdu := hlo ▸ h.order.held_eq (by rw [hc]; rfl)
  have hok := h.consumer
  simp only [ConsumerOk, hc] at hok
  refine ⟨hlo, ⟨le_rfl, hat, hok.1⟩, ?_⟩
  rw [State.sizeAt, hat]
  exact hok.2

/-- What a `write` has claimed is not the slot being released. -/
theorem Inv.producerOk_release (h : Inv cfg s) (hold : Holds s s.lo sdu sn)
    (hst : t.sduStates = Function.update s.sduStates (sn % cfg.capacity) stateFree)
    (hsz : t.sduSizes = s.sduSizes) (hp : t.producer = s.producer) : ProducerOk cfg t := by
  have hok := h.producer
  unfold ProducerOk at hok ⊢
  rw [hp, hsz, hst]
  cases hpp : s.producer with
  | push x =>
    rw [hpp] at hok
    intro m hm
    have hne : (sn : Nat) % cfg.capacity ≠ m % cfg.capacity :=
      h.slots.claimed (by rw [hpp, Producer.claim, hm]; rfl) _ _ _ hold
    rw [Function.update_of_ne (Ne.symm hne)]
    exact hok m hm
  | storeSize x m | storeState x m => rw [hpp] at hok; exact hok
  | _ => trivial

theorem Inv.slotReleased (h : Inv cfg s) (hc : s.consumer = .sized sdu sn size)
    (hsn : s.sduStates (sn % cfg.capacity) = sn) :
    Inv cfg { s.setSlot (sn % cfg.capacity) stateFree with
      consumer := .released sdu size true } := by
  obtain ⟨hlo, hold, hsize⟩ := h.holds_sized hc
  have hnot : s.lo ∉ s.discarded := by
    intro hd
    have := h.slots.state_eq hold
    rw [hsn, if_pos hd] at this
    exact PdcpSn.ne_discarded sn this
  have hok := h.consumer
  simp only [ConsumerOk, hc] at hok
  have hst : Slots cfg { s.setSlot (sn % cfg.capacity) stateFree with
      consumer := .released sdu size true } :=
    h.slots.release hold (congrArg (· + 1) hlo.symm) rfl rfl rfl rfl rfl
  refine h.pass (by rw [hc]; rfl) (by rw [hc]; rfl) rfl rfl rfl rfl rfl ?_
    (congrArg (· + 1) hlo.symm) hst ⟨rfl, hok.2, hlo ▸ hnot⟩
    (h.producerOk_release hold rfl rfl rfl) h.order.fate h.totals.lt ?_ ?_
  · rw [hc]
    rfl
  · rw [if_neg hnot, ← hsize]
    rfl
  · rw [if_neg hnot, ← hsize]
    exact le_rfl

theorem Inv.dropped (h : Inv cfg s) (hc : s.consumer = .sized sdu sn size)
    (hdisc : s.sduStates (sn % cfg.capacity) = stateDiscarded) :
    Inv cfg { (s.setSlot (sn % cfg.capacity) stateFree).leave sdu .dropped with
      consumer := .pop } := by
  obtain ⟨hlo, hold, -⟩ := h.holds_sized hc
  have hmem : s.lo ∈ s.discarded := by
    by_contra hd
    have := h.slots.state_eq hold
    rw [hdisc, if_neg hd] at this
    exact PdcpSn.ne_discarded sn this.symm
  have htlo : State.lo { (s.setSlot (sn % cfg.capacity) stateFree).leave sdu .dropped with
      consumer := .pop } = s.lo + 1 := by
    rw [hlo]
    show (s.left ++ [(sdu, Fate.dropped)]).length + 0 = _
    simp
  refine h.pass (by rw [hc]; rfl) (by rw [hc]; rfl) rfl rfl rfl rfl rfl ?_ htlo
    (h.slots.release hold htlo rfl rfl rfl rfl rfl) trivial (h.producerOk_release hold rfl rfl rfl)
    ?_ h.totals.lt ?_ (Nat.zero_le _)
  · show (s.left ++ [(sdu, Fate.dropped)]).map Prod.fst ++ [] = _
    simp [hc, Consumer.held]
  · exact h.order.fate_leave (by simpa [← hlo] using hmem)
  · rw [if_pos hmem]
    rfl

end Release

theorem Inv.returned (h : Inv cfg s) {size : Nat} {valid : Bool}
    (hc : s.consumer = .released sdu size valid) :
    Inv cfg { (s.stateSub size).leave sdu .returned with consumer := .idle } := by
  set t : State := { (s.stateSub size).leave sdu .returned with consumer := .idle }
  have hok := h.consumer
  simp only [ConsumerOk, hc] at hok
  have hlo : t.lo = s.lo := by
    show (s.left ++ [(sdu, Fate.returned)]).length + 0 = s.left.length + s.consumer.unslotted
    simp [hc, Consumer.unslotted]
  have htotal : ∀ f, s.total f = t.total f + f size := by
    intro f
    have hlive : t.live = s.live := by
      unfold State.live
      rw [hlo]
      rfl
    simp only [State.total, hlive, hc]
    rfl
  refine ⟨⟨?_, ?_, h.order.nodup, h.order.target⟩, ?_, h.producer, trivial,
    ⟨Nat.mod_lt _ (by decide), ?_, ?_, ?_, h.totals.room⟩⟩
  · show s.accepted = (s.left ++ [(sdu, Fate.returned)]).map Prod.fst ++ ([] ++ s.queue)
    rw [h.order.split]
    simp [hc, Consumer.held]
  · exact h.order.fate_leave (by simpa using hok.2.2)
  · refine h.slots.frame ?_ rfl rfl rfl rfl
    intro i x m
    unfold Holds
    rw [hlo]
    rfl
  · have hsum := h.totals.sum
    have hch := stateChange_le size
    rw [htotal] at hsum
    show ((s.state + (2 ^ 64 - stateChange size)) % 2 ^ 64 + s.producer.toAdd) % 2 ^ 64 =
      (t.total stateChange + s.toSub cfg) % 2 ^ 64
    omega
  · have hlimit := h.totals.limit
    have := htotal id
    omega
  · intro x hx
    have := h.totals.fits x hx
    have := htotal id
    omega

/-- The producer brings the counter up to date. -/
theorem Inv.settle (h : Inv cfg s) {st : Nat} (hclaim : s.producer.claim cfg = none)
    (hlt : st < 2 ^ 64)
    (hst : (st + s.toSub cfg) % 2 ^ 64 = (s.state + s.producer.toAdd) % 2 ^ 64) :
    Inv cfg { s with state := st, producer := .idle } where
  order := ⟨h.order.split, h.order.fate, h.order.nodup, h.order.target⟩
  slots := h.slots.frame Iff.rfl rfl rfl rfl hclaim.symm
  producer := trivial
  consumer := h.consumer
  totals := by
    have hsum := h.totals.sum
    refine ⟨hlt, ?_, h.totals.limit, nofun, h.totals.room⟩
    show (st + 0) % 2 ^ 64 = (s.total stateChange + 0) % 2 ^ 64
    omega

section

variable (h : Inv cfg s)

include h

theorem Inv.startWrite (hp : s.producer = .idle) (sdu : RlcSdu) :
    Inv cfg (startWrite cfg s sdu) := by
  unfold SduQueue.startWrite
  split
  · exact h
  · next hlimit =>
    refine h.setProducer hp (h.slots.setProducer hp rfl) trivial rfl rfl ?_
    intro x hx
    obtain rfl : sdu = x := Option.some.inj hx
    rw [(h.getState_eq hp).2] at hlimit
    omega

theorem Inv.startDiscard (hp : s.producer = .idle) (sn : PdcpSn) :
    Inv cfg (startDiscard cfg s sn) := by
  unfold SduQueue.startDiscard
  split
  · next hsn => exact h.discardHit hp hsn
  · exact h.setProducer hp (h.slots.setProducer hp rfl) trivial rfl rfl nofun

theorem Inv.producerStep : Inv cfg (producerStep cfg s) := by
  have hok := h.producer
  have hfits := h.totals.fits
  unfold SduQueue.producerStep
  split
  · exact h
  · next sdu hp =>
    rw [hp] at hfits
    split
    · next hn =>
      refine h.setProducer hp (h.slots.setProducer hp (by simp [Producer.claim, hn])) ?_
        rfl rfl hfits
      intro sn hsn
      rw [hn] at hsn
      cases hsn
    · next sn hn =>
      split
      · exact h.setProducer hp (h.slots.setProducer hp rfl) trivial rfl rfl nofun
      · next hfree =>
        exact h.setProducer hp (h.slots.claim (not_not.1 hfree) (by rw [hp]; rfl)) hn rfl rfl hfits
  · next sdu sn hp =>
    rw [hp] at hfits
    simp only [ProducerOk, hp] at hok
    exact h.setProducer hp (h.slots.writeClaimed (by rw [hp]; rfl) Iff.rfl (fun _ _ => rfl)
      (fun k hk => Function.update_of_ne hk _ _) rfl (.inl rfl))
      ⟨hok, Function.update_self _ _ _⟩ rfl rfl hfits
  · next sdu sn hp =>
    rw [hp] at hfits
    simp only [ProducerOk, hp] at hok
    refine h.setProducer hp (h.slots.writeClaimed (by rw [hp]; rfl) Iff.rfl
      (fun k hk => Function.update_of_ne hk _ _) (fun _ _ => rfl) rfl
      (.inl (by simp [Producer.claim, hok.1]))) ?_ rfl rfl hfits
    intro m hm
    obtain rfl : sn = m := Option.some.inj (hok.1.symm.trans hm)
    exact ⟨hok.2, Function.update_self _ _ _⟩
  · next sdu hp =>
    split
    · next hroom => exact h.pushed hp hroom
    · split
      · next hn =>
        exact h.setProducer hp (h.slots.setProducer hp (by simp [Producer.claim, hn])) trivial rfl
          rfl nofun
      · next sn hn =>
        exact h.setProducer hp (h.slots.setProducer hp (by simp [Producer.claim, hn])) trivial rfl
          rfl nofun
  · next sn hp =>
    exact h.setProducer hp (h.slots.writeClaimed (by rw [hp]; rfl) Iff.rfl
      (fun k hk => Function.update_of_ne hk _ _) (fun _ _ => rfl) rfl
      (.inr ⟨rfl, Function.update_self _ _ _⟩)) trivial rfl rfl nofun
  · next size hp =>
    refine h.settle (by rw [hp]; rfl) (Nat.mod_lt _ (by decide)) ?_
    simp only [State.stateAdd, State.toSub, hp, Producer.toAdd, add_zero, Nat.mod_mod]
  · next sn success hp =>
    cases success <;>
      exact h.setProducer hp (h.slots.setProducer hp rfl) trivial rfl rfl nofun
  · next size hp =>
    refine h.settle (by rw [hp]; rfl) (Nat.mod_lt _ (by decide)) ?_
    have := stateChange_le size
    simp only [State.stateSub, State.toSub, hp, Producer.toAdd]
    omega

theorem Inv.consumerStep : Inv cfg (consumerStep cfg s) := by
  unfold SduQueue.consumerStep
  split
  · exact h
  · next hc =>
    split
    · exact h.setConsumer hc rfl le_rfl rfl (fun _ => rfl) trivial
    · next hq => exact h.setConsumer hc (by rw [hq]; rfl) (by simp [hq]) rfl (fun _ => rfl) trivial
  · next sdu hc =>
    split
    · next hn => exact h.returnedPlain hc hn
    · next sn hn =>
      refine h.setConsumer hc rfl le_rfl rfl (fun _ => rfl) ⟨hn, ?_⟩
      have hlo : s.lo = s.left.length := by simp [State.lo, hc, Consumer.unslotted]
      exact h.slots.size_eq ⟨hlo.le, h.order.held_eq (by rw [hc]; rfl), hn⟩
  · next hc =>
    dsimp only
    split
    · next hsn => exact h.slotReleased hc hsn
    · next hsn =>
      split
      · next hd => exact h.dropped hc hd
      · next hd =>
        -- the slot of an SDU in the consumer's hands is never lost
        have hst := h.slots.state_eq (h.holds_sized hc).2.1
        split at hst
        · exact absurd hst hd
        · exact absurd hst hsn
  · next valid hc =>
    have hcons := h.consumer
    simp only [ConsumerOk, hc] at hcons
    rw [if_pos hcons.1]
    exact h.returned hc

theorem Inv.step {e : Event} (hstep : step cfg s e = some t) : Inv cfg t := by
  cases step_cases hstep with
  | write hp sdu => exact h.startWrite hp sdu
  | tryDiscard hp sn => exact h.startDiscard hp sn
  | producer => exact h.producerStep
  | read hc => exact h.setConsumer hc rfl le_rfl rfl (fun _ => rfl) trivial
  | consumer => exact h.consumerStep

end

theorem inv_init (cfg : Config) : Inv cfg {} where
  order := ⟨rfl, nofun, List.nodup_nil, nofun⟩
  slots := by
    have hnone : ∀ {i sdu sn}, ¬ Holds {} i sdu sn := fun h => nomatch h.2.1
    exact ⟨fun h => absurd h hnone, fun h => absurd h hnone, fun h => absurd h hnone,
      fun _ _ => rfl, nofun⟩
  producer := trivial
  consumer := trivial
  totals := ⟨by decide, rfl, Nat.zero_le _, nofun, Nat.zero_le _⟩

theorem run_inv {es : List Event} (h : Run (fun s e t => step cfg s e = some t) {} es s) :
    Inv cfg s :=
  h.invariant (fun _ _ _ hs hstep => hs.step hstep) (inv_init cfg)

/-! ## Conservation -/

def State.Quiescent (s : State) : Prop := s.producer = .idle ∧ s.consumer = .idle

/-- Positions, in write order, of the queued SDUs that are not discarded. -/
def State.queued (s : State) : Finset Nat :=
  {i ∈ Ico s.left.length s.accepted.length | i ∉ s.discarded}

/-- What the queue guarantees in every state. -/
structure Conserved (s : State) : Prop where
  /-- Every accepted SDU left, is in the consumer's hands, or is queued, in write order. -/
  split : s.accepted = s.left.map Prod.fst ++ s.consumer.held ++ s.queue
  /-- An SDU that left was dropped if it had been discarded and returned otherwise. -/
  fate : ∀ i sdu f, s.left[i]? = some (sdu, f) → (f = .dropped ↔ i ∈ s.discarded)
  /-- No SDU is discarded twice. -/
  once : s.discarded.Nodup
  /-- A successful discard hit an SDU with its PDCP SN that had not left. -/
  target : ∀ d ∈ s.discards, d.gone ≤ d.index ∧
    (s.accepted[d.index]?).bind RlcSdu.pdcpSn = some d.sn
  /-- With no operation in progress, the totals are those of the queued SDUs. -/
  totals : s.Quiescent → s.nSdus = s.queued.card ∧ s.nBytes = ∑ i ∈ s.queued, s.sizeAt i

/-- What counts for the totals are the queued SDUs and the one in the consumer's hands. -/
theorem Inv.total_eq (h : Inv cfg s) (f : Nat → Nat) :
    s.total f = ∑ i ∈ s.queued, f (s.sizeAt i) := by
  unfold State.total
  cases hc : s.consumer with
  | released sdu size valid =>
    have hcons := h.consumer
    simp only [ConsumerOk, hc] at hcons
    have hheld := h.order.held_eq (show s.consumer.held = [sdu] by rw [hc]; rfl)
    have hlt : s.left.length < s.accepted.length := (List.getElem?_eq_some_iff.1 hheld).1
    have hsize : s.sizeAt s.left.length = size := by
      rw [State.sizeAt, hheld]
      exact hcons.2.1.symm
    have hlo : s.lo = s.left.length + 1 := by simp [State.lo, hc, Consumer.unslotted]
    rw [State.queued, sum_filter, sum_eq_sum_Ico_succ_bot hlt, if_pos hcons.2.2, hsize, add_comm,
      ← hlo, ← sum_filter]
    rfl
  | _ => simp [State.live, State.queued, State.lo, hc, Consumer.unslotted, Consumer.pending]

theorem sduQueue_conserves {es : List Event}
    (h : Run (fun s e t => step cfg s e = some t) {} es s) : Conserved s := by
  have hinv := run_inv h
  refine ⟨?_, hinv.order.fate, hinv.order.nodup, hinv.order.target, ?_⟩
  · rw [List.append_assoc]
    exact hinv.order.split
  · rintro ⟨hp, -⟩
    obtain ⟨hn, hb⟩ := hinv.getState_eq hp
    rw [hn, hb, hinv.total_eq, hinv.total_eq, ← card_eq_sum_ones]
    exact ⟨rfl, rfl⟩

/-- Two writes interleaved with a read: the first SDU is discarded while the consumer already
holds it, the second one, without PDCP SN, is returned. -/
theorem sduQueue_conserves_race :
    let cfg : Config := ⟨4, 100, by decide, by decide⟩
    let a : RlcSdu := ⟨[1, 2, 3], some ⟨5, by decide⟩, false⟩
    let b : RlcSdu := ⟨[4], none, false⟩
    ∃ s, Run (fun s e t => step cfg s e = some t) {}
        [.write a, .producer, .producer, .producer, .producer, .read, .consumer, .producer,
          .tryDiscard ⟨5, by decide⟩, .consumer, .consumer, .producer, .producer, .write b,
          .producer, .producer, .producer, .consumer, .consumer] s ∧
      s.left = [(a, .dropped), (b, .returned)] ∧ Conserved s := by
  intro cfg a b
  let es : List Event :=
    [.write a, .producer, .producer, .producer, .producer, .read, .consumer, .producer,
      .tryDiscard ⟨5, by decide⟩, .consumer, .consumer, .producer, .producer, .write b,
      .producer, .producer, .producer, .consumer, .consumer]
  have hleft : (exec (step cfg) {} es).map State.left = some [(a, .dropped), (b, .returned)] := by
    decide +kernel
  obtain ⟨s, hs, hsl⟩ := Option.map_eq_some_iff.1 hleft
  exact ⟨s, run_of_exec hs, hsl, sduQueue_conserves (run_of_exec hs)⟩

end RadioStack.Rlc.SduQueue
