import RadioStack.Rlc.SduConservation

/-!
# The totals of the SDU queue between two calls

`get_state` may be called at any time. A `write` makes the SDU visible to the reader by its push and
adds it to the packed counter afterwards, so a reader that is fast enough takes off the totals what
was not added yet, and the counter wraps below zero.

What the counter may at most show (`outstandingSdus`, `outstandingBytes`) are the SDUs whose write
has started and that are neither read nor discarded, where an SDU is read or discarded when its
`state_sub` is done.

**Theorem (`sduTotals_bounded`).** In a reachable state the counter shows at most these SDUs, unless
a `write` stands before its `state_add` and its SDU has been read already (`Overtaken`). It shows at
most these in all states of every run in which the reader does not take an SDU off the totals that
is the last one pushed and not added yet (`InOrder`), and a step that does so breaks it.
-/

namespace RadioStack.Rlc.SduQueue

open Finset

variable {cfg : Config} {s t : State}

/-! ## SDUs that may count -/

/-- The SDU of a `try_discard` in progress: it is marked as discarded, but still in the totals. -/
def State.discarding (s : State) : Option Nat :=
  match s.producer with
  | .loadSize _ true | .subTotals _ => s.discarded.getLast?
  | _ => none

/-- Number of SDUs whose write has started and that are neither read nor discarded. -/
def State.outstandingSdus (s : State) : Nat :=
  #s.queued + s.discarding.toList.length + s.producer.writing.toList.length

def State.outstandingBytes (s : State) : Nat :=
  ∑ i ∈ s.queued, s.sizeAt i + s.discarding.elim 0 s.sizeAt +
    s.producer.writing.elim 0 fun sdu => sdu.buf.length

/-- `get_state` shows no more than that. -/
def State.Bounded (s : State) : Prop :=
  s.nSdus ≤ s.outstandingSdus ∧ s.nBytes ≤ s.outstandingBytes

/-- The SDU of a `write` that has not added it to the totals yet was read. -/
def State.Overtaken (s : State) : Prop :=
  (∃ size, s.producer = .addTotals size) ∧ s.left.length = s.accepted.length

/-! ## The producer between two accesses -/

/-- The discard in progress will subtract `size`. -/
def Discards (cfg : Config) (s : State) (size : Nat) : Prop :=
  ∃ i, s.discarded.getLast? = some i ∧ s.sizeAt i = size ∧ s.total id + size ≤ cfg.byteLimit

/-- What the producer is about to add or to subtract. -/
structure Tracks (cfg : Config) (s : State) : Prop where
  adds : ∀ size, s.producer = .addTotals size →
    ∃ i, s.accepted.length = i + 1 ∧ i ∉ s.discarded ∧ s.sizeAt i = size
  loads : ∀ sn, s.producer = .loadSize sn true → Discards cfg s (s.sduSizes (sn % cfg.capacity))
  subtracts : ∀ size, s.producer = .subTotals size → Discards cfg s size

/-- What the consumer leaves to the producer. -/
theorem consumerStep_frame (cfg : Config) (s : State) :
    (consumerStep cfg s).producer = s.producer ∧ (consumerStep cfg s).accepted = s.accepted ∧
      (consumerStep cfg s).discards = s.discards ∧
      (consumerStep cfg s).sduSizes = s.sduSizes ∧
      s.left.length ≤ (consumerStep cfg s).left.length := by
  have hleave (sdu : RlcSdu) (fate : Fate) : s.left.length ≤ (s.left ++ [(sdu, fate)]).length := by
    simp
  unfold consumerStep
  split
  · exact ⟨rfl, rfl, rfl, rfl, le_rfl⟩
  · split <;> exact ⟨rfl, rfl, rfl, rfl, le_rfl⟩
  · split
    · exact ⟨rfl, rfl, rfl, rfl, hleave _ _⟩
    · exact ⟨rfl, rfl, rfl, rfl, le_rfl⟩
  · dsimp only
    split
    · exact ⟨rfl, rfl, rfl, rfl, le_rfl⟩
    · split
      · exact ⟨rfl, rfl, rfl, rfl, hleave _ _⟩
      · exact ⟨rfl, rfl, rfl, rfl, le_rfl⟩
  · split <;> exact ⟨rfl, rfl, rfl, rfl, hleave _ _⟩

section

variable (h : Tracks cfg s) (hs : Inv cfg s)

include h hs

theorem Tracks.consumer (ht : Inv cfg t) (hp : t.producer = s.producer)
    (hacc : t.accepted = s.accepted) (hd : t.discards = s.discards)
    (hsizes : t.sduSizes = s.sduSizes) (hleft : s.left.length ≤ t.left.length) : Tracks cfg t := by
  have hdisc : t.discarded = s.discarded := by rw [State.discarded, hd, State.discarded]
  have hsize := sizeAt_congr hacc
  have hle : t.total id ≤ s.total id := by
    rw [hs.total_eq, ht.total_eq, hsize]
    refine sum_le_sum_of_subset fun i hi => ?_
    simp only [State.queued, mem_filter, mem_Ico, hacc, hdisc] at hi ⊢
    exact ⟨⟨hleft.trans hi.1.1, hi.1.2⟩, hi.2⟩
  have hdiscards : ∀ size, Discards cfg s size → Discards cfg t size := by
    rintro size ⟨i, hi, hsz, hlimit⟩
    exact ⟨i, hdisc ▸ hi, hsize ▸ hsz, (Nat.add_le_add_right hle _).trans hlimit⟩
  refine ⟨fun size hsz => ?_, fun sn hsn => ?_, fun size hsz => ?_⟩
  · rw [hacc, hdisc, hsize]
    exact h.adds size (hp ▸ hsz)
  · rw [hsizes]
    exact hdiscards _ (h.loads sn (hp ▸ hsn))
  · exact hdiscards _ (h.subtracts size (hp ▸ hsz))

theorem Tracks.consumerStep : Tracks cfg (consumerStep cfg s) := by
  obtain ⟨hp, hacc, hd, hsizes, hleft⟩ := consumerStep_frame cfg s
  exact h.consumer hs hs.consumerStep hp hacc hd hsizes hleft

theorem Tracks.producerStep : Tracks cfg (producerStep cfg s) := by
  unfold SduQueue.producerStep
  split
  · exact h
  · split
    · exact ⟨by simp, by simp, by simp⟩
    · split <;> exact ⟨by simp, by simp, by simp⟩
  · exact ⟨by simp, by simp, by simp⟩
  · exact ⟨by simp, by simp, by simp⟩
  · split
    · refine ⟨fun size hsize => ⟨s.accepted.length, List.length_append, ?_, ?_⟩, by simp, by simp⟩
      · exact fun hmem => Nat.lt_irrefl _ (hs.order.discarded_lt hmem)
      · cases hsize
        simp [State.sizeAt]
    · split <;> exact ⟨by simp, by simp, by simp⟩
  · exact ⟨by simp, by simp, by simp⟩
  · exact ⟨by simp, by simp, by simp⟩
  · next sn success hp =>
    cases success with
    | false => exact ⟨by simp, by simp, by simp⟩
    | true =>
      refine ⟨by simp, by simp, fun size hsize => ?_⟩
      cases hsize
      exact h.loads _ hp
  · exact ⟨by simp, by simp, by simp⟩

theorem Tracks.step {e : Event} (hstep : step cfg s e = some t) : Tracks cfg t := by
  cases step_cases hstep with
  | write hp sdu =>
    unfold startWrite
    split
    · exact h
    · exact ⟨nofun, nofun, nofun⟩
  | tryDiscard hp sn =>
    unfold startDiscard
    split
    · next hsn =>
      obtain ⟨i, sdu, hold, hi, -, hdisc, hsize, htotal⟩ := hs.discarded_owner hp hsn rfl
      refine ⟨nofun, fun sn' hsn' => ⟨i, ?_, ?_, ?_⟩, nofun⟩
      · rw [hdisc, List.getLast?_concat]
      · cases hsn'
        exact hsize.symm
      · cases hsn'
        have hlimit := hs.totals.limit
        rw [htotal id, ← hsize] at hlimit
        exact hlimit
    · exact ⟨nofun, nofun, nofun⟩
  | producer => exact h.producerStep hs
  | read hc => exact h.consumer hs (hs.step hstep) rfl rfl rfl rfl le_rfl
  | consumer => exact h.consumerStep hs

end

theorem run_tracks {es : List Event} (h : Run (fun s e t => step cfg s e = some t) {} es s) :
    Inv cfg s ∧ Tracks cfg s :=
  Run.invariant (P := fun s => Inv cfg s ∧ Tracks cfg s)
    (fun _ _ _ hs hstep => ⟨hs.1.step hstep, hs.2.step hs.1 hstep⟩) h
    ⟨inv_init cfg, nofun, nofun, nofun⟩

/-! ## The packed counter -/

section

variable (h : Inv cfg s)

include h

theorem Inv.card_queued_le : #s.queued ≤ cfg.capacity + 1 := by
  have hcount := h.count_le
  rwa [h.total_eq, ← card_eq_sum_ones] at hcount

/-- The sum in the packed counter, by number and bytes. -/
theorem Inv.sum_eq :
    (s.state + s.producer.toAdd) % 2 ^ 64 =
      (2 ^ 32 * #s.queued + ∑ i ∈ s.queued, s.sizeAt i + s.toSub cfg) % 2 ^ 64 := by
  have hlimit := h.totals.limit
  have hbl := cfg.byteLimit_lt
  have hsum := h.totals.sum
  rw [total_stateChange (by omega), h.total_eq, h.total_eq, ← card_eq_sum_ones] at hsum
  exact hsum

theorem Inv.bytes_le : ∑ i ∈ s.queued, s.sizeAt i ≤ cfg.byteLimit :=
  (h.total_eq id).symm.trans_le h.totals.limit

theorem Inv.bounded_of_settled (hadd : s.producer.toAdd = 0)
    (hsub : s.toSub cfg = 0) : s.Bounded := by
  have hsum := h.sum_eq
  have hbytes := h.bytes_le
  have hcard := h.card_queued_le
  have hlt := h.totals.lt
  have hbl := cfg.byteLimit_lt
  have hcl := cfg.capacity_lt
  obtain ⟨hn, hb⟩ := getState_of_eq (s := s) (n := #s.queued) (b := ∑ i ∈ s.queued, s.sizeAt i)
    (by omega) (by omega)
  rw [State.Bounded, hn, hb, State.outstandingSdus, State.outstandingBytes]
  omega

theorem Inv.bounded_of_discards {size : Nat} (hadd : s.producer.toAdd = 0)
    (hsub : s.toSub cfg = stateChange size) (hd : Discards cfg s size)
    (hlast : s.discarding = s.discarded.getLast?) : s.Bounded := by
  obtain ⟨i, hi, hsize, hlimit⟩ := hd
  have hsum := h.sum_eq
  have hcard := h.card_queued_le
  have hlt := h.totals.lt
  have hbl := cfg.byteLimit_lt
  have hcl := cfg.capacity_lt
  rw [h.total_eq] at hlimit
  simp only [id] at hlimit
  rw [hadd, hsub, stateChange_eq (by omega)] at hsum
  obtain ⟨hn, hb⟩ := getState_of_eq (s := s) (n := #s.queued + 1)
    (b := ∑ i ∈ s.queued, s.sizeAt i + size) (by omega) (by omega)
  rw [State.Bounded, hn, hb, State.outstandingSdus, State.outstandingBytes, hlast, hi]
  simp only [Option.toList_some, List.length_singleton, Option.elim_some, hsize]
  omega

/-- The `state_add` of a write is due: the counter is right until the SDU is read. -/
theorem Inv.bounded_of_adds (ht : Tracks cfg s) {size : Nat}
    (hp : s.producer = .addTotals size) : s.Bounded ↔ s.left.length ≠ s.accepted.length := by
  obtain ⟨i, hacc, hi, hsize⟩ := ht.adds size hp
  have hsum := h.sum_eq
  have hbytes := h.bytes_le
  have hcard := h.card_queued_le
  have hlt := h.totals.lt
  have hbl := cfg.byteLimit_lt
  have hcl := cfg.capacity_lt
  have hlen := h.order.length_accepted
  have hsub : s.toSub cfg = 0 := by simp [State.toSub, hp]
  have hadd : s.producer.toAdd = stateChange size := by rw [hp]; rfl
  rw [hsub, hadd] at hsum
  have hsdus : s.outstandingSdus = #s.queued := by
    simp [State.outstandingSdus, State.discarding, hp, Producer.writing]
  have hout : s.outstandingBytes = ∑ i ∈ s.queued, s.sizeAt i := by
    simp [State.outstandingBytes, State.discarding, hp, Producer.writing]
  rw [State.Bounded, hsdus, hout]
  by_cases hread : s.left.length = s.accepted.length
  · -- nothing is queued, and the counter has wrapped
    have hempty : s.queued = ∅ := by
      rw [State.queued, hread, Ico_self, filter_empty]
    refine iff_of_false (fun hle => ?_) (not_not.2 hread)
    rw [hempty, card_empty, sum_empty] at hsum hle
    have hn : s.nSdus = s.state / 2 ^ 32 := Nat.shiftRight_eq_div_pow _ _
    have hb : s.nBytes = s.state % 2 ^ 32 := Nat.and_two_pow_sub_one_eq_mod _ 32
    have hchange : stateChange size < 2 ^ 64 ∧ 2 ^ 32 ≤ stateChange size := by
      have heq : stateChange size = stateChange (size % 2 ^ 32) := by
        rw [stateChange, stateChange, Nat.mod_mod]
      rw [heq, stateChange_eq (Nat.mod_lt _ (by decide))]
      omega
    omega
  · have hmem : i ∈ s.queued := by
      rw [State.queued, mem_filter, mem_Ico]
      exact ⟨⟨by omega, by omega⟩, hi⟩
    have hpos : 0 < #s.queued := card_pos.2 ⟨i, hmem⟩
    have hle : s.sizeAt i ≤ ∑ i ∈ s.queued, s.sizeAt i :=
      single_le_sum (f := s.sizeAt) (fun _ _ => Nat.zero_le _) hmem
    rw [stateChange_eq (by omega)] at hsum
    obtain ⟨hn, hb⟩ := getState_of_eq (s := s) (n := #s.queued - 1)
      (b := ∑ i ∈ s.queued, s.sizeAt i - size) (by omega) (by omega)
    refine iff_of_true ?_ hread
    omega

/-- The counter shows too much exactly while a read has overtaken the `state_add`. -/
theorem Inv.bounded_iff (ht : Tracks cfg s) : s.Bounded ↔ ¬ s.Overtaken := by
  have hother (hne : ∀ size, s.producer ≠ .addTotals size) (hb : s.Bounded) :
      s.Bounded ↔ ¬ s.Overtaken :=
    iff_of_true hb fun ho => ho.1.elim hne
  cases hp : s.producer with
  | addTotals size =>
    rw [h.bounded_of_adds ht hp, State.Overtaken, hp]
    exact not_congr ⟨fun hread => ⟨⟨size, rfl⟩, hread⟩, And.right⟩
  | subTotals size =>
    refine hother (by simp [hp]) (h.bounded_of_discards ?_ ?_ (ht.subtracts size hp) ?_)
    · rw [hp]; rfl
    · simp [State.toSub, hp]
    · simp [State.discarding, hp]
  | loadSize sn success =>
    refine hother (by simp [hp]) ?_
    cases success with
    | false => exact h.bounded_of_settled (by rw [hp]; rfl) (by simp [State.toSub, hp])
    | true =>
      refine h.bounded_of_discards ?_ ?_ (ht.loads sn hp) ?_
      · rw [hp]; rfl
      · simp [State.toSub, hp]
      · simp [State.discarding, hp]
  | _ =>
    exact hother (by simp [hp])
      (h.bounded_of_settled (by rw [hp]; rfl) (by simp [State.toSub, hp]))

end

/-! ## Runs -/

/-- The consumer's next access takes the only SDU that is left off the totals. -/
def State.TakesLast (s : State) : Prop :=
  s.queue = [] ∧ ((∃ sdu, s.consumer = .popped sdu ∧ sdu.pdcpSn = none) ∨
    ∃ sdu size valid, s.consumer = .released sdu size valid)

/-- The consumer does not subtract what the producer is still to add. -/
def InOrder (s : State) : Event → Prop
  | .consumer => ¬ ((∃ size, s.producer = .addTotals size) ∧ s.TakesLast)
  | _ => True

def InOrderStep (cfg : Config) (s : State) (e : Event) (t : State) : Prop :=
  InOrder s e ∧ step cfg s e = some t

/-- What the consumer's next access makes of the history: nothing, an SDU leaves that is taken off
the totals, or one that was discarded. -/
theorem left_consumerStep (cfg : Config) (s : State) :
    (consumerStep cfg s).left = s.left ∧ (s.queue = [] → ¬ s.TakesLast) ∨
    (∃ sdu fate, (consumerStep cfg s).left = s.left ++ [(sdu, fate)] ∧
      s.consumer.held = [sdu] ∧ (s.queue = [] → s.TakesLast)) ∨
    ∃ sdu, (consumerStep cfg s).left = s.left ++ [(sdu, .dropped)] ∧
      s.consumer.held = [sdu] ∧ (s.queue = [] → ¬ s.TakesLast) := by
  have hno (hpopped : ∀ sdu, s.consumer = .popped sdu → sdu.pdcpSn ≠ none)
      (hreleased : ∀ sdu size valid, s.consumer ≠ .released sdu size valid) : ¬ s.TakesLast := by
    rintro ⟨-, ⟨sdu, hc, hsn⟩ | ⟨sdu, size, valid, hc⟩⟩
    · exact hpopped sdu hc hsn
    · exact hreleased sdu size valid hc
  unfold consumerStep
  cases hc : s.consumer with
  | idle => exact .inl ⟨rfl, fun _ => hno (by rw [hc]; nofun) (by rw [hc]; nofun)⟩
  | pop =>
    refine .inl ⟨?_, fun _ => hno (by rw [hc]; nofun) (by rw [hc]; nofun)⟩
    simp only
    split <;> rfl
  | popped sdu =>
    cases hsn : sdu.pdcpSn with
    | none =>
      simp only [hsn]
      exact .inr (.inl ⟨sdu, .returned, rfl, rfl, fun hq => ⟨hq, .inl ⟨sdu, hc, hsn⟩⟩⟩)
    | some sn =>
      simp only [hsn]
      refine .inl ⟨trivial, fun _ => hno (fun sdu' hc' => ?_) (by rw [hc]; nofun)⟩
      cases hc.symm.trans hc'
      rw [hsn]
      nofun
  | sized sdu sn size =>
    have hnot : ¬ s.TakesLast := hno (by rw [hc]; nofun) (by rw [hc]; nofun)
    dsimp only
    split
    · exact .inl ⟨rfl, fun _ => hnot⟩
    · split
      · exact .inr (.inr ⟨sdu, rfl, rfl, fun _ => hnot⟩)
      · exact .inl ⟨rfl, fun _ => hnot⟩
  | released sdu size valid =>
    have htakes : s.queue = [] → s.TakesLast := fun hq => ⟨hq, .inr ⟨sdu, size, valid, hc⟩⟩
    cases valid with
    | true => exact .inr (.inl ⟨sdu, .returned, rfl, rfl, htakes⟩)
    | false => exact .inr (.inl ⟨sdu, .dropped, rfl, rfl, htakes⟩)

/-- A read overtakes the `state_add` in a step that is not in order. -/
theorem Inv.overtaken_consumerStep (h : Inv cfg s) (ht : Tracks cfg s) (hno : ¬ s.Overtaken) :
    (SduQueue.consumerStep cfg s).Overtaken ↔
      (∃ size, s.producer = .addTotals size) ∧ s.TakesLast := by
  have htracks := ht.consumerStep h
  obtain ⟨hproducer, hacc, -⟩ := consumerStep_frame cfg s
  have hlen := h.order.length_accepted
  rw [State.Overtaken, hproducer, hacc]
  refine and_congr_right fun hadd => ?_
  have hne : s.left.length ≠ s.accepted.length := fun heq => hno ⟨hadd, heq⟩
  rcases left_consumerStep cfg s with ⟨hleft, hnot⟩ | ⟨sdu, fate, hleft, hheld, htakes⟩ |
    ⟨sdu, hleft, hheld, hnot⟩
  · rw [hleft]
    exact iff_of_false hne fun hlast => hnot hlast.1 hlast
  · rw [hheld, List.length_singleton] at hlen
    rw [hleft, List.length_append, List.length_singleton]
    constructor
    · intro heq
      exact htakes (List.length_eq_zero_iff.1 (by omega))
    · intro hlast
      rw [hlast.1, List.length_nil] at hlen
      omega
  · -- the SDU of the write in progress is not discarded
    refine iff_of_false (fun heq => ?_) fun hlast => hnot hlast.1 hlast
    obtain ⟨size, hsize⟩ := hadd
    obtain ⟨i, hi, hmem, -⟩ := htracks.adds size (hproducer.trans hsize)
    rw [hleft, List.length_append, List.length_singleton] at heq
    rw [hacc] at hi
    obtain rfl : i = s.left.length := by omega
    refine hmem ((h.consumerStep.order.fate s.left.length sdu .dropped ?_).1 rfl)
    rw [hleft, List.getElem?_append_right le_rfl, Nat.sub_self]
    rfl

theorem Inv.overtaken_step (h : Inv cfg s) (ht : Tracks cfg s) (hno : ¬ s.Overtaken) {e : Event}
    (hstep : SduQueue.step cfg s e = some t) : t.Overtaken ↔ ¬ InOrder s e := by
  cases step_cases hstep with
  | write hp sdu =>
    refine iff_of_false ?_ (not_not.2 trivial)
    unfold SduQueue.startWrite
    split
    · exact hno
    · exact fun ho => nomatch ho.1
  | tryDiscard hp sn =>
    refine iff_of_false ?_ (not_not.2 trivial)
    unfold SduQueue.startDiscard
    split <;> exact fun ho => nomatch ho.1
  | producer =>
    refine iff_of_false ?_ (not_not.2 trivial)
    have hlen := h.order.length_accepted
    unfold SduQueue.producerStep
    split
    · exact hno
    · split
      · exact fun ho => nomatch ho.1
      · split <;> exact fun ho => nomatch ho.1
    · exact fun ho => nomatch ho.1
    · exact fun ho => nomatch ho.1
    · next sdu hp =>
      split
      · rintro ⟨-, heq⟩
        rw [List.length_append, List.length_singleton] at heq
        have heq : s.left.length = s.accepted.length + 1 := heq
        omega
      · split <;> exact fun ho => nomatch ho.1
    · exact fun ho => nomatch ho.1
    · exact fun ho => nomatch ho.1
    · next sn success hp => cases success <;> exact fun ho => nomatch ho.1
    · exact fun ho => nomatch ho.1
  | read hc => exact iff_of_false hno (not_not.2 trivial)
  | consumer =>
    rw [h.overtaken_consumerStep ht hno]
    exact not_not.symm

theorem sduTotals_bounded (cfg : Config) :
    (∀ es s, Run (fun s e t => step cfg s e = some t) {} es s → (s.Bounded ↔ ¬ s.Overtaken)) ∧
    ∀ es s, Run (InOrderStep cfg) {} es s → s.Bounded ∧
      ∀ e t, step cfg s e = some t → (t.Bounded ↔ InOrder s e) := by
  refine ⟨fun es s hrun => ?_, fun es s hrun => ?_⟩
  · obtain ⟨hinv, htracks⟩ := run_tracks hrun
    exact hinv.bounded_iff htracks
  · obtain ⟨hinv, htracks⟩ := run_tracks (hrun.mono fun _ _ _ h => h.2)
    have hno : ¬ s.Overtaken := by
      have hboth := Run.invariant (P := fun s => (Inv cfg s ∧ Tracks cfg s) ∧ ¬ s.Overtaken)
        (fun s e t hs hstep => ?_) hrun
        ⟨⟨inv_init cfg, nofun, nofun, nofun⟩, fun ho => nomatch ho.1⟩
      · exact hboth.2
      · refine ⟨⟨hs.1.1.step hstep.2, hs.1.2.step hs.1.1 hstep.2⟩, fun ho => ?_⟩
        exact (hs.1.1.overtaken_step hs.1.2 hs.2 hstep.2).1 ho hstep.1
    refine ⟨(hinv.bounded_iff htracks).2 hno, fun e t hstep => ?_⟩
    rw [(hinv.step hstep).bounded_iff (htracks.step hinv hstep),
      hinv.overtaken_step htracks hno hstep, not_not]

/-- The consumer waits while a `state_add` is due. -/
def consumerWaits (s : State) (e : Event) : Bool :=
  match e, s.producer with
  | .consumer, .addTotals _ => false
  | _, _ => true

theorem inOrder_of_consumerWaits {e : Event} (h : consumerWaits s e = true) : InOrder s e := by
  cases e with
  | consumer =>
    rintro ⟨⟨size, hp⟩, -⟩
    simp only [consumerWaits, hp, Bool.false_eq_true] at h
  | _ => trivial

/-- An SDU of three bytes without PDCP SN. -/
def plainSdu : RlcSdu := ⟨[1, 2, 3], none, false⟩

/-- The write is done before the SDU is popped. -/
theorem sduTotals_bounded_writeFirst :
    let cfg : Config := ⟨4, 100, by decide, by decide⟩
    ∃ s, Run (InOrderStep cfg) {} [.write plainSdu, .producer, .producer, .producer, .read,
        .consumer] s ∧
      s.nSdus = 1 ∧ s.nBytes = 3 ∧ s.Bounded := by
  intro cfg
  have hexec : (exec (guarded (step cfg) fun s e => consumerWaits s e = true) {}
      [.write plainSdu, .producer, .producer, .producer, .read, .consumer]).map
      (fun s => (s.nSdus, s.nBytes)) = some (1, 3) := by decide +kernel
  obtain ⟨s, hs, hstate⟩ := Option.map_eq_some_iff.1 hexec
  obtain ⟨hn, hb⟩ := Prod.mk.inj hstate
  have hrun : Run (InOrderStep cfg) {} _ s :=
    (run_of_guarded hs).mono fun _ _ _ h => ⟨inOrder_of_consumerWaits h.2, h.1⟩
  exact ⟨s, hrun, hn, hb, ((sduTotals_bounded cfg).2 _ s hrun).1⟩

/-- The SDU is read between its push and the `state_add`: the counter wraps. -/
theorem sduTotals_wrap :
    let cfg : Config := ⟨4, 100, by decide, by decide⟩
    ∃ s, Run (fun s e t => step cfg s e = some t) {} [.write plainSdu, .producer, .producer, .read,
        .consumer, .consumer] s ∧
      s.nSdus = 0xfffffffe ∧ s.nBytes = 0xfffffffd ∧
      s.outstandingSdus = 0 ∧ s.outstandingBytes = 0 := by
  intro cfg
  have hexec : (exec (step cfg) {} [.write plainSdu, .producer, .producer, .read, .consumer,
      .consumer]).map (fun s => (s.nSdus, s.nBytes, s.outstandingSdus, s.outstandingBytes)) =
      some (0xfffffffe, 0xfffffffd, 0, 0) := by decide +kernel
  obtain ⟨s, hs, hstate⟩ := Option.map_eq_some_iff.1 hexec
  simp only [Prod.mk.injEq] at hstate
  exact ⟨s, run_of_exec hs, hstate⟩

end RadioStack.Rlc.SduQueue
