import RadioStack.Support.TaskStrand

/-!
# Refused dispatches of a strand

The call that acquires a strand dispatches a job to the executor. If the executor refuses the job,
the call discards tasks until no job is counted any more (`handle_failed_task_dispatch`), and
returns false. Other calls may push and count their tasks meanwhile. They find the strand acquired
and return true, and their tasks are discarded, too.

With one producer this cannot happen. The invariant (`Calm`) says that the task of the call under
way is the last in the queue, and the only one once the call has acquired the strand. A call whose
job was refused takes back just this task, so it passes through two more states (`Reached`).

**Theorem (`results_agree_iff`).** For a queue of less than 2³¹ places, the results of all calls
agree with what becomes of their tasks, in every run and for every pattern of refusals, if and only
if there is at most one producer or the queue has no place. -/

namespace RadioStack

/-! ## Model -/

/-- A call in `handle_failed_task_dispatch`, between two atomic operations. -/
structure DropLoop (α : Type) where
  /-- The task of the call. -/
  task : α
  queueSize : Nat
  runCount : Nat

/-- A strand on an executor that may refuse jobs; `entered` leaves out the tasks in `discarded`. -/
structure RefusableStrand (α : Type) extends TaskStrand α where
  /-- Calls whose job was refused and that have not returned. -/
  drops : List (DropLoop α)
  discarded : List α
  /-- The tasks whose call returned false. -/
  refused : List α

inductive RefusableEvent (α : Type) where
  /-- A step that involves no refusal. -/
  | strand (e : StrandEvent α)
  /-- The executor refuses the job of a call, and the call reads the number of jobs. -/
  | refuse (task : α)
  | drop (call : Nat)
  /-- A call subtracts what it discarded. -/
  | subtract (call : Nat)

namespace RefusableStrand

open TaskStrand (Inv Moves)

variable {α : Type}

/-- The number of calls under way. -/
def calls (s : RefusableStrand α) : Nat := s.entering.length + s.acquired.length + s.drops.length

/-- The loop of a call with the number of jobs it has read; the call returns if there are none. -/
def nextDrop (s : RefusableStrand α) (t : α) (queueSize : Nat) : RefusableStrand α :=
  if queueSize = 0 then { s with refused := s.refused ++ [t] }
  else { s with drops := s.drops ++ [⟨t, queueSize, 0⟩] }

/-- One atomic step; `none` if it is not possible. A call needs a producer that has no other call
under way. -/
def step [DecidableEq α] (capacity producers : Nat) (s : RefusableStrand α) :
    RefusableEvent α → Option (RefusableStrand α)
  | .strand (.push t) =>
    if t ∈ s.refused ++ s.discarded ∨ producers ≤ s.calls then none
    else (s.toTaskStrand.step capacity (.push t)).map fun s' => { s with
      toTaskStrand := s'
      refused := if s.queue.length < capacity then s.refused else s.refused ++ [t] }
  | .strand e => (s.toTaskStrand.step capacity e).map fun s' => { s with toTaskStrand := s' }
  | .refuse t =>
    if t ∈ s.acquired then some ({ s with acquired := s.acquired.erase t }.nextDrop t s.jobCount)
    else none
  | .drop i =>
    match s.drops[i]? with
    | some ⟨t, queueSize, runCount⟩ =>
      if runCount < queueSize then
        match s.queue with
        | u :: queue =>
          some { s with
            queue
            entered := s.entered.erase u
            drops := s.drops.set i ⟨t, queueSize, runCount + 1⟩
            discarded := s.discarded ++ [u] }
        -- the pop times out, which ends the inner loop
        | [] => some { s with drops := s.drops.set i ⟨t, runCount, runCount⟩ }
      else none
    | none => none
  | .subtract i =>
    match s.drops[i]? with
    | some ⟨t, queueSize, runCount⟩ =>
      if runCount = queueSize then
        let jobCount := TaskStrand.fetchSub s.jobCount runCount
        some ({ s with jobCount, drops := s.drops.eraseIdx i }.nextDrop t jobCount)
      else none
    | none => none

def init : RefusableStrand α where
  toTaskStrand := .init
  drops := []
  discarded := []
  refused := []

abbrev Steps [DecidableEq α] (capacity producers : Nat) (s : RefusableStrand α)
    (e : RefusableEvent α) (s' : RefusableStrand α) : Prop :=
  s.step capacity producers e = some s'

/-- If a call returned true, its task is not discarded: it was started, or waits in the queue for a
job that the executor has accepted. If a call returned false, its task was not started and is not in
the queue. -/
structure Agrees (s : RefusableStrand α) : Prop where
  accepted : ∀ t ∈ s.accepted,
    t ∉ s.discarded ∧ (t ∈ s.started ∨ t ∈ s.queue ∧ 0 < s.dispatched + s.jobs.length)
  refused : ∀ t ∈ s.refused, t ∉ s.started ∧ t ∉ s.queue

/-! ## One producer -/

variable {capacity : Nat} {s s' : RefusableStrand α} {w : List α} {t : α}

/-- At most one call is under way, and none discards tasks. The task of the call is the last in the
queue, after those in `w`, and the only one if the call has acquired the strand. -/
structure Calm (capacity : Nat) (w : List α) (s : RefusableStrand α) : Prop where
  inv : Inv capacity s.toTaskStrand
  drops : s.drops = []
  one : s.entering.length + s.acquired.length ≤ 1
  queue : s.queue = w ++ (s.entering ++ s.acquired)
  pending : ∀ t ∈ s.entering ++ s.acquired, t ∉ s.accepted
  alone : 0 < s.acquired.length → w = []
  gone : ∀ t ∈ s.entered, t ∉ s.refused ++ s.discarded

/-- Without a job no other task is in the queue. -/
theorem Calm.eq_nil (h : Calm capacity w s) (hidle : s.dispatched + s.jobs.length = 0) :
    w = [] := by
  by_cases hacq : 0 < s.acquired.length
  · exact h.alone hacq
  have hheld := h.inv.held
  have hcounted := h.inv.counted
  obtain hjobs : s.jobs = [] := List.length_eq_zero_iff.1 (by omega)
  rw [hjobs, h.queue, List.length_append, List.length_append] at hcounted
  change _ + 0 = _ at hcounted
  refine List.length_eq_zero_iff.1 ?_
  split at hheld <;> omega

theorem Calm.agrees (h : Calm capacity w s) : s.Agrees := by
  have hentered : ∀ t, t ∈ s.started ++ s.queue ↔ t ∈ s.entered := fun t => by rw [h.inv.order]
  refine ⟨fun t ht => ?_, fun t ht => ?_⟩
  · have hmem := h.inv.calls t (.inr (.inr ht))
    refine ⟨fun hd => h.gone t hmem (List.mem_append_right _ hd), ?_⟩
    refine (List.mem_append.1 ((hentered t).2 hmem)).imp_right fun hq => ⟨hq, ?_⟩
    by_contra hidle
    rw [h.queue, h.eq_nil (Nat.eq_zero_of_not_pos hidle)] at hq
    exact h.pending t hq ht
  · have hnot : t ∉ s.started ++ s.queue := fun hmem =>
      h.gone t ((hentered t).1 hmem) (List.mem_append_left _ ht)
    exact ⟨fun hs => hnot (List.mem_append_left _ hs), fun hq => hnot (List.mem_append_right _ hq)⟩

/-- The call that has acquired the strand has the only task, and nothing else is under way. -/
theorem Calm.of_acquired (h : Calm capacity w s) (ht : t ∈ s.acquired) :
    s.acquired = [t] ∧ s.entering = [] ∧ s.dispatched = 0 ∧ s.jobs = [] ∧ s.jobCount = 1 ∧
      s.queue = [t] := by
  have hheld := h.inv.held
  have hcounted := h.inv.counted
  have hqueue := h.queue
  have hone := h.one
  have hlen := List.length_pos_of_mem ht
  have hjobs : s.jobs = [] := List.length_eq_zero_iff.1 (by split at hheld <;> omega)
  have hentering : s.entering = [] := List.length_eq_zero_iff.1 (by omega)
  obtain ⟨u, hu⟩ := List.length_eq_one_iff.1 (show s.acquired.length = 1 by omega)
  rw [hu, List.mem_singleton] at ht
  rw [h.alone hlen, hentering, hu, ← ht] at hqueue
  rw [hqueue, hjobs, hentering] at hcounted
  refine ⟨ht ▸ hu, hentering, ?_, hjobs, hcounted.symm, hqueue⟩
  split at hheld <;> omega

variable [DecidableEq α] {producers : Nat} {e : StrandEvent α} {a : TaskStrand α}

/-- With fewer than 2³¹ places the counter does not wrap. -/
theorem moves_of_lt {a' : TaskStrand α} (hcap : capacity < 2 ^ 31) (h : Inv capacity a)
    (hstep : a.step capacity e = some a') : Moves capacity a e a' := by
  have hstored {b : TaskStrand α} (hb : Inv capacity b) : b.stored = b := by
    have hle := hb.jobCount_le
    exact TaskStrand.stored_of_lt (by omega)
  rw [← hstored h] at hstep
  obtain ⟨u, rfl, hmoves⟩ := h.moves (Nat.le_of_lt hcap) hstep
  rwa [hstored (h.step hmoves)]

/-- A step of the strand that is not a new call keeps at most one call under way. -/
theorem Calm.moves (h : Calm capacity w s) (hinv : Inv capacity a)
    (hentered : a.entered = s.entered)
    (hmoves : Moves capacity s.toTaskStrand e a) (hpush : ∀ t, e ≠ .push t) :
    ∃ w', Calm capacity w' { s with toTaskStrand := a } := by
  have hone := h.one
  have hgone : ∀ t ∈ a.entered, t ∉ s.refused ++ s.discarded := hentered ▸ h.gone
  cases hmoves with
  | push => exact absurd rfl (hpush _)
  | full => exact absurd rfl (hpush _)
  | @acquire t ht hzero hjobs hfree =>
    obtain ⟨u, hu⟩ := List.length_eq_one_iff.1
      (Nat.le_antisymm (by omega) (List.length_pos_of_mem ht))
    obtain rfl : t = u := by simpa [hu] using ht
    have hqueue := h.queue
    have hpending := h.pending
    rw [h.eq_nil (by rw [hfree.2, hjobs]; rfl)] at hqueue
    refine ⟨[], hinv, h.drops, ?_, ?_, ?_, fun _ => rfl, hgone⟩ <;> simp_all
  | @count t ht hpos =>
    have hlen := TaskStrand.length_erase_add_one ht
    have hentering : s.entering.erase t = [] := List.length_eq_zero_iff.1 (by omega)
    have hacq : s.acquired = [] := List.length_eq_zero_iff.1 (by omega)
    refine ⟨s.queue, hinv, h.drops, ?_, ?_, ?_, ?_, hgone⟩ <;> simp [hentering, hacq]
  | @dispatch t ht hpos =>
    obtain ⟨hacq, hentering, -⟩ := h.of_acquired ht
    refine ⟨s.queue, hinv, h.drops, ?_, ?_, ?_, ?_, hgone⟩ <;> simp [hentering, hacq]
  | startJob => exact ⟨w, hinv, h.drops, hone, h.queue, h.pending, h.alone, hgone⟩
  | @pop t queue queueSize runCount hpos hjobs hlt hqueue =>
    obtain ⟨-, -, hacq, -⟩ := h.inv.sole (i := 0) (by rw [hjobs]; rfl)
    have hw := h.queue
    cases w with
    | nil =>
      -- the batch of the job does not count the task of the call under way
      have hcounted := h.inv.counted
      obtain ⟨-, hsize, -⟩ := h.inv.batch _ (hjobs ▸ List.mem_singleton_self _)
      simp [hjobs, hw, hacq, TaskStrand.popped] at hcounted hsize
      omega
    | cons u w =>
      rw [hqueue, List.cons_append, List.cons.injEq] at hw
      exact ⟨w, hinv, h.drops, hone, hw.2, h.pending, by simp [hacq], hgone⟩
  | endTask => exact ⟨w, hinv, h.drops, hone, h.queue, h.pending, h.alone, hgone⟩
  | subtract hpos hjobs hrun hle hfree =>
    exact ⟨w, hinv, h.drops, hone, h.queue, h.pending, by simp [hfree.1], hgone⟩

/-- A strand with at most one producer: a call whose job was refused takes back its own task. -/
inductive Reached (capacity : Nat) : RefusableStrand α → Prop
  | calm {w : List α} {s : RefusableStrand α} (h : Calm capacity w s) : Reached capacity s
  | refused {w : List α} {s : RefusableStrand α} {t : α} (h : Calm capacity w s)
      (ht : t ∈ s.acquired) :
      Reached capacity { s with
        acquired := s.acquired.erase t
        drops := s.drops ++ [⟨t, s.jobCount, 0⟩] }
  | dropped {s : RefusableStrand α} {t : α} {r : List α} (h : Calm capacity [] s)
      (hquiet : s.Quiescent) (hcount : s.jobCount = 0) (hrefused : s.refused = r ++ [t])
      (hplace : 0 < capacity) :
      Reached capacity { s with jobCount := 1, drops := [⟨t, 1, 1⟩], refused := r }

theorem Reached.agrees (h : Reached capacity s) : s.Agrees := by
  cases h with
  | calm h => exact h.agrees
  | refused h ht => exact ⟨h.agrees.accepted, h.agrees.refused⟩
  | dropped h _ _ hrefused _ =>
    exact ⟨h.agrees.accepted, fun t ht => h.agrees.refused t (hrefused ▸ List.mem_append_left _ ht)⟩

/-- Nothing but a new call can happen in a quiescent strand. -/
theorem step_ne_some (hquiet : s.Quiescent) (hcalls : producers ≤ s.calls) :
    s.step capacity producers (.strand e) ≠ some s' := by
  obtain ⟨hentering, hacq, hdisp, hjobs⟩ := hquiet
  cases e with
  | push t => simp [step, hcalls]
  | _ => simp [step, TaskStrand.step, hentering, hacq, hdisp, hjobs]

theorem Calm.step (hcap : capacity < 2 ^ 31) (hone : producers ≤ 1 ∨ capacity = 0)
    (h : Calm capacity w s) (hstep : s.step capacity producers (.strand e) = some s') :
    ∃ w', Calm capacity w' s' := by
  cases e with
  | push t =>
    obtain ⟨hready, hstep⟩ := Option.ite_none_left_eq_some.1 hstep
    obtain ⟨hold, hfree⟩ := not_or.1 hready
    obtain ⟨a, ha, rfl⟩ := Option.map_eq_some_iff.1 hstep
    have hinv := h.inv.step (moves_of_lt hcap h.inv ha)
    rw [TaskStrand.step] at ha
    split_ifs at ha with hmem hplace
    · cases ha
      rw [calls] at hfree
      have hentering : s.entering = [] := List.length_eq_zero_iff.1 (by omega)
      have hacq : s.acquired = [] := List.length_eq_zero_iff.1 (by omega)
      have hnot : t ∉ s.accepted := fun ht => hmem (h.inv.calls t (.inr (.inr ht)))
      rw [if_pos hplace]
      refine ⟨s.queue, hinv, h.drops, ?_, ?_, ?_, ?_, fun u hu => ?_⟩
      · simp [hentering, hacq]
      · simp [hentering, hacq]
      · simpa [hentering, hacq] using hnot
      · simp [hacq]
      · exact TaskStrand.mem_of_append_singleton (P := (· ∉ s.refused ++ s.discarded))
          h.gone hold hu
    · cases ha
      rw [if_neg hplace]
      refine ⟨w, hinv, h.drops, h.one, h.queue, h.pending, h.alone, fun u hu => ?_⟩
      have hne : u ≠ t := fun heq => hmem (heq ▸ hu)
      simpa [hne] using h.gone u hu
  | _ =>
    obtain ⟨a, ha, rfl⟩ := Option.map_eq_some_iff.1 hstep
    have hmoves := moves_of_lt hcap h.inv ha
    refine h.moves (h.inv.step hmoves) ?_ hmoves (by simp)
    cases hmoves <;> rfl

theorem Calm.takeBack (h : Calm capacity w s) (ht : t ∈ s.acquired) :
    Calm capacity [] { s with
      queue := []
      jobCount := 0
      acquired := []
      entered := s.entered.erase t
      discarded := s.discarded ++ [t]
      refused := s.refused ++ [t] } := by
  obtain ⟨hacq, hentering, hdisp, hjobs, hcount, hqueue⟩ := h.of_acquired ht
  have hnodup := h.inv.nodup
  have herase : s.started = s.entered.erase t := by
    rw [← h.inv.order, hqueue] at hnodup ⊢
    rw [List.erase_append_right _ fun hs =>
      (List.nodup_append.1 hnodup).2.2 t hs t (List.mem_singleton_self t) rfl]
    simp
  have haccepted : ∀ u ∈ s.accepted, u ∈ s.entered.erase t := by
    intro u hu
    have hne : u ≠ t := fun heq => h.pending t (List.mem_append_right _ ht) (heq ▸ hu)
    exact (List.mem_erase_of_ne hne).2 (h.inv.calls u (.inr (.inr hu)))
  refine ⟨⟨?_, ?_, ?_, Nat.zero_le _, ?_, h.inv.ran, hnodup.erase t, ?_⟩, h.drops, ?_, ?_, ?_,
    nofun, ?_⟩
  any_goals simp [hentering, hdisp, hjobs, herase]
  · exact haccepted
  · intro u hu
    obtain ⟨hne, hmem⟩ := (List.Nodup.mem_erase_iff hnodup).1 hu
    simpa [hne] using h.gone u hmem

theorem Reached.step {ev : RefusableEvent α} (hcap : capacity < 2 ^ 31)
    (hone : producers ≤ 1 ∨ capacity = 0) (h : Reached capacity s)
    (hstep : s.step capacity producers ev = some s') : Reached capacity s' := by
  cases h with
  | calm h =>
    cases ev with
    | strand e =>
      obtain ⟨w, h⟩ := h.step hcap hone hstep
      exact .calm h
    | refuse t =>
      obtain ⟨ht, hstep⟩ := Option.ite_none_right_eq_some.1 hstep
      cases hstep
      rw [nextDrop, if_neg (by rw [(h.of_acquired ht).2.2.2.2.1]; exact Nat.one_ne_zero)]
      exact .refused h ht
    | _ => simp [RefusableStrand.step, h.drops] at hstep
  | @refused w s t h ht =>
    obtain ⟨hacq, hentering, hdisp, hjobs, hcount, hqueue⟩ := h.of_acquired ht
    have hdrops := h.drops
    have hplace : 0 < capacity :=
      Nat.lt_of_lt_of_le (by rw [hqueue]; exact Nat.one_pos) h.inv.places
    cases ev with
    | strand e =>
      refine absurd hstep (step_ne_some ⟨hentering, by simp [hacq], hdisp, hjobs⟩ ?_)
      simp only [calls, List.length_append, List.length_singleton]
      omega
    | refuse u => simp [RefusableStrand.step, hacq] at hstep
    | drop i =>
      match i with
      | 0 =>
        simp [RefusableStrand.step, hqueue, hdrops, hcount, hacq] at hstep
        subst hstep
        exact .dropped (h.takeBack ht) ⟨hentering, rfl, hdisp, hjobs⟩ rfl rfl hplace
      | i + 1 => simp [RefusableStrand.step, hdrops] at hstep
    | subtract i => cases i <;> simp [RefusableStrand.step, hdrops, hcount] at hstep
  | @dropped s t r h hquiet hcount hrefused hplace =>
    cases ev with
    | strand e =>
      refine absurd hstep (step_ne_some hquiet ?_)
      simp only [calls, List.length_singleton]
      omega
    | refuse u => simp [RefusableStrand.step, hquiet.2.1] at hstep
    | drop i => cases i <;> simp [RefusableStrand.step] at hstep
    | subtract i =>
      match i with
      | 0 =>
        have hsub : TaskStrand.fetchSub 1 1 = 0 := by decide
        simp [RefusableStrand.step, hsub, nextDrop] at hstep
        rw [← hrefused, ← h.drops, ← hcount] at hstep
        subst hstep
        exact .calm h
      | i + 1 => simp [RefusableStrand.step] at hstep

/-! ## Several producers -/

/-- The first call discards the task of the second, which returned true. -/
def overlap : List (RefusableEvent Nat) :=
  [.strand (.push 0), .strand (.count 0), .refuse 0, .drop 0, .strand (.push 1), .strand (.count 1),
    .subtract 0, .drop 0]

theorem overlap_discards (hproducers : 2 ≤ producers) (hplace : 0 < capacity) :
    ∃ s, Run (Steps capacity producers) init overlap s ∧ 1 ∈ s.accepted ∧ 1 ∈ s.discarded := by
  have h0 : producers ≠ 0 := by omega
  have h1 : ¬ producers ≤ 1 := by omega
  have h : (exec (step capacity producers) init overlap).map (fun s => (s.accepted, s.discarded)) =
      some ([1], [0, 1]) := by
    simp [exec, overlap, step, TaskStrand.step, init, TaskStrand.init, calls, nextDrop,
      TaskStrand.fetchSub, h0, h1, hplace]
  obtain ⟨s, hs, heq⟩ := Option.map_eq_some_iff.1 h
  obtain ⟨hacc, hdis⟩ := Prod.mk.inj heq
  exact ⟨s, run_of_exec hs, by simp [hacc], by simp [hdis]⟩

/-- **When results are right.** -/
theorem results_agree_iff (capacity producers : Nat) (hcap : capacity < 2 ^ 31) :
    (∀ es s, Run (Steps capacity producers) (init : RefusableStrand Nat) es s → s.Agrees) ↔
      producers ≤ 1 ∨ capacity = 0 := by
  refine ⟨fun h => ?_, ?_⟩
  · by_contra hnot
    obtain ⟨s, hrun, hacc, hdis⟩ := overlap_discards (show 2 ≤ producers by omega)
      (show 0 < capacity by omega)
    exact ((h _ s hrun).accepted 1 hacc).1 hdis
  · intro hone es s hrun
    refine (hrun.invariant (fun _ _ _ h hs => Reached.step hcap hone h hs)
      (.calm (w := []) ?_)).agrees
    exact ⟨TaskStrand.inv_init, rfl, Nat.zero_le _, rfl, nofun, nofun, nofun⟩

theorem results_agree_one_producer :
    8 < 2 ^ 31 ∧ ∀ es s, Run (Steps 8 1) (init : RefusableStrand Nat) es s → s.Agrees :=
  ⟨by decide, (results_agree_iff 8 1 (by decide)).2 (.inl (Nat.le_refl 1))⟩

theorem accepted_task_discarded :
    ∃ s, Run (Steps 1 2) init overlap s ∧ 1 ∈ s.accepted ∧ 1 ∈ s.discarded :=
  overlap_discards (Nat.le_refl 2) Nat.one_pos

end RefusableStrand

end RadioStack
