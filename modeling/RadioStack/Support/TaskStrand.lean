import RadioStack.Lib.Run
import Mathlib.Data.List.Nodup

/-!
# Task strands

A `task_strand` runs the tasks of many threads one at a time on an executor that may have many
threads. A call pushes its task into the queue of the strand and then increments the number of jobs.
The call that raises it from 0 owns the strand and dispatches a job to the executor; the job runs as
many tasks as it saw counted, subtracts them, and goes on until none is left.

Pushing and counting are two steps, so a job may pop a task whose call has not counted it yet. The
invariant is a balance (`Inv.counted`): the tasks in the queue and the tasks popped in the current
batch are the counted ones and those still to be counted.

**Theorem (`strand_serialises`).** If the queue has at most 2³¹ places, tasks run one at a time, in
the order in which they entered the queue, each once, and when nothing is going on any more the
counter is 0 and the queue is empty. A task in the queue waits for a bounded number of steps of the
calls and jobs that hold the strand, whatever other calls are made meanwhile, and while the queue is
not empty one of these steps is always possible.

The counter has 32 bits, so the invariant is one of a strand whose counter does not wrap, and the
strand is what is `stored` of it. With 2³¹ places the counter can wrap to 0, but the queue is full
then, and no call counts. With one place more another call counts, and a second job runs tasks at
the same time (`strand_counter_wraps`). -/

namespace RadioStack

/-! ## Model -/

/-- A job in `run_enqueued_tasks`, between two atomic operations. -/
structure StrandJob (α : Type) where
  queueSize : Nat
  runCount : Nat
  /-- The task that is running. -/
  task : Option α

/-- The strand, the calls and jobs in progress, and what happened so far. -/
structure TaskStrand (α : Type) where
  queue : List α
  /-- `job_count`. -/
  jobCount : Nat
  /-- Calls that have pushed their task and not yet counted it. -/
  entering : List α
  /-- Calls that have acquired the strand and not yet dispatched a job. -/
  acquired : List α
  /-- Jobs that the executor has accepted and not yet started. -/
  dispatched : Nat
  /-- Jobs that are running. -/
  jobs : List (StrandJob α)
  /-- The tasks that entered the queue, in order. -/
  entered : List α
  /-- The tasks that were started, in order. -/
  started : List α
  /-- The tasks that have ended, in order. -/
  finished : List α
  /-- The tasks whose call returned true. -/
  accepted : List α
  /-- The number of steps that the holder of the strand made, taking the strand included. -/
  progress : Nat

/-- The atomic steps of calls and jobs. Calls of `execute` and `defer` are the same here: an
executor that runs a job inline starts it right after it was dispatched. A call made by a task is a
call while that task is running. -/
inductive StrandEvent (α : Type) where
  /-- A call pushes its task. -/
  | push (task : α)
  /-- A call increments the number of jobs. -/
  | count (task : α)
  /-- A call that acquired the strand dispatches a job. -/
  | dispatch (task : α)
  | startJob
  | pop (job : Nat)
  | endTask (job : Nat)
  /-- A job subtracts what it ran. -/
  | subtract (job : Nat)

namespace TaskStrand

variable {α : Type}

/-- The loop of a job with the number of jobs it has read; the job ends if there are none. -/
def nextBatch (queueSize : Nat) : List (StrandJob α) :=
  if queueSize = 0 then [] else [⟨queueSize, 0, none⟩]

/-- `fetch_sub` on the counter, with the new value. -/
def fetchSub (count n : Nat) : Nat := (count + (2 ^ 32 - n)) % 2 ^ 32

/-- One atomic step, for a queue with `capacity` places; `none` if it is not possible. The task of a
call is a new one. -/
def step [DecidableEq α] (capacity : Nat) (s : TaskStrand α) : StrandEvent α → Option (TaskStrand α)
  | .push t =>
    if t ∈ s.entered then none
    else if s.queue.length < capacity then
      some { s with
        queue := s.queue ++ [t]
        entering := s.entering ++ [t]
        entered := s.entered ++ [t] }
    else some s
  | .count t =>
    if t ∈ s.entering then
      let s' := { s with
        entering := s.entering.erase t
        jobCount := (s.jobCount + 1) % 2 ^ 32 }
      if s.jobCount = 0 then
        some { s' with acquired := s.acquired ++ [t], progress := s.progress + 1 }
      else some { s' with accepted := s.accepted ++ [t] }
    else none
  | .dispatch t =>
    if t ∈ s.acquired then
      some { s with
        acquired := s.acquired.erase t
        dispatched := s.dispatched + 1
        accepted := s.accepted ++ [t]
        progress := s.progress + 1 }
    else none
  | .startJob =>
    if 0 < s.dispatched then
      some { s with
        dispatched := s.dispatched - 1
        jobs := s.jobs ++ nextBatch s.jobCount
        progress := s.progress + 1 }
    else none
  | .pop i =>
    match s.jobs[i]? with
    | some ⟨queueSize, runCount, none⟩ =>
      if runCount < queueSize then
        match s.queue with
        | t :: queue =>
          some { s with
            queue
            jobs := s.jobs.set i ⟨queueSize, runCount, some t⟩
            started := s.started ++ [t]
            progress := s.progress + 1 }
        -- the pop times out, and the job goes on as if it had run all tasks
        | [] =>
          some { s with
            jobs := s.jobs.set i ⟨queueSize, queueSize, none⟩
            progress := s.progress + 1 }
      else none
    | _ => none
  | .endTask i =>
    match s.jobs[i]? with
    | some ⟨queueSize, runCount, some t⟩ =>
      some { s with
        jobs := s.jobs.set i ⟨queueSize, runCount + 1, none⟩
        finished := s.finished ++ [t]
        progress := s.progress + 1 }
    | _ => none
  | .subtract i =>
    match s.jobs[i]? with
    | some ⟨queueSize, runCount, none⟩ =>
      if runCount = queueSize then
        let jobCount := fetchSub s.jobCount runCount
        some { s with
          jobCount
          jobs := s.jobs.eraseIdx i ++ nextBatch jobCount
          progress := s.progress + 1 }
      else none
    | _ => none

def init : TaskStrand α where
  queue := []
  jobCount := 0
  entering := []
  acquired := []
  dispatched := 0
  jobs := []
  entered := []
  started := []
  finished := []
  accepted := []
  progress := 0

def running (s : TaskStrand α) : List α := s.jobs.filterMap StrandJob.task

/-- All calls have returned and all jobs have ended. -/
def Quiescent (s : TaskStrand α) : Prop :=
  s.entering = [] ∧ s.acquired = [] ∧ s.dispatched = 0 ∧ s.jobs = []

abbrev Steps [DecidableEq α] (capacity : Nat) (s : TaskStrand α) (e : StrandEvent α)
    (s' : TaskStrand α) : Prop :=
  s.step capacity e = some s'

/-! ## Invariant -/

variable {capacity : Nat} {s s' : TaskStrand α} {e : StrandEvent α} {es : List (StrandEvent α)}

/-- The tasks a job has popped in its batch. -/
def popped (j : StrandJob α) : Nat := j.runCount + if j.task.isSome then 1 else 0

/-- A strand in memory: the counter has 32 bits. -/
def stored (s : TaskStrand α) : TaskStrand α := { s with jobCount := s.jobCount % 2 ^ 32 }

theorem stored_of_lt (h : s.jobCount < 2 ^ 32) : s.stored = s := by
  rw [stored, Nat.mod_eq_of_lt h]

/-- The invariant of a strand whose counter does not wrap. -/
structure Inv (capacity : Nat) (s : TaskStrand α) : Prop where
  /-- The tasks in the queue or in the current batch are counted or still to be counted. -/
  counted : s.queue.length + (s.jobs.map popped).sum = s.jobCount + s.entering.length
  /-- The strand is held once if tasks are counted, and not at all otherwise. -/
  held : s.acquired.length + s.dispatched + s.jobs.length = if s.jobCount = 0 then 0 else 1
  batch : ∀ j ∈ s.jobs, 0 < j.queueSize ∧ j.queueSize ≤ s.jobCount ∧ j.queueSize ≤ capacity ∧
    popped j ≤ j.queueSize
  places : s.queue.length ≤ capacity
  order : s.started ++ s.queue = s.entered
  ran : s.finished ++ s.running = s.started
  nodup : s.entered.Nodup
  calls : ∀ t, t ∈ s.entering ∨ t ∈ s.acquired ∨ t ∈ s.accepted → t ∈ s.entered

theorem inv_init : Inv capacity (init : TaskStrand α) where
  counted := rfl
  held := rfl
  batch := nofun
  places := Nat.zero_le _
  order := rfl
  ran := rfl
  nodup := .nil
  calls := by simp [init]

/-- A job that is running is the only holder of the strand. -/
theorem Inv.sole (h : Inv capacity s) {i : Nat} {j : StrandJob α} (hj : s.jobs[i]? = some j) :
    i = 0 ∧ s.jobs = [j] ∧ s.acquired = [] ∧ s.dispatched = 0 ∧ 0 < s.jobCount := by
  have hheld := h.held
  obtain ⟨hi, -⟩ := List.getElem?_eq_some_iff.1 hj
  have hlen : s.jobs.length = 1 ∧ s.acquired.length = 0 ∧ s.dispatched = 0 ∧ s.jobCount ≠ 0 := by
    split at hheld <;> omega
  obtain ⟨j', hjobs⟩ := List.length_eq_one_iff.1 hlen.1
  rw [hjobs] at hj hi
  obtain rfl : i = 0 := Nat.lt_one_iff.1 hi
  cases hj
  exact ⟨rfl, hjobs, List.length_eq_zero_iff.1 hlen.2.1, hlen.2.2.1, Nat.pos_of_ne_zero hlen.2.2.2⟩

/-- A batch and a full queue are all that is counted. -/
theorem Inv.jobCount_le (h : Inv capacity s) :
    s.jobCount + s.entering.length ≤ 2 * capacity := by
  have hpopped : (s.jobs.map popped).sum ≤ capacity := by
    match hjobs : s.jobs with
    | [] => exact Nat.zero_le _
    | [j] =>
      obtain ⟨-, -, hsize, hle⟩ := h.batch j (hjobs ▸ List.mem_singleton_self j)
      exact Nat.le_trans hle hsize
    | j :: j' :: js =>
      have hheld := h.held
      rw [hjobs, List.length_cons, List.length_cons] at hheld
      split at hheld <;> omega
  rw [← h.counted]
  have := h.places
  omega

theorem fetchSub_mod {count n : Nat} (hpos : 0 < n) (hle : n ≤ count) (hcount : count ≤ 2 ^ 32) :
    fetchSub (count % 2 ^ 32) n = count - n := by
  rw [fetchSub, Nat.mod_add_mod, show count + (2 ^ 32 - n) = count - n + 2 ^ 32 by omega,
    Nat.add_mod_right, Nat.mod_eq_of_lt (by omega)]

/-- Between the calls of a holder the queue has the tasks that the batch still needs. -/
theorem Inv.queue_ne_nil (h : Inv capacity s) {j : StrandJob α} (hjobs : s.jobs = [j])
    (hlt : popped j < j.queueSize) : s.queue ≠ [] := by
  intro hqueue
  have hcounted := h.counted
  obtain ⟨-, hsize, -⟩ := h.batch j (hjobs ▸ List.mem_singleton_self j)
  rw [hqueue, hjobs, List.map_singleton, List.sum_singleton, List.length_nil] at hcounted
  omega

theorem Inv.running_length_le (h : Inv capacity s) : s.running.length ≤ 1 := by
  have hheld := h.held
  have hle : s.jobs.length ≤ 1 := by split at hheld <;> omega
  exact Nat.le_trans (List.length_filterMap_le ..) hle

/-- When nothing is going on, everything has been run. -/
theorem Inv.quiescent (h : Inv capacity s) (hq : s.Quiescent) :
    s.jobCount = 0 ∧ s.queue = [] ∧ s.finished = s.entered := by
  obtain ⟨hentering, hacq, hdisp, hjobs⟩ := hq
  have hcounted := h.counted
  have hheld := h.held
  rw [hacq, hdisp, hjobs] at hheld
  have hzero : s.jobCount = 0 := by
    by_contra hpos
    rw [if_neg hpos] at hheld
    cases hheld
  rw [hentering, hjobs, hzero] at hcounted
  have hqueue : s.queue = [] := List.length_eq_zero_iff.1 hcounted
  have hran := h.ran
  rw [running, hjobs] at hran
  refine ⟨hzero, hqueue, ?_⟩
  rw [← h.order, hqueue, List.append_nil, ← hran]
  exact (List.append_nil _).symm

theorem mem_of_append_singleton {t u : α} {l : List α} {P : α → Prop} (hl : ∀ v ∈ l, P v) (ht : P t)
    (hu : u ∈ l ++ [t]) : P u := by
  rcases List.mem_append.1 hu with hu | hu
  · exact hl u hu
  · exact List.mem_singleton.1 hu ▸ ht

variable [DecidableEq α]

/-- What a step can do in a state with the invariant: only one job runs, and its pop finds a
task. -/
inductive Moves (capacity : Nat) (s : TaskStrand α) : StrandEvent α → TaskStrand α → Prop
  | push {t : α} (hnew : t ∉ s.entered) (hplace : s.queue.length < capacity) :
      Moves capacity s (.push t) { s with
        queue := s.queue ++ [t]
        entering := s.entering ++ [t]
        entered := s.entered ++ [t] }
  | full {t : α} : Moves capacity s (.push t) s
  | acquire {t : α} (ht : t ∈ s.entering) (hzero : s.jobCount = 0) (hjobs : s.jobs = [])
      (hfree : s.acquired = [] ∧ s.dispatched = 0) :
      Moves capacity s (.count t) { s with
        entering := s.entering.erase t
        jobCount := 1
        acquired := s.acquired ++ [t]
        progress := s.progress + 1 }
  | count {t : α} (ht : t ∈ s.entering) (hpos : s.jobCount ≠ 0) :
      Moves capacity s (.count t) { s with
        entering := s.entering.erase t
        jobCount := s.jobCount + 1
        accepted := s.accepted ++ [t] }
  | dispatch {t : α} (ht : t ∈ s.acquired) (hpos : s.jobCount ≠ 0) :
      Moves capacity s (.dispatch t) { s with
        acquired := s.acquired.erase t
        dispatched := s.dispatched + 1
        accepted := s.accepted ++ [t]
        progress := s.progress + 1 }
  | startJob (hdisp : 0 < s.dispatched) (hpos : s.jobCount ≠ 0) (hjobs : s.jobs = []) :
      Moves capacity s .startJob { s with
        dispatched := s.dispatched - 1
        jobs := [⟨s.jobCount, 0, none⟩]
        progress := s.progress + 1 }
  | pop {t : α} {queue : List α} {queueSize runCount : Nat} (hpos : s.jobCount ≠ 0)
      (hjobs : s.jobs = [⟨queueSize, runCount, none⟩]) (hlt : runCount < queueSize)
      (hqueue : s.queue = t :: queue) :
      Moves capacity s (.pop 0) { s with
        queue
        jobs := [⟨queueSize, runCount, some t⟩]
        started := s.started ++ [t]
        progress := s.progress + 1 }
  | endTask {t : α} {queueSize runCount : Nat} (hpos : s.jobCount ≠ 0)
      (hjobs : s.jobs = [⟨queueSize, runCount, some t⟩]) :
      Moves capacity s (.endTask 0) { s with
        jobs := [⟨queueSize, runCount + 1, none⟩]
        finished := s.finished ++ [t]
        progress := s.progress + 1 }
  | subtract {runCount : Nat} (hpos : s.jobCount ≠ 0)
      (hjobs : s.jobs = [⟨runCount, runCount, none⟩])
      (hrun : 0 < runCount) (hle : runCount ≤ s.jobCount)
      (hfree : s.acquired = [] ∧ s.dispatched = 0) :
      Moves capacity s (.subtract 0) { s with
        jobCount := s.jobCount - runCount
        jobs := nextBatch (s.jobCount - runCount)
        progress := s.progress + 1 }

/-- A step of the stored strand is one of the strand whose counter does not wrap. -/
theorem Inv.moves (hcap : capacity ≤ 2 ^ 31) (h : Inv capacity s)
    (hstep : s.stored.step capacity e = some s') : ∃ u, s' = u.stored ∧ Moves capacity s e u := by
  have hheld := h.held
  have hbound := h.jobCount_le
  cases e with
  | push t =>
    rw [TaskStrand.step] at hstep
    split at hstep
    · cases hstep
    · next hnew =>
      split at hstep
      · next hplace =>
        cases hstep
        exact ⟨_, rfl, .push hnew hplace⟩
      · cases hstep
        exact ⟨_, rfl, .full⟩
  | count t =>
    rw [TaskStrand.step] at hstep
    split at hstep
    · next ht =>
      have hlen := List.length_pos_of_mem (show t ∈ s.entering from ht)
      rw [stored_of_lt (by omega)] at hstep
      simp only at hstep
      split at hstep
      · next hzero =>
        cases hstep
        rw [if_pos hzero] at hheld
        refine ⟨_, ?_, .acquire ht hzero (List.length_eq_zero_iff.1 (by omega))
          ⟨List.length_eq_zero_iff.1 (by omega), by omega⟩⟩
        rw [hzero]
        rfl
      · next hpos =>
        cases hstep
        exact ⟨_, rfl, .count ht hpos⟩
    · cases hstep
  | dispatch t =>
    rw [TaskStrand.step] at hstep
    split_ifs at hstep with ht
    cases hstep
    refine ⟨_, rfl, .dispatch ht fun hzero => ?_⟩
    have hlen := List.length_pos_of_mem (show t ∈ s.acquired from ht)
    rw [if_pos hzero] at hheld
    omega
  | startJob =>
    rw [TaskStrand.step] at hstep
    split_ifs at hstep with hdisp
    replace hdisp : 0 < s.dispatched := hdisp
    have hpos : s.jobCount ≠ 0 := by
      intro hzero
      rw [if_pos hzero] at hheld
      omega
    rw [if_neg hpos] at hheld
    have hjobs : s.jobs = [] := List.length_eq_zero_iff.1 (by omega)
    -- nothing is popped, so the counted tasks are in the queue
    have hlt : s.jobCount < 2 ^ 32 := by
      have hcounted := h.counted
      have hplaces := h.places
      rw [hjobs, List.map_nil, List.sum_nil] at hcounted
      omega
    rw [stored_of_lt hlt, hjobs, nextBatch, if_neg hpos] at hstep
    cases hstep
    exact ⟨_, Eq.symm (stored_of_lt (by exact hlt)), .startJob hdisp hpos hjobs⟩
  | pop i =>
    rw [TaskStrand.step] at hstep
    split at hstep
    · next queueSize runCount hj =>
      obtain ⟨rfl, hjobs, -, -, hpos⟩ := h.sole hj
      split_ifs at hstep with hlt
      split at hstep
      · next t queue hqueue =>
        cases hstep
        refine ⟨_, ?_, .pop (Nat.ne_of_gt hpos) hjobs hlt hqueue⟩
        rw [show s.stored.jobs = _ from hjobs]
        rfl
      · next hqueue => exact absurd hqueue (h.queue_ne_nil hjobs hlt)
    · cases hstep
  | endTask i =>
    rw [TaskStrand.step] at hstep
    split at hstep
    · next queueSize runCount t hj =>
      obtain ⟨rfl, hjobs, -, -, hpos⟩ := h.sole hj
      cases hstep
      refine ⟨_, ?_, .endTask (Nat.ne_of_gt hpos) hjobs⟩
      rw [show s.stored.jobs = _ from hjobs]
      rfl
    · cases hstep
  | subtract i =>
    rw [TaskStrand.step] at hstep
    split at hstep
    · next queueSize runCount hj =>
      obtain ⟨rfl, hjobs, hacq, hdisp, hpos⟩ := h.sole hj
      split_ifs at hstep with heq
      cases hstep
      subst heq
      obtain ⟨hb0, hb1, -⟩ := h.batch _ (hjobs ▸ List.mem_singleton_self _)
      have hsub : fetchSub s.stored.jobCount runCount = s.jobCount - runCount :=
        fetchSub_mod hb0 hb1 (by omega)
      have hlt : s.jobCount - runCount < 2 ^ 32 := by
        simp only at hb0
        omega
      refine ⟨_, ?_, .subtract (Nat.ne_of_gt hpos) hjobs hb0 hb1 ⟨hacq, hdisp⟩⟩
      rw [hsub, show s.stored.jobs = _ from hjobs]
      exact Eq.symm (stored_of_lt (by exact hlt))
    · cases hstep

theorem length_erase_add_one {t : α} {l : List α} (ht : t ∈ l) :
    (l.erase t).length + 1 = l.length := by
  rw [List.length_erase_of_mem ht]
  exact Nat.sub_add_cancel (List.length_pos_of_mem ht)

/-- **Every step keeps the invariant.** -/
theorem Inv.step (h : Inv capacity s) (hmove : Moves capacity s e s') : Inv capacity s' := by
  obtain ⟨hcounted, hheld, hbatch, hplaces, horder, hran, hnodup, hcalls⟩ := id h
  cases hmove with
  | @push t hnew hplace =>
    refine ⟨?_, hheld, hbatch, ?_, ?_, hran, ?_, ?_⟩
    · simp
      omega
    · simpa using Nat.succ_le_of_lt hplace
    · simp [← horder]
    · rw [List.nodup_append]
      grind
    · grind
  | full => exact h
  | @acquire t ht hzero hjobs hfree =>
    have hlen := length_erase_add_one ht
    refine ⟨?_, ?_, ?_, hplaces, horder, hran, hnodup, ?_⟩
    · simp only
      omega
    · simp [hjobs, hfree]
    · simp [hjobs]
    · grind [List.mem_of_mem_erase]
  | @count t ht hpos =>
    have hlen := length_erase_add_one ht
    refine ⟨?_, ?_, fun j hj => ?_, hplaces, horder, hran, hnodup, ?_⟩
    · simp only
      omega
    · simpa [hpos] using hheld
    · have := hbatch j hj
      simp only
      omega
    · grind [List.mem_of_mem_erase]
  | @dispatch t ht hpos =>
    have hlen := length_erase_add_one ht
    refine ⟨hcounted, ?_, hbatch, hplaces, horder, hran, hnodup, ?_⟩
    · simp only [← hheld]
      omega
    · grind [List.mem_of_mem_erase]
  | startJob hdisp hpos hjobs =>
    refine ⟨?_, ?_, ?_, hplaces, horder, ?_, hnodup, hcalls⟩
    · simpa [hjobs, popped] using hcounted
    · simp only [hjobs, List.length_nil, List.length_singleton, ← hheld]
      omega
    · simp [hjobs] at hcounted
      simp [popped]
      omega
    · simpa [running, hjobs] using hran
  | @pop t queue queueSize runCount hpos hjobs hlt hqueue =>
    refine ⟨?_, ?_, ?_, ?_, ?_, ?_, hnodup, hcalls⟩
    · simp [hjobs, hqueue, popped] at hcounted ⊢
      omega
    · simpa [hjobs] using hheld
    · simp [hjobs, popped] at hbatch ⊢
      omega
    · simp [hqueue] at hplaces
      exact Nat.le_of_succ_le hplaces
    · simp [← horder, hqueue]
    · simpa [running, hjobs] using hran
  | @endTask t queueSize runCount hpos hjobs =>
    refine ⟨?_, ?_, ?_, hplaces, horder, ?_, hnodup, hcalls⟩
    · simpa [hjobs, popped] using hcounted
    · simpa [hjobs] using hheld
    · simpa [hjobs, popped] using hbatch
    · simpa [running, hjobs] using hran
  | @subtract runCount hpos hjobs hrun hle hfree =>
    have hran' : s.finished ++ running { s with jobs := nextBatch (s.jobCount - runCount) } =
        s.started := by
      rw [nextBatch]
      split <;> simpa [running, hjobs] using hran
    refine ⟨?_, ?_, ?_, hplaces, horder, hran', hnodup, hcalls⟩
    all_goals
      simp [hjobs, popped] at hcounted
      rw [nextBatch]
      split <;> simp_all [popped] <;> omega

/-- A run of the stored strand is one of the strand whose counter does not wrap. -/
theorem Inv.run (hcap : capacity ≤ 2 ^ 31) (h : Inv capacity s)
    (hrun : Run (Steps capacity) s.stored es s') :
    ∃ u, s' = u.stored ∧ Inv capacity u ∧ Run (Moves capacity) s es u := by
  generalize hs : s.stored = s₀ at hrun
  induction hrun generalizing s with
  | nil => exact ⟨s, hs.symm, h, .nil s⟩
  | cons hstep _ ih =>
    subst hs
    obtain ⟨u, rfl, hmove⟩ := h.moves hcap hstep
    obtain ⟨v, rfl, hinv, hmoves⟩ := ih (h.step hmove) rfl
    exact ⟨v, rfl, hinv, .cons hmove hmoves⟩

/-! ## Progress -/

/-- How far the holder of the strand is from its next pop; a strand without holder is the farthest
but for a job in the middle of a batch. -/
def jobRank (j : StrandJob α) : Nat :=
  if j.task.isSome then 10 else if j.runCount = 0 then 4 else 9

def holderRank (s : TaskStrand α) : Nat :=
  if s.jobCount = 0 then 7
  else 6 * s.acquired.length + 5 * s.dispatched + (s.jobs.map jobRank).sum

/-- An upper bound of the steps the holder makes before it pops `t`. -/
def rank (s : TaskStrand α) (t : α) : Nat := 10 * s.queue.idxOf t + s.holderRank

/-- A step that the holder makes brings every task in the queue closer, and no other step takes it
farther away. -/
theorem rank_step (h : Inv capacity s) (hmove : Moves capacity s e s') {t : α} (ht : t ∈ s.queue)
    (ht' : t ∈ s'.queue) : s'.rank t + s'.progress ≤ s.rank t + s.progress := by
  simp only [rank, holderRank]
  cases hmove with
  | push hnew hplace => simp [List.idxOf_append_of_mem ht]
  | full => exact Nat.le_refl _
  | acquire hmem hzero hjobs hfree =>
    simp [hzero, hjobs, hfree]
    omega
  | count hmem hpos => simp [hpos]
  | dispatch hmem hpos =>
    have hlen := length_erase_add_one hmem
    simp only [hpos, if_false]
    omega
  | startJob hdisp hpos hjobs =>
    simp [hpos, hjobs, jobRank]
    omega
  | @pop u queue queueSize runCount hpos hjobs hlt hqueue =>
    have hne : u ≠ t := by
      rintro rfl
      have hnodup := h.nodup
      rw [← h.order, hqueue] at hnodup
      exact (List.nodup_cons.1 (List.nodup_append.1 hnodup).2.1).1 ht'
    simp [hpos, hjobs, hqueue, List.idxOf_cons_ne _ hne, jobRank]
    split <;> omega
  | endTask hpos hjobs =>
    simp [hpos, hjobs, jobRank]
    omega
  | subtract hpos hjobs hrun hle hfree =>
    simp [hpos, hjobs, hfree, jobRank, Nat.ne_of_gt hrun, nextBatch]
    split
    · omega
    · simp [jobRank]
      omega

theorem rank_le (h : Inv capacity s) (t : α) : s.rank t ≤ 10 * (s.queue.idxOf t + 1) := by
  have hheld := h.held
  have hrank : s.holderRank ≤ 10 := by
    rw [holderRank]
    split
    · decide
    · next hpos =>
      rw [if_neg hpos] at hheld
      rcases hjobs : s.jobs with _ | ⟨j, js⟩ <;>
        simp only [hjobs, List.length_cons, List.length_nil] at hheld
      · simp
        omega
      · obtain rfl : js = [] := List.length_eq_zero_iff.1 (by omega)
        have hjob : jobRank j ≤ 10 := by
          rw [jobRank]
          split_ifs <;> decide
        simp
        omega
  rw [rank]
  omega

/-- A task that stays in the queue has been passed by few steps of the holder. -/
theorem progress_le (h : Inv capacity s) (hrun : Run (Moves capacity) s es s') {t : α}
    (ht : t ∈ s.queue) (ht' : t ∈ s'.queue) : s'.rank t + s'.progress ≤ s.rank t + s.progress := by
  induction hrun with
  | nil => exact Nat.le_refl _
  | @cons s₀ s₁ s₂ e es hmove hrest ih =>
    have hinv := h.step hmove
    -- a task that has left the queue does not come back
    have hmid : t ∈ s₁.queue := by
      by_contra hnot
      have hentered : t ∈ s₁.entered := by
        have ht₀ : t ∈ s₀.entered := h.order ▸ List.mem_append_right _ ht
        cases hmove with
        | push => exact List.mem_append_left _ ht₀
        | _ => exact ht₀
      have hstarted : t ∈ s₁.started := by
        rw [← hinv.order] at hentered
        exact (List.mem_append.1 hentered).resolve_right hnot
      have hkeep : ∀ a e b, (Inv capacity a ∧ t ∈ a.started) → Moves capacity a e b →
          Inv capacity b ∧ t ∈ b.started := by
        intro a e b ha hab
        refine ⟨ha.1.step hab, ?_⟩
        cases hab with
        | pop => exact List.mem_append_left _ ha.2
        | _ => exact ha.2
      obtain ⟨hinv₂, hstarted₂⟩ := hrest.invariant hkeep ⟨hinv, hstarted⟩
      have hnodup := hinv₂.nodup
      rw [← hinv₂.order] at hnodup
      exact (List.nodup_append.1 hnodup).2.2 t hstarted₂ t ht' rfl
    have hfirst := rank_step h hmove ht hmid
    have hlast := ih hinv hmid ht'
    omega

/-- While tasks are in the queue, the strand can be taken or its holder can go on. -/
theorem Inv.enabled (h : Inv capacity s) (hqueue : s.queue ≠ []) :
    ∃ e s', s.stored.step capacity e = some s' ∧ s'.progress = s.stored.progress + 1 := by
  suffices hmap : ∃ e, (s.stored.step capacity e).map progress = some (s.stored.progress + 1) by
    obtain ⟨e, he⟩ := hmap
    obtain ⟨s', hs', hprogress⟩ := Option.map_eq_some_iff.1 he
    exact ⟨e, s', hs', hprogress⟩
  have hcounted := h.counted
  have hheld := h.held
  have hlen := List.length_pos_of_ne_nil hqueue
  by_cases hzero : s.jobCount = 0
  · obtain ⟨t, ht⟩ := List.exists_mem_of_length_pos (l := s.entering) (by omega)
    refine ⟨.count t, ?_⟩
    have hcount : s.stored.jobCount = 0 := (congrArg (· % 2 ^ 32) hzero).trans (Nat.zero_mod _)
    rw [TaskStrand.step, if_pos (show t ∈ s.stored.entering from ht)]
    simp [if_pos hcount]
  · rw [if_neg hzero] at hheld
    match hjobs : s.jobs with
    | [] =>
      rw [hjobs] at hheld
      change _ + _ + 0 = 1 at hheld
      by_cases hdisp : 0 < s.dispatched
      · refine ⟨.startJob, ?_⟩
        rw [TaskStrand.step, if_pos (show 0 < s.stored.dispatched from hdisp), Option.map_some]
      · obtain ⟨t, ht⟩ := List.exists_mem_of_length_pos (l := s.acquired) (by omega)
        refine ⟨.dispatch t, ?_⟩
        rw [TaskStrand.step, if_pos (show t ∈ s.stored.acquired from ht), Option.map_some]
    | ⟨queueSize, runCount, task⟩ :: js =>
      obtain ⟨-, -, -, hpopped⟩ := h.batch ⟨queueSize, runCount, task⟩
        (hjobs ▸ List.mem_cons_self)
      have hget : s.stored.jobs[0]? = some ⟨queueSize, runCount, task⟩ :=
        congrArg (·[0]?) hjobs
      cases task with
      | some t =>
        refine ⟨.endTask 0, ?_⟩
        rw [TaskStrand.step, hget]
        simp
      | none =>
        rcases Nat.lt_or_eq_of_le hpopped with hlt | heq
        · obtain ⟨t, queue, hcons⟩ := List.exists_cons_of_ne_nil (l := s.stored.queue) hqueue
          refine ⟨.pop 0, ?_⟩
          rw [TaskStrand.step, hget]
          simp [if_pos (show runCount < queueSize from hlt), hcons]
        · refine ⟨.subtract 0, ?_⟩
          rw [TaskStrand.step, hget]
          simp [if_pos (show runCount = queueSize from heq)]

/-- **Serialisation by a strand.** -/
theorem strand_serialises (hcap : capacity ≤ 2 ^ 31) (hrun : Run (Steps capacity) init es s) :
    -- one task at a time, in the order of the queue, none twice
    s.running.length ≤ 1 ∧ s.finished ++ s.running = s.started ∧ s.started ++ s.queue = s.entered ∧
    s.entered.Nodup ∧ (∀ t ∈ s.accepted, t ∈ s.entered) ∧
    -- nothing is left behind
    (s.Quiescent → s.jobCount = 0 ∧ s.queue = [] ∧ ∀ t ∈ s.accepted, s.finished.count t = 1) ∧
    -- every task gets its turn
    (∀ es' s', Run (Steps capacity) s es' s' → ∀ t ∈ s.queue, t ∈ s'.queue →
      s'.progress ≤ s.progress + 10 * (s.queue.idxOf t + 1)) ∧
    (s.queue ≠ [] → ∃ e s', s.step capacity e = some s' ∧ s'.progress = s.progress + 1) := by
  obtain ⟨s, rfl, h, -⟩ := inv_init.run hcap (show Run _ (stored init) _ _ from hrun)
  have haccepted : ∀ t ∈ s.accepted, t ∈ s.entered := fun t ht => h.calls t (.inr (.inr ht))
  refine ⟨h.running_length_le, h.ran, h.order, h.nodup, haccepted, fun hq => ?_, ?_, h.enabled⟩
  · obtain ⟨hzero, hqueue, hfinished⟩ := h.quiescent hq
    refine ⟨(congrArg (· % 2 ^ 32) hzero).trans (Nat.zero_mod _), hqueue, fun t ht => ?_⟩
    rw [show s.stored.finished = _ from hfinished]
    exact List.count_eq_one_of_mem h.nodup (haccepted t ht)
  · intro es' s' hrun' t ht ht'
    obtain ⟨s', rfl, -, hmoves⟩ := h.run hcap hrun'
    have hprogress := progress_le h hmoves ht ht'
    have hrank := rank_le h t
    show s'.progress ≤ s.progress + 10 * (s.queue.idxOf t + 1)
    omega

/-- A queue with one place: the task of the first call runs, the second one is refused, the third
one enters after the first was popped. -/
theorem strand_serialises_onePlace : ∃ s : TaskStrand Nat, s.Quiescent ∧ s.finished = [0, 2] ∧
    s.jobCount = 0 ∧ s.queue = [] ∧ ∀ t ∈ s.accepted, s.finished.count t = 1 := by
  have hexec : (exec (step 1) (init : TaskStrand Nat) [.push 0, .count 0, .push 1, .dispatch 0,
      .startJob, .pop 0, .push 2, .endTask 0, .subtract 0, .count 2, .dispatch 2, .startJob, .pop 0,
      .endTask 0, .subtract 0]).map (fun s => (s.entering, s.acquired, s.dispatched, s.jobs.isEmpty,
      s.finished)) = some ([], [], 0, true, [0, 2]) := by decide
  obtain ⟨s, hs, heq⟩ := Option.map_eq_some_iff.1 hexec
  simp only [Prod.mk.injEq] at heq
  have hq : s.Quiescent := ⟨heq.1, heq.2.1, heq.2.2.1, List.isEmpty_iff.1 heq.2.2.2.1⟩
  exact ⟨s, hq, heq.2.2.2.2,
    (strand_serialises (by decide) (run_of_exec hs)).2.2.2.2.2.1 hq⟩

/-! ## A queue that is too large -/

/-- `k` tasks are in the queue and counted, and a job is dispatched. -/
def filled (k : Nat) (accepted : List Nat) (progress : Nat) : TaskStrand Nat where
  queue := List.range' 0 k
  jobCount := k
  entering := []
  acquired := []
  dispatched := 1
  jobs := []
  entered := List.range' 0 k
  started := []
  finished := []
  accepted
  progress

theorem exists_filled {k : Nat} (hk : k + 1 ≤ capacity) (hlt : k + 1 < 2 ^ 32) :
    ∃ es accepted progress,
      Run (Steps capacity) (init : TaskStrand Nat) es (filled (k + 1) accepted progress) := by
  induction k with
  | zero =>
    refine ⟨[.push 0, .count 0, .dispatch 0], [0], 2, run_of_exec ?_⟩
    simp [exec, step, init, filled, Nat.lt_of_lt_of_le Nat.zero_lt_one hk]
  | succ k ih =>
    obtain ⟨es, accepted, progress, hrun⟩ := ih (Nat.le_of_succ_le hk) (Nat.lt_of_succ_lt hlt)
    refine ⟨es ++ [.push (k + 1), .count (k + 1)], accepted ++ [k + 1], progress,
      hrun.append (run_of_exec ?_)⟩
    have hmod : (k + 1 + 1) % 2 ^ 32 = k + 1 + 1 := Nat.mod_eq_of_lt hlt
    have hconcat : List.range' 0 (k + 1 + 1) = List.range' 0 (k + 1) ++ [k + 1] := by
      rw [List.range'_1_concat, Nat.zero_add]
    have hnew : k + 1 ∉ List.range' 0 (k + 1) := by simp [List.mem_range'_1]
    have hplace : (List.range' 0 (k + 1)).length < capacity := by
      rw [List.length_range']
      exact hk
    rw [filled, filled, hconcat]
    simp only [exec, step, if_neg hnew, if_pos hplace, Option.bind_some, List.nil_append,
      List.mem_singleton, if_true, if_neg (Nat.succ_ne_zero k), hmod, List.erase_cons_head]

/-- A job has run `i` tasks, and the queue of `k + 1` places was filled again after each of them. -/
def refilled (k i : Nat) (accepted : List Nat) (progress : Nat) : TaskStrand Nat where
  queue := List.range' i (k + 1)
  jobCount := (k + 1 + i) % 2 ^ 32
  entering := []
  acquired := []
  dispatched := 0
  jobs := [⟨k + 1, i, none⟩]
  entered := List.range' 0 (k + 1 + i)
  started := List.range' 0 i
  finished := List.range' 0 i
  accepted
  progress

/-- The job has popped another task, and a call has put one into its place. -/
def replaced (k i : Nat) (accepted : List Nat) (progress : Nat) : TaskStrand Nat :=
  { refilled k i accepted progress with
    queue := List.range' (i + 1) (k + 1)
    entering := [k + 1 + i]
    jobs := [⟨k + 1, i, some i⟩]
    entered := List.range' 0 (k + 1 + (i + 1))
    started := List.range' 0 (i + 1) }

theorem exec_replace {k i : Nat} (hi : i < k + 1) (accepted : List Nat) (progress : Nat) :
    exec (step (k + 1)) (refilled k i accepted progress) [.pop 0, .push (k + 1 + i)] =
      some (replaced k i accepted (progress + 1)) := by
  have hnew : k + 1 + i ∉ List.range' 0 (k + 1 + i) := by simp [List.mem_range'_1]
  have hqueue : List.range' (i + 1) (k + 1) = List.range' (i + 1) k ++ [k + 1 + i] := by
    rw [List.range'_1_concat, Nat.add_right_comm, Nat.add_comm i k, Nat.add_right_comm]
  have hentered : List.range' 0 (k + 1 + (i + 1)) = List.range' 0 (k + 1 + i) ++ [k + 1 + i] := by
    rw [← Nat.add_assoc, List.range'_1_concat, Nat.zero_add]
  have hstarted : List.range' 0 (i + 1) = List.range' 0 i ++ [i] := by
    rw [List.range'_1_concat, Nat.zero_add]
  rw [replaced, hqueue, hentered, hstarted]
  simp [exec, step, refilled, hi, hnew, List.range'_succ]

theorem exists_refilled {k i : Nat} (hi : i ≤ k + 1) (hlt : k + 1 < 2 ^ 32)
    (hwrap : k + 1 + i ≤ 2 ^ 32) : ∃ es accepted progress,
      Run (Steps (k + 1)) (init : TaskStrand Nat) es (refilled k i accepted progress) := by
  induction i with
  | zero =>
    obtain ⟨es, accepted, progress, hrun⟩ := exists_filled (Nat.le_refl (k + 1)) hlt
    refine ⟨es ++ [.startJob], accepted, progress + 1, hrun.append (run_of_exec ?_)⟩
    simp [exec, step, filled, refilled, nextBatch]
    omega
  | succ i ih =>
    obtain ⟨es, accepted, progress, hrun⟩ := ih (by omega) (by omega)
    have hreplace := run_of_exec (exec_replace (Nat.lt_of_succ_le hi) accepted progress)
    refine ⟨_ ++ [.count (k + 1 + i), .endTask 0], accepted ++ [k + 1 + i], progress + 2,
      (hrun.append hreplace).append (run_of_exec ?_)⟩
    have hpos : (k + 1 + i) % 2 ^ 32 ≠ 0 := by
      rw [Nat.mod_eq_of_lt (by omega)]
      omega
    have hcount : ((k + 1 + i) % 2 ^ 32 + 1) % 2 ^ 32 = (k + 1 + (i + 1)) % 2 ^ 32 :=
      Nat.mod_add_mod ..
    have hfinished : List.range' 0 (i + 1) = List.range' 0 i ++ [i] := by
      rw [List.range'_1_concat, Nat.zero_add]
    simp only [exec, step, replaced, refilled, hfinished, if_neg hpos, hcount, List.mem_singleton,
      if_true, Option.bind_some, List.erase_cons_head, List.getElem?_cons_zero, List.set_cons_zero]

/-- **The counter can wrap**, after a job has run 2³¹ - 1 tasks and the queue was filled again. -/
theorem strand_counter_wraps : ∃ es s,
    Run (Steps (2 ^ 31 + 1)) (init : TaskStrand Nat) es s ∧
      s.running = [2 ^ 31 - 1, 2 ^ 31] := by
  obtain ⟨i, hi⟩ : ∃ i, i = 2 ^ 31 - 1 := ⟨_, rfl⟩
  rw [show 2 ^ 31 + 1 = i + 1 + 1 by omega, ← hi, show 2 ^ 31 = i + 1 by omega]
  obtain ⟨es, accepted, progress, hrun⟩ := exists_refilled (k := i + 1) (i := i) (by omega)
    (by omega) (by omega)
  have hreplace := run_of_exec (exec_replace (show i < i + 1 + 1 by omega) accepted progress)
  have hwrap : (i + 1 + 1 + i) % 4294967296 = 0 := by omega
  have hlast : ∃ s, exec (step (i + 1 + 1)) (replaced (i + 1) i accepted (progress + 1))
      [.count (i + 1 + 1 + i), .dispatch (i + 1 + 1 + i), .startJob, .pop 1] = some s ∧
        s.running = [i, i + 1] := by
    simp [exec, step, replaced, refilled, nextBatch, hwrap, List.range'_succ, running]
  obtain ⟨s, hexec, hrunning⟩ := hlast
  exact ⟨_, s, (hrun.append hreplace).append (run_of_exec hexec), hrunning⟩

end TaskStrand

end RadioStack
