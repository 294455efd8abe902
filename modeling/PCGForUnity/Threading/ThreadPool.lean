/-
PCGForUnity/Threading/ThreadPool.lean

The pool that every background task of the program runs on: `ThreadPool`, its worker
loop, its destructor, and `ThreadManager::AddTask`.

What runs with `m_mutex` locked is one step.  A worker that has the mutex evaluates the
predicate of `m_condition.wait`, and then blocks, returns from its thread or pops a task;
the task itself runs without the mutex.  `enqueue` pushes in one step and calls
`notify_one` in a later one, and the destructor sets `m_bStop`, calls `notify_all` and
joins the workers one by one.  A step names who takes it, so that a run is any
interleaving, spurious wake-ups included.  What a task does is not modelled, except that it
returns, and that it may add tasks.

Every task that was accepted is started once, in the order in which it was accepted
(`tasks_in_order`); no task waits in the queue for a worker that nobody wakes (`awake_of_waiting`);
and what the pool does by itself ends, with every accepted task run (`settles`).
-/
import PCGForUnity.Lib.Run
import Mathlib.Data.List.Perm.Basic

namespace PCGForUnity

/-- Where a worker stands: about to evaluate the predicate, blocked in `m_condition.wait`,
in a task, or returned. -/
inductive Worker (Task : Type)
  | ready
  | waiting
  | running (task : Task)
  | exited
deriving DecidableEq, Repr

/-- How far `~ThreadPool` is: not called, before `notify_all`, or before the `join` of the
worker with this index. -/
inductive Destructor
  | notCalled
  | notifyAll
  | join (worker : ℕ)
deriving DecidableEq, Repr

/-- The pool.  `notifies` counts the calls of `enqueue` that have pushed and not yet called
`notify_one`, and `log` is what `AddTask` logged.  `accepted`, `started` and `finished` are
the tasks that `enqueue` pushed, that workers popped and that returned, so far. -/
structure ThreadPool (Task : Type) where
  workers : List (Worker Task)
  tasks : List Task
  stop : Bool
  notifies : ℕ
  destructor : Destructor
  log : List String
  accepted : List Task
  started : List Task
  finished : List Task
deriving DecidableEq, Repr

namespace Worker

variable {Task : Type}

/-- The task that a worker is in. -/
def task? : Worker Task → Option Task
  | .running task => some task
  | _ => none

/-- The worker is about to look for a task. -/
def isReady : Worker Task → Bool
  | .ready => true
  | _ => false

/-- The worker waits. -/
def isWaiting : Worker Task → Bool
  | .waiting => true
  | _ => false

/-- The steps that a worker makes with no task left in the queue. -/
def work : Worker Task → ℕ
  | .ready => 1
  | .running _ => 2
  | .waiting | .exited => 0

/-- What `notify_all` does to a worker. -/
def notified : Worker Task → Worker Task
  | .waiting => .ready
  | w => w

@[simp] theorem task?_notified (w : Worker Task) : w.notified.task? = w.task? := by
  cases w <;> rfl

theorem work_notified_le (w : Worker Task) : w.notified.work ≤ w.work + 1 := by
  cases w <;> simp [notified, work]

end Worker

namespace ThreadPool

variable {Task : Type}

/-! ### The pool as coded -/

/-- `ThreadPool(size_t)`. -/
def start (threads : ℕ) : ThreadPool Task :=
  { workers := List.replicate threads .ready
    tasks := []
    stop := false
    notifies := 0
    destructor := .notCalled
    log := []
    accepted := []
    started := []
    finished := [] }

/-- What `condition.wait` waits for. -/
def predicate (p : ThreadPool Task) : Bool := p.stop || !p.tasks.isEmpty

/-- `enqueue` up to its `notify_one`. -/
def enqueue (p : ThreadPool Task) (task : Task) : Except String (ThreadPool Task) :=
  if p.stop then .error "enqueue on stopped ThreadPool"
  else .ok { p with
    tasks := p.tasks ++ [task]
    notifies := p.notifies + 1
    accepted := p.accepted ++ [task] }

/-- `ThreadManager::AddTask`.  Its own mutex only orders the calls. -/
def addTask (p : ThreadPool Task) (task : Task) : ThreadPool Task :=
  match p.enqueue task with
  | .ok p => p
  | .error what => { p with log := p.log ++ ["try to add thread task fail!" ++ what] }

/-- `notify_one`, of a worker that waits if there is one. -/
def notifyOne (p : ThreadPool Task) (woken : Option ℕ) : Option (ThreadPool Task) :=
  if p.notifies = 0 then none
  else
    match woken with
    | some i =>
        match p.workers[i]? with
        | some .waiting => some { p with
            workers := p.workers.set i .ready
            notifies := p.notifies - 1 }
        | _ => none
    | none =>
        if p.workers.any Worker.isWaiting then none
        else some { p with notifies := p.notifies - 1 }

/-- One turn of the worker loop, from the predicate to the end of the block. -/
def look (p : ThreadPool Task) (i : ℕ) : Option (ThreadPool Task) :=
  match p.workers[i]? with
  | some .ready =>
      if !p.predicate then some { p with workers := p.workers.set i .waiting }
      else if p.stop && p.tasks.isEmpty then some { p with workers := p.workers.set i .exited }
      else
        match p.tasks with
        | task :: tasks => some { p with
            workers := p.workers.set i (.running task)
            tasks
            started := p.started ++ [task] }
        -- the front of an empty queue
        | [] => none
  | _ => none

/-- `task()` returns. -/
def finish (p : ThreadPool Task) (i : ℕ) : Option (ThreadPool Task) :=
  match p.workers[i]? with
  | some (.running task) => some { p with
      workers := p.workers.set i .ready
      finished := p.finished ++ [task] }
  | _ => none

/-- A spurious wake-up. -/
def wake (p : ThreadPool Task) (i : ℕ) : Option (ThreadPool Task) :=
  match p.workers[i]? with
  | some .waiting => some { p with workers := p.workers.set i .ready }
  | _ => none

/-- `~ThreadPool` up to its `notify_all`. -/
def destroy (p : ThreadPool Task) : Option (ThreadPool Task) :=
  match p.destructor with
  | .notCalled => some { p with stop := true, destructor := .notifyAll }
  | _ => none

/-- `condition.notify_all` of the destructor. -/
def notifyAll (p : ThreadPool Task) : Option (ThreadPool Task) :=
  match p.destructor with
  | .notifyAll => some { p with workers := p.workers.map Worker.notified, destructor := .join 0 }
  | _ => none

/-- `worker.join()` returns. -/
def join (p : ThreadPool Task) : Option (ThreadPool Task) :=
  match p.destructor with
  | .join i =>
      match p.workers[i]? with
      | some .exited => some { p with destructor := .join (i + 1) }
      | _ => none
  | _ => none

/-- What the workers and those who use the pool do. -/
inductive Op (Task : Type)
  | addTask (task : Task)
  | notifyOne (woken : Option ℕ)
  | look (i : ℕ)
  | finish (i : ℕ)
  | wake (i : ℕ)
  | destroy
  | notifyAll
  | join
deriving DecidableEq, Repr

/-- A step, if it can be taken. -/
def step (p : ThreadPool Task) : Op Task → Option (ThreadPool Task)
  | .addTask task => some (p.addTask task)
  | .notifyOne woken => p.notifyOne woken
  | .look i => p.look i
  | .finish i => p.finish i
  | .wake i => p.wake i
  | .destroy => p.destroy
  | .notifyAll => p.notifyAll
  | .join => p.join

/-- The steps that the pool makes by itself: not the ones of its callers, nor the spurious
wake-ups. -/
def Op.Own : Op Task → Prop
  | .addTask _ | .wake _ | .destroy => False
  | _ => True

instance : DecidablePred (@Op.Own Task) := fun op => by
  cases op <;> unfold Op.Own <;> infer_instance

/-- `~ThreadPool` has returned. -/
def Destroyed (p : ThreadPool Task) : Prop := p.destructor = .join p.workers.length

instance (p : ThreadPool Task) : Decidable p.Destroyed := inferInstanceAs (Decidable (_ = _))

/-! ### What every step keeps -/

/-- What holds between the steps of a pool of `threads` workers.  `awake` is why no task
is forgotten: while a worker sleeps, each task of the queue has a worker that will look for
it or a `notify_one` to come. -/
structure Inv (threads : ℕ) (p : ThreadPool Task) : Prop where
  length : p.workers.length = threads
  fifo : p.accepted = p.started ++ p.tasks
  once : p.started.Perm (p.finished ++ p.workers.filterMap Worker.task?)
  stop : p.stop = true ↔ p.destructor ≠ .notCalled
  awake : Worker.waiting ∈ p.workers →
    p.tasks.length ≤ p.workers.countP Worker.isReady + p.notifies
  exited : Worker.exited ∈ p.workers → p.stop = true ∧ p.tasks = []
  joined : ∀ k, p.destructor = .join k →
    k ≤ threads ∧ Worker.waiting ∉ p.workers ∧ ∀ i < k, p.workers[i]? = some .exited

theorem inv_start (threads : ℕ) : Inv threads (start threads : ThreadPool Task) where
  length := List.length_replicate
  fifo := rfl
  once := by
    have : (List.replicate threads (Worker.ready : Worker Task)).filterMap Worker.task? = [] :=
      List.filterMap_eq_nil_iff.mpr fun w hw => by rw [List.eq_of_mem_replicate hw]; rfl
    exact List.Perm.of_eq this.symm
  stop := by simp [start]
  awake := by simp [start]
  exited h := by simp [start] at h
  joined k h := by simp [start] at h

/-- One worker goes from `old` to `new`. -/
theorem exists_set {ws : List (Worker Task)} {i : ℕ} {old : Worker Task}
    (hi : ws[i]? = some old) (new : Worker Task) :
    ∃ pre post, ws = pre ++ old :: post ∧ ws.set i new = pre ++ new :: post := by
  obtain ⟨hlt, rfl⟩ := List.getElem?_eq_some_iff.mp hi
  obtain ⟨pre, post, e, -, e'⟩ := @List.exists_of_set _ i new ws hlt
  exact ⟨pre, post, e, e'⟩

/-- A step of one worker, or one that wakes it, keeps the invariant: it takes or finishes a
task whole, and if it leaves tasks in the queue it does not make the worker one of those
that look for none. -/
theorem Inv.set_worker {n i : ℕ} {p p' : ThreadPool Task} (h : Inv n p) {old new : Worker Task}
    (hi : p.workers[i]? = some old) (hold : old ≠ .exited)
    (hworkers : p'.workers = p.workers.set i new)
    (hstop : p'.stop = p.stop) (hdestructor : p'.destructor = p.destructor)
    (hfifo : p'.accepted = p'.started ++ p'.tasks)
    (honce : ∀ rest, p.started.Perm (p.finished ++ (old.task?.toList ++ rest)) →
      p'.started.Perm (p'.finished ++ (new.task?.toList ++ rest)))
    (hempty : p.tasks = [] → p'.tasks = [])
    (hawake : p'.tasks = [] ∨ new ≠ .waiting ∧
      p'.tasks.length + (if old.isReady then 1 else 0) + p.notifies
        ≤ p.tasks.length + (if new.isReady then 1 else 0) + p'.notifies)
    (hwaiting : new = .waiting → p.stop = false)
    (hexited : new = .exited → p.stop = true ∧ p'.tasks = []) : Inv n p' := by
  obtain ⟨pre, post, hws, hset⟩ := exists_set hi new
  have hmem {w : Worker Task} (hw : w ∈ p'.workers) : w = new ∨ w ∈ p.workers := by
    rw [hworkers] at hw
    exact (List.mem_or_eq_of_mem_set hw).symm
  -- what the worker is in stands beside what the others are in
  have hperm (w : Worker Task) : ((pre ++ w :: post).filterMap Worker.task?).Perm
      (w.task?.toList ++ (pre ++ post).filterMap Worker.task?) := by
    refine (List.perm_middle.filterMap Worker.task?).trans (List.Perm.of_eq ?_)
    cases w <;> rfl
  refine ⟨?_, hfifo, ?_, ?_, ?_, ?_, ?_⟩
  · rw [hworkers, List.length_set]
    exact h.length
  · rw [hworkers, hset]
    refine (honce _ ?_).trans ((hperm new).symm.append_left _)
    exact h.once.trans ((hws ▸ hperm old).append_left _)
  · rw [hstop, hdestructor]
    exact h.stop
  · intro hw
    -- in the counts only the share of this worker changes
    rcases hawake with hnil | ⟨hnew, hle⟩
    · simp [hnil]
    · have hp := h.awake ((hmem hw).resolve_left fun e => hnew e.symm)
      rw [hws, List.countP_append, List.countP_cons] at hp
      rw [hworkers, hset, List.countP_append, List.countP_cons]
      omega
  · intro he
    rw [hstop]
    rcases hmem he with e | hmem
    · exact hexited e.symm
    · exact ⟨(h.exited hmem).1, hempty (h.exited hmem).2⟩
  · intro k hk
    rw [hdestructor] at hk
    obtain ⟨hle, hnone, hjoined⟩ := h.joined k hk
    -- the worker that steps is none of those that were joined: these have exited
    have hstopped : p.stop = true := h.stop.mpr (by rw [hk]; simp)
    refine ⟨hle, fun hw => ?_, fun j hj => ?_⟩
    · rcases hmem hw with e | hmem
      · exact absurd (hwaiting e.symm) (by simp [hstopped])
      · exact hnone hmem
    · have hne : i ≠ j := by
        rintro rfl
        exact hold (Option.some.inj (hi.symm.trans (hjoined i hj)))
      rw [hworkers, List.getElem?_set_ne hne]
      exact hjoined j hj

theorem addTask_of_stop {p : ThreadPool Task} (h : p.stop = true) (task : Task) :
    p.addTask task = { p with log := p.log ++
      ["try to add thread task fail!" ++ "enqueue on stopped ThreadPool"] } := by
  unfold addTask enqueue
  rw [if_pos h]

theorem addTask_of_not_stop {p : ThreadPool Task} (h : p.stop = false) (task : Task) :
    p.addTask task = { p with
      tasks := p.tasks ++ [task]
      notifies := p.notifies + 1
      accepted := p.accepted ++ [task] } := by
  unfold addTask enqueue
  rw [if_neg (by simp [h])]

theorem inv_addTask {n : ℕ} {p : ThreadPool Task} (h : Inv n p) (task : Task) :
    Inv n (p.addTask task) := by
  cases hstop : p.stop with
  | true =>
      rw [addTask_of_stop hstop]
      exact ⟨h.length, h.fifo, h.once, h.stop, h.awake, h.exited, h.joined⟩
  | false =>
      rw [addTask_of_not_stop hstop]
      refine ⟨h.length, ?_, h.once, h.stop, fun hw => ?_, fun he => ?_, h.joined⟩
      · simp [h.fifo]
      · have := h.awake hw
        simp only [List.length_append, List.length_singleton]
        omega
      · exact absurd (h.exited he).1 (by simp [hstop])

theorem notifyOne_some {p p' : ThreadPool Task} {i : ℕ} (e : p.notifyOne (some i) = some p') :
    p.notifies ≠ 0 ∧ p.workers[i]? = some .waiting ∧
      p' = { p with workers := p.workers.set i .ready, notifies := p.notifies - 1 } := by
  unfold notifyOne at e
  split at e
  · cases e
  · rename_i hpos
    dsimp only at e
    split at e
    · exact ⟨hpos, ‹_›, (Option.some.inj e).symm⟩
    · cases e

theorem notifyOne_none {p p' : ThreadPool Task} (e : p.notifyOne none = some p') :
    p.notifies ≠ 0 ∧ Worker.waiting ∉ p.workers ∧ p' = { p with notifies := p.notifies - 1 } := by
  unfold notifyOne at e
  split at e
  · cases e
  · rename_i hpos
    dsimp only at e
    split at e
    · cases e
    · rename_i hno
      refine ⟨hpos, fun hw => hno ?_, (Option.some.inj e).symm⟩
      exact List.any_eq_true.mpr ⟨.waiting, hw, rfl⟩

theorem inv_notifyOne {n : ℕ} {p p' : ThreadPool Task} (h : Inv n p) {woken : Option ℕ}
    (e : p.notifyOne woken = some p') : Inv n p' := by
  cases woken with
  | some i =>
      obtain ⟨hpos, hi, rfl⟩ := notifyOne_some e
      refine h.set_worker hi (by simp) rfl rfl rfl h.fifo (fun rest hr => hr) id
        (Or.inr ⟨by simp, ?_⟩) (by simp) (by simp)
      simp only [Worker.isReady, if_true, Bool.false_eq_true, if_false]
      omega
  | none =>
      obtain ⟨-, hno, rfl⟩ := notifyOne_none e
      exact ⟨h.length, h.fifo, h.once, h.stop, fun hw => absurd hw hno, h.exited, h.joined⟩

/-- What a worker with the mutex does: it blocks if there is nothing to do, returns if the
pool has stopped, or takes the front of the queue. -/
theorem look_cases {p p' : ThreadPool Task} {i : ℕ} (e : p.look i = some p') :
    p.workers[i]? = some .ready ∧
      ((p.stop = false ∧ p.tasks = [] ∧ p' = { p with workers := p.workers.set i .waiting }) ∨
      (p.stop = true ∧ p.tasks = [] ∧ p' = { p with workers := p.workers.set i .exited }) ∨
      ∃ task tasks, p.tasks = task :: tasks ∧ p' = { p with
        workers := p.workers.set i (.running task)
        tasks
        started := p.started ++ [task] }) := by
  unfold look at e
  split at e
  · refine ⟨‹_›, ?_⟩
    cases hstop : p.stop <;> cases htasks : p.tasks with
    | nil => simp_all [predicate]
    | cons task tasks => simp_all [predicate]
  · cases e

theorem inv_look {n i : ℕ} {p p' : ThreadPool Task} (h : Inv n p) (e : p.look i = some p') :
    Inv n p' := by
  obtain ⟨hi, ⟨hstop, hnil, rfl⟩ | ⟨hstop, hnil, rfl⟩ | ⟨task, tasks, hcons, rfl⟩⟩ := look_cases e
  · exact h.set_worker hi (by simp) rfl rfl rfl h.fifo (fun rest hr => hr) id (Or.inl hnil)
      (fun _ => hstop) (by simp)
  · exact h.set_worker hi (by simp) rfl rfl rfl h.fifo (fun rest hr => hr) id (Or.inl hnil)
      (by simp) (fun _ => ⟨hstop, hnil⟩)
  · refine h.set_worker hi (by simp) rfl rfl rfl ?_ (fun rest hr => ?_) (by simp [hcons])
      (Or.inr ⟨by simp, ?_⟩) (by simp) (by simp)
    · simpa [hcons] using h.fifo
    · refine (hr.append_right [task]).trans ?_
      rw [List.append_assoc]
      exact (List.perm_append_comm.trans (List.Perm.of_eq rfl)).append_left p.finished
    · simp only [Worker.isReady, hcons, List.length_cons, if_true, Bool.false_eq_true, if_false]
      omega

theorem finish_eq {p p' : ThreadPool Task} {i : ℕ} (e : p.finish i = some p') :
    ∃ task, p.workers[i]? = some (.running task) ∧ p' = { p with
      workers := p.workers.set i .ready
      finished := p.finished ++ [task] } := by
  unfold finish at e
  split at e
  · exact ⟨_, ‹_›, (Option.some.inj e).symm⟩
  · cases e

theorem inv_finish {n i : ℕ} {p p' : ThreadPool Task} (h : Inv n p) (e : p.finish i = some p') :
    Inv n p' := by
  obtain ⟨task, hi, rfl⟩ := finish_eq e
  refine h.set_worker hi (by simp) rfl rfl rfl h.fifo (fun rest hr => ?_) id
    (Or.inr ⟨by simp, ?_⟩) (by simp) (by simp)
  · simpa [Worker.task?, List.append_assoc] using hr
  · simp only [Worker.isReady, if_true, Bool.false_eq_true, if_false]
    omega

theorem wake_eq {p p' : ThreadPool Task} {i : ℕ} (e : p.wake i = some p') :
    p.workers[i]? = some .waiting ∧ p' = { p with workers := p.workers.set i .ready } := by
  unfold wake at e
  split at e
  · exact ⟨‹_›, (Option.some.inj e).symm⟩
  · cases e

theorem inv_wake {n i : ℕ} {p p' : ThreadPool Task} (h : Inv n p) (e : p.wake i = some p') :
    Inv n p' := by
  obtain ⟨hi, rfl⟩ := wake_eq e
  refine h.set_worker hi (by simp) rfl rfl rfl h.fifo (fun rest hr => hr) id
    (Or.inr ⟨by simp, ?_⟩) (by simp) (by simp)
  simp [Worker.isReady]

theorem inv_destroy {n : ℕ} {p p' : ThreadPool Task} (h : Inv n p) (e : p.destroy = some p') :
    Inv n p' := by
  unfold destroy at e
  split at e
  · obtain rfl := Option.some.inj e
    exact ⟨h.length, h.fifo, h.once, by simp, h.awake, fun he => ⟨rfl, (h.exited he).2⟩, by simp⟩
  · cases e

theorem notifyAll_eq {p p' : ThreadPool Task} (e : p.notifyAll = some p') :
    p.destructor = .notifyAll ∧
      p' = { p with workers := p.workers.map Worker.notified, destructor := .join 0 } := by
  unfold notifyAll at e
  split at e
  · exact ⟨‹_›, (Option.some.inj e).symm⟩
  · cases e

theorem inv_notifyAll {n : ℕ} {p p' : ThreadPool Task} (h : Inv n p)
    (e : p.notifyAll = some p') : Inv n p' := by
  obtain ⟨hd, rfl⟩ := notifyAll_eq e
  have hstop : p.stop = true := h.stop.mpr (by simp [hd])
  have hno : Worker.waiting ∉ p.workers.map Worker.notified := by
    rw [List.mem_map]
    rintro ⟨w, -, hw⟩
    cases w <;> cases hw
  refine ⟨by simp [h.length], h.fifo, ?_, by simp [hstop], fun hw => absurd hw hno, fun he => ?_,
    fun k hk => ?_⟩
  · rw [List.filterMap_map]
    simpa [Function.comp_def] using h.once
  · obtain ⟨w, hw, hwe⟩ := List.mem_map.mp he
    cases w with
    | exited => exact h.exited hw
    | _ => cases hwe
  · cases hk
    exact ⟨Nat.zero_le n, hno, fun i hi => absurd hi (Nat.not_lt_zero i)⟩

theorem join_eq {p p' : ThreadPool Task} (e : p.join = some p') :
    ∃ i, p.destructor = .join i ∧ p.workers[i]? = some .exited ∧
      p' = { p with destructor := .join (i + 1) } := by
  unfold join at e
  split at e
  · split at e
    · exact ⟨_, ‹_›, ‹_›, (Option.some.inj e).symm⟩
    · cases e
  · cases e

theorem inv_join {n : ℕ} {p p' : ThreadPool Task} (h : Inv n p) (e : p.join = some p') :
    Inv n p' := by
  obtain ⟨i, hd, hi, rfl⟩ := join_eq e
  have hstop : p.stop = true := h.stop.mpr (by simp [hd])
  refine ⟨h.length, h.fifo, h.once, by simp [hstop], h.awake, h.exited, fun k hk => ?_⟩
  cases hk
  obtain ⟨-, hno, hjoined⟩ := h.joined i hd
  have hlt : i < n := h.length ▸ (List.getElem?_eq_some_iff.mp hi).1
  refine ⟨hlt, hno, fun j hj => ?_⟩
  rcases Nat.lt_succ_iff_lt_or_eq.mp hj with hlt | rfl
  · exact hjoined j hlt
  · exact hi

theorem inv_step {n : ℕ} {p p' : ThreadPool Task} {op : Op Task} (h : Inv n p)
    (e : p.step op = some p') : Inv n p' := by
  cases op with
  | addTask task => exact Option.some.inj e ▸ inv_addTask h task
  | notifyOne woken => exact inv_notifyOne h e
  | look i => exact inv_look h e
  | finish i => exact inv_finish h e
  | wake i => exact inv_wake h e
  | destroy => exact inv_destroy h e
  | notifyAll => exact inv_notifyAll h e
  | join => exact inv_join h e

theorem inv_run {n : ℕ} {ops : List (Op Task)} {p : ThreadPool Task}
    (hrun : ops.foldlM step (start n) = some p) : Inv n p :=
  Run.foldlM_invariant step (Inv n) (fun _ _ _ _ => inv_step) (inv_start n) hrun

/-! ### No task is lost, and none is started twice -/

/-- The tasks that a run adds before it destroys the pool. -/
def added : List (Op Task) → List Task
  | [] => []
  | .addTask task :: ops => task :: added ops
  | .destroy :: _ => []
  | _ :: ops => added ops

/-- A step other than `addTask` and `destroy` takes no part in which tasks are accepted. -/
theorem kept_of_step {p p' : ThreadPool Task} {op : Op Task} (hop : op.Own ∨ ∃ i, op = .wake i)
    (e : p.step op = some p') : p'.accepted = p.accepted ∧ p'.stop = p.stop := by
  cases op with
  | addTask task => simp [Op.Own] at hop
  | notifyOne woken =>
      cases woken with
      | some i =>
          obtain ⟨-, -, rfl⟩ := notifyOne_some e
          exact ⟨rfl, rfl⟩
      | none =>
          obtain ⟨-, -, rfl⟩ := notifyOne_none e
          exact ⟨rfl, rfl⟩
  | look i =>
      obtain ⟨-, ⟨-, -, rfl⟩ | ⟨-, -, rfl⟩ | ⟨_, _, -, rfl⟩⟩ := look_cases e <;> exact ⟨rfl, rfl⟩
  | finish i =>
      obtain ⟨_, -, rfl⟩ := finish_eq e
      exact ⟨rfl, rfl⟩
  | wake i =>
      obtain ⟨-, rfl⟩ := wake_eq e
      exact ⟨rfl, rfl⟩
  | destroy => simp [Op.Own] at hop
  | notifyAll =>
      obtain ⟨-, rfl⟩ := notifyAll_eq e
      exact ⟨rfl, rfl⟩
  | join =>
      obtain ⟨_, -, -, rfl⟩ := join_eq e
      exact ⟨rfl, rfl⟩

theorem destroy_eq {p p' : ThreadPool Task} (e : p.destroy = some p') :
    p' = { p with stop := true, destructor := .notifyAll } := by
  unfold destroy at e
  split at e
  · exact (Option.some.inj e).symm
  · cases e

/-- Once the pool has stopped nothing is accepted any more. -/
theorem accepted_of_stop {ops : List (Op Task)} {p p' : ThreadPool Task} (h : p.stop = true)
    (hrun : ops.foldlM step p = some p') : p'.accepted = p.accepted ∧ p'.stop = true := by
  refine Run.foldlM_invariant step (fun q => q.accepted = p.accepted ∧ q.stop = true)
    (fun q op q' _ hq e => ?_) ⟨rfl, h⟩ hrun
  have hkept (hk : op.Own ∨ ∃ i, op = .wake i) : q'.accepted = p.accepted ∧ q'.stop = true :=
    (kept_of_step hk e).imp (·.trans hq.1) (·.trans hq.2)
  cases op with
  | addTask task =>
      obtain rfl := Option.some.inj e
      rw [addTask_of_stop hq.2]
      exact hq
  | destroy =>
      obtain rfl := destroy_eq e
      exact ⟨hq.1, rfl⟩
  | wake i => exact hkept (Or.inr ⟨i, rfl⟩)
  | _ => exact hkept (Or.inl trivial)

theorem accepted_run {ops : List (Op Task)} {p p' : ThreadPool Task} (h : p.stop = false)
    (hrun : ops.foldlM step p = some p') : p'.accepted = p.accepted ++ added ops := by
  induction ops generalizing p with
  | nil => simp [added, Option.some.inj hrun]
  | cons op ops ih =>
      rw [List.foldlM_cons] at hrun
      obtain ⟨p₁, hop, hrest⟩ := Option.bind_eq_some_iff.mp hrun
      have hkept (hk : op.Own ∨ ∃ i, op = .wake i) : p'.accepted = p.accepted ++ added ops := by
        obtain ⟨ha, hs⟩ := kept_of_step hk hop
        rw [ih (hs.trans h) hrest, ha]
      cases op with
      | addTask task =>
          obtain rfl := Option.some.inj hop
          have hs : (p.addTask task).stop = false := by
            rw [addTask_of_not_stop h]
            exact h
          rw [ih hs hrest, addTask_of_not_stop h]
          simp [added]
      | destroy =>
          obtain rfl := destroy_eq hop
          simpa [added] using (accepted_of_stop rfl hrest).1
      | wake i => exact hkept (Or.inr ⟨i, rfl⟩)
      | _ => exact hkept (Or.inl trivial)

/-- **The tasks are started in the order in which they were added, each once**: whatever the
workers do, those that were added before the destructor are those that were started and
then those that are still queued, and those that were started are the ones that have
returned and the ones that the workers are in. -/
theorem tasks_in_order {n : ℕ} {ops : List (Op Task)} {p : ThreadPool Task}
    (hrun : ops.foldlM step (start n) = some p) :
    added ops = p.started ++ p.tasks ∧
      p.started.Perm (p.finished ++ p.workers.filterMap Worker.task?) := by
  have h := inv_run hrun
  have hadded := accepted_run (p := start n) rfl hrun
  exact ⟨hadded.symm.trans h.fifo, h.once⟩

/-- Two workers, of which the second takes the first task. -/
theorem tasks_in_order_two_workers : ∃ p : ThreadPool ℕ,
    [.addTask 7, .look 1, .addTask 8, .look 0, .finish 0, .addTask 9].foldlM step (start 2) =
      some p ∧ [7, 8, 9] = p.started ++ p.tasks ∧
      p.started.Perm (p.finished ++ p.workers.filterMap Worker.task?) :=
  ⟨_, rfl, @tasks_in_order ℕ 2 [.addTask 7, .look 1, .addTask 8, .look 0, .finish 0, .addTask 9] _ rfl⟩

/-- **No wake-up is lost**: while a worker sleeps, the queue is no longer than the number of
workers that are about to look at it and of calls of `notify_one` still to come. -/
theorem awake_of_waiting {n : ℕ} {ops : List (Op Task)} {p : ThreadPool Task}
    (hrun : ops.foldlM step (start n) = some p) (hwaiting : Worker.waiting ∈ p.workers) :
    p.tasks.length ≤ p.workers.countP Worker.isReady + p.notifies :=
  (inv_run hrun).awake hwaiting

/-- One of two workers sleeps, and two tasks have come since. -/
theorem awake_of_waiting_two : ∃ p : ThreadPool ℕ,
    [.look 0, .addTask 7, .notifyOne (some 0), .look 0, .finish 0, .look 0, .addTask 8,
      .addTask 9].foldlM step (start 2) = some p ∧ p.tasks.length = 2 ∧
      p.tasks.length ≤ p.workers.countP Worker.isReady + p.notifies :=
  ⟨_, rfl, rfl, @awake_of_waiting ℕ 2 [.look 0, .addTask 7, .notifyOne (some 0), .look 0,
    .finish 0, .look 0, .addTask 8, .addTask 9] _ rfl (by decide)⟩

/-! ### The pool comes to rest -/

/-- How many steps of its own a destructor still has, with what `notify_all` wakes. -/
def Destructor.work (threads : ℕ) : Destructor → ℕ
  | .notCalled => 0
  | .notifyAll => 2 * threads + 1
  | .join i => threads - i

/-- A bound for the steps that a pool makes by itself. -/
def work (p : ThreadPool Task) : ℕ :=
  (p.workers.map Worker.work).sum + 2 * p.tasks.length + 2 * p.notifies +
    Destructor.work p.workers.length p.destructor

theorem sum_work_set {ws : List (Worker Task)} {i : ℕ} {old : Worker Task}
    (hi : ws[i]? = some old) (new : Worker Task) :
    ((ws.set i new).map Worker.work).sum + old.work = (ws.map Worker.work).sum + new.work := by
  obtain ⟨pre, post, e, e'⟩ := exists_set hi new
  rw [e', e]
  simp only [List.map_append, List.map_cons, List.sum_append, List.sum_cons]
  omega

theorem sum_work_notified (ws : List (Worker Task)) :
    ((ws.map Worker.notified).map Worker.work).sum ≤ (ws.map Worker.work).sum + ws.length := by
  induction ws with
  | nil => simp
  | cons w ws ih =>
      have := w.work_notified_le
      simp only [List.map_cons, List.sum_cons, List.length_cons]
      omega

/-- Each step of its own takes from what the pool has to do. -/
theorem work_step {p p' : ThreadPool Task} {op : Op Task} (hop : op.Own)
    (e : p.step op = some p') : p'.work < p.work := by
  cases op with
  | addTask task => exact hop.elim
  | wake i => exact hop.elim
  | destroy => exact hop.elim
  | notifyOne woken =>
      cases woken with
      | some i =>
          obtain ⟨hpos, hi, rfl⟩ := notifyOne_some e
          have := sum_work_set hi .ready
          simp only [Worker.work] at this
          simp only [work, List.length_set]
          omega
      | none =>
          obtain ⟨hpos, -, rfl⟩ := notifyOne_none e
          simp only [work]
          omega
  | look i =>
      -- it sleeps, exits, or takes a task, which costs less to finish than to start
      obtain ⟨hi, ⟨-, -, rfl⟩ | ⟨-, -, rfl⟩ | ⟨task, tasks, hcons, rfl⟩⟩ := look_cases e
      · have := sum_work_set hi .waiting
        simp only [Worker.work] at this
        simp only [work, List.length_set]
        omega
      · have := sum_work_set hi .exited
        simp only [Worker.work] at this
        simp only [work, List.length_set]
        omega
      · have := sum_work_set hi (.running task)
        simp only [Worker.work] at this
        simp only [work, List.length_set, hcons, List.length_cons]
        omega
  | finish i =>
      obtain ⟨task, hi, rfl⟩ := finish_eq e
      have := sum_work_set hi .ready
      simp only [Worker.work] at this
      simp only [work, List.length_set]
      omega
  | notifyAll =>
      obtain ⟨hd, rfl⟩ := notifyAll_eq e
      have := sum_work_notified p.workers
      simp only [work, hd, Destructor.work, List.length_map]
      omega
  | join =>
      obtain ⟨i, hd, hi, rfl⟩ := join_eq e
      have hlt := (List.getElem?_eq_some_iff.mp hi).1
      simp only [work, hd, Destructor.work]
      omega

/-- A pool that can make no step by itself has no task left, and its workers all sleep, or
the destructor has joined them all. -/
theorem Inv.rest {n : ℕ} {p : ThreadPool Task} (h : Inv n p) (hn : 0 < n)
    (hrest : ∀ op, op.Own → p.step op = none) :
    p.tasks = [] ∧ p.workers.filterMap Worker.task? = [] ∧
      if p.stop then p.Destroyed ∧ ∀ w ∈ p.workers, w = .exited
      else ∀ w ∈ p.workers, w = .waiting := by
  -- no worker has anything to do
  have hidle : ∀ w ∈ p.workers, w = .waiting ∨ w = .exited := by
    intro w hw
    obtain ⟨i, hi⟩ := List.getElem?_of_mem hw
    cases w with
    | waiting => exact Or.inl rfl
    | exited => exact Or.inr rfl
    | running task => exact absurd (hrest (.finish i) trivial) (by simp [step, finish, hi])
    | ready =>
        have hlook := hrest (.look i) trivial
        cases htasks : p.tasks <;> cases hstop : p.stop <;>
          simp [step, look, hi, predicate, htasks, hstop] at hlook
  have htask : p.workers.filterMap Worker.task? = [] := by
    refine List.filterMap_eq_nil_iff.mpr fun w hw => ?_
    rcases hidle w hw with rfl | rfl <;> rfl
  have hready : p.workers.countP Worker.isReady = 0 := by
    refine List.countP_eq_zero.mpr fun w hw => ?_
    rcases hidle w hw with rfl | rfl <;> simp [Worker.isReady]
  have hnotifies : p.notifies = 0 := by
    by_contra hpos
    by_cases hw : Worker.waiting ∈ p.workers
    · obtain ⟨i, hi⟩ := List.getElem?_of_mem hw
      exact absurd (hrest (.notifyOne (some i)) trivial) (by simp [step, notifyOne, hpos, hi])
    · have hany : ¬ p.workers.any Worker.isWaiting = true := by
        rw [List.any_eq_true]
        rintro ⟨w, hmem, hwait⟩
        cases w with
        | waiting => exact hw hmem
        | _ => cases hwait
      exact absurd (hrest (.notifyOne none) trivial) (by simp [step, notifyOne, hpos, hany])
  have hlen := h.length
  obtain ⟨w, hw⟩ : ∃ w, w ∈ p.workers := List.exists_mem_of_length_pos (by omega)
  cases hd : p.destructor with
  | notCalled =>
      have hstop : p.stop = false := by
        have := h.stop
        simpa [hd] using this
      have hwaiting : ∀ w ∈ p.workers, w = .waiting := fun w hw =>
        (hidle w hw).resolve_right fun he => absurd (h.exited (he ▸ hw)).1 (by simp [hstop])
      have := h.awake (hwaiting w hw ▸ hw)
      refine ⟨List.length_eq_zero_iff.mp (by omega), htask, ?_⟩
      rw [if_neg (by simp [hstop])]
      exact hwaiting
  | notifyAll => exact absurd (hrest .notifyAll trivial) (by simp [step, notifyAll, hd])
  | join i =>
      obtain ⟨hle, hno, -⟩ := h.joined i hd
      have hexited : ∀ w ∈ p.workers, w = .exited := fun w hw =>
        (hidle w hw).resolve_left fun he => hno (he ▸ hw)
      obtain ⟨hstop, hnil⟩ := h.exited (hexited w hw ▸ hw)
      refine ⟨hnil, htask, ?_⟩
      rw [if_pos hstop]
      refine ⟨?_, hexited⟩
      rcases Nat.lt_or_ge i n with hlt | hge
      · have hi : p.workers[i]? = some .exited := by
          rw [List.getElem?_eq_getElem (hlen ▸ hlt)]
          exact congrArg some (hexited _ (List.getElem_mem _))
        exact absurd (hrest .join trivial) (by simp [step, join, hd, hi])
      · rw [Destroyed, hd, hlen]
        exact congrArg _ (Nat.le_antisymm hle hge)

/-- **The pool does what it has accepted, and its destructor returns**: from any reachable
state of a pool with a worker, what the pool does by itself is bounded and can be carried
on until it rests; and then every task that was added before the destructor has run,
those that were started were started in that order, and the workers sleep, or, if the pool
is being destroyed, have all been joined. -/
theorem settles {n : ℕ} (hn : 0 < n) {ops : List (Op Task)} {p : ThreadPool Task}
    (hrun : ops.foldlM step (start n) = some p) :
    (∃ (own : List (Op Task)) (p' : ThreadPool Task), (∀ op ∈ own, op.Own) ∧
      own.foldlM step p = some p' ∧ ∀ op, op.Own → p'.step op = none) ∧
    ∀ (own : List (Op Task)) (p' : ThreadPool Task), (∀ op ∈ own, op.Own) →
      own.foldlM step p = some p' →
      own.length ≤ p.work ∧
      ((∀ op, op.Own → p'.step op = none) →
        p'.started = added ops ∧ p'.finished.Perm (added ops) ∧
        if p.stop then p'.Destroyed ∧ ∀ w ∈ p'.workers, w = .exited
        else ∀ w ∈ p'.workers, w = .waiting) := by
  have h := inv_run hrun
  have hstep : ∀ q (op : Op Task) q', Inv n q → op.Own → q.step op = some q' →
      Inv n q' ∧ q'.work < q.work := fun q op q' hq hop e => ⟨inv_step hq e, work_step hop e⟩
  refine ⟨Run.exists_foldlM_rest step Op.Own (Inv n) work hstep h,
    fun own p' hown hrun' => ⟨?_, fun hrest => ?_⟩⟩
  · have := Run.foldlM_length_le step Op.Own (Inv n) work hstep h hown hrun'
    omega
  · have h' : Inv n p' := Run.foldlM_invariant step (Inv n) (fun _ _ _ _ => inv_step) h hrun'
    have hkept : p'.accepted = p.accepted ∧ p'.stop = p.stop :=
      Run.foldlM_invariant step (fun q => q.accepted = p.accepted ∧ q.stop = p.stop)
        (fun q op q' hop hq e => (kept_of_step (Or.inl (hown op hop)) e).imp
          (·.trans hq.1) (·.trans hq.2)) ⟨rfl, rfl⟩ hrun'
    obtain ⟨hnil, htask, hend⟩ := h'.rest hn hrest
    have hadded : p.accepted = added ops := accepted_run (p := start n) rfl hrun
    have hstarted : p'.started = added ops := by
      have := h'.fifo
      rw [hnil, List.append_nil, hkept.1, hadded] at this
      exact this.symm
    refine ⟨hstarted, ?_, hkept.2 ▸ hend⟩
    have := h'.once
    rw [htask, List.append_nil, hstarted] at this
    exact this.symm

/-- A pool of one worker is destroyed before the worker looks at its task. -/
theorem settles_one : ∃ p : ThreadPool ℕ,
    [.addTask 7, .destroy].foldlM step (start 1) = some p ∧
    (∃ (own : List (Op ℕ)) (p' : ThreadPool ℕ), (∀ op ∈ own, op.Own) ∧
      own.foldlM step p = some p' ∧ ∀ op, op.Own → p'.step op = none) ∧
    ∀ (own : List (Op ℕ)) (p' : ThreadPool ℕ), (∀ op ∈ own, op.Own) →
      own.foldlM step p = some p' →
      own.length ≤ p.work ∧
      ((∀ op, op.Own → p'.step op = none) →
        p'.started = [7] ∧ p'.finished.Perm [7] ∧
        if p.stop then p'.Destroyed ∧ ∀ w ∈ p'.workers, w = .exited
        else ∀ w ∈ p'.workers, w = .waiting) :=
  ⟨_, rfl, @settles ℕ 1 Nat.one_pos [.addTask 7, .destroy] _ rfl⟩

end ThreadPool

end PCGForUnity
