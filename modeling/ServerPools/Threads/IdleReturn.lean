import ServerPools.Threads.ExitNotice

/- What waits in the queue when a thread leaves threadFunc. The idle path decides on the
   elapsed time and on the counters and does not look at the queue again, so a task accepted
   between the timeout and the lock stays behind, and so does a task that a thread was notified
   of when the thread gets the lock after its deadline. -/
namespace ThreadPool
variable {τ ρ σ χ κ : Type} {B : Backend τ ρ σ χ κ} {p q : Pool τ ρ σ}

/-- In a pool with more threads than start asked for, no task is queued while the deadline of a
    thread is behind it and the thread has not got the lock back: none is accepted in that gap,
    no deadline passes for a notified thread while a task waits, and start does not lower
    initThreadSize in such a gap while a task waits. -/
def NoTaskInGap (p : Pool τ ρ σ) : Action τ χ κ → Prop
  | .submit i => ∀ c, p.submits[i]? = some c → c.pc.awake → hasRoom p →
      p.initThreadSize < (grow (enqueue p ⟨c.task, i⟩)).curThreadSize → ¬ p.anyAt WorkerPc.expired
  | .workerTimeout w => ∀ worker, p.workers[w]? = some worker → worker.pc = .woken true →
      p.initThreadSize < p.curThreadSize → p.taskQue = []
  | .start => ∀ n, p.startCall = .setInit n → n < p.curThreadSize → p.taskQue ≠ [] →
      ¬ p.anyAt WorkerPc.expired
  | _ => True

/-- Threads that wait, and timed-out threads that may leave, see an empty queue. -/
structure Rested (p : Pool τ ρ σ) : Prop where
  asleep : p.anyAt WorkerPc.asleep → p.taskQue = []
  expired : p.initThreadSize < p.curThreadSize → p.anyAt WorkerPc.expired → p.taskQue = []
  started : ∀ n, p.startCall = .setCur n → p.initThreadSize = n

/-- A step that creates no waiting thread and changes neither queue nor counters. -/
theorem Rested.kept (rested : Rested p) (queue : q.taskQue = p.taskQue)
    (init : q.initThreadSize = p.initThreadSize) (cur : q.curThreadSize = p.curThreadSize)
    (start : ∀ n, q.startCall = .setCur n → p.startCall = .setCur n)
    (asleep : q.anyAt WorkerPc.asleep → p.anyAt WorkerPc.asleep)
    (expired : q.anyAt WorkerPc.expired → p.anyAt WorkerPc.expired) : Rested q := by
  constructor
  · intro some_asleep
    rw [queue]
    exact rested.asleep (asleep some_asleep)
  · intro surplus some_expired
    rw [queue]
    rw [init, cur] at surplus
    exact rested.expired surplus (expired some_expired)
  · intro n setting
    rw [init]
    exact rested.started n (start n setting)

/-- The thread at w goes to a place where it does not wait. -/
theorem Rested.moved (rested : Rested p) {w : Nat} {worker : Worker τ σ} {pc : WorkerPc τ σ}
    (queue : q.taskQue = p.taskQue) (init : q.initThreadSize = p.initThreadSize)
    (cur : q.curThreadSize = p.curThreadSize) (start : q.startCall = p.startCall)
    (workers : q.workers = (setWorker p w worker pc).workers) (up : pc.asleep = false)
    (fresh : pc.expired = false) : Rested q := by
  refine rested.kept queue init cur (fun n setting => start ▸ setting) ?_ ?_
  · intro some_asleep
    have moved : (setWorker p w worker pc).anyAt WorkerPc.asleep := by
      unfold Pool.anyAt at some_asleep ⊢
      rwa [workers] at some_asleep
    rcases setWorker_anyAt moved with new | old
    · simp [up] at new
    · exact old
  · intro some_expired
    have moved : (setWorker p w worker pc).anyAt WorkerPc.expired := by
      unfold Pool.anyAt at some_expired ⊢
      rwa [workers] at some_expired
    rcases setWorker_anyAt moved with new | old
    · simp [fresh] at new
    · exact old

/-- An empty queue is seen by every thread. -/
theorem rested_of_empty (empty : q.taskQue = [])
    (started : ∀ n, q.startCall = .setCur n → q.initThreadSize = n) : Rested q :=
  ⟨fun _ => empty, fun _ _ => empty, started⟩

theorem acceptTask_rested {i : Nat} {c : Submit τ} (rested : Rested p)
    (gap : p.initThreadSize < (grow (enqueue p ⟨c.task, i⟩)).curThreadSize → ¬ p.anyAt WorkerPc.expired) :
    Rested (acceptTask B p i c) := by
  obtain ⟨_, init, start, _, _, _⟩ := grow_same (enqueue p ⟨c.task, i⟩)
  constructor
  · intro some_asleep
    have before : (enqueue p ⟨c.task, i⟩).anyAt WorkerPc.asleep := grow_anyAt rfl some_asleep
    exact absurd before (notifyNoEmpty_none_asleep _)
  · intro surplus some_expired
    have before : (enqueue p ⟨c.task, i⟩).anyAt WorkerPc.expired := grow_anyAt rfl some_expired
    have old : p.anyAt WorkerPc.expired := notifyNoEmpty_anyAt (fun _ => rfl) before
    change (grow (enqueue p ⟨c.task, i⟩)).initThreadSize < _ at surplus
    rw [init] at surplus
    exact absurd old (gap surplus)
  · intro n setting
    have before : p.startCall = .setCur n := start.symm.trans setting
    exact init.trans (rested.started n before)

theorem startNext_rested (rested : Rested p)
    (gap : ∀ n, p.startCall = .setInit n → n < p.curThreadSize → p.taskQue ≠ [] →
      ¬ p.anyAt WorkerPc.expired)
    (next : StartStep p q) : Rested q := by
  have asleep : q.anyAt WorkerPc.asleep → p.anyAt WorkerPc.asleep := startNext_anyAt rfl next
  have expired : q.anyAt WorkerPc.expired → p.anyAt WorkerPc.expired := startNext_anyAt rfl next
  cases next with
  | setsInit n place =>
    refine ⟨fun some_asleep => rested.asleep (asleep some_asleep), ?_, by simp⟩
    intro surplus some_expired
    by_contra stocked
    exact gap n place surplus stocked (expired some_expired)
  | setsCur n place =>
    refine ⟨fun some_asleep => rested.asleep (asleep some_asleep), ?_, by simp⟩
    -- curThreadSize becomes what initThreadSize was set to one statement before
    intro surplus
    have same := rested.started n place
    change p.initThreadSize < n at surplus
    omega
  | dereferencesNull i place more absent =>
    exact rested.kept rfl rfl rfl (fun _ setting => setting) asleep expired
  | setsRunning | creates | created | launches | launched | counts =>
    exact rested.kept rfl rfl rfl (by simp) asleep expired

theorem outcome_rested {a : Action τ χ κ} (rested : Rested p) (permit : NoTaskInGap p a)
    (outcome : Outcome B p a q) : Rested q := by
  have same {r : Pool τ ρ σ} (queue : r.taskQue = p.taskQue)
      (init : r.initThreadSize = p.initThreadSize) (cur : r.curThreadSize = p.curThreadSize)
      (start : r.startCall = p.startCall) (workers : r.workers = p.workers) : Rested r := by
    refine rested.kept queue init cur (fun n setting => start ▸ setting) ?_ ?_ <;>
      simp [Pool.anyAt, workers]
  cases outcome with
  | @accepts i c here awake room => exact acceptTask_rested rested (permit c here awake room)
  | starts next => exact startNext_rested rested permit next
  | @takes w idleLong worker e rest here awake queue =>
    obtain ⟨_, _, cur, init, _, start, _, _, _, _⟩ := takeTask_same B p w worker e rest
    constructor
    · intro some_asleep
      have empty := rested.asleep (takeTask_anyAt (fun _ => rfl) (fun _ => rfl) some_asleep)
      simp [queue] at empty
    · intro surplus some_expired
      rw [cur, init] at surplus
      have empty := rested.expired surplus (takeTask_anyAt (fun _ => rfl) (fun _ => rfl) some_expired)
      simp [queue] at empty
    · intro n setting
      rw [init]
      exact rested.started n (start.symm.trans setting)
  | exits here awake empty stopped => exact rested_of_empty empty rested.started
  | waits here awake empty running => exact rested_of_empty empty rested.started
  | @retires w worker here pc surplus =>
    refine rested_of_empty (rested.expired surplus ?_) rested.started
    exact ⟨worker, Agents.mem_of_position here, by simp [pc, WorkerPc.expired]⟩
  | @workerAwakes _ w worker timed pc here blocked how =>
    refine rested_of_empty (rested.asleep ?_) rested.started
    exact ⟨worker, Agents.mem_of_position here, by simp [blocked, WorkerPc.asleep]⟩
  | @workerLate w worker here woken =>
    refine ⟨fun some_asleep => rested.asleep ?_, fun surplus _ => permit worker here woken surplus,
      rested.started⟩
    exact (setWorker_anyAt some_asleep).resolve_left (by simp [WorkerPc.asleep])
  | execs here pc ran => exact rested.moved rfl rfl rfl rfl rfl rfl rfl
  | finishes here pc ran => exact rested.moved rfl rfl rfl rfl rfl rfl rfl
  | idles here pc => exact rested.moved rfl rfl rfl rfl rfl rfl rfl
  | startCalled n settled standing =>
    exact rested.kept rfl rfl rfl (by simp) id id
  | destroyTests flagged =>
    rw [exitTest_eq]
    exact rested.kept rfl rfl rfl (fun _ setting => setting) (notifyNoEmpty_anyAt (fun _ => rfl))
      (notifyNoEmpty_anyAt (fun _ => rfl))
  | destroyRetests woken =>
    rw [exitTest_eq]
    exact same rfl rfl rfl rfl rfl
  | called | rejects | submitWaits | submitAwakes | submitLate | flagged | destroyStirred
  | others | clients =>
    exact same rfl rfl rfl rfl rfl

theorem reachable_rested {generateID : Nat} {results : ρ} {mode : PoolMode}
    {threadhold threshold : Int}
    (reached : Machine.Reach (step B) NoTaskInGap
      (configured generateID results mode threadhold threshold) p) : Rested p := by
  induction reached with
  | start =>
    rw [configured_fields]
    exact ⟨fun _ => rfl, fun _ _ => rfl, by simp [newPool]⟩
  | next before permit taken ih => exact outcome_rested ih permit (step_outcome taken).2

/-- The status of the thread at a position of the roster. -/
theorem status_at {w : Nat} {worker : Worker τ σ} (here : p.workers[w]? = some worker)
    {seen : Nat × Status} (shown : p.roster[w]? = some seen) : worker.pc.status = seen.2 := by
  rw [roster_here here] at shown
  cases shown
  rfl

theorem startNext_roster (next : StartStep p q) :
    q.roster = p.roster ∨ ∃ i, q.roster = p.roster ++ [(i, .active)] := by
  cases next with
  | launches i place more present =>
    refine Or.inr ⟨i, ?_⟩
    simp [Pool.roster, Worker.view, WorkerPc.status]
  | setsRunning | setsInit | setsCur | creates | created | dereferencesNull | launched | counts =>
    exact Or.inl rfl

/-- A thread that leaves does so by one of the two returns. -/
theorem leaves_roster {a : Action τ χ κ} (move : RosterMove p q a) {w : Nat} {worker worker' : Worker τ σ}
    (here : p.workers[w]? = some worker) (there : q.workers[w]? = some worker')
    (active : worker.pc.status = .active) (left : worker'.pc.status ≠ .active) :
    q.taskQue = [] ∨ q.taskQue = p.taskQue ∧ p.initThreadSize < p.curThreadSize ∧
      p.anyAt WorkerPc.expired := by
  have shown : p.roster[w]? = some (worker.threadid, .active) := by
    rw [roster_here here, Worker.view, active]
  have stays (shown' : q.roster[w]? = some (worker.threadid, .active)) : False :=
    left (status_at there shown')
  have grown {i : Nat} (roster : q.roster = p.roster ++ [(i, .active)]) : False := by
    apply stays
    rw [roster, List.getElem?_append_left (List.getElem?_eq_some_iff.mp shown).1]
    exact shown
  cases move with
  | quiet roster => exact (stays (roster ▸ shown)).elim
  | called n settled standing after => exact (stays (after ▸ shown)).elim
  | grows mode below caller roster => exact (grown roster).elim
  | exits here' empty stopped roster threads cur init ids start queue => exact Or.inl queue
  | retires here' expired surplus roster threads cur init ids start queue =>
    obtain ⟨other, member, pc⟩ := expired
    exact Or.inr ⟨queue, surplus, other, member, by simp [pc, WorkerPc.expired]⟩
  | starts next =>
    rcases startNext_roster next with same | ⟨i, more⟩
    · exact (stays (same ▸ shown)).elim
    · exact (grown more).elim

/-- In runs in which no task is queued in such a gap, a thread leaves only an empty queue. -/
theorem leaves_empty_queue {generateID : Nat} {results : ρ} {mode : PoolMode}
    {threadhold threshold : Int} {a : Action τ χ κ}
    (reached : Machine.Reach (step B) NoTaskInGap
      (configured generateID results mode threadhold threshold) p)
    (taken : step B p a = some q) {w : Nat} {worker worker' : Worker τ σ}
    (here : p.workers[w]? = some worker) (there : q.workers[w]? = some worker')
    (active : worker.pc.status = .active) (left : worker'.pc.status ≠ .active) :
    q.taskQue = [] := by
  have rested := reachable_rested reached
  rcases leaves_roster (outcome_roster (step_outcome taken).2) here there active left with
    empty | ⟨queue, surplus, expired⟩
  · exact empty
  · exact queue.trans (rested.expired surplus expired)

/-- No thread has timed out, and a deadline passes at an empty queue. -/
def NoneExpired (p : Pool τ ρ σ) (a : Action τ χ κ) : Prop :=
  (∀ worker ∈ p.workers, worker.pc.expired = false) ∧ (a matches .workerTimeout _ → p.taskQue.isEmpty)

instance (p : Pool τ ρ σ) (a : Action τ χ κ) : Decidable (NoneExpired p a) :=
  inferInstanceAs (Decidable (_ ∧ _))

theorem none_expired_permits (p : Pool τ ρ σ) (a : Action τ χ κ) (calm : NoneExpired p a) :
    NoTaskInGap p a := by
  obtain ⟨none, empty⟩ := calm
  have nowhere : ¬ p.anyAt WorkerPc.expired := by
    rintro ⟨worker, member, expired⟩
    simp [none worker member] at expired
  cases a with
  | submit i => exact fun _ _ _ _ _ => nowhere
  | workerTimeout w => exact fun _ _ _ _ => List.isEmpty_iff.mp (empty rfl)
  | start => exact fun _ _ _ _ => nowhere
  | _ => trivial

/-- A third submission wakes both threads, thread 0 takes its task, and thread 1 gets the lock
    back after its deadline. runTask is the run of one task by thread 0. -/
def wokenLate (runTask : List (Action Nat χ κ)) : List (Action Nat χ κ) :=
  twoIdle runTask ++ [Action.call 2, .submit 2, .worker 0 false] ++ runTask ++ [Action.workerTimeout 1]

theorem leaves_empty_queue_late :
    ∃ p q : TaskFuture.FuturePool Nat Nat,
      step (TaskFuture.futureBackend 0) p (.worker 1 true) = some q ∧
      q.workers[1]? = some ⟨1, .retired⟩ ∧ q.taskQue = [] := by
  have ran : ∃ p ∈ Machine.run (step (TaskFuture.futureBackend 0))
      (configured 0 TaskFuture.emptySide .modeCachd 1024 10 : TaskFuture.FuturePool Nat Nat)
      (wokenLate (List.replicate 2 (.exec 0 7))),
      ∃ q ∈ step (TaskFuture.futureBackend 0) p (.worker 1 true),
      p.workers[1]? = some ⟨1, .timedOut⟩ ∧ q.workers[1]? = some ⟨1, .retired⟩ := by decide +kernel
  obtain ⟨p, ran, q, taken, here, there⟩ := ran
  have obeys : Machine.Obeys (step (TaskFuture.futureBackend 0)) NoneExpired
      (configured 0 TaskFuture.emptySide .modeCachd 1024 10 : TaskFuture.FuturePool Nat Nat)
      (wokenLate (List.replicate 2 (.exec 0 7))) := by decide +kernel
  have permitted := (Machine.reach_of_run obeys ran).weaken none_expired_permits
  exact ⟨p, q, taken, there, leaves_empty_queue permitted taken here there rfl (by decide)⟩

/-- A task accepted in the gap is still queued when the timed-out thread leaves. -/
theorem gap_leaves_task {i w : Nat} {c : Submit τ} {worker : Worker τ σ}
    (caller : p.submits[i]? = some c) (room : hasRoom p)
    (surplus : p.initThreadSize < (grow (enqueue p ⟨c.task, i⟩)).curThreadSize)
    (here : p.workers[w]? = some worker) (expired : worker.pc = .timedOut)
    (accepted : step B p (.submit i) = some q) :
    ∃ r, step B q (.worker w true) = some r ∧ r.workers[w]? = some { worker with pc := .retired } ∧
      r.taskQue ≠ [] := by
  obtain ⟨⟨live, open_⟩, outcome⟩ := step_outcome accepted
  have after : q = acceptTask B p i c := by
    cases outcome with
    | @accepts i c' there awake' room' =>
      obtain rfl : c = c' := Option.some.inj (caller.symm.trans there)
      rfl
    | rejects there pc full => exact absurd room full
    | submitWaits there awake' full => exact absurd room full
    | submitAwakes there blocked how => simp at how
    | workerAwakes there blocked how => simp at how
  obtain ⟨queue, init, _, destroy, null, workers⟩ := grow_same (enqueue p ⟨c.task, i⟩)
  have woken : (enqueue p ⟨c.task, i⟩).workers[w]? = some worker := by
    have same : worker.wake = worker := by simp [Worker.wake, expired]
    simp [enqueue, notifyNoEmpty, here, same]
  have there : q.workers[w]? = some worker := by
    rw [after]
    change (grow (enqueue p ⟨c.task, i⟩)).workers[w]? = _
    rcases workers with kept | ⟨new, more⟩
    · rw [kept]
      exact woken
    · rw [more, List.getElem?_append_left (List.getElem?_eq_some_iff.mp woken).1]
      exact woken
  have inside := (List.getElem?_eq_some_iff.mp there).1
  have more : q.initThreadSize < q.curThreadSize := by
    rw [after]
    change (grow (enqueue p ⟨c.task, i⟩)).initThreadSize < _
    rw [init]
    exact surplus
  have on : q.nullThread = false ∧ q.destroyCall ≠ .returned := by
    rw [after]
    exact ⟨null.trans live, fun returned => open_ (destroy.symm.trans returned)⟩
  refine ⟨retireThread q w worker, retires_long on.1 on.2 there expired more,
    List.getElem?_set_self inside, ?_⟩
  · change q.taskQue ≠ []
    rw [after]
    change (grow (enqueue p ⟨c.task, i⟩)).taskQue ≠ []
    rw [queue]
    simp [enqueue, notifyNoEmpty]

/-- So is a task that waits when the deadline of a notified thread passes. -/
theorem late_leaves_task {w : Nat} {worker : Worker τ σ} (here : p.workers[w]? = some worker)
    (surplus : p.initThreadSize < p.curThreadSize) (stocked : p.taskQue ≠ [])
    (passed : step B p (.workerTimeout w) = some q) :
    ∃ r, step B q (.worker w true) = some r ∧ r.workers[w]? = some { worker with pc := .retired } ∧
      r.taskQue ≠ [] := by
  refine ⟨_, late_retires here surplus passed, ?_, stocked⟩
  have inside := (List.getElem?_eq_some_iff.mp here).1
  exact List.getElem?_set_self (by simpa [setWorker] using inside)

/-- Thread 1 times out just before a submission takes the lock, and leaves after it. -/
def taskInGap (runTask : List (Action Nat χ κ)) : List (Action Nat χ κ) :=
  twoIdle runTask ++ [Action.workerTimeout 1, .call 2, .submit 2]

/-- Both versions can lose a thread while a task waits. -/
theorem idle_return_leaves_task :
    (∃ p q : TaskResult.ResultPool Nat Nat,
      Machine.Reach (step TaskResult.resultBackend) NotSpurious
        (configured 0 TaskResult.emptySide .modeCachd 1024 10) p ∧
      step TaskResult.resultBackend p (.worker 1 true) = some q ∧
      p.workers[1]? = some ⟨1, .timedOut⟩ ∧ q.workers[1]? = some ⟨1, .retired⟩ ∧
      q.taskQue ≠ []) ∧
    (∃ p q : TaskFuture.FuturePool Nat Nat,
      Machine.Reach (step (TaskFuture.futureBackend 0)) NotSpurious
        (configured 0 TaskFuture.emptySide .modeCachd 1024 10) p ∧
      step (TaskFuture.futureBackend 0) p (.worker 1 true) = some q ∧
      p.workers[1]? = some ⟨1, .timedOut⟩ ∧ q.workers[1]? = some ⟨1, .retired⟩ ∧
      q.taskQue ≠ []) := by
  constructor
  · have ran : ∃ p ∈ Machine.run (step TaskResult.resultBackend)
        (configured 0 TaskResult.emptySide .modeCachd 1024 10 : TaskResult.ResultPool Nat Nat)
        (taskInGap (List.replicate 5 (.exec 0 (some 7)))),
        ∃ q ∈ step TaskResult.resultBackend p (.worker 1 true),
        p.workers[1]? = some ⟨1, .timedOut⟩ ∧ q.workers[1]? = some ⟨1, .retired⟩ ∧
        q.taskQue = [⟨2, 2⟩] := by decide +kernel
    obtain ⟨p, ran, q, taken, here, there, queue⟩ := ran
    refine ⟨p, q, Machine.reach_of_run (Machine.obeys_of_actions ?_) ran, taken, here, there, ?_⟩
    · intro a member s
      revert a
      simp [taskInGap, twoIdle, NotSpurious, List.replicate]
    · simp [queue]
  · have ran : ∃ p ∈ Machine.run (step (TaskFuture.futureBackend 0))
        (configured 0 TaskFuture.emptySide .modeCachd 1024 10 : TaskFuture.FuturePool Nat Nat)
        (taskInGap (List.replicate 2 (.exec 0 7))),
        ∃ q ∈ step (TaskFuture.futureBackend 0) p (.worker 1 true),
        p.workers[1]? = some ⟨1, .timedOut⟩ ∧ q.workers[1]? = some ⟨1, .retired⟩ ∧
        q.taskQue = [⟨2, 2⟩] := by decide +kernel
    obtain ⟨p, ran, q, taken, here, there, queue⟩ := ran
    refine ⟨p, q, Machine.reach_of_run (Machine.obeys_of_actions ?_) ran, taken, here, there, ?_⟩
    · intro a member s
      revert a
      simp [taskInGap, twoIdle, NotSpurious, List.replicate]
    · simp [queue]

end ThreadPool
