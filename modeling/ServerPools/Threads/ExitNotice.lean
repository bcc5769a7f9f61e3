import ServerPools.Threads.Sleepers
import ServerPools.Threads.TaskResult
import ServerPools.Threads.TaskFuture

/- When the destructor learns that the last thread has left. The shutdown path of threadFunc
   notifies exitCond after it erases its entry; the idle path erases and does not notify, and
   a thread comes to it by the deadline of a wait_for that it was in when the pool closed. -/
namespace ThreadPool
variable {τ ρ σ χ κ : Type} {B : Backend τ ρ σ χ κ} {p q : Pool τ ρ σ}

/-- The destructor waits un-notified on exitCond although no thread is left. -/
def Stuck (p : Pool τ ρ σ) : Prop := p.threads = [] ∧ p.destroyCall = .blocked

/-- The worker at w takes the idle return if it gets the lock with a long idle time. -/
def idleReturn (p : Pool τ ρ σ) (w : Nat) (worker : Worker τ σ) : Prop :=
  p.workers[w]? = some worker ∧ worker.pc = .timedOut ∧ p.initThreadSize < p.curThreadSize

/-- While the destructor waits, the owner of the last entry does not take the idle return. -/
def LastLeavesByShutdown (p : Pool τ ρ σ) (a : Action τ χ κ) : Prop :=
  ∀ w worker, a = .worker w true → idleReturn p w worker → p.destroyCall = .blocked →
    p.threads.filter (· ≠ worker.threadid) ≠ []

/-- A run in which no wake-up is spurious. -/
def NotSpurious (_ : Pool τ ρ σ) : Action τ χ κ → Prop
  | .submitStir _ | .workerStir _ | .destroyStir => False
  | _ => True

theorem emplace_nonempty (threads : List Nat) (id : Nat) : emplace threads id ≠ [] := by
  unfold emplace
  split
  · rename_i member
    exact List.ne_nil_of_mem member
  · simp

theorem grow_threads (p : Pool τ ρ σ) : (grow p).threads = p.threads ∨ (grow p).threads ≠ [] := by
  unfold grow
  split
  · exact Or.inr (emplace_nonempty _ _)
  · exact Or.inl rfl

theorem startNext_threads (next : StartStep p q) :
    q.destroyCall = p.destroyCall ∧ (q.threads = p.threads ∨ q.threads ≠ []) := by
  cases next with
  | creates i place more => exact ⟨rfl, Or.inr (emplace_nonempty _ _)⟩
  | setsRunning | setsInit | setsCur | created | launches | dereferencesNull | launched | counts =>
    exact ⟨rfl, Or.inl rfl⟩

theorem exitTest_not_stuck (p : Pool τ ρ σ) : ¬ Stuck (exitTest p) := by
  unfold exitTest Stuck
  split
  · simp
  · rename_i some_left
    exact fun stuck => some_left stuck.1

theorem wake_not_blocked (pc : DestroyPc) : pc.wake ≠ .blocked := by
  cases pc <;> simp [DestroyPc.wake]

theorem outcome_not_stuck {a : Action τ χ κ} (before : ¬ Stuck p)
    (permit : LastLeavesByShutdown p a) (outcome : Outcome B p a q) : ¬ Stuck q := by
  have grown {r : Pool τ ρ σ} (threads : r.threads = p.threads ∨ r.threads ≠ [])
      (destroy : r.destroyCall = p.destroyCall) : ¬ Stuck r := by
    rintro ⟨empty, blocked⟩
    rcases threads with same | some_left
    · exact before ⟨same ▸ empty, destroy ▸ blocked⟩
    · exact some_left empty
  cases outcome with
  | @accepts i c here awake room =>
    refine grown (grow_threads (enqueue p ⟨c.task, i⟩)) ?_
    unfold acceptTask setSubmit grow
    split <;> rfl
  | starts next =>
    obtain ⟨destroy, threads⟩ := startNext_threads next
    exact grown threads destroy
  | takes here awake queue =>
    obtain ⟨_, threads, _, _, _, _, destroy, _, _, _⟩ := takeTask_same B p _ _ _ _
    exact grown (Or.inl threads) destroy
  | exits here awake empty stopped => exact fun stuck => wake_not_blocked _ stuck.2
  | retires here pc surplus =>
    rintro ⟨empty, blocked⟩
    exact permit _ _ rfl ⟨here, pc, surplus⟩ blocked empty
  | destroyTests flagged => exact exitTest_not_stuck _
  | destroyRetests woken => exact exitTest_not_stuck p
  | flagged | destroyStirred => simp [Stuck]
  | called | rejects | submitWaits | submitAwakes | submitLate | startCalled | waits
  | workerAwakes | workerLate | execs | finishes | idles | others | clients => exact grown (Or.inl rfl) rfl

/-- From the moment the destructor has the lock, in a pool with more threads than start asked
    for, no wait_for is past its deadline: a thread that sleeps then gets the lock back in
    time. -/
def ClosesInTime (p : Pool τ ρ σ) : Action τ χ κ → Prop
  | .destroyNext => p.destroyCall = .flagged → p.initThreadSize < p.curThreadSize →
      ¬ p.anyAt WorkerPc.expired
  | .workerTimeout _ => p.destroyCall.notified → p.curThreadSize ≤ p.initThreadSize
  | .submit i => p.destroyCall.notified → ∀ c, p.submits[i]? = some c → c.pc.awake → hasRoom p →
      p.initThreadSize < (grow (enqueue p ⟨c.task, i⟩)).curThreadSize →
      ¬ p.anyAt WorkerPc.expired
  | _ => True

/-- The closing of a pool: once the destructor has notified, no thread can take the idle
    return, and the destructor is not left waiting. -/
structure Closing (p : Pool τ ρ σ) : Prop where
  stopped : p.destroyCall ≠ .notCalled → p.isPoolRunning = false ∧ startSettled p
  inTime : p.destroyCall.notified → p.initThreadSize < p.curThreadSize →
    ¬ p.anyAt WorkerPc.expired
  free : ¬ Stuck p

theorem outcome_inTime {a : Action τ χ κ} (closing : Closing p) (permit : ClosesInTime p a)
    (outcome : Outcome B p a q) : q.destroyCall.notified → q.initThreadSize < q.curThreadSize →
      ¬ q.anyAt WorkerPc.expired := by
  intro notified surplus expired
  rcases outcome_expired outcome expired with before | ⟨w, rfl⟩
  · have kept (told : p.destroyCall.notified) (more : p.initThreadSize < p.curThreadSize) : False :=
      closing.inTime told more before
    cases outcome with
    | @accepts i c here awake room =>
      obtain ⟨_, init, _, destroy, _, _⟩ := grow_same (enqueue p ⟨c.task, i⟩)
      have told : p.destroyCall.notified := by
        change (grow (enqueue p ⟨c.task, i⟩)).destroyCall.notified at notified
        rwa [destroy] at notified
      change (grow (enqueue p ⟨c.task, i⟩)).initThreadSize < _ at surplus
      rw [init] at surplus
      exact permit told c here awake room surplus before
    | starts next =>
      -- a statement of start is running, so the destructor has not been called
      have called : p.destroyCall ≠ .notCalled := by
        intro not
        rw [(startNext_threads next).1, not] at notified
        simp [DestroyPc.notified] at notified
      exact startNext_unsettled next (closing.stopped called).2
    | @takes w idleLong worker e rest here awake queue =>
      obtain ⟨_, _, cur, init, _, _, destroy, _, _, _⟩ := takeTask_same B p w worker e rest
      rw [destroy] at notified
      rw [cur, init] at surplus
      exact kept notified surplus
    | exits here awake empty stopped =>
      exact kept ((destroyCall_wake p.destroyCall).symm.trans notified) surplus
    | retires here pc more => exact kept notified more
    | flagged settled standing => simp [DestroyPc.notified] at notified
    | destroyTests flagged =>
      rw [exitTest_eq] at surplus
      exact permit flagged surplus before
    | destroyRetests woken =>
      rw [exitTest_eq] at surplus
      exact kept (by simp [woken, DestroyPc.notified]) surplus
    | destroyStirred blocked => exact kept (by simp [blocked, DestroyPc.notified]) surplus
    | called | rejects | submitWaits | submitAwakes | submitLate | startCalled | waits
    | workerAwakes | workerLate | execs | finishes | idles | others | clients =>
      exact kept notified surplus
  · obtain ⟨worker, here, waits, rfl⟩ := timeout_outcome outcome
    exact absurd surplus (Int.not_lt.mpr (permit notified))

/-- The idle return needs an expired thread in a pool with a surplus. -/
theorem Closing.by_shutdown {a : Action τ χ κ} (closing : Closing p) : LastLeavesByShutdown p a := by
  rintro w worker _ ⟨here, expired, surplus⟩ blocked
  refine absurd ?_ (closing.inTime (by simp [blocked, DestroyPc.notified]) surplus)
  exact ⟨worker, Agents.mem_of_position here, by simp [expired, WorkerPc.expired]⟩

theorem outcome_closing {a : Action τ χ κ} (closing : Closing p) (permit : ClosesInTime p a)
    (outcome : Outcome B p a q) : Closing q where
  stopped := outcome_stopped closing.stopped outcome
  inTime := outcome_inTime closing permit outcome
  free := outcome_not_stuck closing.free closing.by_shutdown outcome

/-- In runs in which every thread that sleeps when the pool closes gets the lock back in time,
    the destructor never waits un-notified for threads that are all gone. -/
theorem last_exit_notified {generateID : Nat} {results : ρ} {mode : PoolMode}
    {threadhold threshold : Int}
    (reached : Machine.Reach (step B) ClosesInTime
      (configured generateID results mode threadhold threshold) p) :
    ¬ (p.threads = [] ∧ p.destroyCall = .blocked) := by
  have closing : Closing p := by
    induction reached with
    | start =>
      rw [configured_fields]
      constructor <;> simp [newPool, DestroyPc.notified, Stuck]
    | next before permit taken ih => exact outcome_closing ih permit (step_outcome taken).2
  exact closing.free

/-- The destructor has not been called, or the pool has no surplus and no submission comes. -/
def NoSurplus (p : Pool τ ρ σ) (a : Action τ χ κ) : Prop :=
  p.destroyCall = .notCalled ∨ p.curThreadSize ≤ p.initThreadSize ∧ ¬ a matches .submit _

instance (p : Pool τ ρ σ) (a : Action τ χ κ) : Decidable (NoSurplus p a) :=
  inferInstanceAs (Decidable (_ ∨ _ ∧ _))

theorem no_surplus_in_time (p : Pool τ ρ σ) (a : Action τ χ κ) (no_surplus : NoSurplus p a) :
    ClosesInTime p a := by
  rcases no_surplus with standing | ⟨few, other⟩
  · cases a with
    | submit | destroyNext | workerTimeout => simp [ClosesInTime, standing, DestroyPc.notified]
    | _ => trivial
  · cases a with
    | submit i => simp at other
    | destroyNext => exact fun _ surplus => absurd surplus (Int.not_lt.mpr few)
    | workerTimeout w => exact fun _ => few
    | _ => trivial

/-- start(1), two submissions of which the second adds a thread, both tasks run by thread 0,
    and both threads blocked in their timed waits. runTask is the run of one task by thread 0. -/
def twoIdle (runTask : List (Action Nat χ κ)) : List (Action Nat χ κ) :=
  [Action.callStart 1] ++ List.replicate 8 Action.start ++
    [Action.call 0, .submit 0, .call 1, .submit 1] ++
    ([Action.worker 0 false] ++ runTask ++ [Action.idle 0]) ++
    ([Action.worker 0 false] ++ runTask ++ [Action.idle 0]) ++
    [Action.worker 0 false, .worker 1 false]

/-- The added thread leaves by the idle path, and the destructor finds the other one asleep.
    It is notified, gets the lock only after its deadline, and wakes the destructor. -/
def lateNotified (runTask : List (Action Nat χ κ)) : List (Action Nat χ κ) :=
  twoIdle runTask ++ [Action.workerTimeout 1, .worker 1 true, .destroy, .destroyNext,
    .workerTimeout 0, .worker 0 true]

theorem last_exit_notified_late :
    ∃ p : TaskFuture.FuturePool Nat Nat, p.threads = [] ∧ p.destroyCall = .woken ∧
      p.workers = [⟨0, .exited⟩, ⟨1, .retired⟩] ∧ ¬ (p.threads = [] ∧ p.destroyCall = .blocked) := by
  have ran : ∃ p ∈ Machine.run (step (TaskFuture.futureBackend 0))
      (configured 0 TaskFuture.emptySide .modeCachd 1024 10 : TaskFuture.FuturePool Nat Nat)
      (lateNotified (List.replicate 2 (.exec 0 7))),
      p.threads = [] ∧ p.destroyCall = .woken ∧ p.workers = [⟨0, .exited⟩, ⟨1, .retired⟩] := by
    decide +kernel
  obtain ⟨p, ran, empty, woken, workers⟩ := ran
  have obeys : Machine.Obeys (step (TaskFuture.futureBackend 0)) NoSurplus
      (configured 0 TaskFuture.emptySide .modeCachd 1024 10 : TaskFuture.FuturePool Nat Nat)
      (lateNotified (List.replicate 2 (.exec 0 7))) := by decide +kernel
  have permitted := (Machine.reach_of_run obeys ran).weaken no_surplus_in_time
  exact ⟨p, empty, woken, workers, last_exit_notified permitted⟩

theorem retires_long {w : Nat} {worker : Worker τ σ} (live : p.nullThread = false)
    (standing : p.destroyCall ≠ .returned) (here : p.workers[w]? = some worker)
    (expired : worker.pc = .timedOut) (surplus : p.initThreadSize < p.curThreadSize) :
    step B p (.worker w true) = some (retireThread p w worker) := by
  have on : p.nullThread = false ∧ enabled p (.worker w true : Action τ χ κ) := ⟨live, standing⟩
  simp [step, on, perform, threadFunc, here, expired, surplus]

/-- A thread whose deadline passes, notified or not, can be gone at its next step. -/
theorem late_retires {w : Nat} {worker : Worker τ σ} (here : p.workers[w]? = some worker)
    (surplus : p.initThreadSize < p.curThreadSize)
    (passed : step B p (.workerTimeout w) = some q) :
    step B q (.worker w true) = some (retireThread (setWorker p w worker .timedOut) w
      { worker with pc := .timedOut }) := by
  obtain ⟨⟨live, open_⟩, outcome⟩ := step_outcome passed
  obtain ⟨other, here', _, rfl⟩ := timeout_outcome outcome
  obtain rfl : worker = other := Option.some.inj (here.symm.trans here')
  have inside := (List.getElem?_eq_some_iff.mp here).1
  exact retires_long live open_ (List.getElem?_set_self inside) rfl surplus

/-- A deadline that passes when only one thread of a surplus is left lets the destructor wait
    for ever. -/
theorem late_leaver_sticks {w : Nat} {worker : Worker τ σ} (here : p.workers[w]? = some worker)
    (surplus : p.initThreadSize < p.curThreadSize) (blocked : p.destroyCall = .blocked)
    (last : p.threads.filter (· ≠ worker.threadid) = [])
    (passed : step B p (.workerTimeout w) = some q) :
    ∃ r, step B q (.worker w true) = some r ∧ Stuck r :=
  ⟨_, late_retires here surplus passed, last, blocked⟩

/-- Thread 1 times out just before the destructor's notification and, having been idle for
    long, is the last to leave. -/
def lateTimeout (runTask : List (Action Nat χ κ)) : List (Action Nat χ κ) :=
  twoIdle runTask ++ [Action.workerTimeout 1, .destroy, .destroyNext, .worker 0 false, .destroyNext,
    .worker 1 true]

/-- In both versions the destructor can be left waiting for ever. -/
theorem last_retirement_unnoticed :
    (∃ p : TaskResult.ResultPool Nat Nat,
      Machine.Reach (step TaskResult.resultBackend) NotSpurious
        (configured 0 TaskResult.emptySide .modeCachd 1024 10) p ∧
      p.threads = [] ∧ p.destroyCall = .blocked) ∧
    (∃ p : TaskFuture.FuturePool Nat Nat,
      Machine.Reach (step (TaskFuture.futureBackend 0)) NotSpurious
        (configured 0 TaskFuture.emptySide .modeCachd 1024 10) p ∧
      p.threads = [] ∧ p.destroyCall = .blocked) := by
  constructor
  · have ran : ∃ p ∈ Machine.run (step TaskResult.resultBackend)
        (configured 0 TaskResult.emptySide .modeCachd 1024 10 : TaskResult.ResultPool Nat Nat)
        (lateTimeout (List.replicate 5 (.exec 0 (some 7)))),
        p.threads = [] ∧ p.destroyCall = .blocked := by decide +kernel
    obtain ⟨p, ran, stuck⟩ := ran
    refine ⟨p, Machine.reach_of_run (Machine.obeys_of_actions ?_) ran, stuck⟩
    intro a member s
    revert a
    simp [lateTimeout, twoIdle, NotSpurious, List.replicate]
  · have ran : ∃ p ∈ Machine.run (step (TaskFuture.futureBackend 0))
        (configured 0 TaskFuture.emptySide .modeCachd 1024 10 : TaskFuture.FuturePool Nat Nat)
        (lateTimeout (List.replicate 2 (.exec 0 7))),
        p.threads = [] ∧ p.destroyCall = .blocked := by decide +kernel
    obtain ⟨p, ran, stuck⟩ := ran
    refine ⟨p, Machine.reach_of_run (Machine.obeys_of_actions ?_) ran, stuck⟩
    intro a member s
    revert a
    simp [lateTimeout, twoIdle, NotSpurious, List.replicate]

end ThreadPool
