import ServerPools.Threads.Accounting
import ServerPools.Threads.IdleReturn

/- Tasks that nobody will run. A submission in cached mode adds a thread only when the
   counters ask for one. The shutdown return moves no counter, so a thread that leaves before
   start stays counted; and the idle return does not look at the queue. -/
namespace ThreadPool
variable {τ ρ σ χ κ : Type} {B : Backend τ ρ σ χ κ} {p q : Pool τ ρ σ}

/-- Before the destructor no thread takes the shutdown return, and a thread that is alone on
    duty does not take the idle return while a task is queued. -/
def ThreadsStay (p : Pool τ ρ σ) : Action τ χ κ → Prop
  | .worker w idleLong => p.destroyCall = .notCalled → ∀ worker ∈ p.workers[w]?,
      (worker.pc.awake → p.taskQue = [] → p.isPoolRunning = true) ∧
      (worker.pc.expired → idleLong → p.initThreadSize < p.curThreadSize → p.taskQue ≠ [] →
        1 < p.onDuty.length)
  | _ => True

/-- curThreadSize against the threads on duty: start owes the threads that it has counted and
    not launched yet. -/
def StartPc.reckoned (init cur duty : Int) : StartPc → Prop
  | .notCalled | .setRunning _ | .setInit _ => cur ≤ duty
  | .setCur n => init = n ∧ cur ≤ duty
  | .creating _ => init ≤ cur ∧ cur ≤ duty + init
  | .launching i => init ≤ cur ∧ cur ≤ duty + (init - i)
  | .counting i => init ≤ cur ∧ i < init ∧ cur ≤ duty + (init - i - 1)
  | .returned => init ≤ cur ∧ cur ≤ duty

/-- start is on its way to launch threads. -/
def StartPc.launches : StartPc → Bool
  | .creating _ | .launching _ | .counting _ => true
  | _ => false

structure Served (p : Pool τ ρ σ) : Prop where
  idle : IdleCounted p
  reckoned : p.startCall.reckoned p.initThreadSize p.curThreadSize p.onDuty.length
  served : p.taskQue ≠ [] → p.onDuty ≠ [] ∨ p.startCall.launches ∧ 1 ≤ p.initThreadSize

theorem reckoned_shift {init cur cur' duty duty' : Int} {pc : StartPc}
    (before : pc.reckoned init cur duty) (shift : cur' - duty' ≤ cur - duty)
    (floor : init ≤ cur → init ≤ cur') : pc.reckoned init cur' duty' := by
  cases pc <;> simp only [StartPc.reckoned] at before ⊢ <;> omega

/-- The statements of start, in order. -/
theorem startNext_reckoned
    (before : p.startCall.reckoned p.initThreadSize p.curThreadSize p.onDuty.length)
    (next : StartStep p q) :
    q.startCall.reckoned q.initThreadSize q.curThreadSize q.onDuty.length := by
  cases next with
  | launches i place more present =>
    have joined : Pool.onDuty { p with
        workers := p.workers ++ [⟨i, .entering⟩], startCall := .counting i } = p.onDuty ++ [i] :=
      onDuty_joins (launch_roster p i _)
    rw [joined, List.length_append]
    rw [place] at before
    simp only [StartPc.reckoned, List.length_singleton] at before ⊢
    omega
  | dereferencesNull => exact before
  | setsInit m place =>
    rw [place] at before
    exact ⟨rfl, before⟩
  | setsRunning m place | setsCur m place | creates m place | created m place
  | launched m place | counts m place =>
    rw [place] at before
    change StartPc.reckoned _ _ (p.onDuty.length : Int) _
    simp only [StartPc.reckoned] at before ⊢
    omega

theorem grow_onDuty (p : Pool τ ρ σ) :
    (grow p).onDuty = p.onDuty ++ [p.generateID] ∧ (grow p).curThreadSize = p.curThreadSize + 1 ∨
      grow p = p ∧ ¬ (p.mode = .modeCachd ∧ asUnsigned p.idleThreadSize < p.taskSize ∧
        p.curThreadSize < p.threadSizeThreshHold) := by
  unfold grow
  split
  · refine Or.inl ⟨onDuty_joins ?_, rfl⟩
    simp [Pool.roster, Worker.view, WorkerPc.status]
  · rename_i declined
    exact Or.inr ⟨rfl, declined⟩

/-- A submission that finds nobody on duty adds a thread, unless start is about to. -/
theorem acceptTask_served {i : Nat} {c : Submit τ} (served : Served p) (mode : p.mode = .modeCachd)
    (positive : 1 ≤ p.threadSizeThreshHold) (sized : p.taskSize + 1 < 2 ^ 32) :
    (acceptTask B p i c).onDuty ≠ [] ∨ p.startCall.launches ∧ 1 ≤ p.initThreadSize := by
  have same : (enqueue p ⟨c.task, i⟩).onDuty = p.onDuty := onDuty_same (notifyNoEmpty_roster _)
  change (grow (enqueue p ⟨c.task, i⟩)).onDuty ≠ [] ∨ _
  rcases grow_onDuty (enqueue p ⟨c.task, i⟩) with ⟨joined, _⟩ | ⟨kept, declined⟩
  · rw [joined]
    simp
  · rw [kept, same]
    by_contra nobody
    obtain ⟨empty, unowed⟩ := not_or.mp nobody
    have alone : p.onDuty = [] := by simpa using empty
    have resting := resting_onDuty p
    have reckoned := served.reckoned
    have idle := served.idle
    unfold IdleCounted at idle
    rw [alone] at resting reckoned
    -- nobody is on duty, so both counters are down and the submission asks for a thread
    have down : p.curThreadSize ≤ 0 ∧ p.idleThreadSize = 0 := by
      cases place : p.startCall <;> rw [place] at reckoned idle unowed <;>
        simp [StartPc.reckoned, StartPc.uncounted, StartPc.launches] at reckoned idle unowed resting <;>
        omega
    refine declined ⟨mode, ?_, ?_⟩
    · change asUnsigned p.idleThreadSize < (p.taskSize + 1) % 2 ^ 32
      rw [down.2, Nat.mod_eq_of_lt sized]
      simp [asUnsigned]
    · change p.curThreadSize < p.threadSizeThreshHold
      omega

/-- A step after which the same threads are on duty and nothing new is queued. -/
theorem Served.kept (served : Served p) (idle : IdleCounted q) (roster : q.roster = p.roster)
    (cur : q.curThreadSize = p.curThreadSize) (init : q.initThreadSize = p.initThreadSize)
    (start : q.startCall = p.startCall) (queue : q.taskQue ≠ [] → p.taskQue ≠ []) : Served q := by
  refine ⟨idle, ?_, fun waiting => ?_⟩
  · rw [start, init, cur, onDuty_same roster]
    exact served.reckoned
  · rw [start, init, onDuty_same roster]
    exact served.served (queue waiting)

theorem startNext_served (served : Served p) (next : StartStep p q) : Served q := by
  have reckoned := startNext_reckoned served.reckoned next
  refine ⟨startNext_counted served.idle next, reckoned, fun waiting => ?_⟩
  have before := served.served ((startNext_quiet next).1.taskQue ▸ waiting)
  cases next with
  | launches i place more present =>
    refine Or.inl ?_
    rw [onDuty_joins (launch_roster p i _)]
    simp
  | launched i place done =>
    -- the threads of start are launched now, and at least initThreadSize stay
    rcases before with manned | ⟨_, positive⟩
    · exact Or.inl manned
    · refine Or.inl fun nobody => ?_
      change p.onDuty = [] at nobody
      change p.initThreadSize ≤ p.curThreadSize ∧ p.curThreadSize ≤ (p.onDuty.length : Int) at reckoned
      rw [nobody] at reckoned
      simp only [List.length_nil] at reckoned
      omega
  | dereferencesNull => exact before
  | setsRunning m place | setsInit m place | setsCur m place =>
    rw [place] at before
    exact Or.inl (before.resolve_right (by simp [StartPc.launches]))
  | creates i place | created i place | counts i place =>
    rw [place] at before
    exact before

theorem retireThread_onDuty {w : Nat} {worker : Worker τ σ} (leaving : idleReturn p w worker) :
    p.onDuty.length = (retireThread p w worker).onDuty.length + 1 := by
  obtain ⟨here, pc, _⟩ := leaving
  have seen := roster_here here
  rw [Worker.view, awake_active (by simp [pc, WorkerPc.awake])] at seen
  have roster : (retireThread p w worker).roster = p.roster.set w (worker.threadid, .retired) :=
    setWorker_roster w worker .retired
  exact (onDuty_leaves seen (by simp) roster).length_eq

theorem retireThread_served {w : Nat} {worker : Worker τ σ} (served : Served p)
    (idle : IdleCounted (retireThread p w worker)) (leaving : idleReturn p w worker)
    (company : p.taskQue ≠ [] → 1 < p.onDuty.length) : Served (retireThread p w worker) := by
  have left := retireThread_onDuty leaving
  obtain ⟨_, _, surplus⟩ := leaving
  refine ⟨idle, ?_, fun waiting => Or.inl ?_⟩
  · refine reckoned_shift served.reckoned ?_ ?_
    · change p.curThreadSize - 1 - _ ≤ _
      omega
    · intro floor
      change p.initThreadSize ≤ p.curThreadSize - 1
      omega
  · have two := company waiting
    exact List.ne_nil_of_length_pos (by omega)

theorem accepts_served {i : Nat} {c : Submit τ} (served : Served p) (mode : p.mode = .modeCachd)
    (positive : 1 ≤ p.threadSizeThreshHold) (sized : p.taskSize + 1 < 2 ^ 32)
    (idle : IdleCounted (acceptTask B p i c)) : Served (acceptTask B p i c) := by
  obtain ⟨_, init, start, _, _, _⟩ := grow_same (enqueue p ⟨c.task, i⟩)
  have manned := acceptTask_served (B := B) (i := i) (c := c) served mode positive sized
  have same : (enqueue p ⟨c.task, i⟩).onDuty = p.onDuty := onDuty_same (notifyNoEmpty_roster _)
  have reckoned : (grow (enqueue p ⟨c.task, i⟩)).startCall.reckoned
      (grow (enqueue p ⟨c.task, i⟩)).initThreadSize (grow (enqueue p ⟨c.task, i⟩)).curThreadSize
      (grow (enqueue p ⟨c.task, i⟩)).onDuty.length := by
    rw [start, init]
    rcases grow_onDuty (enqueue p ⟨c.task, i⟩) with ⟨joined, cur⟩ | ⟨kept, _⟩
    · rw [joined, cur, same, List.length_append]
      refine reckoned_shift served.reckoned ?_ ?_ <;>
        simp only [enqueue, notifyNoEmpty, List.length_singleton] <;> omega
    · rw [kept, same]
      exact served.reckoned
  refine ⟨idle, reckoned, fun _ => ?_⟩
  change _ ∨ (grow (enqueue p ⟨c.task, i⟩)).startCall.launches ∧
    1 ≤ (grow (enqueue p ⟨c.task, i⟩)).initThreadSize
  rw [start, init]
  exact manned

theorem outcome_served {a : Action τ χ κ} (served : Served p) (mode : p.mode = .modeCachd)
    (positive : 1 ≤ p.threadSizeThreshHold) (sized : p.taskSize + 1 < 2 ^ 32)
    (standing : p.destroyCall = .notCalled) (permit : ThreadsStay p a)
    (outcome : Outcome B p a q) : Served q := by
  have stays (w : Nat) (idleLong : Bool) (how : a = .worker w idleLong) : ¬ ShutdownReturn p w := by
    rintro ⟨empty, stopped, worker, here, awake⟩
    subst how
    have on := (permit standing worker here).1 awake empty
    simp [on] at stopped
  have idle := outcome_counted served.idle stays outcome
  cases outcome with
  | accepts here awake room => exact accepts_served served mode positive sized idle
  | starts next => exact startNext_served served next
  | startCalled n settled standing' =>
    have reckoned := served.reckoned
    have waited := served.served
    rcases settled with place | place <;> rw [place] at reckoned waited
    · refine ⟨idle, reckoned, fun waiting => Or.inl ?_⟩
      exact (waited waiting).resolve_right (by simp [StartPc.launches])
    · refine ⟨idle, reckoned.2, fun waiting => Or.inl ?_⟩
      exact (waited waiting).resolve_right (by simp [StartPc.launches])
  | @takes w idleLong worker e rest here awake queue =>
    obtain ⟨roster, _, cur, init, _, start, _, _, _, _⟩ := takeTask_same B p w worker e rest
    have same : (popTask B p w worker e rest).roster = p.roster :=
      setWorker_same_roster here (awake_active awake).symm
    exact served.kept idle (roster.trans same) cur init start fun _ => by simp [queue]
  | exits here awake empty stopped =>
    exact absurd ⟨empty, stopped, _, here, awake⟩ (stays _ _ rfl)
  | retires here pc surplus =>
    have company := (permit standing _ here).2 (by simp [pc, WorkerPc.expired]) rfl surplus
    exact retireThread_served served idle ⟨here, pc, surplus⟩ company
  | waits here awake empty running =>
    exact served.kept idle (setWorker_same_roster here (awake_active awake).symm) rfl rfl rfl id
  | workerAwakes here blocked how =>
    refine served.kept idle (setWorker_same_roster here ?_) rfl rfl rfl id
    rcases how with ⟨_, _, rfl⟩ | ⟨_, rfl⟩ <;> simp [blocked, WorkerPc.status]
  | workerLate here woken =>
    exact served.kept idle (setWorker_same_roster here (by simp [woken, WorkerPc.status])) rfl rfl
      rfl id
  | execs here pc ran =>
    exact served.kept idle (setWorker_same_roster here (by simp [pc, WorkerPc.status])) rfl rfl rfl id
  | finishes here pc ran =>
    exact served.kept idle (setWorker_same_roster here (by simp [pc, WorkerPc.status])) rfl rfl rfl id
  | idles here pc =>
    exact served.kept idle (setWorker_same_roster here (by simp [pc, WorkerPc.status])) rfl rfl rfl id
  | destroyTests flagged => simp [standing] at flagged
  | destroyRetests woken => simp [standing] at woken
  | destroyStirred blocked => simp [standing] at blocked
  | called | rejects | submitWaits | submitAwakes | submitLate | flagged | others | clients =>
    exact served.kept idle rfl rfl rfl rfl id

theorem reachable_served {threadhold threshold : Int}
    (bounded : 1 ≤ threadhold ∧ threadhold < 2 ^ 31) (positive : 1 ≤ threshold)
    {generateID : Nat} {results : ρ}
    (reached : Machine.Reach (step B) ThreadsStay
      (configured generateID results .modeCachd threadhold threshold) p)
    (standing : p.destroyCall = .notCalled) : Served p := by
  induction reached with
  | start =>
    rw [configured_fields]
    refine ⟨?_, ?_, fun waiting => absurd rfl waiting⟩
    · simp [newPool, IdleCounted, StartPc.uncounted, Pool.resting]
    · simp [newPool, StartPc.reckoned]
  | @next p q a before permit taken ih =>
    have outcome := (step_outcome taken).2
    have earlier : p.destroyCall = .notCalled := by
      by_contra begun
      exact (outcome_life outcome).begun begun standing
    obtain ⟨mode, threshold'⟩ := reachable_configured before.reachable
    have law := reachable_law ⟨by omega, bounded.2⟩ before.reachable
    refine outcome_served (ih earlier) mode ?_ ?_ earlier permit outcome
    · rw [threshold']
      exact positive
    · have sized := law.sized
      have within := law.within
      omega

theorem onDuty_nil : p.onDuty = [] ↔ ∀ worker ∈ p.workers, worker.pc.status ≠ .active := by
  unfold Pool.onDuty Pool.roster
  rw [List.map_eq_nil_iff, List.filter_eq_nil_iff]
  simp [Worker.view]

/-- In runs that meet the condition a queued task has a thread that was launched and has not
    left, from any time without a start call in progress up to the destructor. -/
theorem no_task_stranded {threadhold threshold : Int}
    (bounded : 1 ≤ threadhold ∧ threadhold < 2 ^ 31) (positive : 1 ≤ threshold)
    {generateID : Nat} {results : ρ}
    (reached : Machine.Reach (step B) ThreadsStay
      (configured generateID results .modeCachd threadhold threshold) p)
    (standing : p.destroyCall = .notCalled) (settled : startSettled p) (waiting : p.taskQue ≠ []) :
    ∃ worker ∈ p.workers, worker.pc.status = .active := by
  have served := (reachable_served bounded positive reached standing).served waiting
  have manned : p.onDuty ≠ [] := by
    refine served.resolve_right ?_
    rcases settled with place | place <;> simp [place, StartPc.launches]
  by_contra nobody
  exact manned (onDuty_nil.mpr fun worker member active => nobody ⟨worker, member, active⟩)

instance (p : Pool τ ρ σ) : (a : Action τ χ κ) → Decidable (ThreadsStay p a)
  | .worker w idleLong => inferInstanceAs (Decidable (p.destroyCall = .notCalled →
      ∀ worker ∈ p.workers[w]?, (worker.pc.awake → p.taskQue = [] → p.isPoolRunning = true) ∧
        (worker.pc.expired → idleLong → p.initThreadSize < p.curThreadSize → p.taskQue ≠ [] →
          1 < p.onDuty.length)))
  | .call _ | .submit _ | .submitTimeout _ | .submitStir _ | .callStart _ | .start
  | .workerTimeout _ | .workerStir _ | .exec _ _ | .idle _ | .destroy | .destroyNext | .destroyStir
  | .otherThread | .client _ => .isTrue trivial

/-- One of two threads on duty takes the idle return while a task is queued, which the other
    still has to run. -/
theorem no_task_stranded_company :
    ∃ p : TaskFuture.FuturePool Nat Nat, p.taskQue = [⟨2, 2⟩] ∧
      p.workers = [⟨0, .woken true⟩, ⟨1, .retired⟩] ∧
      ∃ worker ∈ p.workers, worker.pc.status = .active := by
  have ran : ∃ p ∈ Machine.run (step (TaskFuture.futureBackend 0))
      (configured 0 TaskFuture.emptySide .modeCachd 1024 10 : TaskFuture.FuturePool Nat Nat)
      (taskInGap (List.replicate 2 (.exec 0 7)) ++ [Action.worker 1 true]),
      p.destroyCall = .notCalled ∧ startSettled p ∧ p.taskQue = [⟨2, 2⟩] ∧
      p.workers = [⟨0, .woken true⟩, ⟨1, .retired⟩] := by decide +kernel
  obtain ⟨p, ran, standing, settled, queue, workers⟩ := ran
  have obeys : Machine.Obeys (step (TaskFuture.futureBackend 0)) ThreadsStay
      (configured 0 TaskFuture.emptySide .modeCachd 1024 10 : TaskFuture.FuturePool Nat Nat)
      (taskInGap (List.replicate 2 (.exec 0 7)) ++ [Action.worker 1 true]) := by decide +kernel
  have reached := Machine.reach_of_run obeys ran
  exact ⟨p, queue, workers,
    no_task_stranded (by decide) (by decide) reached standing settled (by simp [queue])⟩

/-- A task is queued for nobody. -/
def Deserted (p : Pool τ ρ σ) : Prop :=
  p.destroyCall = .notCalled ∧ startSettled p ∧ p.taskQue ≠ [] ∧
    ∀ worker ∈ p.workers, worker.pc.status ≠ .active

instance [DecidableEq τ] (p : Pool τ ρ σ) : Decidable (Deserted p) :=
  inferInstanceAs (Decidable (p.destroyCall = .notCalled ∧ startSettled p ∧ p.taskQue ≠ [] ∧
    ∀ worker ∈ p.workers, worker.pc.status ≠ .active))

/-- Both halves of the condition are needed. A thread that took the shutdown return is still
    counted as idle, and the next submission adds none. -/
theorem stale_idle_deserts {i : Nat} {c : Submit τ} (standing : p.destroyCall = .notCalled)
    (settled : startSettled p) (nobody : p.onDuty = []) (empty : p.taskSize = 0)
    (stale : 1 ≤ p.idleThreadSize ∧ p.idleThreadSize < 2 ^ 32) : Deserted (acceptTask B p i c) := by
  obtain ⟨queue, _, start, destroy, _, _⟩ := grow_same (enqueue p ⟨c.task, i⟩)
  have same : (enqueue p ⟨c.task, i⟩).onDuty = p.onDuty := onDuty_same (notifyNoEmpty_roster _)
  have declined : ¬ asUnsigned p.idleThreadSize < (p.taskSize + 1) % 2 ^ 32 := by
    unfold asUnsigned
    rw [empty, Int.emod_eq_of_lt (by omega) stale.2]
    omega
  refine ⟨destroy.trans standing, ?_, ?_, onDuty_nil.mp ?_⟩
  · change (grow (enqueue p ⟨c.task, i⟩)).startCall = _ ∨ (grow (enqueue p ⟨c.task, i⟩)).startCall = _
    rw [start]
    exact settled
  · change (grow (enqueue p ⟨c.task, i⟩)).taskQue ≠ []
    rw [queue]
    simp [enqueue, notifyNoEmpty]
  · change (grow (enqueue p ⟨c.task, i⟩)).onDuty = []
    unfold grow
    rw [if_neg fun growing => declined growing.2.1, same, nobody]

/-- A thread alone on duty that takes the idle return leaves what is queued to nobody. -/
theorem last_retirement_deserts {w : Nat} {worker : Worker τ σ} (standing : p.destroyCall = .notCalled)
    (settled : startSettled p) (alone : p.onDuty.length = 1) (waiting : p.taskQue ≠ [])
    (leaving : idleReturn p w worker) : Deserted (retireThread p w worker) := by
  have left := retireThread_onDuty leaving
  exact ⟨standing, settled, waiting, onDuty_nil.mp (List.eq_nil_of_length_eq_zero (by omega))⟩

/-- Before start one task comes, is run by the thread it added, and another comes. -/
def beforeStart (runTask : List (Action Nat χ κ)) : List (Action Nat χ κ) :=
  [Action.call 0, .submit 0, .worker 0 false] ++ runTask ++
    [Action.idle 0, .worker 0 false, .call 1, .submit 1]

/-- The same after start(0), where the thread times out just before the second submission and
    has been idle for long. -/
def startedEmpty (runTask : List (Action Nat χ κ)) : List (Action Nat χ κ) :=
  [Action.callStart 0] ++ List.replicate 5 Action.start ++
    [Action.call 0, .submit 0, .worker 0 false] ++ runTask ++
    [Action.idle 0, .worker 0 false, .workerTimeout 0, .call 1, .submit 1, .worker 0 true]

/-- Both ways, in both versions. -/
theorem tasks_stranded :
    (∃ p : TaskResult.ResultPool Nat Nat, Machine.Reachable (step TaskResult.resultBackend)
      (configured 0 TaskResult.emptySide .modeCachd 1024 10) p ∧ p.startCall = .notCalled ∧
        Deserted p) ∧
    (∃ p : TaskResult.ResultPool Nat Nat, Machine.Reachable (step TaskResult.resultBackend)
      (configured 0 TaskResult.emptySide .modeCachd 1024 10) p ∧ p.startCall = .returned ∧
        Deserted p) ∧
    (∃ p : TaskFuture.FuturePool Nat Nat, Machine.Reachable (step (TaskFuture.futureBackend 0))
      (configured 0 TaskFuture.emptySide .modeCachd 1024 10) p ∧ p.startCall = .notCalled ∧
        Deserted p) ∧
    (∃ p : TaskFuture.FuturePool Nat Nat, Machine.Reachable (step (TaskFuture.futureBackend 0))
      (configured 0 TaskFuture.emptySide .modeCachd 1024 10) p ∧ p.startCall = .returned ∧
        Deserted p) := by
  refine ⟨?_, ?_, ?_, ?_⟩
  · refine Machine.reachable_visits (beforeStart (List.replicate 5 (.exec 0 (some 7)))) ?_
    decide +kernel
  · refine Machine.reachable_visits (startedEmpty (List.replicate 5 (.exec 0 (some 7)))) ?_
    decide +kernel
  · refine Machine.reachable_visits (beforeStart (List.replicate 2 (.exec 0 7))) ?_
    decide +kernel
  · refine Machine.reachable_visits (startedEmpty (List.replicate 2 (.exec 0 7))) ?_
    decide +kernel

end ThreadPool
