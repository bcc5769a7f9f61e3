import ServerPools.Threads.Accounting
import ServerPools.Threads.IdleReturn

/- Whether the threads of a cached pool keep up with its queue. A submission adds at most one
   thread, and only when the tasks outnumber the idle threads; that is enough, because a take
   lowers both numbers and nothing but a take or a return lowers the idle count. -/
namespace ThreadPool
variable {τ ρ σ χ κ : Type} {B : Backend τ ρ σ χ κ} {p q : Pool τ ρ σ}

/-- start(n) comes first, the destructor does not begin, and no thread takes the idle return. -/
def GrowsOnly (n : Int) (p : Pool τ ρ σ) : Action τ χ κ → Prop
  | .worker w idleLong => ∀ worker ∈ p.workers[w]?, worker.pc.expired → idleLong →
      p.curThreadSize ≤ p.initThreadSize
  | a => StartsFirst n p a

theorem growsOnly_first {n : Int} {a : Action τ χ κ} (permit : GrowsOnly n p a) :
    StartsFirst n p a := by
  cases a <;> first | exact trivial | exact permit

/-- Every queued task has an idle thread, or the pool has as many threads as it may have. -/
def KeepsUp (p : Pool τ ρ σ) : Prop :=
  (p.taskQue.length : Int) ≤ p.idleThreadSize ∨ p.threadSizeThreshHold ≤ p.curThreadSize

/-- How many threads there are at each place of start(n). -/
def StartPc.staffed (n : Int) (p : Pool τ ρ σ) : StartPc → Prop
  | .notCalled => p.workers.length = 0
  | .setRunning m | .setInit m => m = n ∧ p.workers.length = 0
  | .setCur m => m = n ∧ p.initThreadSize = n ∧ p.workers.length = 0
  | .creating _ => p.initThreadSize = n ∧ p.curThreadSize = n ∧ p.workers.length = 0
  | .launching i => p.initThreadSize = n ∧ p.curThreadSize = n ∧ p.workers.length = i ∧
      i ≤ max n 0
  | .counting i => p.initThreadSize = n ∧ p.curThreadSize = n ∧ p.workers.length = i + 1 ∧ i < n
  | .returned => (p.workers.length : Int) = p.curThreadSize - min n 0

/-- A pool with threads has been told to run. -/
theorem StartPc.staffed_running {n : Int} {start : StartPc} (staffed : start.staffed n p)
    (manned : 0 < p.workers.length) : start.running := by
  cases start with
  | notCalled =>
    have nobody : p.workers.length = 0 := staffed
    omega
  | setRunning m =>
    have nobody := staffed.2
    omega
  | setInit | setCur | creating | launching | counting | returned => rfl

structure Growing (n : Int) (p : Pool τ ρ σ) : Prop where
  idle : IdleCounted p
  size : p.taskSize = p.taskQue.length % 2 ^ 32
  staffed : p.startCall.staffed n p
  running : p.startCall.running → p.isPoolRunning = true
  early : p.startCall ≠ .returned → p.taskQue = [] ∧ ¬ ∃ c ∈ p.submits, c.pc.pending
  kept : (p.taskQue.length : Int) ≤ p.idleThreadSize ∨
    p.startCall = .returned ∧ p.threadSizeThreshHold ≤ p.curThreadSize

/-- A step that leaves the queue, the sizes and the number of threads alone. -/
theorem Growing.same {n : Int} (growing : Growing n p) (idle : IdleCounted q)
    (queue : q.taskQue = p.taskQue) (size : q.taskSize = p.taskSize)
    (workers : q.workers.length = p.workers.length) (start : q.startCall = p.startCall)
    (init : q.initThreadSize = p.initThreadSize) (cur : q.curThreadSize = p.curThreadSize)
    (threshold : q.threadSizeThreshHold = p.threadSizeThreshHold)
    (on : q.isPoolRunning = p.isPoolRunning) (more : p.idleThreadSize ≤ q.idleThreadSize)
    (early : p.startCall ≠ .returned → ¬ ∃ c ∈ q.submits, c.pc.pending) : Growing n q := by
  refine ⟨idle, ?_, ?_, ?_, ?_, ?_⟩
  · rw [size, queue]
    exact growing.size
  · have before := growing.staffed
    rw [start]
    cases place : p.startCall <;> rw [place] at before <;>
      simpa only [StartPc.staffed, workers, init, cur] using before
  · rw [start, on]
    exact growing.running
  · rw [start, queue]
    exact fun running => ⟨(growing.early running).1, early running⟩
  · rw [queue, start, threshold, cur]
    exact growing.kept.imp_left fun enough => Int.le_trans enough more

theorem resting_workers (p : Pool τ ρ σ) : p.resting ≤ p.workers.length := List.countP_le_length

/-- Below the threshold the counters are exact as the unsigned numbers they are compared as. -/
theorem Growing.idle_small {n : Int} (growing : Growing n p) (size : -2 ^ 31 ≤ n)
    (returned : p.startCall = .returned) (below : p.curThreadSize < p.threadSizeThreshHold)
    (limit : p.threadSizeThreshHold < 2 ^ 31) :
    0 ≤ p.idleThreadSize ∧ p.idleThreadSize + 1 < 2 ^ 32 := by
  have counted := growing.idle
  have staffed := growing.staffed
  have resting := resting_workers p
  unfold IdleCounted at counted
  rw [returned] at counted staffed
  simp only [StartPc.uncounted, StartPc.staffed] at counted staffed
  omega

theorem grow_sizes (p : Pool τ ρ σ) :
    (grow p).workers.length = p.workers.length + 1 ∧
        (grow p).curThreadSize = p.curThreadSize + 1 ∧
        (grow p).idleThreadSize = p.idleThreadSize + 1 ∨
      grow p = p ∧ ¬ (p.mode = .modeCachd ∧ asUnsigned p.idleThreadSize < p.taskSize ∧
        p.curThreadSize < p.threadSizeThreshHold) := by
  unfold grow
  split
  · exact Or.inl ⟨by simp, rfl, rfl⟩
  · rename_i declined
    exact Or.inr ⟨rfl, declined⟩

/-- One thread is enough for one task more. -/
theorem grow_keepsUp {n : Int} (growing : Growing n p) (size : -2 ^ 31 ≤ n)
    (limit : p.threadSizeThreshHold < 2 ^ 31) (mode : p.mode = .modeCachd)
    (returned : p.startCall = .returned) (e : Entry τ) :
    (p.taskQue.length + 1 : Int) ≤ (grow (enqueue p e)).idleThreadSize ∨
      p.threadSizeThreshHold ≤ (grow (enqueue p e)).curThreadSize := by
  have kept := growing.kept
  rcases grow_sizes (enqueue p e) with ⟨_, cur, idle⟩ | ⟨same, declined⟩
  · change (grow (enqueue p e)).curThreadSize = p.curThreadSize + 1 at cur
    change (grow (enqueue p e)).idleThreadSize = p.idleThreadSize + 1 at idle
    omega
  · rw [same]
    change _ ≤ p.idleThreadSize ∨ _ ≤ p.curThreadSize
    by_contra behind
    obtain ⟨short, below⟩ := not_or.mp behind
    have small := growing.idle_small size returned (by omega) limit
    apply declined
    refine ⟨mode, ?_, Int.not_le.mp below⟩
    -- the queue is no longer than the idle count, so its length is exact in 32 bits too
    change asUnsigned p.idleThreadSize < (p.taskSize + 1) % 2 ^ 32
    have exact_ := growing.size
    have idle : asUnsigned p.idleThreadSize = p.idleThreadSize.toNat := by
      unfold asUnsigned
      rw [Int.emod_eq_of_lt small.1 (by omega)]
    omega

theorem acceptTask_growing {n : Int} (growing : Growing n p) (size : -2 ^ 31 ≤ n)
    (limit : p.threadSizeThreshHold < 2 ^ 31) (mode : p.mode = .modeCachd) {i : Nat} {c : Submit τ}
    (here : p.submits[i]? = some c) (awake : c.pc.awake) (idle : IdleCounted (acceptTask B p i c)) :
    Growing n (acceptTask B p i c) := by
  have returned : p.startCall = .returned := by
    by_contra running
    exact (growing.early running).2 ⟨c, Agents.mem_of_position here, awake_pending awake⟩
  have up := grow_keepsUp growing size limit mode returned ⟨c.task, i⟩
  obtain ⟨queue, init, start, _, _, _⟩ := grow_same (enqueue p ⟨c.task, i⟩)
  obtain ⟨_, taskSize, _, _, _, _, _, _⟩ := grow_keeps (enqueue p ⟨c.task, i⟩)
  have threshold : (grow (enqueue p ⟨c.task, i⟩)).threadSizeThreshHold = p.threadSizeThreshHold := by
    unfold grow
    split <;> rfl
  have on : (grow (enqueue p ⟨c.task, i⟩)).isPoolRunning = p.isPoolRunning := by
    unfold grow
    split <;> rfl
  have longer : (grow (enqueue p ⟨c.task, i⟩)).taskQue = p.taskQue ++ [⟨c.task, i⟩] := queue
  have place : (grow (enqueue p ⟨c.task, i⟩)).startCall = .returned := start.trans returned
  refine ⟨idle, ?_, ?_, ?_, ?_, ?_⟩
  · change (grow (enqueue p ⟨c.task, i⟩)).taskSize =
      (grow (enqueue p ⟨c.task, i⟩)).taskQue.length % 2 ^ 32
    rw [taskSize, longer, List.length_append]
    change (p.taskSize + 1) % 2 ^ 32 = _
    rw [growing.size, List.length_singleton]
    omega
  · change (grow (enqueue p ⟨c.task, i⟩)).startCall.staffed n (grow (enqueue p ⟨c.task, i⟩))
    have before := growing.staffed
    rw [returned] at before
    rw [place]
    simp only [StartPc.staffed] at before ⊢
    rcases grow_sizes (enqueue p ⟨c.task, i⟩) with ⟨workers, cur, _⟩ | ⟨same, _⟩
    · rw [workers, cur]
      simp only [enqueue, notifyNoEmpty, List.length_map]
      omega
    · rw [same]
      simpa [enqueue, notifyNoEmpty] using before
  · intro running
    change (grow (enqueue p ⟨c.task, i⟩)).isPoolRunning = true
    rw [on]
    exact growing.running (by rw [returned]; rfl)
  · intro running
    exact absurd place running
  · change ((grow (enqueue p ⟨c.task, i⟩)).taskQue.length : Int) ≤
        (grow (enqueue p ⟨c.task, i⟩)).idleThreadSize ∨
      (grow (enqueue p ⟨c.task, i⟩)).startCall = .returned ∧
        (grow (enqueue p ⟨c.task, i⟩)).threadSizeThreshHold ≤
          (grow (enqueue p ⟨c.task, i⟩)).curThreadSize
    rw [longer, List.length_append, threshold]
    exact up.imp id fun full => ⟨place, full⟩

theorem takeTask_sizes (B : Backend τ ρ σ χ κ) (p : Pool τ ρ σ) (w : Nat) (worker : Worker τ σ)
    (e : Entry τ) (rest : List (Entry τ)) :
    (takeTask B p w worker e rest).idleThreadSize = p.idleThreadSize - 1 ∧
      (takeTask B p w worker e rest).taskSize = (p.taskSize + 2 ^ 32 - 1) % 2 ^ 32 ∧
      (takeTask B p w worker e rest).threadSizeThreshHold = p.threadSizeThreshHold ∧
      (takeTask B p w worker e rest).workers.length = p.workers.length := by
  have popped : (popTask B p w worker e rest).workers.length = p.workers.length := List.length_set
  unfold takeTask
  split
  · exact ⟨rfl, rfl, rfl, (List.length_map _).trans popped⟩
  · exact ⟨rfl, rfl, rfl, popped⟩

/-- A take lowers the queue and the idle count together. -/
theorem takeTask_growing {n : Int} (growing : Growing n p) {w : Nat} {worker : Worker τ σ}
    {e : Entry τ} {rest : List (Entry τ)} (queue : p.taskQue = e :: rest)
    (idle : IdleCounted (takeTask B p w worker e rest)) :
    Growing n (takeTask B p w worker e rest) := by
  have returned : p.startCall = .returned := by
    by_contra running
    exact absurd (growing.early running).1 (by simp [queue])
  obtain ⟨_, _, cur, _, _, start, _, on, _, left⟩ := takeTask_same B p w worker e rest
  obtain ⟨fewer, size, threshold, workers⟩ := takeTask_sizes B p w worker e rest
  refine ⟨idle, ?_, ?_, ?_, ?_, ?_⟩
  · have before := growing.size
    rw [queue, List.length_cons] at before
    rw [size, left]
    omega
  · have before := growing.staffed
    rw [returned] at before
    rw [start, returned]
    simp only [StartPc.staffed, workers, cur] at before ⊢
    exact before
  · rw [start, on]
    exact growing.running
  · intro running
    exact absurd (start.trans returned) running
  · have before := growing.kept
    rw [queue, List.length_cons] at before
    rw [left, fewer, start, threshold, cur]
    exact before.imp_left fun enough => by omega

/-- A statement of start that adds no thread and does not return. -/
theorem Growing.placed {n : Int} (growing : Growing n p) (idle : IdleCounted q)
    (unreturned : p.startCall ≠ .returned) (queue : q.taskQue = p.taskQue)
    (size : q.taskSize = p.taskSize) (submits : q.submits = p.submits)
    (more : p.idleThreadSize ≤ q.idleThreadSize) (staffed : q.startCall.staffed n q)
    (on : q.startCall.running → q.isPoolRunning = true) : Growing n q := by
  obtain ⟨empty, none_⟩ := growing.early unreturned
  refine ⟨idle, ?_, staffed, on, ?_, Or.inl ?_⟩
  · rw [size, queue]
    exact growing.size
  · rw [queue, submits]
    exact fun _ => ⟨empty, none_⟩
  · rw [queue]
    have before := growing.kept.resolve_right fun full => unreturned full.1
    exact Int.le_trans before more

/-- The statements of start, in order; nothing is queued yet. -/
theorem startNext_growing {n : Int} (growing : Growing n p) (next : StartStep p q) :
    Growing n q := by
  have idle := startNext_counted growing.idle next
  have staffed := growing.staffed
  have on := growing.running
  cases next with
  | setsRunning m place =>
    rw [place] at staffed
    exact growing.placed idle (by simp [place]) rfl rfl rfl (Int.le_refl _) staffed fun _ => rfl
  | setsInit m place =>
    rw [place] at staffed on
    exact growing.placed idle (by simp [place]) rfl rfl rfl (Int.le_refl _)
      ⟨staffed.1, staffed.1, staffed.2⟩ on
  | setsCur m place =>
    rw [place] at staffed on
    exact growing.placed idle (by simp [place]) rfl rfl rfl (Int.le_refl _)
      ⟨staffed.2.1, staffed.1, staffed.2.2⟩ on
  | creates i place more =>
    rw [place] at staffed on
    exact growing.placed idle (by simp [place]) rfl rfl rfl (Int.le_refl _) staffed on
  | created i place done =>
    rw [place] at staffed on
    exact growing.placed idle (by simp [place]) rfl rfl rfl (Int.le_refl _)
      ⟨staffed.1, staffed.2.1, staffed.2.2, Int.le_max_right n 0⟩ on
  | launches i place more present =>
    rw [place] at staffed on
    obtain ⟨init, cur, launched, _⟩ := staffed
    refine growing.placed idle (by simp [place]) rfl rfl rfl (Int.le_refl _)
      ⟨init, cur, ?_, init ▸ more⟩ on
    rw [List.length_append, launched]
    rfl
  | counts i place =>
    rw [place] at staffed on
    obtain ⟨init, cur, launched, below⟩ := staffed
    refine growing.placed idle (by simp [place]) rfl rfl rfl (Int.le_add_one (Int.le_refl _))
      ⟨init, cur, launched, ?_⟩ on
    omega
  | dereferencesNull =>
    exact ⟨idle, growing.size, staffed, on, growing.early, growing.kept⟩
  | launched i place done =>
    rw [place] at staffed on
    obtain ⟨init, cur, launched, within⟩ := staffed
    refine ⟨idle, growing.size, ?_, on, fun running => absurd rfl running, ?_⟩
    · change (p.workers.length : Int) = p.curThreadSize - min n 0
      omega
    · exact Or.inl (growing.kept.resolve_right fun full => by simp [place] at full)

/-- Such a run has no return of a thread, so the step is one of these. -/
theorem outcome_growing {n : Int} {a : Action τ χ κ} (size : -2 ^ 31 ≤ n) (growing : Growing n p)
    (limit : p.threadSizeThreshHold < 2 ^ 31) (mode : p.mode = .modeCachd)
    (standing : p.destroyCall = .notCalled) (permit : GrowsOnly n p a) (outcome : Outcome B p a q) :
    Growing n q := by
  have manned {w : Nat} {worker : Worker τ σ} (here : p.workers[w]? = some worker) :
      p.isPoolRunning = true := by
    have inside : 0 < p.workers.length := by
      have bound := (List.getElem?_eq_some_iff.mp here).1
      omega
    exact growing.running (StartPc.staffed_running growing.staffed inside)
  have stays (w : Nat) (idleLong : Bool) (_ : a = .worker w idleLong) : ¬ ShutdownReturn p w := by
    rintro ⟨_, stopped, worker, here, _⟩
    simp [manned here] at stopped
  have idle := outcome_counted growing.idle stays outcome
  have first := growsOnly_first permit
  have early : p.startCall ≠ .returned → ¬ ∃ c ∈ q.submits, c.pc.pending := by
    intro running some_pending
    rcases (outcome_life outcome).pending some_pending with before | ⟨task, rfl⟩
    · exact (growing.early running).2 before
    · exact absurd first running
  cases outcome with
  | accepts here awake room => exact acceptTask_growing growing size limit mode here awake idle
  | takes here awake queue => exact takeTask_growing growing queue idle
  | starts next => exact startNext_growing growing next
  | startCalled m settled standing' =>
    obtain ⟨same, never⟩ : m = n ∧ p.startCall = .notCalled := first
    have staffed := growing.staffed
    rw [never] at staffed
    exact growing.placed idle (by simp [never]) rfl rfl rfl (Int.le_refl _) ⟨same, staffed⟩
      (by simp [StartPc.running])
  | exits here awake empty stopped => simp [manned here] at stopped
  | retires here pc surplus =>
    have fewer := permit _ here (by simp [pc, WorkerPc.expired]) rfl
    omega
  | flagged => exact first.elim
  | destroyTests flagged => simp [standing] at flagged
  | destroyRetests woken => simp [standing] at woken
  | destroyStirred blocked => simp [standing] at blocked
  | called | rejects | submitWaits | submitAwakes | submitLate | others | clients =>
    exact growing.same idle rfl rfl rfl rfl rfl rfl rfl rfl (Int.le_refl _) early
  | waits | workerAwakes | workerLate | execs | finishes =>
    exact growing.same idle rfl rfl List.length_set rfl rfl rfl rfl rfl (Int.le_refl _) early
  | idles =>
    exact growing.same idle rfl rfl List.length_set rfl rfl rfl rfl rfl
      (Int.le_add_one (Int.le_refl _)) early

theorem reachable_growing {n : Int} (size : -2 ^ 31 ≤ n) {generateID : Nat} {results : ρ}
    {threadhold threshold : Int} (limit : threshold < 2 ^ 31)
    (reached : Machine.Reach (step B) (GrowsOnly n)
      (configured generateID results .modeCachd threadhold threshold) p) : Growing n p := by
  induction reached with
  | start =>
    rw [configured_fields]
    refine ⟨?_, ?_, ?_, ?_, ?_, ?_⟩ <;> simp [newPool, IdleCounted, Pool.resting,
      StartPc.uncounted, StartPc.staffed, StartPc.running]
  | @next p q a before permit taken growing =>
    obtain ⟨mode, threshold'⟩ := reachable_configured before.reachable
    have standing := (startsFirst_once (before.weaken fun _ _ => growsOnly_first)).1
    apply outcome_growing size growing ?_ mode standing permit (step_outcome taken).2
    rw [threshold']
    exact limit

/-- In a cached pool the queue does not outgrow the idle threads below the threshold, whatever
    the interleaving, until a thread retires or the destructor begins. n and the threshold are
    ints. -/
theorem growth_keeps_up {n : Int} (size : -2 ^ 31 ≤ n ∧ n < 2 ^ 31) {generateID : Nat} {results : ρ}
    {threadhold threshold : Int} (limit : threshold < 2 ^ 31)
    (reached : Machine.Reach (step B) (GrowsOnly n)
      (configured generateID results .modeCachd threadhold threshold) p) : KeepsUp p :=
  (reachable_growing size.1 limit reached).kept.imp_right And.right

instance (n : Int) (p : Pool τ ρ σ) : (a : Action τ χ κ) → Decidable (GrowsOnly n p a)
  | .worker w idleLong => inferInstanceAs (Decidable (∀ worker ∈ p.workers[w]?,
      worker.pc.expired → idleLong → p.curThreadSize ≤ p.initThreadSize))
  | .callStart m => inferInstanceAs (Decidable (StartsFirst n p (.callStart m : Action τ χ κ)))
  | .call task => inferInstanceAs (Decidable (StartsFirst n p (.call task : Action τ χ κ)))
  | .destroy => .isFalse id
  | .submit _ | .submitTimeout _ | .submitStir _ | .start | .workerTimeout _
  | .workerStir _ | .exec _ _ | .idle _ | .destroyNext | .destroyStir | .otherThread
  | .client _ => .isTrue trivial

/-- start(1) with a threshold of 2: the second of three tasks adds a thread, the third finds the
    pool at its threshold, and one thread is in its task. -/
def atThreshold : List (Action Nat Nat Empty) :=
  [Action.callStart 1] ++ List.replicate 8 Action.start ++
    [Action.call 5, .submit 0, .call 6, .submit 1, .call 7, .submit 2, .worker 1 false, .exec 1 7]

theorem growth_keeps_up_threshold :
    ∃ p : TaskFuture.FuturePool Nat Nat, p.taskQue.length = 2 ∧ p.idleThreadSize = 1 ∧ KeepsUp p := by
  have ran : ∃ p ∈ Machine.run (step (TaskFuture.futureBackend 0))
      (configured 0 TaskFuture.emptySide .modeCachd 1024 2 : TaskFuture.FuturePool Nat Nat)
      atThreshold, p.taskQue.length = 2 ∧ p.idleThreadSize = 1 := by decide +kernel
  obtain ⟨p, ran, queue, idle⟩ := ran
  have obeys : Machine.Obeys (step (TaskFuture.futureBackend 0)) (GrowsOnly 1)
      (configured 0 TaskFuture.emptySide .modeCachd 1024 2) atThreshold := by decide +kernel
  exact ⟨p, queue, idle, growth_keeps_up (by decide) (by decide) (Machine.reach_of_run obeys ran)⟩

end ThreadPool
