import ServerPools.Threads.IdleReturn
import ServerPools.Threads.Submissions

/- No notification is lost. A thread falls asleep on noEmpty only at an empty queue of a
   running pool and a submission waits on notFull only at a full queue, and every step that
   ends one of these conditions notifies all the threads that wait for it. -/
namespace ThreadPool
variable {τ ρ σ χ κ : Type} {B : Backend τ ρ σ χ κ} {p q : Pool τ ρ σ}

/-- No thread waits for something that is already there, and none waits for work once the
    destructor has notified, now or in any later state. -/
structure NoLostWakeup (t : Int) (B : Backend τ ρ σ χ κ) (p : Pool τ ρ σ) : Prop where
  noEmpty : p.taskQue ≠ [] → ∀ worker ∈ p.workers, ∀ timed, worker.pc ≠ .blocked timed
  notFull : p.taskQue.length < t → ∀ c ∈ p.submits, c.pc ≠ .blocked
  shutdown : p.destroyCall.notified → ∀ q, Machine.Reachable (step B) p q →
    ∀ worker ∈ q.workers, ∀ timed, worker.pc ≠ .blocked timed

/-- A submission waits on notFull. -/
def Pool.someWaiting (p : Pool τ ρ σ) : Prop := ∃ c ∈ p.submits, c.pc = .blocked

/-- What the waits depend on. Once the destructor runs no start call sets isPoolRunning again. -/
structure Notified (p : Pool τ ρ σ) : Prop where
  stocked : p.taskQue ≠ [] → ¬ p.anyAt WorkerPc.asleep
  roomy : hasRoom p → ¬ p.someWaiting
  stopped : p.destroyCall ≠ .notCalled → p.isPoolRunning = false ∧ startSettled p
  told : p.destroyCall.notified → ¬ p.anyAt WorkerPc.asleep

theorem exitTest_asleep (asleep : (exitTest p).anyAt WorkerPc.asleep) :
    p.anyAt WorkerPc.asleep := by
  rw [exitTest_eq] at asleep
  exact asleep

theorem exitTest_taskQue (p : Pool τ ρ σ) : (exitTest p).taskQue = p.taskQue := by
  rw [exitTest_eq]

/-- Where the sleeping threads of a state come from: they slept before, or they found the
    queue empty and the pool running. -/
theorem outcome_asleep {a : Action τ χ κ} (outcome : Outcome B p a q)
    (asleep : q.anyAt WorkerPc.asleep) :
    p.anyAt WorkerPc.asleep ∧ (q.taskQue = p.taskQue ∨ q.taskQue = []) ∧
        (q.destroyCall.notified → p.destroyCall.notified) ∨
      q.taskQue = [] ∧ q.isPoolRunning = true ∧ q.destroyCall = p.destroyCall := by
  cases outcome with
  | @accepts i c here awake room =>
    have before : (enqueue p ⟨c.task, i⟩).anyAt WorkerPc.asleep := grow_anyAt rfl asleep
    exact absurd before (notifyNoEmpty_none_asleep _)
  | starts next =>
    have before := startNext_anyAt rfl next asleep
    cases next <;> exact Or.inl ⟨before, Or.inl rfl, id⟩
  | @takes w idleLong worker e rest here awake queue =>
    obtain ⟨_, _, _, _, _, _, destroy, _, _, after⟩ := takeTask_same B p w worker e rest
    have before := takeTask_anyAt (fun _ => rfl) (fun _ => rfl) asleep
    cases rest with
    | nil =>
      rw [destroy]
      exact Or.inl ⟨before, Or.inr after, id⟩
    | cons next rest => exact absurd asleep (notifyNoEmpty_none_asleep _)
  | exits here awake empty stopped =>
    rcases setWorker_anyAt asleep with new | old
    · simp [WorkerPc.asleep] at new
    · refine Or.inl ⟨old, Or.inl rfl, ?_⟩
      intro notified
      exact (destroyCall_wake p.destroyCall).symm.trans notified
  | waits here awake empty running => exact Or.inr ⟨empty, running, rfl⟩
  | retires here pc surplus =>
    rcases setWorker_anyAt asleep with new | old
    · simp [WorkerPc.asleep] at new
    · exact Or.inl ⟨old, Or.inl rfl, id⟩
  | @workerAwakes _ w worker timed pc here blocked how =>
    have before : p.anyAt WorkerPc.asleep :=
      ⟨worker, Agents.mem_of_position here, by simp [blocked, WorkerPc.asleep]⟩
    exact Or.inl ⟨before, Or.inl rfl, id⟩
  | workerLate here woken | execs here pc ran | finishes here pc ran | idles here pc =>
    rcases setWorker_anyAt asleep with new | old
    · simp [WorkerPc.asleep] at new
    · exact Or.inl ⟨old, Or.inl rfl, id⟩
  | destroyTests flagged =>
    exact absurd (exitTest_asleep asleep) (notifyNoEmpty_none_asleep p)
  | destroyRetests woken =>
    refine Or.inl ⟨exitTest_asleep asleep, Or.inl (exitTest_taskQue p), ?_⟩
    intro _
    simp [woken, DestroyPc.notified]
  | flagged settled standing => exact Or.inl ⟨asleep, Or.inl rfl, by simp [DestroyPc.notified]⟩
  | destroyStirred blocked =>
    refine Or.inl ⟨asleep, Or.inl rfl, ?_⟩
    intro _
    simp [blocked, DestroyPc.notified]
  | called | rejects | submitWaits | submitAwakes | submitLate | startCalled | others | clients =>
    exact Or.inl ⟨asleep, Or.inl rfl, id⟩

theorem setSubmit_waiting {i : Nat} {c : Submit τ} {pc : SubmitPc}
    (waiting : (setSubmit p i c pc).someWaiting) : pc = .blocked ∨ p.someWaiting := by
  obtain ⟨other, member, blocked⟩ := waiting
  rcases List.mem_or_eq_of_mem_set member with old | rfl
  · exact Or.inr ⟨other, old, blocked⟩
  · exact Or.inl blocked

theorem notifyNotFull_none_waiting (p : Pool τ ρ σ) : ¬ (notifyNotFull p).someWaiting := by
  rintro ⟨other, member, blocked⟩
  obtain ⟨c, old, rfl⟩ := List.mem_map.mp member
  rcases c with ⟨task, pc⟩
  cases pc <;> simp [Submit.wake] at blocked

/-- Where the waiting submissions of a state come from: they waited before and there is no
    new room, or they found the queue full. -/
theorem outcome_waiting {a : Action τ χ κ} (outcome : Outcome B p a q)
    (waiting : q.someWaiting) :
    p.someWaiting ∧ (hasRoom q → hasRoom p) ∨ ¬ hasRoom q := by
  cases outcome with
  | called task =>
    obtain ⟨c, member, blocked⟩ := waiting
    rcases List.mem_append.mp member with old | new
    · exact Or.inl ⟨⟨c, old, blocked⟩, id⟩
    · obtain rfl := List.mem_singleton.mp new
      simp at blocked
  | @accepts i c here awake room =>
    obtain ⟨_, _, _, submits, _, _, _, _⟩ := acceptTask_fields B p i c
    have set : (setSubmit p i c .accepted).someWaiting := by
      obtain ⟨other, member, blocked⟩ := waiting
      rw [submits] at member
      exact ⟨other, member, blocked⟩
    rcases setSubmit_waiting set with new | old
    · simp at new
    · exact Or.inl ⟨old, fun _ => room⟩
  | rejects here pc full => exact Or.inr full
  | submitWaits here awake full => exact Or.inr full
  | submitAwakes here blocked how =>
    exact Or.inl ⟨⟨_, Agents.mem_of_position here, blocked⟩, id⟩
  | submitLate here woken =>
    rcases setSubmit_waiting waiting with new | old
    · simp at new
    · exact Or.inl ⟨old, id⟩
  | starts next => cases next <;> exact Or.inl ⟨waiting, id⟩
  | takes here awake queue => exact absurd waiting (notifyNotFull_none_waiting _)
  | destroyTests flagged | destroyRetests woken =>
    rw [exitTest_eq] at waiting ⊢
    exact Or.inl ⟨waiting, id⟩
  | exits | waits | retires | workerAwakes | workerLate | execs | finishes | idles | startCalled
  | flagged | destroyStirred | others | clients => exact Or.inl ⟨waiting, id⟩

theorem outcome_notified {a : Action τ χ κ} (notified : Notified p) (outcome : Outcome B p a q) :
    Notified q := by
  have stopped := outcome_stopped notified.stopped outcome
  refine ⟨?_, ?_, stopped, ?_⟩
  · intro stocked asleep
    rcases outcome_asleep outcome asleep with ⟨before, same | empty, _⟩ | ⟨empty, _, _⟩
    · exact notified.stocked (same ▸ stocked) before
    · exact stocked empty
    · exact stocked empty
  · intro room waiting
    rcases outcome_waiting outcome waiting with ⟨before, roomy⟩ | full
    · exact notified.roomy (roomy room) before
    · exact full room
  · intro told asleep
    rcases outcome_asleep outcome asleep with ⟨before, _, earlier⟩ | ⟨_, running, _⟩
    · exact notified.told (earlier told) before
    · have off := (stopped fun not => by simp [not, DestroyPc.notified] at told).1
      simp [running] at off

theorem reachable_notified {generateID : Nat} {results : ρ} {mode : PoolMode} {t threshold : Int}
    (reached : Machine.Reachable (step B) (configured generateID results mode t threshold) p) :
    Notified p := by
  have first : Notified (configured generateID results mode t threshold : Pool τ ρ σ) := by
    rw [configured_fields]
    constructor <;> simp [newPool, Pool.anyAt, Pool.someWaiting, DestroyPc.notified]
  apply reached.invariant first
  intro p a q _ notified _ taken
  exact outcome_notified notified (step_outcome taken).2

theorem none_asleep {worker : Worker τ σ} (none : ¬ p.anyAt WorkerPc.asleep)
    (member : worker ∈ p.workers) (timed : Bool) : worker.pc ≠ .blocked timed := by
  intro blocked
  exact none ⟨worker, member, by simp [blocked, WorkerPc.asleep]⟩

/-- What the destructor has told it does not take back. -/
theorem outcome_told {a : Action τ χ κ} (told : p.destroyCall.notified)
    (outcome : Outcome B p a q) : q.destroyCall.notified := by
  cases outcome with
  | @accepts i c here awake room =>
    obtain ⟨_, _, _, destroy, _, _⟩ := grow_same (enqueue p ⟨c.task, i⟩)
    have same : (acceptTask B p i c).destroyCall = p.destroyCall := destroy
    rwa [same]
  | starts next => cases next <;> exact told
  | @takes w idleLong worker e rest here awake queue =>
    obtain ⟨_, _, _, _, _, _, destroy, _, _, _⟩ := takeTask_same B p w worker e rest
    rwa [destroy]
  | exits here awake empty stopped => exact (destroyCall_wake p.destroyCall).trans told
  | flagged settled standing => simp [standing, DestroyPc.notified] at told
  | destroyTests flagged => simp [flagged, DestroyPc.notified] at told
  | destroyRetests woken =>
    unfold exitTest
    split <;> rfl
  | destroyStirred blocked => rfl
  | called | rejects | submitWaits | submitAwakes | submitLate | startCalled | waits | retires
  | workerAwakes | workerLate | execs | finishes | idles | others | clients => exact told

theorem told_none_asleep (notified : Notified p) (told : p.destroyCall.notified)
    (later : Machine.Reachable (step B) p q) : ¬ q.anyAt WorkerPc.asleep := by
  have both : Notified q ∧ q.destroyCall.notified := by
    induction later with
    | start => exact ⟨notified, told⟩
    | next before permit taken ih =>
      have outcome := (step_outcome taken).2
      exact ⟨outcome_notified ih.1 outcome, outcome_told ih.2 outcome⟩
  exact both.1.told both.2

theorem reachable_no_lost_wakeup {generateID : Nat} {results : ρ} {mode : PoolMode}
    {t threshold : Int} (bounded : 0 ≤ t ∧ t < 2 ^ 31)
    (reached : Machine.Reachable (step B) (configured generateID results mode t threshold) p) :
    NoLostWakeup t B p := by
  have notified := reachable_notified reached
  have threadhold := (reachable_law bounded reached).threadhold
  constructor
  · intro stocked worker member
    exact none_asleep (notified.stocked stocked) member
  · intro short c member blocked
    have room : hasRoom p := by
      rw [hasRoom_iff (threadhold ▸ bounded), threadhold]
      exact short
    exact notified.roomy room ⟨c, member, blocked⟩
  · intro told q later worker member
    exact none_asleep (told_none_asleep notified told later) member

/-- Neither version of the pool loses a wake-up, in either mode and with any number of
    threads and submissions. -/
theorem no_lost_wakeup {α : Type} [DecidableEq τ] {t : Int} (bounded : 0 ≤ t ∧ t < 2 ^ 31) :
    (∀ (generateID : Nat) (mode : PoolMode) (threshold : Int) (p : TaskResult.ResultPool τ α),
      Machine.Reachable (step TaskResult.resultBackend)
        (configured generateID TaskResult.emptySide mode t threshold) p →
      NoLostWakeup t TaskResult.resultBackend p) ∧
    (∀ (dflt : α) (generateID : Nat) (mode : PoolMode) (threshold : Int)
        (p : TaskFuture.FuturePool τ α),
      Machine.Reachable (step (TaskFuture.futureBackend dflt))
        (configured generateID TaskFuture.emptySide mode t threshold) p →
      NoLostWakeup t (TaskFuture.futureBackend dflt) p) := by
  constructor
  · intro generateID mode threshold p reached
    exact reachable_no_lost_wakeup bounded reached
  · intro dflt generateID mode threshold p reached
    exact reachable_no_lost_wakeup bounded reached

/-- A submission waits for room in a queue of one; the pop that makes the room wakes it. -/
theorem no_lost_wakeup_pop :
    ∃ p : TaskFuture.FuturePool Nat Nat, p.submits[1]? = some ⟨6, .woken⟩ ∧
      NoLostWakeup 1 (TaskFuture.futureBackend 9) p := by
  have ran : ∃ p ∈ Machine.run (step (TaskFuture.futureBackend 9))
      (configured 0 TaskFuture.emptySide .modeFixd 1 10 : TaskFuture.FuturePool Nat Nat)
      ([Action.callStart 1] ++ List.replicate 8 Action.start ++
        [Action.call 5, .submit 0, .call 6, .submit 1, .worker 0 false]),
      p.submits[1]? = some ⟨6, .woken⟩ := by decide +kernel
  obtain ⟨p, ran, woken⟩ := ran
  have bounded : 0 ≤ (1 : Int) ∧ (1 : Int) < 2 ^ 31 := by decide
  exact ⟨p, woken, (no_lost_wakeup bounded).2 9 0 .modeFixd 10 p (Machine.reachable_of_run ran)⟩

end ThreadPool
