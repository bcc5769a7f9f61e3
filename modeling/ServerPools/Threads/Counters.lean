import ServerPools.Threads.Roster

/- The two counters of threads against the threads themselves. idleThreadSize is moved where
   a task is taken and where it has been executed, curThreadSize where a thread is added or
   retires; the shutdown path of threadFunc moves neither. -/
namespace ThreadPool
variable {τ ρ σ χ κ : Type} {B : Backend τ ρ σ χ κ} {p q : Pool τ ρ σ}

/-- A thread that has not left and is not between the decrement at the queue and the
    increment after the task. -/
def WorkerPc.resting : WorkerPc τ σ → Bool
  | .running _ _ | .ran | .exited | .retired => false
  | _ => true

def Pool.resting (p : Pool τ ρ σ) : Nat := p.workers.countP (·.pc.resting)

/-- The ids of the threads that were launched and have not left threadFunc. -/
def Pool.onDuty (p : Pool τ ρ σ) : List Nat :=
  (p.roster.filter fun seen => seen.2 = .active).map Prod.fst

/-- start has launched a thread that it has not counted as idle yet. -/
def StartPc.uncounted : StartPc → Nat
  | .counting _ => 1
  | _ => 0

def IdleCounted (p : Pool τ ρ σ) : Prop :=
  p.idleThreadSize + p.startCall.uncounted = p.resting

/-- The thread at w leaves by the shutdown path if it gets the lock. -/
def ShutdownReturn (p : Pool τ ρ σ) (w : Nat) : Prop :=
  p.taskQue = [] ∧ p.isPoolRunning = false ∧
    ∃ worker, p.workers[w]? = some worker ∧ worker.pc.awake

theorem wake_resting (w : Worker τ σ) : w.wake.pc.resting = w.pc.resting := by
  rcases w with ⟨threadid, pc⟩
  cases pc <;> rfl

@[simp] theorem notifyNoEmpty_resting (p : Pool τ ρ σ) : (notifyNoEmpty p).resting = p.resting := by
  unfold Pool.resting notifyNoEmpty
  rw [List.countP_map]
  exact List.countP_congr fun w _ => by simp [wake_resting]

theorem awake_resting {pc : WorkerPc τ σ} (awake : pc.awake) : pc.resting = true := by
  cases pc <;> simp_all [WorkerPc.awake, WorkerPc.resting]

/-- One thread changes its place; the others rest as they did. -/
theorem setWorker_resting {w : Nat} {worker : Worker τ σ} (pc : WorkerPc τ σ)
    (here : p.workers[w]? = some worker) :
    (setWorker p w worker pc).resting + worker.pc.resting.toNat = p.resting + pc.resting.toNat :=
  Agents.countP_set here { worker with pc := pc }

theorem add_resting (p : Pool τ ρ σ) (id : Nat) :
    (p.workers ++ [(⟨id, .entering⟩ : Worker τ σ)]).countP (·.pc.resting) = p.resting + 1 := by
  rw [List.countP_append]
  rfl

theorem grow_counted (counted : IdleCounted p) : IdleCounted (grow p) := by
  unfold grow
  split
  · have more := add_resting p p.generateID
    unfold IdleCounted Pool.resting at counted ⊢
    simp only [Pool.resting] at more
    simp only [more]
    omega
  · exact counted

/-- The counter moves with the place of the thread at w. -/
theorem IdleCounted.moved (counted : IdleCounted p) (gain : Int) {w : Nat} {worker : Worker τ σ}
    {pc : WorkerPc τ σ} (here : p.workers[w]? = some worker)
    (workers : q.workers = (setWorker p w worker pc).workers) (start : q.startCall = p.startCall)
    (idle : q.idleThreadSize = p.idleThreadSize + gain)
    (change : gain + worker.pc.resting.toNat = pc.resting.toNat) : IdleCounted q := by
  have shift := setWorker_resting pc here
  have same : q.resting = (setWorker p w worker pc).resting := by
    unfold Pool.resting
    rw [workers]
  unfold IdleCounted at counted ⊢
  rw [same, start, idle]
  omega

theorem IdleCounted.notified (counted : IdleCounted p) : IdleCounted (notifyNoEmpty p) := by
  change p.idleThreadSize + _ = ((notifyNoEmpty p).resting : Int)
  rw [notifyNoEmpty_resting]
  exact counted

theorem takeTask_counted {w : Nat} {worker : Worker τ σ} {e : Entry τ} {rest : List (Entry τ)}
    (counted : IdleCounted p) (here : p.workers[w]? = some worker) (awake : worker.pc.awake) :
    IdleCounted (takeTask B p w worker e rest) := by
  have popped : IdleCounted (popTask B p w worker e rest) :=
    counted.moved (-1) here rfl rfl rfl (by rw [awake_resting awake]; rfl)
  unfold takeTask
  split
  · exact popped.notified
  · exact popped

theorem startNext_counted (counted : IdleCounted p) (next : StartStep p q) : IdleCounted q := by
  unfold IdleCounted at counted
  cases next with
  | launches i place more present =>
    rw [place] at counted
    have added := add_resting p i
    unfold IdleCounted Pool.resting
    simp only [StartPc.uncounted, added] at counted ⊢
    omega
  | counts i place =>
    rw [place] at counted
    change p.idleThreadSize + 1 + 0 = (p.resting : Int)
    simp only [StartPc.uncounted] at counted
    omega
  | setsRunning _ place | setsInit _ place | setsCur _ place | creates _ place | created _ place
  | launched _ place =>
    rw [place] at counted
    exact counted
  | dereferencesNull => exact counted

/-- Only the shutdown path leaves a thread counted as idle that is gone. -/
theorem outcome_counted {a : Action τ χ κ} (counted : IdleCounted p)
    (stays : ∀ w idleLong, a = .worker w idleLong → ¬ ShutdownReturn p w)
    (outcome : Outcome B p a q) : IdleCounted q := by
  cases outcome with
  | @accepts i c here awake room =>
    have before : IdleCounted (enqueue p ⟨c.task, i⟩) := counted.notified
    exact grow_counted before
  | starts next => exact startNext_counted counted next
  | takes here awake queue => exact takeTask_counted counted here awake
  | exits here awake empty stopped => exact absurd ⟨empty, stopped, _, here, awake⟩ (stays _ _ rfl)
  | waits here awake empty running =>
    exact counted.moved 0 here rfl rfl (Int.add_zero _).symm (by rw [awake_resting awake]; rfl)
  | retires here pc surplus => exact counted.moved (-1) here rfl rfl rfl (by rw [pc]; rfl)
  | workerAwakes here blocked how =>
    refine counted.moved 0 here rfl rfl (Int.add_zero _).symm ?_
    rcases how with ⟨_, _, rfl⟩ | ⟨_, rfl⟩ <;> simp [blocked, WorkerPc.resting]
  | workerLate here woken =>
    exact counted.moved 0 here rfl rfl (Int.add_zero _).symm (by rw [woken]; rfl)
  | execs here pc ran =>
    exact counted.moved 0 here rfl rfl (Int.add_zero _).symm (by rw [pc]; rfl)
  | finishes here pc ran =>
    exact counted.moved 0 here rfl rfl (Int.add_zero _).symm (by rw [pc]; rfl)
  | idles here pc => exact counted.moved 1 here rfl rfl rfl (by rw [pc]; rfl)
  | destroyTests flagged =>
    rw [exitTest_eq]
    exact counted.notified
  | destroyRetests woken =>
    rw [exitTest_eq]
    exact counted
  | startCalled n settled standing =>
    have none_uncounted : p.startCall.uncounted = 0 := by
      rcases settled with place | place <;> rw [place] <;> rfl
    unfold IdleCounted at counted
    rw [none_uncounted] at counted
    exact counted
  | called | rejects | submitWaits | submitAwakes | submitLate | flagged | destroyStirred
  | others | clients =>
    exact counted

/-- One thread fewer is on duty after a return. -/
theorem onDuty_leaves {w id : Nat} {status : Status} (here : p.roster[w]? = some (id, .active))
    (gone : status ≠ .active) (roster : q.roster = p.roster.set w (id, status)) :
    p.onDuty.Perm (id :: q.onDuty) := by
  obtain ⟨rest, before, after⟩ := Agents.single_out here
  have old := (before.filter fun seen => seen.2 = Status.active).map Prod.fst
  have new := ((after (id, status)).filter fun seen => seen.2 = Status.active).map Prod.fst
  rw [List.filter_cons_of_pos (by simp)] at old
  rw [List.filter_cons_of_neg (by simpa using gone), ← roster] at new
  exact old.trans (new.symm.cons id)

theorem onDuty_joins {id : Nat} (roster : q.roster = p.roster ++ [(id, .active)]) :
    q.onDuty = p.onDuty ++ [id] := by
  unfold Pool.onDuty
  rw [roster, List.filter_append, List.map_append]
  rfl

theorem onDuty_same (roster : q.roster = p.roster) : q.onDuty = p.onDuty := by
  unfold Pool.onDuty
  rw [roster]

/-- Threads that rest are on duty. -/
theorem resting_onDuty (p : Pool τ ρ σ) : p.resting ≤ p.onDuty.length := by
  have shown : p.onDuty.length = p.workers.countP (fun w => w.view.2 = .active) := by
    rw [Pool.onDuty, List.length_map, ← List.countP_eq_length_filter, Pool.roster, List.countP_map]
    rfl
  rw [shown]
  refine List.countP_mono_left fun w _ resting => ?_
  rcases w with ⟨threadid, pc⟩
  cases pc <;> simp_all [WorkerPc.resting, Worker.view, WorkerPc.status]

/-- What the owner set before start stays. -/
theorem outcome_configured {a : Action τ χ κ} (outcome : Outcome B p a q) :
    q.mode = p.mode ∧ q.threadSizeThreshHold = p.threadSizeThreshHold := by
  cases outcome with
  | accepts here awake room =>
    unfold acceptTask setSubmit grow
    split <;> exact ⟨rfl, rfl⟩
  | starts next => cases next <;> exact ⟨rfl, rfl⟩
  | takes here awake queue =>
    unfold takeTask
    split <;> exact ⟨rfl, rfl⟩
  | destroyTests | destroyRetests =>
    rw [exitTest_eq]
    exact ⟨rfl, rfl⟩
  | called | rejects | submitWaits | submitAwakes | submitLate | startCalled | exits | waits
  | retires | workerAwakes | workerLate | execs | finishes | idles | flagged | destroyStirred
  | others | clients =>
    exact ⟨rfl, rfl⟩

end ThreadPool
