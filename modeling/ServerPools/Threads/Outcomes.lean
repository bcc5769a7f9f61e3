import ServerPools.Threads.ThreadPool

/- Everything a step of the pool can do, said once. Each outcome carries the guard under
   which the code takes that branch and the state it leaves; every later proof splits on
   outcomes and does not unfold the machine. -/
namespace ThreadPool
variable {τ ρ σ χ κ : Type}

/-- A thread that can take the lock at or inside the while loop. -/
def WorkerPc.awake : WorkerPc τ σ → Bool
  | .entering | .woken _ | .timedOut => true
  | _ => false

def SubmitPc.awake : SubmitPc → Bool
  | .entering | .woken | .timedOut => true
  | _ => false

/-- Everything one statement of start can do. -/
inductive StartStep (p : Pool τ ρ σ) : Pool τ ρ σ → Prop where
  | setsRunning (n : Int) (place : p.startCall = .setRunning n) :
      StartStep p { p with isPoolRunning := true, startCall := .setInit n }
  | setsInit (n : Int) (place : p.startCall = .setInit n) :
      StartStep p { p with initThreadSize := n, startCall := .setCur n }
  | setsCur (n : Int) (place : p.startCall = .setCur n) :
      StartStep p { p with curThreadSize := n, startCall := .creating 0 }
  | creates (i : Nat) (place : p.startCall = .creating i) (more : (i : Int) < p.initThreadSize) :
      StartStep p { p with
        generateID := p.generateID + 1
        threads := emplace p.threads p.generateID
        startCall := .creating (i + 1) }
  | created (i : Nat) (place : p.startCall = .creating i) (done : ¬ (i : Int) < p.initThreadSize) :
      StartStep p { p with startCall := .launching 0 }
  | launches (i : Nat) (place : p.startCall = .launching i) (more : (i : Int) < p.initThreadSize)
      (present : i ∈ p.threads) :
      StartStep p { p with workers := p.workers ++ [⟨i, .entering⟩], startCall := .counting i }
  | dereferencesNull (i : Nat) (place : p.startCall = .launching i)
      (more : (i : Int) < p.initThreadSize) (absent : i ∉ p.threads) :
      StartStep p { p with nullThread := true }
  | launched (i : Nat) (place : p.startCall = .launching i)
      (done : ¬ (i : Int) < p.initThreadSize) : StartStep p { p with startCall := .returned }
  | counts (i : Nat) (place : p.startCall = .counting i) :
      StartStep p { p with
        idleThreadSize := p.idleThreadSize + 1, startCall := .launching (i + 1) }

inductive Outcome (B : Backend τ ρ σ χ κ) (p : Pool τ ρ σ) :
    Action τ χ κ → Pool τ ρ σ → Prop where
  | called (task : τ) :
      Outcome B p (.call task) { p with submits := p.submits ++ [⟨task, .entering⟩] }
  | accepts {i : Nat} {c : Submit τ} (here : p.submits[i]? = some c) (awake : c.pc.awake)
      (room : hasRoom p) : Outcome B p (.submit i) (acceptTask B p i c)
  | rejects {i : Nat} {c : Submit τ} (here : p.submits[i]? = some c) (pc : c.pc = .timedOut)
      (full : ¬ hasRoom p) : Outcome B p (.submit i) (rejectTask B p i c)
  | submitWaits {i : Nat} {c : Submit τ} (here : p.submits[i]? = some c) (awake : c.pc.awake)
      (full : ¬ hasRoom p) : Outcome B p (.submit i) (setSubmit p i c .blocked)
  | submitAwakes {a : Action τ χ κ} {i : Nat} {c : Submit τ} {pc : SubmitPc}
      (here : p.submits[i]? = some c) (blocked : c.pc = .blocked)
      (how : a = .submitTimeout i ∧ pc = .timedOut ∨ a = .submitStir i ∧ pc = .woken) :
      Outcome B p a (setSubmit p i c pc)
  | submitLate {i : Nat} {c : Submit τ} (here : p.submits[i]? = some c) (woken : c.pc = .woken) :
      Outcome B p (.submitTimeout i) (setSubmit p i c .timedOut)
  | startCalled (n : Int) (settled : startSettled p) (standing : p.destroyCall = .notCalled) :
      Outcome B p (.callStart n) { p with startCall := .setRunning n }
  | starts {q : Pool τ ρ σ} (next : StartStep p q) : Outcome B p .start q
  | takes {w : Nat} {idleLong : Bool} {worker : Worker τ σ} {e : Entry τ} {rest : List (Entry τ)}
      (here : p.workers[w]? = some worker) (awake : worker.pc.awake)
      (queue : p.taskQue = e :: rest) :
      Outcome B p (.worker w idleLong) (takeTask B p w worker e rest)
  | exits {w : Nat} {idleLong : Bool} {worker : Worker τ σ}
      (here : p.workers[w]? = some worker) (awake : worker.pc.awake) (empty : p.taskQue = [])
      (stopped : p.isPoolRunning = false) :
      Outcome B p (.worker w idleLong) (exitThread p w worker)
  | waits {w : Nat} {idleLong : Bool} {worker : Worker τ σ}
      (here : p.workers[w]? = some worker) (awake : worker.pc.awake) (empty : p.taskQue = [])
      (running : p.isPoolRunning = true) :
      Outcome B p (.worker w idleLong)
        (setWorker p w worker (.blocked (p.mode = .modeCachd)))
  | retires {w : Nat} {worker : Worker τ σ} (here : p.workers[w]? = some worker)
      (pc : worker.pc = .timedOut) (surplus : p.initThreadSize < p.curThreadSize) :
      Outcome B p (.worker w true) (retireThread p w worker)
  | workerAwakes {a : Action τ χ κ} {w : Nat} {worker : Worker τ σ} {timed : Bool}
      {pc : WorkerPc τ σ} (here : p.workers[w]? = some worker) (blocked : worker.pc = .blocked timed)
      (how : a = .workerTimeout w ∧ timed = true ∧ pc = .timedOut ∨
        a = .workerStir w ∧ pc = .woken timed) :
      Outcome B p a (setWorker p w worker pc)
  | workerLate {w : Nat} {worker : Worker τ σ} (here : p.workers[w]? = some worker)
      (woken : worker.pc = .woken true) :
      Outcome B p (.workerTimeout w) (setWorker p w worker .timedOut)
  | execs {w : Nat} {x : χ} {worker : Worker τ σ} {e : Entry τ} {stage next : σ} {results : ρ}
      (here : p.workers[w]? = some worker) (pc : worker.pc = .running e stage)
      (ran : B.exec p.results e stage x = some (results, some next)) :
      Outcome B p (.exec w x) (setWorker { p with results := results } w worker (.running e next))
  | finishes {w : Nat} {x : χ} {worker : Worker τ σ} {e : Entry τ} {stage : σ} {results : ρ}
      (here : p.workers[w]? = some worker) (pc : worker.pc = .running e stage)
      (ran : B.exec p.results e stage x = some (results, none)) :
      Outcome B p (.exec w x)
        (setWorker { p with results := results, executed := p.executed ++ [e] } w worker .ran)
  | idles {w : Nat} {worker : Worker τ σ} (here : p.workers[w]? = some worker)
      (pc : worker.pc = .ran) :
      Outcome B p (.idle w)
        (setWorker { p with idleThreadSize := p.idleThreadSize + 1 } w worker .entering)
  | flagged (settled : startSettled p) (standing : p.destroyCall = .notCalled) :
      Outcome B p .destroy { p with isPoolRunning := false, destroyCall := .flagged }
  | destroyTests (flagged : p.destroyCall = .flagged) :
      Outcome B p .destroyNext (exitTest (notifyNoEmpty p))
  | destroyRetests (woken : p.destroyCall = .woken) : Outcome B p .destroyNext (exitTest p)
  | destroyStirred (blocked : p.destroyCall = .blocked) :
      Outcome B p .destroyStir { p with destroyCall := .woken }
  | others : Outcome B p .otherThread { p with generateID := p.generateID + 1 }
  | clients {k : κ} {results : ρ} (done : B.client p.results k = some results) :
      Outcome B p (.client k) { p with results := results }

variable {B : Backend τ ρ σ χ κ} {p q : Pool τ ρ σ}

theorem startNext_step (next : startNext p = some q) : StartStep p q := by
  unfold startNext at next
  split at next <;> rename_i place
  · cases next
    exact .setsRunning _ place
  · cases next
    exact .setsInit _ place
  · cases next
    exact .setsCur _ place
  · split at next <;> cases next
    · rename_i more
      exact .creates _ place more
    · rename_i done
      exact .created _ place done
  · split at next
    · rename_i more
      split at next <;> cases next
      · rename_i present
        exact .launches _ place more present
      · rename_i absent
        exact .dereferencesNull _ place more absent
    · rename_i done
      cases next
      exact .launched _ place done
  · cases next
    exact .counts _ place
  · contradiction

theorem submit_outcome {i : Nat} (taken : submit B p i = some q) : Outcome B p (.submit i) q := by
  unfold submit at taken
  split at taken
  · contradiction
  · rename_i c here
    split at taken <;> rename_i pc
    iterate 2
      split at taken <;> cases taken
      · rename_i room
        exact .accepts here (by simp [SubmitPc.awake, pc]) room
      · rename_i full
        exact .submitWaits here (by simp [SubmitPc.awake, pc]) full
    · split at taken <;> cases taken
      · rename_i room
        exact .accepts here (by simp [SubmitPc.awake, pc]) room
      · rename_i full
        exact .rejects here pc full
    · contradiction

theorem loopTest_outcome {w : Nat} {idleLong : Bool} {worker : Worker τ σ}
    (here : p.workers[w]? = some worker) (awake : worker.pc.awake) :
    Outcome B p (.worker w idleLong) (loopTest B p w worker) := by
  unfold loopTest
  split
  · rename_i empty
    split
    · rename_i running
      exact .waits here awake empty running
    · rename_i stopped
      exact .exits here awake empty (by simpa using stopped)
  · rename_i e rest queue
    exact .takes here awake queue

theorem threadFunc_outcome {w : Nat} {idleLong : Bool} (taken : threadFunc B p w idleLong = some q) :
    Outcome B p (.worker w idleLong) q := by
  unfold threadFunc at taken
  split at taken
  · contradiction
  · rename_i worker here
    split at taken <;> rename_i pc
    iterate 2
      cases taken
      exact loopTest_outcome here (by simp [WorkerPc.awake, pc])
    · split at taken <;> cases taken
      · rename_i idle
        obtain ⟨long, surplus⟩ := idle
        subst long
        exact .retires here pc surplus
      · exact loopTest_outcome here (by simp [WorkerPc.awake, pc])
    · contradiction

theorem execTask_outcome {w : Nat} {x : χ} (taken : execTask B p w x = some q) :
    Outcome B p (.exec w x) q := by
  unfold execTask at taken
  split at taken
  · contradiction
  · rename_i worker here
    split at taken
    · rename_i e stage pc
      split at taken
      · contradiction
      · rename_i results next ran
        cases taken
        exact .execs here pc ran
      · rename_i results ran
        cases taken
        exact .finishes here pc ran
    · contradiction

theorem becomeIdle_outcome {w : Nat} (taken : becomeIdle p w = some q) :
    Outcome B p (.idle w) q := by
  unfold becomeIdle at taken
  split at taken
  · contradiction
  · rename_i worker here
    cases pc : worker.pc <;> simp only [pc, if_true, if_false, reduceCtorEq] at taken
    cases taken
    exact .idles here pc

theorem workerTimeout_outcome {w : Nat} (taken : workerTimeout p w = some q) :
    Outcome B p (.workerTimeout w) q := by
  unfold workerTimeout at taken
  split at taken
  · contradiction
  · rename_i worker here
    split at taken
    · rename_i blocked
      cases taken
      exact .workerAwakes here blocked (Or.inl ⟨rfl, rfl, rfl⟩)
    · rename_i woken
      cases taken
      exact .workerLate here woken
    · contradiction

theorem workerStir_outcome {w : Nat} (taken : workerStir p w = some q) :
    Outcome B p (.workerStir w) q := by
  unfold workerStir at taken
  split at taken
  · contradiction
  · rename_i worker here
    split at taken
    · rename_i timed blocked
      cases taken
      exact .workerAwakes here blocked (Or.inr ⟨rfl, rfl⟩)
    · contradiction

theorem submitTimeout_outcome {i : Nat} (taken : submitTimeout p i = some q) :
    Outcome B p (.submitTimeout i) q := by
  unfold submitTimeout at taken
  split at taken
  · contradiction
  · rename_i c here
    split at taken
    · rename_i blocked
      cases taken
      exact .submitAwakes here blocked (Or.inl ⟨rfl, rfl⟩)
    · rename_i woken
      cases taken
      exact .submitLate here woken
    · contradiction

theorem submitStir_outcome {i : Nat} (taken : submitStir p i = some q) :
    Outcome B p (.submitStir i) q := by
  unfold submitStir at taken
  split at taken
  · contradiction
  · rename_i c here
    split at taken
    · rename_i blocked
      cases taken
      exact .submitAwakes here blocked (Or.inr ⟨rfl, rfl⟩)
    · contradiction

theorem destroyNext_outcome (taken : destroyNext p = some q) : Outcome B p .destroyNext q := by
  unfold destroyNext at taken
  split at taken
  · rename_i flagged
    cases taken
    exact .destroyTests flagged
  · rename_i woken
    cases taken
    exact .destroyRetests woken
  · contradiction

theorem perform_outcome {a : Action τ χ κ} (taken : perform B p a = some q) : Outcome B p a q := by
  cases a with
  | call task =>
    cases taken
    exact .called task
  | submit i => exact submit_outcome taken
  | submitTimeout i => exact submitTimeout_outcome taken
  | submitStir i => exact submitStir_outcome taken
  | callStart n =>
    simp only [perform] at taken
    split at taken
    · rename_i free
      cases taken
      exact .startCalled n free.1 free.2
    · contradiction
  | start => exact .starts (startNext_step taken)
  | worker w idleLong => exact threadFunc_outcome taken
  | workerTimeout w => exact workerTimeout_outcome taken
  | workerStir w => exact workerStir_outcome taken
  | exec w x => exact execTask_outcome taken
  | idle w => exact becomeIdle_outcome taken
  | destroy =>
    simp only [perform] at taken
    split at taken
    · rename_i free
      cases taken
      exact .flagged free.1 free.2
    · contradiction
  | destroyNext => exact destroyNext_outcome taken
  | destroyStir =>
    simp only [perform] at taken
    split at taken
    · rename_i blocked
      cases taken
      exact .destroyStirred blocked
    · contradiction
  | otherThread =>
    cases taken
    exact .others
  | client k =>
    obtain ⟨results, done, rfl⟩ := Option.map_eq_some_iff.mp taken
    exact .clients done

/-- The action of start does what one statement of start does. -/
theorem start_outcome (outcome : Outcome B p .start q) : StartStep p q := by
  cases outcome with
  | starts next => exact next
  | submitAwakes here blocked how => simp at how
  | workerAwakes here blocked how => simp at how

/-- A deadline makes a thread that waits with wait_for, notified or not, time out. -/
theorem timeout_outcome {w : Nat} (outcome : Outcome B p (.workerTimeout w) q) :
    ∃ worker, p.workers[w]? = some worker ∧ (worker.pc = .blocked true ∨ worker.pc = .woken true) ∧
      q = setWorker p w worker .timedOut := by
  cases outcome with
  | submitAwakes here blocked how => simp at how
  | workerAwakes here blocked how =>
    rcases how with ⟨same, rfl, rfl⟩ | ⟨other, _⟩
    · cases same
      exact ⟨_, here, Or.inl blocked, rfl⟩
    · cases other
  | workerLate here woken => exact ⟨_, here, Or.inr woken, rfl⟩

theorem step_outcome {a : Action τ χ κ} (taken : step B p a = some q) :
    (p.nullThread = false ∧ enabled p a) ∧ Outcome B p a q := by
  unfold step at taken
  split at taken
  · rename_i live
    exact ⟨live, perform_outcome taken⟩
  · contradiction

end ThreadPool
