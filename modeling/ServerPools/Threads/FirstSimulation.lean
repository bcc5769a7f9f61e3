import ServerPools.Threads.FirstPool
import ServerPools.Support.Simulation

/- The first pool is the second one in its fixed mode: each of its steps is one or two steps of
   a second pool that started with fresh thread ids. -/
namespace FirstPool
open ThreadPool (Entry Submit Backend)
variable {τ ρ ρ' σ χ κ : Type}

def WorkerPc.up : WorkerPc τ σ → ThreadPool.WorkerPc τ σ
  | .entering => .entering
  | .blocked => .blocked false
  | .woken => .woken false
  | .running e stage => .running e stage

def Worker.up (w : Worker τ σ) : ThreadPool.Worker τ σ := ⟨w.thread, w.pc.up⟩

def StartPc.up : StartPc → ThreadPool.StartPc
  | .notCalled => .notCalled
  | .setInit n => .setInit n
  | .creating i => .creating i
  | .launching i => .launching i
  | .returned => .returned

def StartPc.begun : StartPc → Bool
  | .notCalled => false
  | _ => true

/-- The second pool in the same situation. Nothing reads idleThreadSize in the fixed mode. -/
def Pool.up (h : ρ → ρ') (idle : Int) (p : Pool τ ρ σ) : ThreadPool.Pool τ ρ' σ where
  initThreadSize := p.initThreadSize
  threadSizeThreshHold := ThreadPool.threadMaxThreshhold
  curThreadSize := p.initThreadSize
  taskQue := p.taskQue
  taskSize := p.taskSize
  taskQueMaxThreadHold := p.taskQueMaxThreadHold
  mode := .modeFixd
  isPoolRunning := p.startCall.begun
  idleThreadSize := idle
  threads := List.range p.threads
  generateID := p.threads
  workers := p.workers.map Worker.up
  submits := p.submits
  startCall := p.startCall.up
  destroyCall := .notCalled
  nullThread := false
  results := h p.results
  accepted := p.accepted
  popped := p.popped
  executed := p.executed

/-- What the first value side does the second one does too. -/
structure Carries (B : Backend τ ρ σ χ κ) (B' : Backend τ ρ' σ χ κ) (h : ρ → ρ') : Prop where
  accept : ∀ (r : ρ) (i : Nat) (task : τ), h (B.accept r i task) = B'.accept (h r) i task
  reject : ∀ (r : ρ) (i : Nat) (task : τ), h (B.reject r i task) = B'.reject (h r) i task
  first : B'.first = B.first
  exec : ∀ {r r' : ρ} {e : Entry τ} {stage : σ} {x : χ} {next : Option σ},
    B.exec r e stage x = some (r', next) → B'.exec (h r) e stage x = some (h r', next)
  client : ∀ {r r' : ρ} {k : κ}, B.client r k = some r' → B'.client (h r) k = some (h r')

variable {B : Backend τ ρ σ χ κ} {B' : Backend τ ρ' σ χ κ} {h : ρ → ρ'} {p q : Pool τ ρ σ} {idle : Int}

def Action.up : Action τ χ κ → ThreadPool.Action τ χ κ
  | .call task => .call task
  | .submit i => .submit i
  | .submitTimeout i => .submitTimeout i
  | .submitStir i => .submitStir i
  | .callStart n => .callStart n
  | .start => .start
  | .worker w => .worker w false
  | .workerStir w => .workerStir w
  | .exec w x => .exec w x
  | .client k => .client k

/-- The second step of the two: the statements of start that the first pool does not have, and
    idleThreadSize++. -/
def Then (b : ThreadPool.Action τ χ κ) : Action τ χ κ → Prop
  | .callStart _ | .start => b = .start
  | .exec w _ => b = .idle w
  | _ => False

@[simp] theorem up_wake (w : Worker τ σ) : w.up.wake = w.wake.up := by
  rcases w with ⟨thread, pc⟩
  cases pc <;> rfl

@[simp] theorem up_wakes (workers : List (Worker τ σ)) :
    (workers.map Worker.up).map ThreadPool.Worker.wake = (workers.map Worker.wake).map Worker.up := by
  simp [List.map_map, Function.comp_def]

theorem up_step (a : ThreadPool.Action τ χ κ) :
    ThreadPool.step B' (p.up h idle) a = ThreadPool.perform B' (p.up h idle) a := by
  unfold ThreadPool.step
  rw [if_pos]
  refine ⟨rfl, ?_⟩
  cases a <;> simp [ThreadPool.enabled, Pool.up]

theorem up_worker {w : Nat} {worker : Worker τ σ} (here : p.workers[w]? = some worker) :
    (p.up h idle).workers[w]? = some worker.up := by
  simp [Pool.up, here]

theorem up_setWorker (p : Pool τ ρ σ) (w : Nat) (worker : Worker τ σ) (pc : WorkerPc τ σ) :
    ThreadPool.setWorker (p.up h idle) w worker.up pc.up = (setWorker p w worker pc).up h idle := by
  have moved : (p.workers.map Worker.up).set w ⟨worker.thread, pc.up⟩ =
      (p.workers.set w { worker with pc := pc }).map Worker.up := by
    rw [List.map_set]
    rfl
  unfold ThreadPool.setWorker setWorker Pool.up
  rw [← moved]
  rfl

theorem up_notifyNoEmpty (p : Pool τ ρ σ) :
    ThreadPool.notifyNoEmpty (p.up h idle) = (notifyNoEmpty p).up h idle := by
  unfold ThreadPool.notifyNoEmpty notifyNoEmpty Pool.up
  rw [up_wakes]

section Steps
variable (laws : Carries B B' h)
include laws

theorem up_accept (i : Nat) (c : Submit τ) :
    ThreadPool.acceptTask B' (p.up h idle) i c = (acceptTask B p i c).up h idle := by
  have queued : ThreadPool.enqueue (p.up h idle) ⟨c.task, i⟩ = (enqueue p ⟨c.task, i⟩).up h idle :=
    up_notifyNoEmpty { p with
      taskQue := p.taskQue ++ [⟨c.task, i⟩]
      taskSize := (p.taskSize + 1) % 2 ^ 32
      accepted := p.accepted ++ [⟨c.task, i⟩] }
  have fixed : ThreadPool.grow ((enqueue p ⟨c.task, i⟩).up h idle) = (enqueue p ⟨c.task, i⟩).up h idle := by
    unfold ThreadPool.grow
    rw [if_neg]
    rintro ⟨cached, _⟩
    contradiction
  have built : B'.accept (p.up h idle).results i c.task = h (B.accept p.results i c.task) :=
    (laws.accept p.results i c.task).symm
  unfold ThreadPool.acceptTask
  rw [queued, fixed, built]
  rfl

theorem up_reject (i : Nat) (c : Submit τ) :
    ThreadPool.rejectTask B' (p.up h idle) i c = (rejectTask B p i c).up h idle := by
  have built : B'.reject (p.up h idle).results i c.task = h (B.reject p.results i c.task) :=
    (laws.reject p.results i c.task).symm
  unfold ThreadPool.rejectTask
  rw [built]
  rfl

theorem up_take (w : Nat) (worker : Worker τ σ) (e : Entry τ) (rest : List (Entry τ)) :
    ThreadPool.takeTask B' (p.up h idle) w worker.up e rest =
      (takeTask B p w worker e rest).up h (idle - 1) := by
  have popped : ThreadPool.popTask B' (p.up h idle) w worker.up e rest =
      (setWorker { p with
        taskQue := rest
        taskSize := (p.taskSize + 2 ^ 32 - 1) % 2 ^ 32
        popped := p.popped ++ [e] } w worker (.running e B.first)).up h (idle - 1) := by
    rw [← up_setWorker]
    unfold ThreadPool.popTask
    rw [laws.first]
    rfl
  unfold ThreadPool.takeTask takeTask
  simp only [popped]
  split
  · rw [up_notifyNoEmpty]
    rfl
  · rfl

theorem submit_carried {i : Nat} (taken : subMitTask B p i = some q) :
    ThreadPool.step B' (p.up h idle) (.submit i) = some (q.up h idle) := by
  rw [up_step]
  unfold subMitTask at taken
  split at taken
  · contradiction
  · rename_i c here
    have there : (p.up h idle).submits[i]? = some c := here
    have room : ThreadPool.hasRoom (p.up h idle) ↔ hasRoom p := Iff.rfl
    simp only [ThreadPool.perform, ThreadPool.submit, there]
    cases pc : c.pc with
    | entering | woken =>
      simp only [pc] at taken
      simp only [room]
      split at taken <;> rename_i free <;> cases taken
      · rw [if_pos free, up_accept laws]
      · rw [if_neg free]
        rfl
    | timedOut =>
      simp only [pc] at taken
      simp only [room]
      split at taken <;> rename_i free <;> cases taken
      · rw [if_pos free, up_accept laws]
      · rw [if_neg free, up_reject laws]
    | blocked | accepted | rejected =>
      simp only [pc] at taken
      contradiction

theorem up_loopTest (idle : Int) (begun : p.startCall.begun) (w : Nat) (worker : Worker τ σ) :
    ∃ idle', ThreadPool.loopTest B' (p.up h idle) w worker.up = (loopTest B p w worker).up h idle' := by
  unfold ThreadPool.loopTest loopTest
  cases queue : p.taskQue with
  | nil =>
    have empty : (p.up h idle).taskQue = [] := queue
    have running : (p.up h idle).isPoolRunning = true := begun
    refine ⟨idle, ?_⟩
    simp only [empty, running, if_true]
    exact up_setWorker p w worker .blocked
  | cons e rest =>
    have listed : (p.up h idle).taskQue = e :: rest := queue
    refine ⟨idle - 1, ?_⟩
    simp only [listed]
    exact up_take laws w worker e rest

theorem worker_carried (idle : Int) {w : Nat} (begun : p.startCall.begun)
    (taken : threadFunc B p w = some q) :
    ∃ idle', ThreadPool.step B' (p.up h idle) (.worker w false) = some (q.up h idle') := by
  rw [up_step]
  unfold threadFunc at taken
  split at taken
  · contradiction
  · rename_i worker here
    have there : (p.up h idle).workers[w]? = some worker.up := up_worker here
    obtain ⟨idle', looped⟩ := up_loopTest laws idle begun w worker
    refine ⟨idle', ?_⟩
    simp only [ThreadPool.perform, ThreadPool.threadFunc, there]
    split at taken <;> rename_i pc
    · cases taken
      simpa only [Worker.up, pc, WorkerPc.up] using congrArg some looped
    · cases taken
      simpa only [Worker.up, pc, WorkerPc.up] using congrArg some looped
    · contradiction

theorem exec_carried (idle : Int) {w : Nat} {x : χ} (taken : execTask B p w x = some q) :
    ThreadPool.step B' (p.up h idle) (.exec w x) = some (q.up h idle) ∨
      ∃ mid, ThreadPool.step B' (p.up h idle) (.exec w x) = some mid ∧
        ThreadPool.step B' mid (.idle w) = some (q.up h (idle + 1)) := by
  unfold execTask at taken
  split at taken
  · contradiction
  · rename_i worker here
    have there : (p.up h idle).workers[w]? = some worker.up := up_worker here
    split at taken
    · rename_i e stage pc
      have runs : worker.up.pc = .running e stage := by simp [Worker.up, pc, WorkerPc.up]
      split at taken
      · contradiction
      · rename_i results next ran
        have ran' : B'.exec (p.up h idle).results e stage x = some (h results, some next) := laws.exec ran
        cases taken
        left
        rw [up_step]
        simp only [ThreadPool.perform, ThreadPool.execTask, there, runs, ran']
        exact congrArg some (up_setWorker { p with results := results } w worker (.running e next))
      · rename_i results ran
        have ran' : B'.exec (p.up h idle).results e stage x = some (h results, none) := laws.exec ran
        cases taken
        right
        refine ⟨ThreadPool.setWorker ({ p with
          results := results
          executed := p.executed ++ [e] }.up h idle) w worker.up .ran, ?_, ?_⟩
        · rw [up_step]
          simp only [ThreadPool.perform, ThreadPool.execTask, there, runs, ran']
          rfl
        · have inside := (List.getElem?_eq_some_iff.mp there).1
          have after : (ThreadPool.setWorker ({ p with
              results := results
              executed := p.executed ++ [e] }.up h idle) w worker.up .ran).workers[w]? =
                some { worker.up with pc := .ran } := List.getElem?_set_self inside
          unfold ThreadPool.step
          rw [if_pos ⟨rfl, by simp [ThreadPool.enabled, ThreadPool.setWorker, Pool.up]⟩]
          simp only [ThreadPool.perform, ThreadPool.becomeIdle, after, if_true]
          rw [← up_setWorker]
          simp only [ThreadPool.setWorker, List.set_set]
          rfl
    · contradiction

theorem client_carried {k : κ} {results : ρ} (done : B.client p.results k = some results) :
    ThreadPool.step B' (p.up h idle) (.client k) = some ({ p with results := results }.up h idle) := by
  rw [up_step]
  have done' : B'.client (p.up h idle).results k = some (h results) := laws.client done
  simp only [ThreadPool.perform, done']
  rfl

end Steps

section Plain

theorem timeout_carried {i : Nat} (taken : submitTimeout p i = some q) :
    ThreadPool.submitTimeout (p.up h idle) i = some (q.up h idle) := by
  unfold submitTimeout at taken
  split at taken
  · contradiction
  · rename_i c here
    have there : (p.up h idle).submits[i]? = some c := here
    split at taken <;> rename_i pc <;> cases taken <;>
      simp only [ThreadPool.submitTimeout, there, pc] <;> rfl

theorem submitStir_carried {i : Nat} (taken : submitStir p i = some q) :
    ThreadPool.submitStir (p.up h idle) i = some (q.up h idle) := by
  unfold submitStir at taken
  split at taken
  · contradiction
  · rename_i c here
    have there : (p.up h idle).submits[i]? = some c := here
    split at taken <;> rename_i pc <;> cases taken
    simp only [ThreadPool.submitStir, there, pc]
    rfl

theorem stir_carried {w : Nat} (taken : workerStir p w = some q) :
    ThreadPool.step B' (p.up h idle) (.workerStir w) = some (q.up h idle) := by
  rw [up_step]
  unfold workerStir at taken
  split at taken
  · contradiction
  · rename_i worker here
    have there : (p.up h idle).workers[w]? = some worker.up := up_worker here
    simp only [ThreadPool.perform, ThreadPool.workerStir, there]
    cases pc : worker.pc with
    | blocked =>
      simp only [pc, if_true] at taken
      cases taken
      simp only [Worker.up, pc, WorkerPc.up]
      exact congrArg some (up_setWorker p w worker .woken)
    | entering | woken | running => simp [pc] at taken

/-- One statement of start is one or two of the second pool. -/
theorem start_carried (B' : Backend τ ρ' σ χ κ) (h : ρ → ρ') (idle : Int) (taken : startNext p = some q) :
    ∃ idle' mid, ThreadPool.step B' (p.up h idle) .start = some mid ∧
      (mid = q.up h idle' ∨ ThreadPool.step B' mid .start = some (q.up h idle')) := by
  have goes {r s : ThreadPool.Pool τ ρ' σ} (live : r.nullThread = false)
      (standing : r.destroyCall = .notCalled) (next : ThreadPool.startNext r = some s) :
      ThreadPool.step B' r .start = some s := by
    unfold ThreadPool.step
    rw [if_pos ⟨live, by simp [ThreadPool.enabled, standing]⟩]
    exact next
  unfold startNext at taken
  split at taken <;> rename_i place
  · rename_i n
    cases taken
    have before : (p.up h idle).startCall = .setInit n := by simp [Pool.up, place, StartPc.up]
    refine ⟨idle, { p.up h idle with initThreadSize := n, startCall := .setCur n },
      goes rfl rfl ?_, Or.inr (goes rfl rfl ?_)⟩
    · simp only [ThreadPool.startNext, before]
    · simp [ThreadPool.startNext, Pool.up, StartPc.up, place, StartPc.begun]
  · rename_i i
    have before : (p.up h idle).startCall = .creating i := by simp [Pool.up, place, StartPc.up]
    split at taken <;> rename_i more <;> cases taken
    · refine ⟨idle, _, goes rfl rfl ?_, Or.inl rfl⟩
      have bound : (i : Int) < (p.up h idle).initThreadSize := more
      have fresh : ThreadPool.emplace (p.up h idle).threads (p.up h idle).generateID =
          List.range (p.threads + 1) := by
        simp [ThreadPool.emplace, Pool.up, List.range_succ]
      simp only [ThreadPool.startNext, before, if_pos bound, fresh]
      simp [Pool.up, StartPc.up, place, StartPc.begun]
    · refine ⟨idle, _, goes rfl rfl ?_, Or.inl rfl⟩
      have bound : ¬ (i : Int) < (p.up h idle).initThreadSize := more
      simp only [ThreadPool.startNext, before, if_neg bound]
      simp [Pool.up, StartPc.up, place, StartPc.begun]
  · rename_i i
    have before : (p.up h idle).startCall = .launching i := by simp [Pool.up, place, StartPc.up]
    split at taken
    · rename_i more
      split at taken <;> rename_i present <;> cases taken
      have bound : (i : Int) < (p.up h idle).initThreadSize := more
      have there : i ∈ (p.up h idle).threads := List.mem_range.mpr present
      refine ⟨idle + 1, { p.up h idle with
        workers := (p.up h idle).workers ++ [⟨i, .entering⟩]
        startCall := .counting i }, goes rfl rfl ?_, Or.inr (goes rfl rfl ?_)⟩
      · simp only [ThreadPool.startNext, before, if_pos bound, if_pos there]
      · simp [ThreadPool.startNext, Pool.up, StartPc.up, place, StartPc.begun, Worker.up, WorkerPc.up]
    · rename_i last
      cases taken
      have bound : ¬ (i : Int) < (p.up h idle).initThreadSize := last
      refine ⟨idle, _, goes rfl rfl ?_, Or.inl rfl⟩
      simp only [ThreadPool.startNext, before, if_neg bound]
      simp [Pool.up, StartPc.up, place, StartPc.begun]
  · contradiction
  · contradiction

theorem callStart_carried (B' : Backend τ ρ' σ χ κ) (h : ρ → ρ') (idle : Int) (n : Int)
    (settled : startSettled p) : ∃ mid,
    ThreadPool.step B' (p.up h idle) (.callStart n) = some mid ∧
      ThreadPool.step B' mid .start = some ({ p with startCall := .setInit n }.up h idle) := by
  have open_ : ThreadPool.startSettled (p.up h idle) := by
    rcases settled with place | place
    · exact Or.inl (by simp [Pool.up, place, StartPc.up])
    · exact Or.inr (by simp [Pool.up, place, StartPc.up])
  refine ⟨{ p.up h idle with startCall := .setRunning n }, ?_, ?_⟩
  · rw [up_step]
    simp only [ThreadPool.perform]
    rw [if_pos ⟨open_, rfl⟩]
  · simp [ThreadPool.step, ThreadPool.enabled, ThreadPool.perform, ThreadPool.startNext, Pool.up,
      StartPc.up, StartPc.begun]

end Plain

/-- There are threads only once start has been called. -/
def Begun (p : Pool τ ρ σ) : Prop := p.workers ≠ [] → p.startCall.begun

theorem take_threads (B : Backend τ ρ σ χ κ) (p : Pool τ ρ σ) (w : Nat) (worker : Worker τ σ) (e : Entry τ)
    (rest : List (Entry τ)) : (takeTask B p w worker e rest).startCall = p.startCall ∧
      (takeTask B p w worker e rest).workers.length = p.workers.length := by
  unfold takeTask
  split
  · exact ⟨rfl, (List.length_map ..).trans List.length_set⟩
  · exact ⟨rfl, List.length_set⟩

theorem step_begun {a : Action τ χ κ} (law : Begun p) (taken : step B p a = some q) : Begun q := by
  have same {r : Pool τ ρ σ} (start : r.startCall = p.startCall)
      (length : r.workers.length = p.workers.length) : Begun r := by
    intro some_there
    rw [start]
    refine law fun none_there => some_there ?_
    rw [none_there] at length
    exact List.eq_nil_of_length_eq_zero length
  cases a with
  | call task =>
    cases taken
    exact law
  | callStart n =>
    simp only [step] at taken
    split at taken <;> cases taken
    exact fun _ => rfl
  | start =>
    simp only [step, startNext] at taken
    split at taken
    · cases taken
      exact fun _ => rfl
    · split at taken <;> cases taken <;> exact fun _ => rfl
    · split at taken
      · split at taken <;> cases taken
        exact fun _ => rfl
      · cases taken
        exact fun _ => rfl
    · contradiction
    · contradiction
  | submit i =>
    simp only [step, subMitTask] at taken
    have accepted (c : Submit τ) : Begun (acceptTask B p i c) :=
      same rfl (List.length_map ..)
    split at taken
    · contradiction
    · split at taken
      · split at taken <;> cases taken
        · exact accepted _
        · exact law
      · split at taken <;> cases taken
        · exact accepted _
        · exact law
      · split at taken <;> cases taken
        · exact accepted _
        · exact law
      · contradiction
  | submitTimeout i | submitStir i =>
    simp only [step, submitTimeout, submitStir] at taken
    split at taken
    · contradiction
    · split at taken <;> cases taken <;> exact law
  | worker w =>
    simp only [step, threadFunc] at taken
    have tested (worker : Worker τ σ) : Begun (loopTest B p w worker) := by
      unfold loopTest
      split
      · exact same rfl List.length_set
      · obtain ⟨start, length⟩ := take_threads B p w worker _ _
        exact same start length
    split at taken
    · contradiction
    · split at taken
      · cases taken
        exact tested _
      · cases taken
        exact tested _
      · contradiction
  | workerStir w =>
    simp only [step, workerStir] at taken
    split at taken
    · contradiction
    · split at taken <;> cases taken
      exact same rfl List.length_set
  | exec w x =>
    simp only [step, execTask] at taken
    split at taken
    · contradiction
    · split at taken
      · split at taken
        · contradiction
        · cases taken
          exact same rfl List.length_set
        · cases taken
          exact same rfl List.length_set
      · contradiction
  | client k =>
    obtain ⟨results, _, rfl⟩ := Option.map_eq_some_iff.mp taken
    exact law

/-- Every step of the first pool is one of the second, or that and one more. -/
theorem step_carried (laws : Carries B B' h) (idle : Int) (law : Begun p) {a : Action τ χ κ}
    (taken : step B p a = some q) : ∃ idle' rest, (∀ b ∈ rest, Then b a) ∧
      Machine.run (ThreadPool.step B') (p.up h idle) (a.up :: rest) = some (q.up h idle') := by
  have once {idle' : Int} {b : ThreadPool.Action τ χ κ}
      (stepped : ThreadPool.step B' (p.up h idle) b = some (q.up h idle')) :
      Machine.run (ThreadPool.step B') (p.up h idle) [b] = some (q.up h idle') := by
    simp [Machine.run, stepped]
  have twice {idle' : Int} {b c : ThreadPool.Action τ χ κ} {mid : ThreadPool.Pool τ ρ' σ}
      (first : ThreadPool.step B' (p.up h idle) b = some mid)
      (second : ThreadPool.step B' mid c = some (q.up h idle')) :
      Machine.run (ThreadPool.step B') (p.up h idle) [b, c] = some (q.up h idle') := by
    simp [Machine.run, first, second]
  cases a with
  | call task =>
    cases taken
    exact ⟨idle, [], by simp, once (by rw [up_step]; rfl)⟩
  | submit i => exact ⟨idle, [], by simp, once (submit_carried laws taken)⟩
  | submitTimeout i =>
    exact ⟨idle, [], by simp, once (by rw [up_step]; exact timeout_carried taken)⟩
  | submitStir i =>
    exact ⟨idle, [], by simp, once (by rw [up_step]; exact submitStir_carried taken)⟩
  | callStart n =>
    simp only [step] at taken
    split at taken <;> rename_i settled <;> cases taken
    obtain ⟨mid, first, second⟩ := callStart_carried B' h idle n settled
    exact ⟨idle, [.start], by simp [Then], twice first second⟩
  | start =>
    obtain ⟨idle', mid, first, rfl | second⟩ := start_carried B' h idle taken
    · exact ⟨idle', [], by simp, once first⟩
    · exact ⟨idle', [.start], by simp [Then], twice first second⟩
  | worker w =>
    have begun : p.startCall.begun := by
      refine law fun none_there => ?_
      simp [step, threadFunc, none_there] at taken
    obtain ⟨idle', stepped⟩ := worker_carried laws idle begun taken
    exact ⟨idle', [], by simp, once stepped⟩
  | workerStir w => exact ⟨idle, [], by simp, once (stir_carried taken)⟩
  | exec w x =>
    rcases exec_carried laws idle taken with stepped | ⟨mid, first, second⟩
    · exact ⟨idle, [], by simp, once stepped⟩
    · exact ⟨idle + 1, [.idle w], by simp [Then], twice first second⟩
  | client k =>
    obtain ⟨results, done, rfl⟩ := Option.map_eq_some_iff.mp taken
    exact ⟨idle, [], by simp, once (client_carried laws done)⟩

def Related (h : ρ → ρ') (p : Pool τ ρ σ) (r : ThreadPool.Pool τ ρ' σ) : Prop :=
  Begun p ∧ ∃ idle, r = p.up h idle

theorem pool_simulation (laws : Carries B B' h) :
    Machine.Simulation (step B) (fun _ _ => True) (ThreadPool.step B') (fun _ _ => True) (Related h) where
  carries {p q a r} related _ taken := by
    obtain ⟨law, idle, rfl⟩ := related
    obtain ⟨idle', rest, _, ran⟩ := step_carried laws idle law taken
    exact ⟨a.up, rest, _, Machine.obeys_of_actions fun _ _ _ => trivial, ran,
      step_begun law taken, idle', rfl⟩

/-- The configuration the second pool has to start in. -/
theorem configured_related (results : ρ) (mode : ThreadPool.PoolMode) (threadhold threshold : Int) :
    Related h (configured results mode threadhold : Pool τ ρ σ)
      (ThreadPool.configured 0 (h results) .modeFixd threadhold threshold) := by
  refine ⟨fun some_there => absurd rfl some_there, 0, ?_⟩
  rw [ThreadPool.configured_fields]
  rfl

end FirstPool
