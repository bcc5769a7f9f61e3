import ServerPools.Threads.FirstSimulation
import ServerPools.Threads.Wakeups

/- The Results of the first pool as those of the second: the Semaphore of a Result that lives is
   one whose isExit is not set. With it everything that holds of all runs of the second pool in
   its fixed mode holds of the first. -/
namespace FirstPool
open ThreadPool (Entry Backend)
open TaskResult (Any Get GetPc Stage ClientAction)
variable {τ α : Type} {s s' : Side τ α}

def Result.up (r : Result α) : TaskResult.Result α :=
  ⟨r.any, ⟨r.sem.resLimit, !r.live⟩, r.isValid, r.live, r.setVals⟩

def Side.up (s : Side τ α) : TaskResult.Side τ α :=
  ⟨s.result, fun i => (s.objects i).map Result.up, s.gets, s.produced⟩

theorem up_setObject (s : Side τ α) (i : Nat) (r : Result α) :
    (setObject s i r).up = TaskResult.setObject s.up i r.up := by
  have objects : (fun j => (Function.update s.objects i (some r) j).map Result.up) =
      Function.update (fun j => (s.objects j).map Result.up) i (some r.up) := by
    funext j
    by_cases own : j = i
    · subst own
      simp
    · simp [Function.update_of_ne own]
  unfold setObject TaskResult.setObject Side.up
  rw [← objects]

theorem object_up {i : Nat} {r : Result α} (object : s.object i = some r) :
    s.objects i = some r ∧ s.up.objects i = some r.up ∧ r.live = true := by
  unfold Side.object at object
  split at object
  · rename_i here
    split at object
    · rename_i live
      obtain rfl := Option.some.inj object
      exact ⟨here, by simp [Side.up, here], live⟩
    · contradiction
  · contradiction

theorem post_up {i : Nat} (posted : post s i = some s') : TaskResult.post s.up i = some s'.up := by
  obtain ⟨r, object, rfl⟩ := Option.map_eq_some_iff.mp posted
  obtain ⟨_, there, live⟩ := object_up object
  have stays : r.up.sem.isExit = false := by simp [Result.up, live]
  have after := up_setObject s i { r with sem := ⟨r.sem.resLimit + 1⟩ }
  unfold TaskResult.post
  simp only [there]
  rw [if_neg (by simp [stays])]
  exact congrArg (fun t : TaskResult.Side τ α => some { t with gets := s.gets.map (Get.wake i) }) after.symm

theorem exec_up {e : Entry τ} {stage : Stage α} {value : Any α} {next : Option (Stage α)}
    (ran : exec s e stage value = some (s', next)) :
    TaskResult.exec s.up e stage value = some (s'.up, next) := by
  cases stage with
  | test =>
    unfold TaskResult.exec
    have read : s.up.result e.task = s.result e.task := rfl
    simp only [exec] at ran
    simp only [read]
    cases pointed : s.result e.task with
    | none | some i =>
      simp only [pointed] at ran
      cases ran
      rfl
  | load =>
    obtain ⟨i, read, same⟩ := Option.map_eq_some_iff.mp ran
    cases same
    have read : s.up.result e.task = some i := read
    simp [TaskResult.exec, read]
  | runTask i =>
    cases ran
    rfl
  | store i any =>
    obtain ⟨r, object, same⟩ := Option.map_eq_some_iff.mp ran
    cases same
    obtain ⟨_, there, _⟩ := object_up object
    have after := up_setObject s i { r with any := any, setVals := r.setVals + 1 }
    simp only [TaskResult.exec, there, Option.map_some]
    rw [after]
    rfl
  | post i =>
    obtain ⟨after, posted, same⟩ := Option.map_eq_some_iff.mp ran
    cases same
    simp [TaskResult.exec, post_up posted]

theorem semWait_up (s : Side τ α) (g : Nat) (get : Get α) {r : Result α} :
    TaskResult.semWait s.up g get r.up = (semWait s g get r).up := by
  have after := up_setObject s get.result { r with sem := ⟨r.sem.resLimit - 1⟩ }
  unfold TaskResult.semWait semWait
  have limit : r.up.sem.resLimit = r.sem.resLimit := rfl
  rw [limit]
  split
  · exact congrArg (fun t => TaskResult.setGet t g get .acquired) after.symm
  · rfl

theorem getNext_up {g : Nat} (taken : getNext s g = some s') : TaskResult.getNext s.up g = some s'.up := by
  unfold getNext at taken
  split at taken
  · contradiction
  · rename_i get here
    have listed : s.up.gets[g]? = some get := here
    split at taken
    · contradiction
    · rename_i r object
      obtain ⟨_, there, live⟩ := object_up object
      have stays : r.up.sem.isExit = false := by simp [Result.up, live]
      have valid : r.up.isValid = r.isValid := rfl
      unfold TaskResult.getNext
      simp only [listed, there]
      cases pc : get.pc with
      | entering =>
        simp only [pc] at taken
        simp only [stays, valid]
        split at taken <;> rename_i fine <;> cases taken
        · simp [fine, semWait_up]
        · simp only [fine]
          rfl
      | woken =>
        simp only [pc] at taken
        cases taken
        simp only [semWait_up]
      | acquired =>
        simp only [pc] at taken
        cases taken
        have after := up_setObject s get.result { r with any := none }
        exact congrArg (fun t => some (TaskResult.setGet t g get (.returned r.any))) after.symm
      | blocked | returned =>
        simp only [pc] at taken
        contradiction

theorem client_up {k : ClientAction} (taken : client s k = some s') :
    TaskResult.client s.up k = some s'.up := by
  cases k with
  | get i =>
    obtain ⟨r, object, rfl⟩ := Option.map_eq_some_iff.mp taken
    obtain ⟨_, there, live⟩ := object_up object
    have live : r.up.live = true := live
    simp only [TaskResult.client, there, live, if_true]
    rfl
  | getNext g => exact getNext_up taken
  | getStir g =>
    simp only [client] at taken
    split at taken
    · contradiction
    · rename_i get here
      have listed : s.up.gets[g]? = some get := here
      simp only [TaskResult.client, listed]
      cases pc : get.pc with
      | blocked =>
        simp only [pc, if_true] at taken
        cases taken
        rfl
      | entering | woken | acquired | returned => simp [pc] at taken
  | drop i =>
    simp only [client] at taken
    split at taken
    · contradiction
    · rename_i r object
      obtain ⟨_, there, live⟩ := object_up object
      have live : r.up.live = true := live
      split at taken <;> rename_i idle <;> cases taken
      have after := up_setObject s i { r with live := false }
      simp only [TaskResult.client, there]
      rw [if_pos ⟨live, idle⟩, after]
      rfl

theorem first_carries [DecidableEq τ] :
    Carries (firstBackend : Backend τ (Side τ α) (Stage α) (Any α) ClientAction)
      TaskResult.resultBackend Side.up where
  accept s i task := congrArg (fun t => TaskResult.setResult t task i)
    (up_setObject s i ⟨none, ⟨0⟩, true, true, 0⟩)
  reject s i task := congrArg (fun t => TaskResult.setResult t task i)
    (up_setObject s i ⟨none, ⟨0⟩, false, true, 0⟩)
  first := rfl
  exec := exec_up
  client := client_up

section Runs
variable {p : ResultPool τ α} {mode : ThreadPool.PoolMode} {t : Int}

def Worker.task (w : Worker τ (Stage α)) : Option (Entry τ) :=
  match w.pc with
  | .running e _ => some e
  | _ => none

theorem up_running (p : ResultPool τ α) (idle : Int) :
    (p.up Side.up idle).running = p.workers.filterMap Worker.task := by
  have each (w : Worker τ (Stage α)) : w.up.job.map Prod.fst = w.task := by
    rcases w with ⟨thread, pc⟩
    cases pc <;> rfl
  simp only [ThreadPool.Pool.running, ThreadPool.Pool.jobs, Pool.up, List.filterMap_map,
    List.map_filterMap, Function.comp_def, each]

variable [DecidableEq τ]

theorem first_reach (reached : Machine.Reachable (step firstBackend) (configured emptySide mode t) p) :
    Begun p ∧ ∃ idle, Machine.Reachable (ThreadPool.step TaskResult.resultBackend)
      (ThreadPool.configured 0 TaskResult.emptySide .modeFixd t ThreadPool.threadMaxThreshhold)
      (p.up Side.up idle) := by
  obtain ⟨r, reached', begun, idle, rfl⟩ :=
    (pool_simulation first_carries).reach (configured_related _ _ _ _) reached
  exact ⟨begun, idle, reached'⟩

/-- Whatever mode the first pool is set to and whatever its clients do, it is at every moment,
    field by field, a second pool in its fixed mode. So its queue is a bounded fifo, no accepted
    task is lost or run twice, and no wait is slept through that the queue has ended. -/
theorem first_pool_refines (bounded : 0 ≤ t ∧ t < 2 ^ 31)
    (reached : Machine.Reachable (step firstBackend) (configured emptySide mode t) p) :
    (∃ idle, Machine.Reachable (ThreadPool.step TaskResult.resultBackend)
      (ThreadPool.configured 0 TaskResult.emptySide .modeFixd t ThreadPool.threadMaxThreshhold)
      (p.up Side.up idle)) ∧
    (p.accepted = p.popped ++ p.taskQue ∧ (p.taskQue.length : Int) ≤ t ∧
      p.taskSize = p.taskQue.length) ∧
    ((p.accepted.map Entry.sub).Nodup ∧
      p.popped.Perm (p.workers.filterMap Worker.task ++ p.executed)) ∧
    (p.taskQue ≠ [] → ∀ w ∈ p.workers, w.pc ≠ .blocked) ∧
    ((p.taskQue.length : Int) < t → ∀ c ∈ p.submits, c.pc ≠ .blocked) := by
  obtain ⟨_, idle, above⟩ := first_reach reached
  have law := ThreadPool.reachable_law bounded above
  have wakeups := ThreadPool.reachable_no_lost_wakeup bounded above
  refine ⟨⟨idle, above⟩, ⟨law.fifo, law.within, law.sized⟩, ⟨law.once, ?_⟩, ?_, wakeups.notFull⟩
  · rw [← up_running p idle]
    exact law.spent
  · intro stocked w member blocked
    refine wakeups.noEmpty stocked w.up (List.mem_map_of_mem member) false ?_
    simp [Worker.up, blocked, WorkerPc.up]

/-- Two threads and three submissions to a queue of one, in the mode that this pool ignores. -/
def crowd : List (Action Nat (Any Nat) ClientAction) :=
  [.callStart 2] ++ List.replicate 7 .start ++ [.worker 0, .worker 1, .call 5, .submit 0, .call 6,
    .submit 1, .worker 1, .exec 1 (some 50), .submit 1, .call 7, .submit 2]

theorem first_pool_refines_crowd :
    ∃ p : ResultPool Nat Nat, p.taskQue = [⟨6, 1⟩] ∧ p.submits[2]? = some ⟨7, .blocked⟩ ∧
      (p.accepted = p.popped ++ p.taskQue ∧ (p.taskQue.length : Int) ≤ 1 ∧
        p.taskSize = p.taskQue.length) := by
  have ran : ∃ p ∈ Machine.run (step firstBackend)
      (configured emptySide .modeCachd 1 : ResultPool Nat Nat) crowd,
      p.taskQue = [⟨6, 1⟩] ∧ p.submits[2]? = some ⟨7, .blocked⟩ := by decide +kernel
  obtain ⟨p, reached, queue, waits⟩ := Machine.reachable_visits _ ran
  exact ⟨p, queue, waits, (first_pool_refines (by decide) reached).2.1⟩

end Runs

end FirstPool
