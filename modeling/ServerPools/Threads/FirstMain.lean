import ServerPools.Threads.FirstProgram
import ServerPools.Threads.ResultEnd

/- main.cpp computes its sums with the first pool, whatever the schedule, and comes to its end if
   no wait times out. Then every thread of the pool waits for tasks that do not come. -/
namespace FirstPool
open ThreadPool (Entry Submit Backend Getter Script MainPc Tracks)
open TaskResult (Any Derive Get GetPc Stage ClientAction Known cast_)
variable {τ ι : Type} {data : ι → Type}

section Getter
variable [DecidableEq τ] [DecidableEq ι] {t : ι}

def firstGetter (t : ι) :
    Getter (firstBackend : Backend τ (Side τ (Derive data)) (Stage (Derive data)) (Any (Derive data))
      ClientAction) (data t) :=
  TaskResult.castGetter firstBackend Side.gets t

theorem first_follows (t : ι) :
    Follows Side.up (firstGetter t : Getter (firstBackend : Backend τ (Side τ (Derive data)) _ _ _) _)
      (TaskResult.resultGetter t) where
  call called := client_up (k := .get _) called
  next {r r' i v} next := by
    simp only [firstGetter, TaskResult.castGetter, firstBackend] at next
    cases here : r.gets[i]? with
    | none => simp [here] at next
    | some g =>
      have there : r.up.gets[i]? = some g := here
      simp only [here] at next
      simp only [TaskResult.resultGetter, TaskResult.castGetter, TaskResult.resultBackend, there]
      cases pc : g.pc with
      | returned any =>
        simp only [pc] at next
        cases cast : cast_ t any with
        | ok value =>
          simp only [cast] at next
          cases next
          simp [cast]
        | error _ => simp [cast] at next
      | entering | blocked | woken | acquired =>
        simp only [pc] at next
        obtain ⟨after, taken, same⟩ := Option.map_eq_some_iff.mp next
        cases same
        simp [client_up taken]
  drop dropped := client_up (k := .drop _) dropped
  stirs stirred := stirred

instance : DecidablePred (firstGetter t : Getter (firstBackend :
    Backend τ (Side τ (Derive data)) (Stage (Derive data)) (Any (Derive data)) ClientAction) _).stirs
  | .getStir _ => .isTrue trivial
  | .get _ | .getNext _ | .drop _ => .isFalse id

end Getter

section Defined
variable {α : Type} {s : Side τ α}

/-- What lives above lives below. -/
theorem object_below {i : Nat} {r : TaskResult.Result α} (there : s.up.objects i = some r)
    (live : r.live = true) : ∃ below, s.object i = some below := by
  obtain ⟨below, here, rfl⟩ := Option.map_eq_some_iff.mp there
  have live : below.live = true := live
  exact ⟨below, by simp [Side.object, here, live]⟩

theorem exec_below {e : Entry τ} {stage : Stage α} (value : Any α)
    (pointed : s.result e.task = some e.sub) (staged : (s.up.view e.sub).Staged e.sub stage) :
    exec s e stage value ≠ none := by
  cases stage with
  | test | load => simp [exec, pointed]
  | runTask k => simp [exec]
  | store k any =>
    obtain ⟨rfl, filled⟩ := staged
    obtain ⟨below, object⟩ := object_below filled.object rfl
    simp [exec, object]
  | post k =>
    obtain ⟨rfl, any, filled⟩ := staged
    obtain ⟨below, object⟩ := object_below filled.object rfl
    simp [exec, post, object]

theorem getNext_below {g : Nat} {get : Get α} (here : s.gets[g]? = some get) {r : Result α}
    (object : s.object get.result = some r) (taken : TaskResult.getNext s.up g ≠ none) :
    getNext s g ≠ none := by
  have there : s.up.gets[g]? = some get := here
  obtain ⟨_, above, _⟩ := object_up object
  cases pc : get.pc with
  | entering =>
    simp only [getNext, here, object, pc]
    split <;> simp
  | woken | acquired => simp [getNext, here, object, pc]
  | blocked | returned => simp [TaskResult.getNext, there, above, pc] at taken

end Defined

section Run
variable {t : ι} {script : Script τ (Any (Derive data))} {n : Nat} {mode : ThreadPool.PoolMode}
  {threadhold : Int} {s : Program τ (Side τ (Derive data)) (Stage (Derive data)) (data t)} {idle : Int}

theorem start_below (started : s.pool.startCall ≠ .notCalled) (running : s.pool.startCall ≠ .returned)
    (manned : ThreadPool.Manned (s.up Side.up idle).pool) : startNext s.pool ≠ none := by
  have keyed := manned.keyed
  cases place : s.pool.startCall with
  | notCalled => exact absurd place started
  | returned => exact absurd place running
  | setInit n => simp [startNext, place]
  | creating i =>
    simp only [startNext, place]
    split <;> simp
  | launching i =>
    have all : List.range s.pool.threads = List.range s.pool.initThreadSize.toNat := by
      simpa [Program.up, Pool.up, place, StartPc.up, ThreadPool.StartPc.keyed] using keyed
    have same := congrArg List.length all
    rw [List.length_range, List.length_range] at same
    simp only [startNext, place]
    split
    · rename_i more
      rw [if_pos (by omega)]
      simp
    · simp

variable [DecidableEq τ] [DecidableEq ι]

/-- A thread that can go on above can go on below. -/
theorem env_below (known : Known script (s.up Side.up idle)) {a : ThreadPool.Action τ (Any (Derive data)) ClientAction}
    (ambient : ThreadPool.Ambient (TaskResult.resultGetter t) script (s.up Side.up idle).pool a)
    (calm : ThreadPool.Calm (fun _ => False) a)
    (can : ThreadPool.step TaskResult.resultBackend (s.up Side.up idle).pool a ≠ none) :
    ∃ b, Ambient (firstGetter t) script s.pool b ∧ Calm b ∧ step firstBackend s.pool b ≠ none := by
  have at_place (w : Nat) : (s.up Side.up idle).pool.workers[w]? = (s.pool.workers[w]?).map Worker.up :=
    List.getElem?_map ..
  change ThreadPool.step _ (s.pool.up Side.up idle) a ≠ none at can
  rw [up_step] at can
  cases a with
  | worker w idleLong =>
    refine ⟨.worker w, trivial, trivial, fun stuck => can ?_⟩
    simp only [step, threadFunc] at stuck
    have above := at_place w
    change (s.pool.up Side.up idle).workers[w]? = _ at above
    simp only [ThreadPool.perform, ThreadPool.threadFunc, above]
    cases here : s.pool.workers[w]? with
    | none => rfl
    | some worker =>
      rcases worker with ⟨thread, pc⟩
      simp only [here] at stuck
      cases pc <;> simp_all [Worker.up, WorkerPc.up]
  | exec w x =>
    have above := at_place w
    change (s.pool.up Side.up idle).workers[w]? = _ at above
    simp only [ThreadPool.perform, ThreadPool.execTask, above] at can
    cases here : s.pool.workers[w]? with
    | none => simp [here] at can
    | some worker =>
      cases pc : worker.pc with
      | running e stage =>
        have running : worker.up.pc = .running e stage := by simp [Worker.up, pc, WorkerPc.up]
        have placed : (s.up Side.up idle).pool.workers[w]? = some worker.up := by
          rw [at_place, here]
          rfl
        have member := ThreadPool.running_job placed running
        have pointed := known.handshake.pointed e (ThreadPool.popped_accepted known.history
          (ThreadPool.job_popped known.history member))
        have defined := exec_below (s := s.pool.results) x pointed (known.handshake.staged _ member)
        obtain ⟨⟨results, next⟩, ran⟩ := Option.ne_none_iff_exists'.mp defined
        refine ⟨.exec w x, ?_, trivial, ?_⟩
        · intro other e' stage' there pc'
          obtain rfl : worker = other := Option.some.inj (here.symm.trans there)
          rw [pc] at pc'
          cases pc'
          exact ambient worker.up e stage placed running
        · have ran : firstBackend.exec s.pool.results e stage x = some (results, next) := ran
          cases next <;> simp [step, execTask, here, pc, ran]
      | entering | blocked | woken => simp [here, Worker.up, pc, WorkerPc.up] at can
  | idle w =>
    refine absurd ?_ can
    have above := at_place w
    change (s.pool.up Side.up idle).workers[w]? = _ at above
    simp only [ThreadPool.perform, ThreadPool.becomeIdle, above]
    cases here : s.pool.workers[w]? with
    | none => rfl
    | some worker =>
      rcases worker with ⟨thread, pc⟩
      cases pc <;> simp [Worker.up, WorkerPc.up]
  | submit | start | destroyNext => exact ambient.elim
  | _ => exact calm.elim

/-- main goes on below where it goes on above, but for its end. -/
theorem main_below (known : Known script (s.up Side.up idle))
    (manned : ThreadPool.Manned (s.up Side.up idle).pool) (ahead : s.main ≠ .dropping 0)
    (can : ThreadPool.mainNext TaskResult.resultBackend (TaskResult.resultGetter t) script
      (s.up Side.up idle) ≠ none) :
    mainNext firstBackend (firstGetter t) script s ≠ none := by
  have inside := known.tracks.inside
  have start := known.tracks.start
  have destroy := known.tracks.destroy
  have object {i : Nat} (settled : i < s.main.settled script.tasks.length)
      (held : i < s.main.kept script.tasks.length) : ∃ r, s.pool.results.object i = some r := by
    obtain ⟨r, there, live⟩ := known.object settled held
    exact object_below there live
  change s.main.inside _ at inside
  change s.main.startsAt s.pool.startCall.up at start
  change s.main.closing ↔ _ at destroy
  cases place : s.main with
  | entered =>
    have settled : startSettled s.pool := by
      rw [place] at start
      left
      cases pc : s.pool.startCall <;> simp_all [MainPc.startsAt, StartPc.up]
    simp [mainNext, place, onPool, step, settled]
  | starting =>
    rw [place] at start
    simp only [mainNext, place]
    split
    · simp
    · rename_i running
      have started : s.pool.startCall ≠ .notCalled := by
        intro never
        simp [never, StartPc.up, MainPc.startsAt] at start
      simpa [onPool, step] using start_below started running manned
  | submitting i =>
    simp only [mainNext, place]
    cases script.tasks[i]? <;> simp [onPool, step]
  | awaiting i =>
    have above : (s.up Side.up idle).main = .awaiting i := place
    have same : (s.up Side.up idle).pool.submits = s.pool.submits := rfl
    simp only [ThreadPool.mainNext, above, same] at can
    simp only [mainNext, place]
    cases here : s.pool.submits[i]? with
    | none => simp [here] at can
    | some c =>
      simp only [here] at can
      by_cases final : c.pc.final
      · simp [final]
      · simp only [if_neg final] at can ⊢
        have can : ThreadPool.step TaskResult.resultBackend (s.pool.up Side.up idle) (.submit i) ≠ none :=
          fun stuck => can (Option.map_eq_none_iff.mpr stuck)
        rw [up_step] at can
        have listed : (s.pool.up Side.up idle).submits[i]? = some c := here
        simp only [ThreadPool.perform, ThreadPool.submit, listed] at can
        simp only [onPool, step, subMitTask, here]
        cases pc : c.pc with
        | entering | woken | timedOut =>
          simp only
          split <;> simp
        | blocked | accepted | rejected => simp [pc] at can
  | asking i =>
    simp only [mainNext, place]
    split
    · rename_i more
      obtain ⟨r, live⟩ := object (i := i) (by rw [place]; exact more) (by rw [place]; exact more)
      simp [firstGetter, TaskResult.castGetter, firstBackend, client, live]
    · simp
  | getting i =>
    have above : (s.up Side.up idle).main = .getting i := place
    have same : (s.up Side.up idle).pool.results = s.pool.results.up := rfl
    rw [place] at inside
    obtain ⟨r, live⟩ := object (i := i) (by rw [place]; exact inside) (by rw [place]; exact inside)
    simp only [ThreadPool.mainNext, above, same] at can
    have next : (TaskResult.resultGetter t).next s.pool.results.up i ≠ none := by
      intro stuck
      simp [stuck] at can
    have below : (firstGetter t).next s.pool.results i ≠ none := by
      simp only [TaskResult.resultGetter, TaskResult.castGetter, TaskResult.resultBackend] at next
      simp only [firstGetter, TaskResult.castGetter, firstBackend]
      have gets : s.pool.results.up.gets[i]? = s.pool.results.gets[i]? := rfl
      cases here : s.pool.results.gets[i]? with
      | none => simp [gets, here] at next
      | some g =>
        have own : g.result = i := known.asked.get here
        simp only [gets, here] at next
        have goes (other : (TaskResult.client s.pool.results.up (.getNext i)).map
            (fun s => (s, (none : Option (data t)))) ≠ none) :
            (client s.pool.results (.getNext i)).map (fun s => (s, (none : Option (data t)))) ≠ none := by
          intro stuck
          refine getNext_below here (own.symm ▸ live) (fun above => other ?_) (Option.map_eq_none_iff.mp stuck)
          simp [TaskResult.client, above]
        cases pc : g.pc with
        | returned any =>
          simp only [pc] at next
          exact fun stuck => next (by cases cast : cast_ t any <;> simp_all)
        | entering | blocked | woken | acquired =>
          simp only [pc] at next
          simp only [pc]
          exact goes next
    obtain ⟨⟨results, v⟩, ran⟩ := Option.ne_none_iff_exists'.mp below
    simp only [mainNext, place, ran]
    cases v <;> simp
  | dropping left =>
    cases left with
    | zero => exact absurd place ahead
    | succ left =>
      have above : (s.up Side.up idle).main = .dropping (left + 1) := place
      rw [place] at inside
      obtain ⟨r, live⟩ := object (i := left) (by rw [place]; exact inside)
        (by rw [place]; exact Nat.lt_succ_self left)
      obtain ⟨here, there, _⟩ := object_up live
      have results : (s.up Side.up idle).pool.results = s.pool.results.up := rfl
      simp only [ThreadPool.mainNext, above, results, TaskResult.resultGetter, TaskResult.castGetter,
        TaskResult.resultBackend, TaskResult.client, there] at can
      simp only [mainNext, place, firstGetter, TaskResult.castGetter, firstBackend, client, live]
      split
      · simp
      · rename_i busy
        have gets : s.pool.results.up.gets = s.pool.results.gets := rfl
        rw [if_neg (fun both => busy (gets ▸ both.2))] at can
        simp at can
  | leaving | returned =>
    have begun := destroy.mp (by simp [place, MainPc.closing])
    exact absurd rfl begun

/-- Where main has come to its end and no thread can go on, they all wait at an empty queue. -/
theorem ended_at_rest (known : Known script (s.up Side.up idle)) {left : Nat}
    (place : s.main = .dropping left)
    (still : ∀ a, Ambient (firstGetter t) script s.pool a → Calm a → step firstBackend s.pool a = none) :
    (∀ w ∈ s.pool.workers, w.pc = .blocked) ∧ s.pool.taskQue = [] ∧
      s.pool.executed.Perm s.pool.accepted := by
  have blocked : ∀ w ∈ s.pool.workers, w.pc = .blocked := by
    intro worker member
    obtain ⟨w, here⟩ := List.getElem?_of_mem member
    cases pc : worker.pc with
    | blocked => rfl
    | entering | woken =>
      have stuck := still (.worker w) trivial trivial
      simp [step, threadFunc, here, pc] at stuck
    | running e stage =>
      have running : worker.up.pc = .running e stage := by simp [Worker.up, pc, WorkerPc.up]
      have placed : (s.pool.up Side.up idle).workers[w]? = some worker.up := up_worker here
      have job := ThreadPool.running_job placed running
      have pointed := known.handshake.pointed e (ThreadPool.popped_accepted known.history
        (ThreadPool.job_popped known.history job))
      have defined := exec_below (s := s.pool.results) (script.run e.task) pointed
        (known.handshake.staged _ job)
      obtain ⟨⟨results, next⟩, ran⟩ := Option.ne_none_iff_exists'.mp defined
      have ran : firstBackend.exec s.pool.results e stage (script.run e.task) = some (results, next) := ran
      have stuck := still (.exec w (script.run e.task)) (by
        intro other e' stage' there pc'
        obtain rfl : worker = other := Option.some.inj (here.symm.trans there)
        rw [pc] at pc'
        cases pc'
        rfl) trivial
      cases next <;> simp [step, execTask, here, pc, ran] at stuck
  have idle_all : s.pool.workers.filterMap Worker.task = [] := by
    refine List.filterMap_eq_nil_iff.mpr fun w member => ?_
    simp [Worker.task, blocked w member]
  have empty : s.pool.taskQue = [] := by
    refine List.eq_nil_iff_forall_not_mem.mpr fun e queued => ?_
    obtain ⟨c, here, accepted, _⟩ := known.history.owned e (ThreadPool.queued_accepted known.history queued)
    obtain ⟨d, executed, same⟩ := TaskResult.dropping_executed known.tracks known.asked known.handshake
      known.history place here accepted
    exact ThreadPool.executed_apart known.history executed (Or.inr queued) same.symm
  refine ⟨blocked, empty, ?_⟩
  have fifo : s.pool.accepted = s.pool.popped ++ s.pool.taskQue := known.history.fifo
  have spent : s.pool.popped.Perm ((s.pool.up Side.up idle).running ++ s.pool.executed) :=
    known.history.spent
  rw [up_running, idle_all, List.nil_append] at spent
  rw [fifo, empty, List.append_nil]
  exact spent.symm

/-- main.cpp with any tasks, under every schedule: what main has is what its tasks compute, and
    cast_ throws for a task of the right type only where the queue was full for a second. -/
theorem first_main_safe (bounded : 0 ≤ threadhold ∧ threadhold < 2 ^ 31)
    (size : script.initThreadSize = n) (apart : script.tasks.Nodup)
    (reached : Machine.Reach (programStep firstBackend (firstGetter t) script)
      (Scheduled (firstGetter t) script) (launch mode threadhold emptySide) s) :
    (∀ (j : Nat) (v : data t), s.answers[j]? = some v →
      ∃ task, script.tasks[j]? = some task ∧ script.run task = some ⟨t, v⟩) ∧
    (∀ g ∈ s.pool.results.gets, ∀ any, g.pc = .returned any →
      ∃ task, script.tasks[g.result]? = some task ∧
        (any = script.run task ∨ any = none ∧ threadhold < script.tasks.length)) ∧
    ∀ left, s.main = .dropping left → s.answers.length = script.tasks.length ∧
      ∀ e ∈ s.pool.accepted, ∃ d ∈ s.pool.executed, d.sub = e.sub := by
  obtain ⟨_, above, law, idle, rfl⟩ := (program_simulation first_carries (first_follows t)).reach
    (launch_related emptySide mode threadhold ThreadPool.threadMaxThreshhold) reached
  refine ⟨fun j v told => TaskResult.answers_right size apart above told,
    fun g member any returned => TaskResult.gets_right size apart above bounded member returned, ?_⟩
  intro left place
  obtain ⟨tracks, driven⟩ := ThreadPool.program_pool size above
  obtain ⟨asked, rules⟩ := TaskResult.result_pool size apart above
  have history := ThreadPool.reachable_history driven.reachable
  refine ⟨?_, fun e accepted => ?_⟩
  · have length := tracks.answers
    change s.answers.length = s.main.answered _ at length
    rw [place] at length
    exact length
  · obtain ⟨c, here, pc, _⟩ := history.owned e accepted
    exact TaskResult.dropping_executed tracks asked (TaskResult.reachable_handshake rules).1 history
      place here pc

/-- As for the second pool: the get of a refused task returns an empty Any, and cast_ throws. -/
def refusedSecond : List (Turn (Int × Int) (Any (Derive TaskResult.Stored.type)) ClientAction) :=
  List.replicate 12 .main ++ [.env (.submitTimeout 1)] ++ List.replicate 4 .main ++ [.env (.worker 0)] ++
    List.replicate 5 (.env (.exec 0 (some ⟨.int, 3⟩))) ++ List.replicate 5 .main

theorem first_main_safe_refused :
    ∃ s : Program (Int × Int) (Side (Int × Int) (Derive TaskResult.Stored.type))
        (Stage (Derive TaskResult.Stored.type)) Int,
      s.main = .getting 1 ∧ s.answers = [3] ∧ (∃ g ∈ s.pool.results.gets, g.pc = .returned none) ∧
      (∀ (j : Nat) (v : Int), s.answers[j]? = some v → ∃ task,
        TaskResult.hurried.tasks[j]? = some task ∧ TaskResult.hurried.run task = some ⟨.int, v⟩) := by
  have obeys : Machine.Obeys (programStep firstBackend (firstGetter TaskResult.Stored.int) TaskResult.hurried)
      (Scheduled (firstGetter .int) TaskResult.hurried) (launch .modeFixd 1 emptySide) refusedSecond := by
    decide +kernel
  have ran : ∃ s ∈ Machine.run (programStep firstBackend (firstGetter TaskResult.Stored.int) TaskResult.hurried)
      (launch .modeFixd 1 emptySide) refusedSecond,
      s.main = .getting 1 ∧ s.answers = [3] ∧ ∃ g ∈ s.pool.results.gets, g.pc = .returned none := by
    decide +kernel
  obtain ⟨s, reached, place, answers, empty⟩ := Machine.reach_visits _ obeys ran
  exact ⟨s, place, answers, empty, (first_main_safe (by decide) rfl (by decide) reached).1⟩

/-- main.cpp with any tasks of the right type: under every schedule without time-outs main comes
    to its end with what they compute, and the threads of the pool are left waiting for more. -/
theorem first_main_ends (positive : 1 ≤ n) (bounded : 1 ≤ threadhold ∧ threadhold < 2 ^ 31)
    (size : script.initThreadSize = n) (apart : script.tasks.Nodup)
    (typed : ∀ task ∈ script.tasks, ∃ value, script.run task = some ⟨t, value⟩) :
    Machine.Inevitable (programStep firstBackend (firstGetter t) script)
      (Brisk (firstGetter t) script)
      (fun s => s.main = .dropping 0 ∧
        s.answers.map (fun v => (some ⟨t, v⟩ : Any (Derive data))) = script.tasks.map script.run ∧
        (∀ w ∈ s.pool.workers, w.pc = .blocked) ∧ s.pool.taskQue = [] ∧
        s.pool.executed.Perm s.pool.accepted)
      (launch mode threadhold emptySide) := by
  have provides : ThreadPool.Provides (TaskResult.resultEffort script.tasks.length)
      (TaskResult.resultGetter t) script (ThreadPool.launch .modeFixd threadhold
        ThreadPool.threadMaxThreshhold TaskResult.emptySide) :=
    TaskResult.result_provides size apart typed
  apply (brisk_simulation first_carries (first_follows t)).inevitable
    (fun r => Machine.Reach (ThreadPool.programStep TaskResult.resultBackend (TaskResult.resultGetter t) script)
      (ThreadPool.Brisk (TaskResult.resultGetter t) script)
      (ThreadPool.launch .modeFixd threadhold ThreadPool.threadMaxThreshhold TaskResult.emptySide) r ∧
      ThreadPool.Planned n script.tasks.length r)
    ((TaskResult.resultFees script.tasks.length).total n script.tasks.length)
  · rintro r turn r' ⟨above, planned⟩ permit taken
    exact ⟨above.next permit taken, (ThreadPool.brisk_planned (TaskResult.resultFees script.tasks.length)
      size provides.fits above planned permit taken).1⟩
  · rintro r turn r' ⟨above, planned⟩ permit taken
    exact (ThreadPool.brisk_planned (TaskResult.resultFees script.tasks.length) size provides.fits above
      planned permit taken).2
  · rintro s _ ⟨law, idle, rfl⟩ ⟨above, planned⟩ still
    have known := TaskResult.brisk_known size apart above
    have stuck (a : Action τ (Any (Derive data)) ClientAction)
        (ambient : Ambient (firstGetter t) script s.pool a) (calm : Calm a) :
        step firstBackend s.pool a = none := by
      by_contra goes
      obtain ⟨q, stepped⟩ := Option.ne_none_iff_exists'.mp goes
      refine still ⟨.env a, { s with pool := q }, ⟨ambient, calm⟩, ?_⟩
      simp [programStep, stepped]
    have place : s.main = .dropping 0 := by
      by_contra ahead
      by_cases can : Machine.CanStep
          (ThreadPool.programStep TaskResult.resultBackend (TaskResult.resultGetter t) script)
          (ThreadPool.Brisk (TaskResult.resultGetter t) script) (s.up Side.up idle)
      · obtain ⟨turn, r, permit, taken⟩ := can
        cases turn with
        | main =>
          have manned := ThreadPool.reachable_manned (by omega) (ThreadPool.brisk_orderly size above)
          have goes := main_below known manned ahead (Option.ne_none_iff_exists'.mpr ⟨r, taken⟩)
          obtain ⟨s', next⟩ := Option.ne_none_iff_exists'.mp goes
          exact still ⟨.main, s', trivial, next⟩
        | env a =>
          obtain ⟨q, stepped, rfl⟩ := Option.map_eq_some_iff.mp taken
          obtain ⟨b, ambient, calm, goes⟩ := env_below known permit.1 permit.2
            (Option.ne_none_iff_exists'.mpr ⟨q, stepped⟩)
          exact goes (stuck b ambient calm)
      · have done := (ThreadPool.brisk_done positive bounded size provides above can).1
        exact absurd rfl (known.tracks.destroy.mp (by simp [done, MainPc.closing]))
    obtain ⟨blocked, empty, all⟩ := ended_at_rest known place stuck
    refine ⟨place, known.values ?_, blocked, empty, all⟩
    change s.main.answered _ = _
    rw [place]
    rfl
  · exact launch_related emptySide mode threadhold ThreadPool.threadMaxThreshhold
  · exact ⟨.start, ThreadPool.launch_planned n _⟩

/-- The three tasks of main.cpp and what it prints. -/
theorem first_main_ends_sums :
    Machine.Inevitable (programStep firstBackend (firstGetter TaskResult.Stored.int) TaskResult.sums)
      (Brisk (firstGetter .int) TaskResult.sums)
      (fun s => s.main = .dropping 0 ∧ s.answers = [5050, 500500, 5050] ∧ s.answers.sum = 510600)
      (launch .modeFixd 1024 emptySide) := by
  refine (first_main_ends (n := 4) (by decide) (by decide) rfl (by decide) fun task _ => ⟨_, rfl⟩).mono ?_
  rintro s ⟨place, values, _⟩
  have computed : TaskResult.sums.tasks.map TaskResult.sums.run =
      [5050, 500500, 5050].map fun v => (some ⟨.int, v⟩ : Any (Derive TaskResult.Stored.type)) := by
    have first := TaskResult.run_sum ⟨0, 1, 100⟩ 5050 (by decide) (by decide)
    have second := TaskResult.run_sum ⟨1, 1, 1000⟩ 500500 (by decide) (by decide)
    have third := TaskResult.run_sum ⟨2, 1, 100⟩ 5050 (by decide) (by decide)
    simp only [TaskResult.sums, List.map_cons, List.map_nil, first, second, third]
  have answers : s.answers = [5050, 500500, 5050] := by
    refine List.map_injective_iff.mpr (fun v w same => ?_) (values.trans computed)
    simpa using same
  exact ⟨place, answers, by rw [answers]; rfl⟩

end Run

end FirstPool
