import ServerPools.Threads.Outcomes

/- The task queue is a bounded FIFO: what was accepted is what was popped followed by what
   is queued, whatever the threads and the submitters do. -/
namespace ThreadPool
variable {τ ρ σ χ κ : Type} {B : Backend τ ρ σ χ κ} {p q : Pool τ ρ σ}

/-- The entry a thread is running, and how far it is. -/
def Worker.job (w : Worker τ σ) : Option (Entry τ × σ) :=
  match w.pc with
  | .running e stage => some (e, stage)
  | _ => none

def Pool.jobs (p : Pool τ ρ σ) : List (Entry τ × σ) := p.workers.filterMap Worker.job

def Pool.running (p : Pool τ ρ σ) : List (Entry τ) := p.jobs.map Prod.fst

theorem wake_job (w : Worker τ σ) : w.wake.job = w.job := by
  rcases w with ⟨threadid, pc⟩
  cases pc <;> rfl

/-- A submission that has returned. -/
def SubmitPc.final : SubmitPc → Bool
  | .accepted | .rejected => true
  | _ => false

theorem wake_final {c d : Submit τ} (final : d.pc.final) : c.wake = d ↔ c = d := by
  rcases c with ⟨task, pc⟩
  rcases d with ⟨task', pc'⟩
  cases pc <;> cases pc' <;> simp_all [Submit.wake, SubmitPc.final]

@[simp] theorem notifyNoEmpty_jobs (p : Pool τ ρ σ) : (notifyNoEmpty p).jobs = p.jobs := by
  simp only [Pool.jobs, notifyNoEmpty, List.filterMap_map]
  congr 1
  funext w
  exact wake_job w

theorem setWorker_jobs {w : Nat} {worker : Worker τ σ} {pc : WorkerPc τ σ}
    (here : p.workers[w]? = some worker)
    (same : Worker.job ⟨worker.threadid, pc⟩ = worker.job) :
    (setWorker p w worker pc).jobs = p.jobs :=
  Agents.filterMap_set_same here same

theorem setWorker_jobs_perm {w : Nat} {worker : Worker τ σ}
    (here : p.workers[w]? = some worker) (pc : WorkerPc τ σ) :
    ∃ others, p.jobs.Perm (worker.job.toList ++ others) ∧
      (setWorker p w worker pc).jobs.Perm
        ((Worker.job ⟨worker.threadid, pc⟩ : Option (Entry τ × σ)).toList ++ others) := by
  obtain ⟨rest, before, after⟩ := Agents.single_out here
  refine ⟨rest.filterMap Worker.job, ?_, ?_⟩
  · have split := before.filterMap Worker.job
    cases own : worker.job <;> simpa [Pool.jobs, List.filterMap_cons, own] using split
  · have split := (after { worker with pc := pc }).filterMap Worker.job
    cases own : (Worker.job ⟨worker.threadid, pc⟩ : Option (Entry τ × σ)) <;>
      simpa [Pool.jobs, setWorker, List.filterMap_cons, own] using split

theorem awake_job {worker : Worker τ σ} (awake : worker.pc.awake) : worker.job = none := by
  rcases worker with ⟨threadid, pc⟩
  cases pc <;> simp_all [WorkerPc.awake, Worker.job]

/-- Growing changes the thread side only. -/
theorem grow_keeps (p : Pool τ ρ σ) :
    (grow p).taskQue = p.taskQue ∧ (grow p).taskSize = p.taskSize ∧
      (grow p).taskQueMaxThreadHold = p.taskQueMaxThreadHold ∧ (grow p).submits = p.submits ∧
      (grow p).accepted = p.accepted ∧ (grow p).popped = p.popped ∧
      (grow p).executed = p.executed ∧ (grow p).jobs = p.jobs := by
  unfold grow
  split
  · simp [Pool.jobs, Worker.job]
  · simp

/-- What the queue law looks at is unchanged, and no submission returned. -/
structure Quiet (p q : Pool τ ρ σ) : Prop where
  taskQue : q.taskQue = p.taskQue
  taskSize : q.taskSize = p.taskSize
  threadhold : q.taskQueMaxThreadHold = p.taskQueMaxThreadHold
  accepted : q.accepted = p.accepted
  popped : q.popped = p.popped
  executed : q.executed = p.executed
  jobs : q.jobs = p.jobs
  settled : ∀ (i : Nat) (c : Submit τ), c.pc.final →
    (q.submits[i]? = some c ↔ p.submits[i]? = some c)

/-- Where every accepted task is, whatever the bound of the queue. -/
structure History (p : Pool τ ρ σ) : Prop where
  fifo : p.accepted = p.popped ++ p.taskQue
  owned : ∀ e ∈ p.accepted, ∃ c, p.submits[e.sub]? = some c ∧ c.pc = .accepted ∧ c.task = e.task
  recorded : ∀ (i : Nat) (c : Submit τ), p.submits[i]? = some c → c.pc = .accepted →
    ⟨c.task, i⟩ ∈ p.accepted
  once : (p.accepted.map Entry.sub).Nodup
  spent : p.popped.Perm (p.running ++ p.executed)

/-- The law of the queue with the bound t. -/
structure QueueLaw (t : Int) (p : Pool τ ρ σ) : Prop extends History p where
  sized : p.taskSize = p.taskQue.length
  threadhold : p.taskQueMaxThreadHold = t
  within : (p.taskQue.length : Int) ≤ t

theorem quiet_of_same (taskQue : q.taskQue = p.taskQue) (taskSize : q.taskSize = p.taskSize)
    (threadhold : q.taskQueMaxThreadHold = p.taskQueMaxThreadHold)
    (accepted : q.accepted = p.accepted) (popped : q.popped = p.popped)
    (executed : q.executed = p.executed) (workers : q.workers = p.workers)
    (submits : q.submits = p.submits) : Quiet p q := by
  refine ⟨taskQue, taskSize, threadhold, accepted, popped, executed, ?_, fun i c _ => ?_⟩
  · rw [Pool.jobs, workers, Pool.jobs]
  · rw [submits]

theorem Quiet.trans {r : Pool τ ρ σ} (first : Quiet p q) (second : Quiet q r) : Quiet p r where
  taskQue := second.taskQue.trans first.taskQue
  taskSize := second.taskSize.trans first.taskSize
  threadhold := second.threadhold.trans first.threadhold
  accepted := second.accepted.trans first.accepted
  popped := second.popped.trans first.popped
  executed := second.executed.trans first.executed
  jobs := second.jobs.trans first.jobs
  settled i c final := (second.settled i c final).trans (first.settled i c final)

theorem History.quiet (law : History p) (quiet : Quiet p q) : History q := by
  have accepted {c : Submit τ} (done : c.pc = .accepted) : c.pc.final := by simp [done, SubmitPc.final]
  refine ⟨?_, ?_, ?_, ?_, ?_⟩
  · rw [quiet.accepted, quiet.popped, quiet.taskQue, law.fifo]
  · intro e member
    obtain ⟨c, here, pc, task⟩ := law.owned e (quiet.accepted ▸ member)
    exact ⟨c, (quiet.settled _ c (accepted pc)).mpr here, pc, task⟩
  · intro i c here pc
    rw [quiet.accepted]
    exact law.recorded i c ((quiet.settled i c (accepted pc)).mp here) pc
  · rw [quiet.accepted]
    exact law.once
  · rw [quiet.popped, Pool.running, quiet.jobs, quiet.executed]
    exact law.spent

theorem QueueLaw.quiet {t : Int} (law : QueueLaw t p) (quiet : Quiet p q) : QueueLaw t q := by
  refine ⟨law.toHistory.quiet quiet, ?_, ?_, ?_⟩
  · rw [quiet.taskSize, quiet.taskQue, law.sized]
  · rw [quiet.threadhold, law.threadhold]
  · rw [quiet.taskQue]
    exact law.within

/-- Moving a submission that has not returned leaves the others where they are. -/
theorem set_settled {submits : List (Submit τ)} {i j : Nat} {c d e : Submit τ}
    (here : submits[i]? = some c) (open_ : c.pc.final = false) (final : d.pc.final)
    (differs : i = j → e ≠ d) : (submits.set i e)[j]? = some d ↔ submits[j]? = some d := by
  by_cases same : i = j
  · subst same
    have inside := (List.getElem?_eq_some_iff.mp here).1
    rw [List.getElem?_set_self inside, here]
    constructor
    · intro eq
      exact absurd (Option.some.inj eq) (differs rfl)
    · intro eq
      obtain rfl := Option.some.inj eq
      rw [open_] at final
      contradiction
  · rw [List.getElem?_set_ne same]

theorem setSubmit_quiet {i : Nat} {c : Submit τ} {pc : SubmitPc} (here : p.submits[i]? = some c)
    (open_ : c.pc.final = false) (stays : pc.final = false) : Quiet p (setSubmit p i c pc) := by
  refine ⟨rfl, rfl, rfl, rfl, rfl, rfl, rfl, fun j d final => ?_⟩
  refine set_settled here open_ final fun _ same => ?_
  subst same
  simp [stays] at final

theorem setWorker_quiet {w : Nat} {worker : Worker τ σ} {pc : WorkerPc τ σ}
    (here : p.workers[w]? = some worker)
    (same : Worker.job ⟨worker.threadid, pc⟩ = worker.job) :
    Quiet p (setWorker p w worker pc) :=
  ⟨rfl, rfl, rfl, rfl, rfl, rfl, setWorker_jobs here same, fun _ _ _ => Iff.rfl⟩

theorem notifyNoEmpty_quiet (p : Pool τ ρ σ) : Quiet p (notifyNoEmpty p) :=
  ⟨rfl, rfl, rfl, rfl, rfl, rfl, notifyNoEmpty_jobs p, fun _ _ _ => Iff.rfl⟩

theorem notifyNotFull_quiet (p : Pool τ ρ σ) : Quiet p (notifyNotFull p) := by
  refine ⟨rfl, rfl, rfl, rfl, rfl, rfl, rfl, fun i d final => ?_⟩
  simp [notifyNotFull, wake_final final]

theorem startNext_quiet (next : StartStep p q) : Quiet p q ∧ q.results = p.results := by
  have launched (i : Nat) : Pool.jobs { p with workers := p.workers ++ [⟨i, .entering⟩] } =
      p.jobs := by
    simp [Pool.jobs, Worker.job]
  cases next with
  | launches i place more present =>
    exact ⟨⟨rfl, rfl, rfl, rfl, rfl, rfl, launched i, fun _ _ _ => Iff.rfl⟩, rfl⟩
  | setsRunning | setsInit | setsCur | creates | created | dereferencesNull | launched | counts =>
    exact ⟨quiet_of_same rfl rfl rfl rfl rfl rfl rfl rfl, rfl⟩

theorem exitTest_quiet (p : Pool τ ρ σ) : Quiet p (exitTest p) ∧ (exitTest p).results = p.results := by
  rw [exitTest_eq]
  exact ⟨quiet_of_same rfl rfl rfl rfl rfl rfl rfl rfl, rfl⟩

/-- What acceptance leaves in the fields the queue law looks at. -/
theorem acceptTask_fields (B : Backend τ ρ σ χ κ) (p : Pool τ ρ σ) (i : Nat) (c : Submit τ) :
    (acceptTask B p i c).taskQue = p.taskQue ++ [⟨c.task, i⟩] ∧
      (acceptTask B p i c).taskSize = (p.taskSize + 1) % 2 ^ 32 ∧
      (acceptTask B p i c).taskQueMaxThreadHold = p.taskQueMaxThreadHold ∧
      (acceptTask B p i c).submits = p.submits.set i { c with pc := .accepted } ∧
      (acceptTask B p i c).accepted = p.accepted ++ [⟨c.task, i⟩] ∧
      (acceptTask B p i c).popped = p.popped ∧ (acceptTask B p i c).executed = p.executed ∧
      (acceptTask B p i c).jobs = p.jobs := by
  obtain ⟨queue, size, hold, submits, accepted, popped, executed, jobs⟩ :=
    grow_keeps (enqueue p ⟨c.task, i⟩)
  exact ⟨queue, size, hold, congrArg (·.set i { c with pc := .accepted }) submits, accepted,
    popped, executed, jobs.trans (notifyNoEmpty_jobs _)⟩

/-- The predicate of the wait compares like integers when the bound is an int at least zero. -/
theorem hasRoom_iff (bounded : 0 ≤ p.taskQueMaxThreadHold ∧ p.taskQueMaxThreadHold < 2 ^ 31) :
    hasRoom p ↔ (p.taskQue.length : Int) < p.taskQueMaxThreadHold := by
  have plain : asSize p.taskQueMaxThreadHold = p.taskQueMaxThreadHold.toNat := by
    unfold asSize
    omega
  unfold hasRoom
  rw [plain]
  omega

theorem awake_open {pc : SubmitPc} (awake : pc.awake) : pc.final = false := by
  cases pc <;> simp_all [SubmitPc.awake, SubmitPc.final]

theorem acceptTask_history (law : History p) {i : Nat} {c : Submit τ}
    (here : p.submits[i]? = some c) (awake : c.pc.awake) : History (acceptTask B p i c) := by
  obtain ⟨queue, _, _, submits, accepted, popped, executed, jobs⟩ := acceptTask_fields B p i c
  have open_ := awake_open awake
  have unused : i ∉ p.accepted.map Entry.sub := by
    intro used
    obtain ⟨e, member, rfl⟩ := List.mem_map.mp used
    obtain ⟨d, there, done, _⟩ := law.owned e member
    obtain rfl : c = d := Option.some.inj (here.symm.trans there)
    simp [done, SubmitPc.final] at open_
  have inside := (List.getElem?_eq_some_iff.mp here).1
  refine ⟨?_, ?_, ?_, ?_, ?_⟩
  · rw [accepted, popped, queue, law.fifo, List.append_assoc]
  · intro e member
    rw [accepted] at member
    rw [submits]
    rcases List.mem_append.mp member with old | new
    · obtain ⟨d, there, done, task⟩ := law.owned e old
      have other : i ≠ e.sub := fun same => unused (List.mem_map.mpr ⟨e, old, same.symm⟩)
      exact ⟨d, (List.getElem?_set_ne other).trans there, done, task⟩
    · obtain rfl := List.mem_singleton.mp new
      exact ⟨{ c with pc := .accepted }, List.getElem?_set_self inside, rfl, rfl⟩
  · intro j d there done
    rw [submits] at there
    rw [accepted]
    by_cases same : i = j
    · subst same
      rw [List.getElem?_set_self inside] at there
      obtain rfl := Option.some.inj there
      simp
    · rw [List.getElem?_set_ne same] at there
      exact List.mem_append_left _ (law.recorded j d there done)
  · rw [accepted, List.map_append, List.nodup_append]
    refine ⟨law.once, by simp, ?_⟩
    intro a member b last same
    obtain rfl : b = i := by simpa using last
    exact unused (same ▸ member)
  · rw [popped, Pool.running, jobs, executed]
    exact law.spent

/-- A task enters the queue: the room test keeps the bound and the counter from wrapping. -/
theorem acceptTask_law {t : Int} (bounded : 0 ≤ t ∧ t < 2 ^ 31) (law : QueueLaw t p) {i : Nat}
    {c : Submit τ} (here : p.submits[i]? = some c) (awake : c.pc.awake) (room : hasRoom p) :
    QueueLaw t (acceptTask B p i c) := by
  obtain ⟨queue, size, hold, _, _, _, _, _⟩ := acceptTask_fields B p i c
  have below : (p.taskQue.length : Int) < t := by
    have plain := (hasRoom_iff (law.threadhold ▸ bounded)).mp room
    rwa [law.threadhold] at plain
  refine ⟨acceptTask_history law.toHistory here awake, ?_, hold.trans law.threadhold, ?_⟩
  · rw [size, queue, law.sized, List.length_append, List.length_singleton]
    omega
  · rw [queue, List.length_append, List.length_singleton]
    omega

/-- A rejected submission leaves the queue and its history alone. -/
theorem rejectTask_history (law : History p) {i : Nat} {c : Submit τ}
    (here : p.submits[i]? = some c) (open_ : c.pc.final = false) :
    History (rejectTask B p i c) := by
  have others (d : Submit τ) (j : Nat) (done : d.pc = .accepted) :
      (rejectTask B p i c).submits[j]? = some d ↔ p.submits[j]? = some d := by
    refine set_settled here open_ (by simp [done, SubmitPc.final]) fun _ same => ?_
    subst same
    simp at done
  refine ⟨law.fifo, ?_, ?_, law.once, law.spent⟩
  · intro e member
    obtain ⟨d, there, done, task⟩ := law.owned e member
    exact ⟨d, (others d _ done).mpr there, done, task⟩
  · intro j d there done
    exact law.recorded j d ((others d j done).mp there) done

theorem takeTask_quiet (B : Backend τ ρ σ χ κ) (p : Pool τ ρ σ) (w : Nat) (worker : Worker τ σ)
    (e : Entry τ) (rest : List (Entry τ)) :
    Quiet (popTask B p w worker e rest) (takeTask B p w worker e rest) ∧
      (takeTask B p w worker e rest).results = p.results := by
  unfold takeTask
  split
  · exact ⟨(notifyNoEmpty_quiet _).trans (notifyNotFull_quiet _), rfl⟩
  · exact ⟨notifyNotFull_quiet _, rfl⟩

theorem popTask_history (law : History p) {w : Nat} {worker : Worker τ σ} {e : Entry τ}
    {rest : List (Entry τ)} (here : p.workers[w]? = some worker) (awake : worker.pc.awake)
    (queue : p.taskQue = e :: rest) : History (popTask B p w worker e rest) := by
  refine ⟨?_, law.owned, law.recorded, law.once, ?_⟩
  · change p.accepted = p.popped ++ [e] ++ rest
    rw [law.fifo, queue, List.append_assoc, List.singleton_append]
  · obtain ⟨others, before, after⟩ := setWorker_jobs_perm here (.running e B.first)
    rw [awake_job awake] at before
    have gained : (popTask B p w worker e rest).running.Perm (e :: p.running) :=
      (after.trans (before.symm.cons (e, B.first))).map Prod.fst
    have spent : (p.popped ++ [e]).Perm (e :: (p.running ++ p.executed)) :=
      (List.perm_append_singleton e p.popped).trans (law.spent.cons e)
    exact spent.trans (gained.symm.append_right p.executed)

theorem popTask_law {t : Int} (bounded : 0 ≤ t ∧ t < 2 ^ 31) (law : QueueLaw t p) {w : Nat}
    {worker : Worker τ σ} {e : Entry τ} {rest : List (Entry τ)}
    (here : p.workers[w]? = some worker) (awake : worker.pc.awake)
    (queue : p.taskQue = e :: rest) : QueueLaw t (popTask B p w worker e rest) := by
  have length : p.taskQue.length = rest.length + 1 := by rw [queue, List.length_cons]
  have within := law.within
  have sized := law.sized
  refine ⟨popTask_history law.toHistory here awake queue, ?_, law.threadhold, ?_⟩
  · change (p.taskSize + 2 ^ 32 - 1) % 2 ^ 32 = rest.length
    omega
  · change (rest.length : Int) ≤ t
    omega

theorem finish_history (law : History p) {w : Nat} {worker : Worker τ σ} {e : Entry τ}
    {stage : σ} {results : ρ} (here : p.workers[w]? = some worker)
    (pc : worker.pc = .running e stage) :
    History (setWorker { p with results := results, executed := p.executed ++ [e] } w worker
      .ran) := by
  obtain ⟨others, before, after⟩ := setWorker_jobs_perm here .ran
  have own : worker.job = some (e, stage) := by simp [Worker.job, pc]
  rw [own] at before
  refine ⟨law.fifo, law.owned, law.recorded, law.once, ?_⟩
  have moved : (p.running ++ p.executed).Perm (others.map Prod.fst ++ (p.executed ++ [e])) := by
    refine ((before.map Prod.fst).append_right p.executed).trans ?_
    exact (List.perm_append_singleton e (others.map Prod.fst ++ p.executed)).symm.trans
      (by rw [List.append_assoc])
  exact law.spent.trans (moved.trans ((after.map Prod.fst).symm.append_right _))

/-- The next stage of a task is the same task for the history. -/
theorem exec_history (law : History p) {w : Nat} {worker : Worker τ σ} {e : Entry τ}
    {stage next : σ} {results : ρ} (here : p.workers[w]? = some worker)
    (pc : worker.pc = .running e stage) :
    History (setWorker { p with results := results } w worker (.running e next)) := by
  obtain ⟨others, before, after⟩ := setWorker_jobs_perm here (.running e next)
  have own : worker.job = some (e, stage) := by simp [Worker.job, pc]
  rw [own] at before
  refine ⟨law.fifo, law.owned, law.recorded, law.once, ?_⟩
  have same : p.running.Perm ((setWorker p w worker (.running e next)).running) :=
    (before.map Prod.fst).trans (after.map Prod.fst).symm
  exact law.spent.trans (same.append_right p.executed)

/-- A step as the queue and the backend see it. -/
inductive QueueMove (B : Backend τ ρ σ χ κ) (p q : Pool τ ρ σ) : Action τ χ κ → Prop where
  | quiet {a : Action τ χ κ} (quiet : Quiet p q) (results : q.results = p.results) :
      QueueMove B p q a
  | accepts {a : Action τ χ κ} {i : Nat} {c : Submit τ} (here : p.submits[i]? = some c) (awake : c.pc.awake)
      (room : hasRoom p) (after : q = acceptTask B p i c) : QueueMove B p q a
  | rejects {a : Action τ χ κ} {i : Nat} {c : Submit τ} (here : p.submits[i]? = some c) (pc : c.pc = .timedOut)
      (full : ¬ hasRoom p) (after : q = rejectTask B p i c) : QueueMove B p q a
  | takes {a : Action τ χ κ} {w : Nat} {worker : Worker τ σ} {e : Entry τ} {rest : List (Entry τ)}
      (here : p.workers[w]? = some worker) (awake : worker.pc.awake)
      (queue : p.taskQue = e :: rest) (quiet : Quiet (popTask B p w worker e rest) q)
      (results : q.results = p.results) : QueueMove B p q a
  | execs {a : Action τ χ κ} {x : χ} {w : Nat} {worker : Worker τ σ} {e : Entry τ} {stage next : σ} {results : ρ}
      (here : p.workers[w]? = some worker) (pc : worker.pc = .running e stage)
      (ran : B.exec p.results e stage x = some (results, some next))
      (after : q = setWorker { p with results := results } w worker (.running e next)) :
      QueueMove B p q a
  | finishes {a : Action τ χ κ} {x : χ} {w : Nat} {worker : Worker τ σ} {e : Entry τ} {stage : σ} {results : ρ}
      (here : p.workers[w]? = some worker) (pc : worker.pc = .running e stage)
      (ran : B.exec p.results e stage x = some (results, none))
      (after : q = setWorker { p with results := results, executed := p.executed ++ [e] } w worker
        .ran) : QueueMove B p q a
  | clients {k : κ} (quiet : Quiet p q) (done : B.client p.results k = some q.results) :
      QueueMove B p q (.client k)

theorem outcome_move {a : Action τ χ κ} (outcome : Outcome B p a q) : QueueMove B p q a := by
  cases outcome with
  | called task =>
    refine .quiet ⟨rfl, rfl, rfl, rfl, rfl, rfl, rfl, fun i d final => ?_⟩ rfl
    rw [List.getElem?_append]
    split
    · rfl
    · rename_i beyond
      have absent : p.submits[i]? = none := List.getElem?_eq_none (Nat.le_of_not_lt beyond)
      rw [absent]
      constructor
      · intro there
        obtain rfl : ⟨task, .entering⟩ = d := by
          have member := List.mem_of_getElem? there
          exact (List.mem_singleton.mp member).symm
        simp [SubmitPc.final] at final
      · simp
  | accepts here awake room => exact .accepts here awake room rfl
  | rejects here pc full => exact .rejects here pc full rfl
  | submitWaits here awake full => exact .quiet (setSubmit_quiet here (awake_open awake) rfl) rfl
  | submitAwakes here blocked how =>
    refine .quiet (setSubmit_quiet here (by simp [blocked, SubmitPc.final]) ?_) rfl
    rcases how with ⟨_, rfl⟩ | ⟨_, rfl⟩ <;> rfl
  | submitLate here woken =>
    exact .quiet (setSubmit_quiet here (by simp [woken, SubmitPc.final]) rfl) rfl
  | starts next => exact .quiet (startNext_quiet next).1 (startNext_quiet next).2
  | takes here awake queue =>
    obtain ⟨quiet, results⟩ := takeTask_quiet B p _ _ _ _
    exact .takes here awake queue quiet results
  | exits here awake empty stopped =>
    refine .quiet ⟨rfl, rfl, rfl, rfl, rfl, rfl, ?_, fun _ _ _ => Iff.rfl⟩ rfl
    exact setWorker_jobs here (awake_job awake).symm
  | waits here awake empty running =>
    exact .quiet (setWorker_quiet here (awake_job awake).symm) rfl
  | retires here pc surplus =>
    refine .quiet ⟨rfl, rfl, rfl, rfl, rfl, rfl, ?_, fun _ _ _ => Iff.rfl⟩ rfl
    exact setWorker_jobs here (by simp [Worker.job, pc])
  | workerAwakes here blocked how =>
    refine .quiet (setWorker_quiet here ?_) rfl
    rcases how with ⟨_, _, rfl⟩ | ⟨_, rfl⟩ <;> simp [Worker.job, blocked]
  | workerLate here woken => exact .quiet (setWorker_quiet here (by simp [Worker.job, woken])) rfl
  | execs here pc ran => exact .execs here pc ran rfl
  | finishes here pc ran => exact .finishes here pc ran rfl
  | idles here pc =>
    refine .quiet ⟨rfl, rfl, rfl, rfl, rfl, rfl, ?_, fun _ _ _ => Iff.rfl⟩ rfl
    exact setWorker_jobs here (by simp [Worker.job, pc])
  | destroyTests flagged =>
    exact .quiet ((notifyNoEmpty_quiet p).trans (exitTest_quiet _).1) (exitTest_quiet _).2
  | destroyRetests woken => exact .quiet (exitTest_quiet p).1 (exitTest_quiet p).2
  | clients done =>
    exact .clients (quiet_of_same rfl rfl rfl rfl rfl rfl rfl rfl) done
  | startCalled | flagged | destroyStirred | others =>
    exact .quiet (quiet_of_same rfl rfl rfl rfl rfl rfl rfl rfl) rfl

theorem move_history {a : Action τ χ κ} (law : History p) (move : QueueMove B p q a) :
    History q := by
  cases move with
  | quiet quiet results => exact law.quiet quiet
  | accepts here awake room after => exact after ▸ acceptTask_history law here awake
  | rejects here pc full after =>
    exact after ▸ rejectTask_history law here (by simp [pc, SubmitPc.final])
  | takes here awake queue quiet results => exact (popTask_history law here awake queue).quiet quiet
  | execs here pc ran after => exact after ▸ exec_history law here pc
  | finishes here pc ran after => exact after ▸ finish_history law here pc
  | clients quiet done => exact law.quiet quiet

theorem move_law {t : Int} {a : Action τ χ κ} (bounded : 0 ≤ t ∧ t < 2 ^ 31) (law : QueueLaw t p)
    (move : QueueMove B p q a) : QueueLaw t q := by
  have history := move_history law.toHistory move
  cases move with
  | quiet quiet results => exact law.quiet quiet
  | accepts here awake room after => exact after ▸ acceptTask_law bounded law here awake room
  | rejects here pc full after | execs here pc ran after | finishes here pc ran after =>
    subst after
    exact ⟨history, law.sized, law.threadhold, law.within⟩
  | takes here awake queue quiet results =>
    exact (popTask_law bounded law here awake queue).quiet quiet
  | clients quiet done => exact law.quiet quiet

theorem running_job {w : Nat} {worker : Worker τ σ} {e : Entry τ} {stage : σ}
    (here : p.workers[w]? = some worker) (pc : worker.pc = .running e stage) :
    (e, stage) ∈ p.jobs := by
  refine List.mem_filterMap.mpr ⟨worker, Agents.mem_of_position here, ?_⟩
  simp [Worker.job, pc]

theorem job_popped (law : History p) {job : Entry τ × σ} (member : job ∈ p.jobs) :
    job.1 ∈ p.popped :=
  law.spent.mem_iff.mpr (List.mem_append_left _ (List.mem_map.mpr ⟨job, member, rfl⟩))

theorem running_popped (law : History p) {w : Nat} {worker : Worker τ σ}
    {e : Entry τ} {stage : σ} (here : p.workers[w]? = some worker)
    (pc : worker.pc = .running e stage) : e ∈ p.popped :=
  job_popped law (running_job here pc)

theorem popped_accepted (law : History p) {e : Entry τ} (popped : e ∈ p.popped) :
    e ∈ p.accepted := by
  rw [law.fifo]
  exact List.mem_append_left _ popped

theorem queued_accepted (law : History p) {e : Entry τ} (queued : e ∈ p.taskQue) :
    e ∈ p.accepted := by
  rw [law.fifo]
  exact List.mem_append_right _ queued

theorem executed_accepted (law : History p) {e : Entry τ} (executed : e ∈ p.executed) :
    e ∈ p.accepted :=
  popped_accepted law (law.spent.mem_iff.mpr (List.mem_append_right _ executed))

/-- Running, executed and queued entries belong to different submissions. -/
theorem places_distinct (law : History p) :
    ((p.running ++ p.executed ++ p.taskQue).map Entry.sub).Nodup := by
  have same : (p.running ++ p.executed ++ p.taskQue).Perm p.accepted := by
    rw [law.fifo]
    exact law.spent.symm.append_right p.taskQue
  exact (same.map Entry.sub).nodup_iff.mpr law.once

theorem job_apart (law : History p) {job : Entry τ × σ} {others : List (Entry τ × σ)}
    (split : p.jobs.Perm (job :: others)) :
    (∀ other ∈ others, other.1.sub ≠ job.1.sub) ∧ (∀ e ∈ p.executed, e.sub ≠ job.1.sub) ∧
      ∀ e ∈ p.taskQue, e.sub ≠ job.1.sub := by
  have distinct := places_distinct law
  have first : p.running.Perm (job.1 :: others.map Prod.fst) := split.map Prod.fst
  rw [((first.append_right p.executed).append_right p.taskQue).map Entry.sub |>.nodup_iff,
    List.cons_append, List.cons_append, List.map_cons, List.nodup_cons] at distinct
  refine ⟨?_, ?_, ?_⟩
  · intro other member same
    refine distinct.1 (List.mem_map.mpr ⟨other.1, ?_, same⟩)
    exact List.mem_append_left _ (List.mem_append_left _ (List.mem_map.mpr ⟨other, member, rfl⟩))
  · intro e member same
    refine distinct.1 (List.mem_map.mpr ⟨e, ?_, same⟩)
    exact List.mem_append_left _ (List.mem_append_right _ member)
  · intro e member same
    exact distinct.1 (List.mem_map.mpr ⟨e, List.mem_append_right _ member, same⟩)

theorem executed_apart (law : History p) {e e' : Entry τ} (executed : e ∈ p.executed)
    (elsewhere : e' ∈ p.running ∨ e' ∈ p.taskQue) : e'.sub ≠ e.sub := by
  have distinct := places_distinct law
  rw [List.map_append, List.map_append, List.nodup_append, List.nodup_append] at distinct
  obtain ⟨⟨_, _, apart⟩, _, apart'⟩ := distinct
  have inside : e.sub ∈ p.executed.map Entry.sub := List.mem_map.mpr ⟨e, executed, rfl⟩
  rcases elsewhere with running | queued
  · exact apart _ (List.mem_map.mpr ⟨e', running, rfl⟩) _ inside
  · exact (apart' _ (List.mem_append_right _ inside) _ (List.mem_map.mpr ⟨e', queued, rfl⟩)).symm

/-- A submission that was not accepted owns no entry anywhere in the pool. -/
theorem unaccepted_unowned (law : History p) {i : Nat} {c : Submit τ}
    (here : p.submits[i]? = some c) (pc : c.pc ≠ .accepted) {e : Entry τ}
    (member : e ∈ p.accepted) : e.sub ≠ i := by
  intro same
  obtain ⟨d, there, done, _⟩ := law.owned e member
  obtain rfl : c = d := Option.some.inj (here.symm.trans (same ▸ there))
  exact pc done

theorem reachable_history {generateID : Nat} {results : ρ} {mode : PoolMode}
    {threadhold threshold : Int}
    (reached : Machine.Reachable (step B)
      (configured generateID results mode threadhold threshold) p) : History p := by
  refine reached.invariant ?_ fun _ law _ taken =>
    move_history law (outcome_move (step_outcome taken).2)
  rw [configured_fields]
  exact ⟨rfl, by simp [newPool], by simp [newPool], by simp [newPool], List.Perm.refl _⟩

theorem reachable_law {t : Int} (bounded : 0 ≤ t ∧ t < 2 ^ 31) {generateID : Nat} {results : ρ}
    {mode : PoolMode} {threshold : Int}
    (reached : Machine.Reachable (step B) (configured generateID results mode t threshold) p) :
    QueueLaw t p := by
  refine reached.invariant ?_ fun _ law _ taken =>
    move_law bounded law (outcome_move (step_outcome taken).2)
  have history : History (configured generateID results mode t threshold : Pool τ ρ σ) :=
    reachable_history (B := B) .start
  rw [configured_fields] at history ⊢
  exact ⟨history, rfl, rfl, bounded.1⟩

end ThreadPool
