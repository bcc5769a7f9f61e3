import ServerPools.Threads.Queue
import ServerPools.Threads.ResultView

/- Where the value of a task goes. Task::result_ is one pointer that every constructor of a
   Result overwrites, also the one of a rejected call, and Task::exec reads it when it runs. -/
namespace TaskResult
open ThreadPool
variable {τ α : Type} {p q : ResultPool τ α} {s s' : Side τ α}

/-- The Result that exec has read, once it has. -/
def Stage.target : Stage α → Option Nat
  | .test | .load => none
  | .runTask i | .store i _ | .post i => some i

/-- The Result that an execution delivers to, as things stand. -/
def Side.aim (s : Side τ α) (job : Entry τ × Stage α) : Option Nat :=
  match job.2.target with
  | some i => some i
  | none => s.result job.1.task

/-- The stores that an execution has made. -/
def Stage.stored : Stage α → Nat
  | .post _ => 1
  | _ => 0

def Side.setVals (s : Side τ α) (i : Nat) : Option Nat := (s.objects i).map Result.setVals
def Side.lives (s : Side τ α) (i : Nat) : Option Bool := (s.objects i).map Result.live

/-- No queued task and no execution that has yet to read the pointer is of this task. -/
def Unread (p : ResultPool τ α) (task : τ) : Prop :=
  (∀ e ∈ p.taskQue, e.task ≠ task) ∧ ∀ job ∈ p.jobs, job.2.target = none → job.1.task ≠ task

/-- A call of subMitTask that returns is not about a task that an earlier accepted call has
    queued or handed to a thread that has yet to read the pointer. -/
def TasksApart (p : ResultPool τ α) : Action τ (Any α) ClientAction → Prop
  | .submit i => ∀ c ∈ p.submits[i]?, c.pc.awake → (hasRoom p ∨ c.pc = .timedOut) → Unread p c.task
  | _ => True

/-- A step of one call of get changes what a Result holds, not how it was delivered to. -/
theorem getStep_kept {r r' : Result α} {pc pc' : GetPc α} (taken : GetStep r pc r' pc') :
    r'.setVals = r.setVals ∧ r'.live = r.live := by
  cases taken <;> exact ⟨rfl, rfl⟩

theorem viewMove_kept {i : Nat} {v v' : View α} {k : ClientAction} (move : ViewMove i v v' k) :
    v'.object.map Result.setVals = v.object.map Result.setVals ∧
      (k ≠ .drop i → v'.object.map Result.live = v.object.map Result.live) := by
  cases move with
  | called object live after =>
    subst after
    exact ⟨rfl, fun _ => rfl⟩
  | moved object taken before object' produced' after =>
    obtain ⟨setVals, live⟩ := getStep_kept taken
    rw [object, object']
    exact ⟨congrArg some setVals, fun _ => congrArg some live⟩
  | stirred object' produced' before after =>
    rw [object']
    exact ⟨rfl, fun _ => rfl⟩
  | dropped object live idle after =>
    subst after
    rw [object]
    exact ⟨rfl, fun other => absurd rfl other⟩

/-- What the clients leave as it is. -/
theorem client_kept {k : ClientAction} (taken : client s k = some s') :
    s'.result = s.result ∧ (∀ i, s'.setVals i = s.setVals i) ∧
      ∀ i, k ≠ .drop i → s'.lives i = s.lives i := by
  obtain ⟨result, i, away, move⟩ := client_moved taken
  obtain ⟨setVals, live⟩ := viewMove_kept move
  have others {j : Nat} (other : j ≠ i) : s'.objects j = s.objects j :=
    congrArg View.object (away j other)
  refine ⟨result, fun j => ?_, fun j kept => ?_⟩
  · by_cases same : j = i
    · exact same ▸ setVals
    · unfold Side.setVals
      rw [others same]
  · by_cases same : j = i
    · exact same ▸ live (same ▸ kept)
    · unfold Side.lives
      rw [others same]

theorem setObject_kept (s : Side τ α) {i : Nat} {r : Result α} (r' : Result α)
    (here : s.objects i = some r) :
    (r'.setVals = r.setVals → ∀ j, (setObject s i r').setVals j = s.setVals j) ∧
      (r'.live = r.live → ∀ j, (setObject s i r').lives j = s.lives j) := by
  constructor <;> intro same j <;> by_cases own : j = i
  · subst own
    simp [Side.setVals, setObject, here, same]
  · simp [Side.setVals, setObject, Function.update_of_ne own]
  · subst own
    simp [Side.lives, setObject, here, same]
  · simp [Side.lives, setObject, Function.update_of_ne own]

theorem post_kept {i : Nat} (taken : post s i = some s') :
    s'.result = s.result ∧ (∀ j, s'.setVals j = s.setVals j) ∧ ∀ j, s'.lives j = s.lives j := by
  unfold post at taken
  split at taken
  · contradiction
  · rename_i r here
    split at taken <;> cases taken
    · exact ⟨rfl, fun _ => rfl, fun _ => rfl⟩
    · obtain ⟨setVals, lives⟩ := setObject_kept s
        { r with sem := { r.sem with resLimit := r.sem.resLimit + 1 } } here
      exact ⟨rfl, setVals rfl, lives rfl⟩

/-- One step of Task::exec reads the pointer or works on the Result that was read. -/
theorem exec_kept {e : Entry τ} {stage : Stage α} {value : Any α} {next : Option (Stage α)}
    (taken : exec s e stage value = some (s', next)) :
    s'.result = s.result ∧ (∀ j, s'.lives j = s.lives j) ∧
      (∀ later, next = some later → s'.aim (e, later) = s.aim (e, stage)) ∧
      ∀ j, s.aim (e, stage) ≠ some j → s'.setVals j = s.setVals j := by
  cases stage with
  | test =>
    simp only [exec] at taken
    split at taken <;> cases taken
    · exact ⟨rfl, fun _ => rfl, by simp, fun _ _ => rfl⟩
    · refine ⟨rfl, fun _ => rfl, ?_, fun _ _ => rfl⟩
      rintro later ⟨⟩
      rfl
  | load =>
    obtain ⟨i, read, after⟩ := Option.map_eq_some_iff.mp taken
    cases after
    refine ⟨rfl, fun _ => rfl, ?_, fun _ _ => rfl⟩
    rintro later ⟨⟩
    exact read.symm
  | runTask i =>
    cases taken
    refine ⟨rfl, fun _ => rfl, ?_, fun _ _ => rfl⟩
    rintro later ⟨⟩
    rfl
  | store i any =>
    obtain ⟨r, here, after⟩ := Option.map_eq_some_iff.mp taken
    cases after
    refine ⟨rfl, (setObject_kept s { r with any := any, setVals := r.setVals + 1 } here).2 rfl, ?_, fun j other => ?_⟩
    · rintro later ⟨⟩
      rfl
    · have apart : j ≠ i := fun same => other (congrArg some same.symm)
      simp [Side.setVals, setObject, Function.update_of_ne apart]
  | post i =>
    obtain ⟨after, posted, same⟩ := Option.map_eq_some_iff.mp taken
    cases same
    obtain ⟨result, setVals, lives⟩ := post_kept posted
    exact ⟨result, lives, by simp, fun j _ => setVals j⟩

/-- The execution that delivers to i has stored there what its stage says. -/
theorem exec_delivers {e : Entry τ} {stage : Stage α} {value : Any α} {next : Option (Stage α)}
    {i : Nat} (aim : s.aim (e, stage) = some i) (stored : s.setVals i = some stage.stored)
    (taken : exec s e stage value = some (s', next)) :
    (∀ later, next = some later → s'.setVals i = some later.stored) ∧
      (next = none → s'.setVals i = some 1) := by
  cases stage with
  | test =>
    have pointed : s.result e.task = some i := aim
    simp only [exec, pointed] at taken
    cases taken
    refine ⟨?_, by simp⟩
    rintro later ⟨⟩
    exact stored
  | load =>
    obtain ⟨k, read, after⟩ := Option.map_eq_some_iff.mp taken
    cases after
    refine ⟨?_, by simp⟩
    rintro later ⟨⟩
    exact stored
  | runTask k =>
    cases taken
    refine ⟨?_, by simp⟩
    rintro later ⟨⟩
    exact stored
  | store k any =>
    obtain rfl : k = i := Option.some.inj aim
    obtain ⟨r, here, after⟩ := Option.map_eq_some_iff.mp taken
    cases after
    refine ⟨?_, by simp⟩
    rintro later ⟨⟩
    have before : r.setVals = 0 := by simpa [Side.setVals, here, Stage.stored] using stored
    simp [Side.setVals, setObject, Stage.stored, before]
  | post k =>
    obtain ⟨after, posted, same⟩ := Option.map_eq_some_iff.mp taken
    cases same
    refine ⟨by simp, fun _ => ?_⟩
    rw [(post_kept posted).2.1 i]
    exact stored

/-- Every accepted submission that has not been executed has its own Result as the target, and
    that Result has received what the place of the task says. -/
structure Aimed (p : ResultPool τ α) : Prop where
  queued : ∀ e ∈ p.taskQue, p.results.result e.task = some e.sub ∧ p.results.setVals e.sub = some 0
  running : ∀ job ∈ p.jobs, p.results.aim job = some job.1.sub ∧
    p.results.setVals job.1.sub = some job.2.stored
  executed : ∀ e ∈ p.executed, p.results.setVals e.sub = some 1

theorem Aimed.kept (aimed : Aimed p) (queue : q.taskQue = p.taskQue) (jobs : q.jobs = p.jobs)
    (executed : q.executed = p.executed) (result : q.results.result = p.results.result)
    (setVals : ∀ i, q.results.setVals i = p.results.setVals i) : Aimed q := by
  refine ⟨?_, ?_, ?_⟩
  · intro e member
    rw [result, setVals]
    exact aimed.queued e (queue ▸ member)
  · intro job member
    obtain ⟨aim, stored⟩ := aimed.running job (jobs ▸ member)
    refine ⟨?_, (setVals _).trans stored⟩
    unfold Side.aim at aim ⊢
    rw [result]
    exact aim
  · intro e member
    rw [setVals]
    exact aimed.executed e (executed ▸ member)

section Construct
variable [DecidableEq τ]

theorem construct_pointer (s : Side τ α) (isValid : Bool) (i : Nat) (task : τ) :
    (construct isValid s i task).result task = some i ∧
      ∀ other, other ≠ task → (construct isValid s i task).result other = s.result other := by
  constructor
  · simp [construct, setResult]
  · intro other apart
    simp [construct, setResult, setObject, Function.update_of_ne apart]

theorem construct_setVals (s : Side τ α) (isValid : Bool) (i : Nat) (task : τ) :
    (construct isValid s i task).setVals i = some 0 ∧
      ∀ j, j ≠ i → (construct isValid s i task).setVals j = s.setVals j := by
  constructor
  · simp [construct, setResult, setObject, Side.setVals]
  · intro j other
    simp [construct, setResult, setObject, Side.setVals, Function.update_of_ne other]

/-- What both returns of subMitTask have in common, when the task is free. -/
theorem constructs_aimed (aimed : Aimed p) (history : History p) {i : Nat} {c : Submit τ}
    (isValid : Bool) (here : p.submits[i]? = some c) (open_ : c.pc.final = false)
    (free : Unread p c.task) (results : q.results = construct isValid p.results i c.task)
    (jobs : q.jobs = p.jobs) (executed : q.executed = p.executed)
    (queued : ∀ e ∈ q.taskQue, e ∈ p.taskQue ∨ e = ⟨c.task, i⟩) : Aimed q := by
  obtain ⟨pointer, pointers⟩ := construct_pointer p.results isValid i c.task
  obtain ⟨fresh, setVals⟩ := construct_setVals p.results isValid i c.task
  have other {e : Entry τ} (member : e ∈ p.accepted) : e.sub ≠ i := by
    refine unaccepted_unowned history here ?_ member
    intro accepted
    simp [accepted, SubmitPc.final] at open_
  refine ⟨?_, ?_, ?_⟩
  · intro e member
    rw [results]
    rcases queued e member with before | rfl
    · obtain ⟨pointed, stored⟩ := aimed.queued e before
      rw [pointers _ (free.1 e before), setVals _ (other (queued_accepted history before))]
      exact ⟨pointed, stored⟩
    · exact ⟨pointer, fresh⟩
  · intro job member
    rw [jobs] at member
    obtain ⟨aim, stored⟩ := aimed.running job member
    rw [results, setVals _ (other (popped_accepted history (job_popped history member)))]
    refine ⟨?_, stored⟩
    have unread := free.2 job member
    unfold Side.aim at aim ⊢
    split
    · rename_i target read
      simpa [read] using aim
    · rename_i read
      rw [pointers _ (unread read)]
      simpa [read] using aim
  · intro e member
    rw [executed] at member
    rw [results, setVals _ (other (executed_accepted history member))]
    exact aimed.executed e member

end Construct

/-- One execution takes a step; the others deliver elsewhere. -/
theorem steps_aimed (aimed : Aimed p) (history : History p) {e : Entry τ} {stage : Stage α}
    {value : Any α} {next : Option (Stage α)} {others : List (Entry τ × Stage α)}
    (split : p.jobs.Perm ((e, stage) :: others))
    (taken : exec p.results e stage value = some (q.results, next)) (queue : q.taskQue = p.taskQue)
    (jobs : ∀ job ∈ q.jobs, job ∈ others ∨ ∃ later, next = some later ∧ job = (e, later))
    (executed : ∀ d ∈ q.executed, d ∈ p.executed ∨ next = none ∧ d = e) : Aimed q := by
  obtain ⟨apart_running, apart_executed, apart_queued⟩ := job_apart history split
  obtain ⟨aim, stored⟩ := aimed.running _ (split.mem_iff.mpr (List.mem_cons_self ..))
  obtain ⟨result, _, aims, setVals⟩ := exec_kept taken
  obtain ⟨running, done⟩ := exec_delivers aim stored taken
  have away {j : Nat} (other : j ≠ e.sub) : q.results.setVals j = p.results.setVals j := by
    refine setVals j fun same => other ?_
    exact (Option.some.inj (aim.symm.trans same)).symm
  refine ⟨?_, ?_, ?_⟩
  · intro d member
    rw [queue] at member
    rw [result, away (apart_queued d member)]
    exact aimed.queued d member
  · intro job member
    rcases jobs job member with other | ⟨later, going, rfl⟩
    · obtain ⟨aim', stored'⟩ := aimed.running job (split.mem_iff.mpr (List.mem_cons_of_mem _ other))
      rw [away (apart_running job other)]
      refine ⟨?_, stored'⟩
      unfold Side.aim at aim' ⊢
      rw [result]
      exact aim'
    · exact ⟨(aims later going).trans aim, running later going⟩
  · intro d member
    rcases executed d member with before | ⟨ended, rfl⟩
    · rw [away (apart_executed d before)]
      exact aimed.executed d before
    · exact done ended

variable [DecidableEq τ]

/-- A step as the deliveries see it. -/
inductive DeliveryMove (p q : ResultPool τ α) : Action τ (Any α) ClientAction → Prop where
  | quiet {a : Action τ (Any α) ClientAction} (queue : q.taskQue = p.taskQue) (jobs : q.jobs = p.jobs)
      (executed : q.executed = p.executed) (results : q.results = p.results) : DeliveryMove p q a
  | constructs {i : Nat} {c : Submit τ} (isValid : Bool) (here : p.submits[i]? = some c)
      (awake : c.pc.awake) (returns : hasRoom p ∨ c.pc = .timedOut)
      (results : q.results = construct isValid p.results i c.task) (jobs : q.jobs = p.jobs)
      (executed : q.executed = p.executed)
      (queued : ∀ e ∈ q.taskQue, e ∈ p.taskQue ∨ e = ⟨c.task, i⟩) : DeliveryMove p q (.submit i)
  | takes {a : Action τ (Any α) ClientAction} {e : Entry τ} {rest : List (Entry τ)}
      (queue : p.taskQue = e :: rest) (queue' : q.taskQue = rest)
      (jobs : q.jobs.Perm ((e, .test) :: p.jobs)) (executed : q.executed = p.executed)
      (results : q.results = p.results) : DeliveryMove p q a
  | steps {a : Action τ (Any α) ClientAction} {e : Entry τ} {stage : Stage α} {value : Any α}
      {next : Option (Stage α)} {others : List (Entry τ × Stage α)}
      (split : p.jobs.Perm ((e, stage) :: others))
      (taken : exec p.results e stage value = some (q.results, next)) (queue : q.taskQue = p.taskQue)
      (jobs : ∀ job ∈ q.jobs, job ∈ others ∨ ∃ later, next = some later ∧ job = (e, later))
      (executed : ∀ d ∈ q.executed, d ∈ p.executed ∨ next = none ∧ d = e) : DeliveryMove p q a
  | clients {k : ClientAction} (done : client p.results k = some q.results)
      (queue : q.taskQue = p.taskQue) (jobs : q.jobs = p.jobs) (executed : q.executed = p.executed) :
      DeliveryMove p q (.client k)

theorem outcome_delivery {a : Action τ (Any α) ClientAction} (outcome : Outcome resultBackend p a q) :
    DeliveryMove p q a := by
  have quiet {r : ResultPool τ α} (quiet : Quiet p r) (results : r.results = p.results) :
      DeliveryMove p r a := .quiet quiet.taskQue quiet.jobs quiet.executed results
  cases outcome with
  | @accepts i c here awake room =>
    obtain ⟨queue, _, _, _, _, _, executed, jobs⟩ := acceptTask_fields resultBackend p i c
    refine .constructs true here awake (Or.inl room) rfl jobs executed fun e member => ?_
    rw [queue, List.mem_append, List.mem_singleton] at member
    exact member
  | @rejects i c here pc full =>
    exact .constructs false here (by simp [pc, SubmitPc.awake]) (Or.inr pc) rfl rfl rfl fun _ => Or.inl
  | @takes w idleLong worker e rest here awake queue =>
    obtain ⟨same, results⟩ := takeTask_quiet (resultBackend : Backend τ (Side τ α) _ _ _) p w worker e rest
    obtain ⟨others, before, after⟩ := setWorker_jobs_perm here (.running e Stage.test)
    rw [awake_job awake] at before
    refine .takes queue same.taskQue ?_ same.executed results
    rw [same.jobs]
    exact after.trans (before.symm.cons (e, Stage.test))
  | @execs w x worker e stage next results here pc ran =>
    obtain ⟨others, before, changed⟩ := setWorker_jobs_perm here (.running e next)
    have own : worker.job = some (e, stage) := by simp [Worker.job, pc]
    rw [own] at before
    refine .steps before ran rfl (fun job member => ?_) fun _ => Or.inl
    rcases List.mem_cons.mp (changed.mem_iff.mp member) with rfl | old
    · exact Or.inr ⟨next, rfl, rfl⟩
    · exact Or.inl old
  | @finishes w x worker e stage results here pc ran =>
    obtain ⟨others, before, changed⟩ := setWorker_jobs_perm here .ran
    have own : worker.job = some (e, stage) := by simp [Worker.job, pc]
    rw [own] at before
    refine .steps before ran rfl (fun job member => Or.inl (changed.mem_iff.mp member)) ?_
    intro d member
    rcases List.mem_append.mp member with old | new
    · exact Or.inl old
    · exact Or.inr ⟨rfl, List.mem_singleton.mp new⟩
  | clients done => exact .clients done rfl rfl rfl
  | starts next => exact quiet (startNext_quiet next).1 (startNext_quiet next).2
  | exits here awake empty stopped =>
    exact .quiet rfl (setWorker_jobs here (awake_job awake).symm) rfl rfl
  | waits here awake empty running =>
    exact .quiet rfl (setWorker_jobs here (awake_job awake).symm) rfl rfl
  | retires here pc surplus =>
    exact .quiet rfl (setWorker_jobs here (by simp [Worker.job, pc])) rfl rfl
  | workerAwakes here blocked how =>
    refine .quiet rfl (setWorker_jobs here ?_) rfl rfl
    rcases how with ⟨_, _, rfl⟩ | ⟨_, rfl⟩ <;> simp [Worker.job, blocked]
  | workerLate here woken =>
    exact .quiet rfl (setWorker_jobs here (by simp [Worker.job, woken])) rfl rfl
  | idles here pc => exact .quiet rfl (setWorker_jobs here (by simp [Worker.job, pc])) rfl rfl
  | destroyTests flagged =>
    exact quiet ((notifyNoEmpty_quiet p).trans (exitTest_quiet _).1) (exitTest_quiet _).2
  | destroyRetests woken => exact quiet (exitTest_quiet p).1 (exitTest_quiet p).2
  | called | submitWaits | submitAwakes | submitLate | startCalled | flagged | destroyStirred
  | others =>
    exact .quiet rfl rfl rfl rfl

theorem move_aimed {a : Action τ (Any α) ClientAction} (aimed : Aimed p) (history : History p)
    (permit : TasksApart p a) (move : DeliveryMove p q a) : Aimed q := by
  cases move with
  | quiet queue jobs executed results =>
    exact aimed.kept queue jobs executed (by rw [results]) fun i => by rw [results]
  | constructs isValid here awake returns results jobs executed queued =>
    exact constructs_aimed aimed history isValid here (awake_open awake) (permit _ here awake returns)
      results jobs executed queued
  | @takes _ e rest queue queue' jobs executed results =>
    refine ⟨?_, ?_, ?_⟩ <;> rw [results]
    · intro d member
      exact aimed.queued d (queue ▸ List.mem_cons_of_mem _ (queue' ▸ member))
    · intro job member
      rcases List.mem_cons.mp (jobs.mem_iff.mp member) with rfl | old
      · exact aimed.queued e (queue ▸ List.mem_cons_self ..)
      · exact aimed.running job old
    · rw [executed]
      exact aimed.executed
  | steps split taken queue jobs executed =>
    exact steps_aimed aimed history split taken queue jobs executed
  | clients done queue jobs executed =>
    obtain ⟨result, setVals, _⟩ := client_kept done
    exact aimed.kept queue jobs executed result setVals

theorem reachable_aimed {generateID : Nat} {mode : PoolMode} {threadhold threshold : Int}
    (reached : Machine.Reach (step resultBackend) TasksApart
      (configured generateID emptySide mode threadhold threshold) p) : Aimed p := by
  refine reached.invariant ?_ fun before aimed permit taken =>
    move_aimed aimed (reachable_history before.reachable) permit (outcome_delivery (step_outcome taken).2)
  rw [configured_fields]
  refine ⟨?_, ?_, ?_⟩ <;> simp [newPool, Pool.jobs]

/-- A call that is rejected changes no field of the pool: only the caller's Result and the
    place of the call are new. -/
theorem rejected_frame {i : Nat} (taken : step resultBackend p (.submit i) = some q) {c : Submit τ}
    (here : q.submits[i]? = some c) (rejected : c.pc = .rejected) :
    q = { p with results := q.results, submits := q.submits } := by
  cases (step_outcome taken).2 with
  | accepts there awake room =>
    rw [(acceptTask_fields resultBackend p i _).2.2.2.1] at here
    have inside := (List.getElem?_eq_some_iff.mp there).1
    rw [List.getElem?_set_self inside] at here
    cases here
    simp at rejected
  | rejects there pc full => rfl
  | submitWaits there awake full => rfl
  | submitAwakes there blocked how => simp at how
  | workerAwakes there blocked how => simp at how

/-- In runs in which no call is about a task that an earlier one still has pending, each
    accepted submission keeps its own Result as the target and is delivered to it once. In
    every run a rejected call leaves the pool as it was. -/
theorem submissions_kept {generateID : Nat} {mode : PoolMode} {threadhold threshold : Int}
    (reached : Machine.Reach (step resultBackend) TasksApart
      (configured generateID emptySide mode threadhold threshold) p) :
    Aimed p ∧ ∀ (p q : ResultPool τ α) (i : Nat) (c : Submit τ),
      step resultBackend p (.submit i) = some q → q.submits[i]? = some c → c.pc = .rejected →
      q = { p with results := q.results, submits := q.submits } :=
  ⟨reachable_aimed reached, fun _ _ _ _ taken here rejected => rejected_frame taken here rejected⟩

instance (p : ResultPool τ α) (task : τ) : Decidable (Unread p task) :=
  inferInstanceAs (Decidable ((∀ e ∈ p.taskQue, e.task ≠ task) ∧
    ∀ job ∈ p.jobs, job.2.target = none → job.1.task ≠ task))

instance (p : ResultPool τ α) : (a : Action τ (Any α) ClientAction) → Decidable (TasksApart p a)
  | .submit i => inferInstanceAs (Decidable (∀ c ∈ p.submits[i]?, c.pc.awake →
      (hasRoom p ∨ c.pc = .timedOut) → Unread p c.task))
  | .call _ | .submitTimeout _ | .submitStir _ | .callStart _ | .start | .worker _ _
  | .workerTimeout _ | .workerStir _ | .exec _ _ | .idle _ | .destroy | .destroyNext
  | .destroyStir | .otherThread | .client _ => .isTrue trivial

/-- A task that is submitted again when it has been executed. -/
def submittedAgain : List (Action Nat (Any Nat) ClientAction) :=
  [Action.callStart 1] ++ List.replicate 8 Action.start ++
    [Action.call 5, .submit 0, .worker 0 false] ++ List.replicate 5 (Action.exec 0 (some 7)) ++
    [Action.idle 0, .call 5, .submit 1, .worker 0 false] ++
    List.replicate 5 (Action.exec 0 (some 8))

theorem submissions_kept_again :
    ∃ p : ResultPool Nat Nat, p.executed = [⟨5, 0⟩, ⟨5, 1⟩] ∧ p.results.setVals 0 = some 1 ∧
      p.results.setVals 1 = some 1 := by
  have ran : ∃ p ∈ Machine.run (step resultBackend)
      (configured 0 emptySide .modeFixd 1024 10 : ResultPool Nat Nat) submittedAgain,
      p.executed = [⟨5, 0⟩, ⟨5, 1⟩] := by decide +kernel
  obtain ⟨p, ran, executed⟩ := ran
  have obeys : Machine.Obeys (step resultBackend) TasksApart
      (configured 0 emptySide .modeFixd 1024 10 : ResultPool Nat Nat) submittedAgain := by
    decide +kernel
  have kept := (submissions_kept (Machine.reach_of_run obeys ran)).1
  exact ⟨p, executed, kept.executed ⟨5, 0⟩ (by simp [executed]),
    kept.executed ⟨5, 1⟩ (by simp [executed])⟩

/-- A call that breaks the condition takes the earlier submission's place as the target,
    accepted or rejected. -/
theorem overlap_retargets (history : History p) {i : Nat} {c : Submit τ} {e : Entry τ}
    (here : p.submits[i]? = some c) (awake : c.pc.awake) (queued : e ∈ p.taskQue)
    (same : e.task = c.task) (isValid : Bool) :
    (construct isValid p.results i c.task).result e.task = some i ∧ e.sub ≠ i := by
  constructor
  · rw [same]
    exact (construct_pointer p.results isValid i c.task).1
  · refine unaccepted_unowned history here ?_ (queued_accepted history queued)
    intro accepted
    simp [accepted, SubmitPc.awake] at awake

/-- One thread runs the queued task 5 of submission 0. -/
def serveFirst : List (Action Nat (Any Nat) ClientAction) :=
  [Action.callStart 1] ++ List.replicate 8 Action.start ++ [Action.worker 0 false] ++
    List.replicate 5 (Action.exec 0 (some 7))

/-- Task 5 is queued and the queue is full when a second call with it is rejected. -/
def rejectedAgain : List (Action Nat (Any Nat) ClientAction) :=
  [Action.call 5, .submit 0, .call 5, .submit 1, .submitTimeout 1, .submit 1] ++ serveFirst

/-- Task 5 is queued when a second call with it is accepted. -/
def acceptedAgain : List (Action Nat (Any Nat) ClientAction) :=
  [Action.call 5, .submit 0, .call 5, .submit 1] ++ serveFirst ++
    [Action.idle 0, .worker 0 false] ++ List.replicate 5 (Action.exec 0 (some 8))

/-- The task has been executed for its first submission and nothing was delivered to the
    Result that this returned. -/
theorem submission_retargeted :
    (∃ p : ResultPool Nat Nat, Machine.Reachable (step resultBackend)
      (configured 0 emptySide .modeFixd 1 10) p ∧ p.executed = [⟨5, 0⟩] ∧
      p.results.setVals 0 = some 0 ∧ p.results.setVals 1 = some 1) ∧
    (∃ p : ResultPool Nat Nat, Machine.Reachable (step resultBackend)
      (configured 0 emptySide .modeFixd 1024 10) p ∧ p.executed = [⟨5, 0⟩, ⟨5, 1⟩] ∧
      p.results.setVals 0 = some 0 ∧ p.results.setVals 1 = some 2) := by
  constructor
  · exact Machine.reachable_visits rejectedAgain (by decide +kernel)
  · exact Machine.reachable_visits acceptedAgain (by decide +kernel)

end TaskResult
