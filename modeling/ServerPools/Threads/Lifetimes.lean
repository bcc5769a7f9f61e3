import ServerPools.Threads.Delivery

/- Whether a Result is still there when its value comes. The task keeps a raw pointer to an
   object of the client, and the destructor of the object tells nobody; isExit lives in the
   object that is gone. -/
namespace TaskResult
open ThreadPool
variable {τ α : Type} {p q : ResultPool τ α} {s s' : Side τ α}

/-- A client destroys a Result only when no queued task points to it and no execution has it
    as its target. -/
def DropsDetached (p : ResultPool τ α) : Action τ (Any α) ClientAction → Prop
  | .client (.drop i) => (∀ e ∈ p.taskQue, p.results.result e.task ≠ some i) ∧
      ∀ job ∈ p.jobs, p.results.aim job ≠ some i
  | _ => True

/-- The Result that setVal is being called on, for its store or its post. -/
def Stage.delivers : Stage α → Option Nat
  | .store i _ | .post i => some i
  | _ => none

/-- Whatever will be delivered to is alive. -/
structure TargetsLive (p : ResultPool τ α) : Prop where
  queued : ∀ e ∈ p.taskQue, ∀ i, p.results.result e.task = some i → p.results.lives i = some true
  running : ∀ job ∈ p.jobs, ∀ i, p.results.aim job = some i → p.results.lives i = some true

theorem delivers_aim (s : Side τ α) (e : Entry τ) {stage : Stage α} {i : Nat}
    (delivers : stage.delivers = some i) : s.aim (e, stage) = some i := by
  cases stage with
  | store k any | post k => exact delivers
  | test | load | runTask => simp [Stage.delivers] at delivers

theorem aim_same (result : s'.result = s.result) (job : Entry τ × Stage α) : s'.aim job = s.aim job := by
  unfold Side.aim
  rw [result]

theorem TargetsLive.kept (live : TargetsLive p) (queue : ∀ e ∈ q.taskQue, e ∈ p.taskQue)
    (jobs : ∀ job ∈ q.jobs, job ∈ p.jobs) (result : q.results.result = p.results.result)
    (lives : ∀ i, (∃ e ∈ p.taskQue, p.results.result e.task = some i) ∨
      (∃ job ∈ p.jobs, p.results.aim job = some i) → q.results.lives i = p.results.lives i) :
    TargetsLive q := by
  constructor
  · intro e member i pointed
    rw [result] at pointed
    rw [lives i (Or.inl ⟨e, queue e member, pointed⟩)]
    exact live.queued e (queue e member) i pointed
  · intro job member i aim
    rw [aim_same result] at aim
    rw [lives i (Or.inr ⟨job, jobs job member, aim⟩)]
    exact live.running job (jobs job member) i aim

/-- Destroying the Result that a task points to leaves the pointer where it is. -/
theorem drop_dangles {i : Nat} {task : τ} (pointed : s.result task = some i)
    (taken : client s (.drop i) = some s') : s'.result task = some i ∧ s'.lives i = some false := by
  refine ⟨(client_kept taken).1 ▸ pointed, ?_⟩
  simp only [client] at taken
  split at taken
  · contradiction
  · split at taken
    · cases taken
      simp [setObject, Side.lives]
    · contradiction

variable [DecidableEq τ]

theorem construct_lives (s : Side τ α) (isValid : Bool) (i : Nat) (task : τ) :
    (construct isValid s i task).lives i = some true ∧
      ∀ j, s.lives j = some true → (construct isValid s i task).lives j = some true := by
  have fresh : (construct isValid s i task).lives i = some true := by
    simp [construct, setResult, setObject, Side.lives]
  refine ⟨fresh, fun j before => ?_⟩
  by_cases same : j = i
  · exact same ▸ fresh
  · simpa [construct, setResult, setObject, Side.lives, Function.update_of_ne same] using before

/-- A new Result becomes the target of the task or leaves the targets as they were. -/
theorem construct_aim (s : Side τ α) (isValid : Bool) (i : Nat) (task : τ) :
    (∀ other j, (construct isValid s i task).result other = some j → j = i ∨ s.result other = some j) ∧
      ∀ job j, (construct isValid s i task).aim job = some j → j = i ∨ s.aim job = some j := by
  obtain ⟨pointer, pointers⟩ := construct_pointer s isValid i task
  have result (other : τ) (j : Nat) (pointed : (construct isValid s i task).result other = some j) :
      j = i ∨ s.result other = some j := by
    by_cases same : other = task
    · subst same
      exact Or.inl (Option.some.inj (pointed.symm.trans pointer))
    · exact Or.inr ((pointers other same).symm.trans pointed)
  refine ⟨result, fun job j aim => ?_⟩
  unfold Side.aim at aim ⊢
  split at aim
  · rename_i target read
    exact Or.inr (by simpa [read] using aim)
  · rename_i read
    simpa [read] using result _ _ aim

theorem constructs_live (live : TargetsLive p) {i : Nat} {c : Submit τ} (isValid : Bool)
    (results : q.results = construct isValid p.results i c.task) (jobs : q.jobs = p.jobs)
    (queued : ∀ e ∈ q.taskQue, e ∈ p.taskQue ∨ e = ⟨c.task, i⟩) : TargetsLive q := by
  obtain ⟨fresh, lives⟩ := construct_lives p.results isValid i c.task
  obtain ⟨pointed, aims⟩ := construct_aim p.results isValid i c.task
  constructor
  · intro e member j target
    rw [results] at target ⊢
    rcases queued e member with before | rfl
    · rcases pointed _ _ target with rfl | old
      · exact fresh
      · exact lives j (live.queued e before j old)
    · have new := (construct_pointer p.results isValid i c.task).1
      obtain rfl : j = i := Option.some.inj (target.symm.trans new)
      exact fresh
  · intro job member j target
    rw [results] at target ⊢
    rcases aims _ _ target with rfl | old
    · exact fresh
    · exact lives j (live.running job (jobs ▸ member) j old)

theorem move_live {a : Action τ (Any α) ClientAction} (live : TargetsLive p)
    (permit : DropsDetached p a) (move : DeliveryMove p q a) : TargetsLive q := by
  cases move with
  | quiet queue jobs executed results =>
    refine live.kept (queue ▸ fun _ => id) (jobs ▸ fun _ => id) ?_ fun i _ => ?_ <;> rw [results]
  | constructs isValid here awake returns results jobs executed queued =>
    exact constructs_live live isValid results jobs queued
  | @takes _ e rest queue queue' jobs executed results =>
    constructor <;> rw [results]
    · intro d member
      exact live.queued d (queue ▸ List.mem_cons_of_mem _ (queue' ▸ member))
    · intro job member
      rcases List.mem_cons.mp (jobs.mem_iff.mp member) with rfl | old
      · exact live.queued e (queue ▸ List.mem_cons_self ..)
      · exact live.running job old
  | @steps _ e stage value next others split taken queue jobs executed =>
    obtain ⟨result, lives, aims, _⟩ := exec_kept taken
    constructor
    · intro d member i
      rw [result, lives]
      exact live.queued d (queue ▸ member) i
    · intro job member i
      rw [lives]
      rcases jobs job member with other | ⟨later, going, rfl⟩
      · rw [aim_same result]
        exact live.running job (split.mem_iff.mpr (List.mem_cons_of_mem _ other)) i
      · rw [aims later going]
        exact live.running _ (split.mem_iff.mpr (List.mem_cons_self ..)) i
  | @clients k done queue jobs executed =>
    obtain ⟨result, _, lives⟩ := client_kept done
    refine live.kept (queue ▸ fun _ => id) (jobs ▸ fun _ => id) result fun i target => lives i ?_
    rintro rfl
    rcases target with ⟨e, member, pointed⟩ | ⟨job, member, aim⟩
    · exact permit.1 e member pointed
    · exact permit.2 job member aim

/-- In runs in which clients destroy only Results that nothing points to any more, every store
    and every post of setVal is on a Result that is still there. -/
theorem deliveries_live {generateID : Nat} {mode : PoolMode} {threadhold threshold : Int}
    (reached : Machine.Reach (step resultBackend) DropsDetached
      (configured generateID emptySide mode threadhold threshold) p)
    {w : Nat} {worker : Worker τ (Stage α)} {e : Entry τ} {stage : Stage α} {i : Nat}
    (here : p.workers[w]? = some worker) (pc : worker.pc = .running e stage)
    (delivers : stage.delivers = some i) :
    ∃ r, p.results.objects i = some r ∧ r.live = true := by
  have live : TargetsLive p := by
    refine reached.invariant ?_ fun _ live permit taken =>
      move_live live permit (outcome_delivery (step_outcome taken).2)
    rw [configured_fields]
    constructor <;> simp [newPool, Pool.jobs]
  have alive := live.running _ (running_job here pc) i (delivers_aim p.results e delivers)
  exact Option.map_eq_some_iff.mp alive

instance (p : ResultPool τ α) : (a : Action τ (Any α) ClientAction) → Decidable (DropsDetached p a)
  | .client (.drop i) => inferInstanceAs (Decidable ((∀ e ∈ p.taskQue,
      p.results.result e.task ≠ some i) ∧ ∀ job ∈ p.jobs, p.results.aim job ≠ some i))
  | .client (.get _) | .client (.getNext _) | .client (.getStir _) | .call _ | .submit _
  | .submitTimeout _ | .submitStir _ | .callStart _ | .start | .worker _ _ | .workerTimeout _
  | .workerStir _ | .exec _ _ | .idle _ | .destroy | .destroyNext | .destroyStir | .otherThread =>
    .isTrue trivial

/-- Two tasks, of which the first is executed and its Result destroyed; then the second is about
    to be delivered. -/
def dropAfter : List (Action Nat (Any Nat) ClientAction) :=
  [Action.callStart 1] ++ List.replicate 8 Action.start ++
    [Action.call 5, .submit 0, .call 6, .submit 1, .worker 0 false] ++
    List.replicate 5 (Action.exec 0 (some 7)) ++
    [Action.client (.drop 0), .idle 0, .worker 0 false] ++ List.replicate 3 (Action.exec 0 (some 8))

theorem deliveries_live_second :
    ∃ p : ResultPool Nat Nat, p.workers[0]? = some ⟨0, .running ⟨6, 1⟩ (.store 1 (some 8))⟩ ∧
      p.results.lives 0 = some false ∧ ∃ r, p.results.objects 1 = some r ∧ r.live = true := by
  have ran : ∃ p ∈ Machine.run (step resultBackend)
      (configured 0 emptySide .modeFixd 1024 10 : ResultPool Nat Nat) dropAfter,
      p.workers[0]? = some ⟨0, .running ⟨6, 1⟩ (.store 1 (some 8))⟩ ∧
      p.results.lives 0 = some false := by decide +kernel
  obtain ⟨p, ran, here, gone⟩ := ran
  have obeys : Machine.Obeys (step resultBackend) DropsDetached
      (configured 0 emptySide .modeFixd 1024 10 : ResultPool Nat Nat) dropAfter := by
    decide +kernel
  exact ⟨p, here, gone, deliveries_live (Machine.reach_of_run obeys ran) here rfl rfl⟩

/-- start(1), one submission whose Result is not kept, and the task run up to its store. -/
def discarded : List (Action Nat (Any Nat) ClientAction) :=
  [Action.callStart 1] ++ List.replicate 8 Action.start ++
    [Action.call 5, .submit 0, .client (.drop 0), .worker 0 false] ++
    List.replicate 3 (Action.exec 0 (some 7))

/-- The Result is destroyed at the end of the block, and then the pool drains its queue. -/
def scopeEnds : List (Action Nat (Any Nat) ClientAction) :=
  [Action.callStart 1] ++ List.replicate 8 Action.start ++
    [Action.call 5, .submit 0, .client (.drop 0), .destroy, .destroyNext, .worker 0 false] ++
    List.replicate 3 (Action.exec 0 (some 7))

/-- A thread is about to store a value in a Result that is gone. -/
theorem delivery_to_dead :
    (∃ p : ResultPool Nat Nat, Machine.Reachable (step resultBackend)
      (configured 0 emptySide .modeFixd 1024 10) p ∧
      p.workers[0]? = some ⟨0, .running ⟨5, 0⟩ (.store 0 (some 7))⟩ ∧
      p.results.lives 0 = some false ∧ p.destroyCall = .notCalled) ∧
    (∃ p : ResultPool Nat Nat, Machine.Reachable (step resultBackend)
      (configured 0 emptySide .modeFixd 1024 10) p ∧
      p.workers[0]? = some ⟨0, .running ⟨5, 0⟩ (.store 0 (some 7))⟩ ∧
      p.results.lives 0 = some false ∧ p.destroyCall = .blocked) := by
  constructor
  · exact Machine.reachable_visits discarded (by decide +kernel)
  · exact Machine.reachable_visits scopeEnds (by decide +kernel)

end TaskResult
