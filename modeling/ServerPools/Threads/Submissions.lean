import ServerPools.Threads.Queue
import ServerPools.Threads.TaskResult
import ServerPools.Threads.TaskFuture

/- The law of submissions for both versions of the pool: no accepted task is lost,
   duplicated or reordered, and a rejected one is never run. -/
namespace ThreadPool
variable {τ ρ σ χ κ : Type}

/-- The law of submissions in one state, with the bound t of the queue. -/
def TasksConserved (t : Int) (B : Backend τ ρ σ χ κ) (p : Pool τ ρ σ) : Prop :=
  p.accepted = p.popped ++ p.taskQue ∧
    (∀ (i : Nat) (c : Submit τ), p.submits[i]? = some c →
      (c.pc = .accepted ↔ ⟨c.task, i⟩ ∈ p.accepted)) ∧
    (p.accepted.map Entry.sub).Nodup ∧
    (∀ (i : Nat) (c : Submit τ), p.submits[i]? = some c → c.pc = .rejected →
      ∀ e ∈ p.popped ++ p.taskQue ++ p.running ++ p.executed, e.sub ≠ i) ∧
    p.taskSize = p.taskQue.length ∧
    (p.taskQue.length : Int) ≤ t ∧
    (∀ (a : Action τ χ κ) (q : Pool τ ρ σ) (i : Nat) (c d : Submit τ), step B p a = some q →
      p.submits[i]? = some c → c.pc ≠ .rejected → q.submits[i]? = some d → d.pc = .rejected →
      t ≤ p.taskQue.length)

variable {B : Backend τ ρ σ χ κ} {p q : Pool τ ρ σ}

/-- Only a timed-out submission that finds no room becomes rejected. -/
theorem rejected_full {t : Int} (bounded : 0 ≤ t ∧ t < 2 ^ 31) (law : QueueLaw t p)
    {a : Action τ χ κ} (move : QueueMove B p q a) {i : Nat} {c d : Submit τ}
    (here : p.submits[i]? = some c)
    (before : c.pc ≠ .rejected) (there : q.submits[i]? = some d) (after : d.pc = .rejected) :
    t ≤ p.taskQue.length := by
  have final : d.pc.final := by simp [after, SubmitPc.final]
  have unchanged (same : p.submits[i]? = some d) : t ≤ p.taskQue.length := by
    obtain rfl : c = d := Option.some.inj (here.symm.trans same)
    exact absurd after before
  cases move with
  | quiet quiet results => exact unchanged ((quiet.settled i d final).mp there)
  | accepts here' awake room eq =>
    rw [eq, (acceptTask_fields B p _ _).2.2.2.1] at there
    refine unchanged ((set_settled here' (awake_open awake) final fun _ same => ?_).mp there)
    simp [← same] at after
  | rejects here' pc full eq =>
    rw [hasRoom_iff (law.threadhold ▸ bounded), law.threadhold] at full
    exact Int.not_lt.mp full
  | takes here' awake queue quiet results => exact unchanged ((quiet.settled i d final).mp there)
  | execs here' pc ran eq =>
    subst eq
    exact unchanged there
  | finishes here' pc ran eq =>
    subst eq
    exact unchanged there
  | clients quiet done => exact unchanged ((quiet.settled i d final).mp there)

theorem law_conserved {t : Int} (bounded : 0 ≤ t ∧ t < 2 ^ 31) (law : QueueLaw t p) :
    TasksConserved t B p := by
  refine ⟨law.fifo, ?_, law.once, ?_, law.sized, law.within, ?_⟩
  · intro i c here
    constructor
    · exact law.recorded i c here
    · intro member
      by_contra open_
      exact unaccepted_unowned law.toHistory here open_ member rfl
  · intro i c here rejected e member
    refine unaccepted_unowned law.toHistory here (by simp [rejected]) ?_
    have spent (inside : e ∈ p.running ++ p.executed) : e ∈ p.accepted :=
      popped_accepted law.toHistory (law.spent.mem_iff.mpr inside)
    simp only [List.mem_append] at member spent
    rw [law.fifo, List.mem_append]
    rcases member with ((popped | queued) | running) | executed
    · exact Or.inl popped
    · exact Or.inr queued
    · exact List.mem_append.mp (law.fifo ▸ spent (Or.inl running))
    · exact List.mem_append.mp (law.fifo ▸ spent (Or.inr executed))
  · intro a q i c d taken here before there after
    exact rejected_full bounded law (outcome_move (step_outcome taken).2) here before there after

end ThreadPool

namespace TaskFuture
open ThreadPool
variable {τ α : Type} {dflt : α} {p q : FuturePool τ α}

/-- The futures of rejected calls hold the default value; only popped tasks are entered. -/
structure FutureLaw (dflt : α) (p : FuturePool τ α) : Prop where
  defaulted : ∀ (i : Nat) (c : Submit τ), p.submits[i]? = some c → c.pc = .rejected →
    p.results.values i = some dflt
  entered : ∀ i ∈ p.results.called, ∃ e ∈ p.popped, e.sub = i

theorem FutureLaw.kept (law : FutureLaw dflt p)
    (settled : ∀ (i : Nat) (c : Submit τ), c.pc = .rejected → q.submits[i]? = some c →
      p.submits[i]? = some c)
    (values : ∀ (i : Nat) (c : Submit τ), p.submits[i]? = some c → c.pc = .rejected →
      q.results.values i = p.results.values i)
    (called : ∀ i ∈ q.results.called, i ∈ p.results.called ∨ ∃ e ∈ q.popped, e.sub = i)
    (popped : ∀ e ∈ p.popped, e ∈ q.popped) : FutureLaw dflt q := by
  constructor
  · intro i c there rejected
    have here := settled i c rejected there
    rw [values i c here rejected]
    exact law.defaulted i c here rejected
  · intro i member
    rcases called i member with old | new
    · obtain ⟨e, before, same⟩ := law.entered i old
      exact ⟨e, popped e before, same⟩
    · exact new

theorem rejected_final {c : Submit τ} (rejected : c.pc = .rejected) : c.pc.final := by
  simp [rejected, SubmitPc.final]

theorem move_future (queue : History p) (law : FutureLaw dflt p)
    {a : Action τ α Empty} (move : QueueMove (futureBackend dflt) p q a) : FutureLaw dflt q := by
  cases move with
  | quiet quiet results =>
    refine law.kept (fun i c rejected => (quiet.settled i c (rejected_final rejected)).mp)
      (fun i c _ _ => by rw [results]) (fun i member => Or.inl (results ▸ member)) ?_
    exact fun e member => quiet.popped ▸ member
  | @accepts _ i c here awake room after =>
    obtain ⟨_, _, _, submits, _, popped, _, _⟩ := acceptTask_fields (futureBackend dflt) p i c
    subst after
    have settled (j : Nat) (d : Submit τ) (rejected : d.pc = .rejected)
        (there : (acceptTask (futureBackend dflt) p i c).submits[j]? = some d) :
        p.submits[j]? = some d := by
      rw [submits] at there
      refine (set_settled here (awake_open awake) (rejected_final rejected) fun _ same => ?_).mp there
      simp [← same] at rejected
    refine law.kept settled ?_ (fun _ member => Or.inl member) fun e member => popped ▸ member
    intro j d there rejected
    have other : j ≠ i := by
      intro same
      obtain rfl : c = d := Option.some.inj (here.symm.trans (same ▸ there))
      simp [rejected, SubmitPc.awake] at awake
    exact Function.update_of_ne other _ _
  | @rejects _ i c here pc full after =>
    subst after
    have inside := (List.getElem?_eq_some_iff.mp here).1
    constructor
    · intro j d there rejected
      by_cases same : j = i
      · subst same
        exact Function.update_self _ _ _
      · have before : p.submits[j]? = some d := by
          have moved : (p.submits.set i { c with pc := .rejected })[j]? = some d := there
          rwa [List.getElem?_set_ne (Ne.symm same)] at moved
        exact (Function.update_of_ne same _ _).trans (law.defaulted j d before rejected)
    · exact law.entered
  | takes here awake queued quiet results =>
    refine law.kept (fun i c rejected => (quiet.settled i c (rejected_final rejected)).mp)
      (fun i c _ _ => by rw [results]) (fun i member => Or.inl (results ▸ member)) ?_
    intro e member
    rw [quiet.popped]
    exact List.mem_append_left _ member
  | @execs _ x w worker e stage next results here pc ran after =>
    subst after
    have popped := running_popped queue here pc
    cases stage with
    | fulfil value => simp [futureBackend, exec] at ran
    | invoke =>
      obtain ⟨rfl, rfl⟩ : { p.results with called := p.results.called ++ [e.sub] } = results ∧
          Stage.fulfil x = next := by
        simpa [futureBackend, exec] using ran
      refine law.kept (fun _ _ _ there => there) (fun _ _ _ _ => rfl) ?_ fun _ member => member
      intro i member
      rcases List.mem_append.mp member with old | new
      · exact Or.inl old
      · exact Or.inr ⟨e, popped, (List.mem_singleton.mp new).symm⟩
  | @finishes _ x w worker e stage results here pc ran after =>
    subst after
    have accepted := popped_accepted queue (running_popped queue here pc)
    cases stage with
    | invoke => simp [futureBackend, exec] at ran
    | fulfil value =>
      obtain rfl : { p.results with
          values := Function.update p.results.values e.sub (some value) } = results := by
        simpa [futureBackend, exec] using ran
      refine law.kept (fun _ _ _ there => there) ?_ (fun _ member => Or.inl member)
        fun _ member => member
      intro i c there rejected
      have other := unaccepted_unowned queue there (by simp [rejected]) accepted
      exact Function.update_of_ne (Ne.symm other) _ _
  | @clients k quiet done => exact k.elim

theorem reachable_future {generateID : Nat} {mode : PoolMode} {threadhold threshold : Int}
    (reached : Machine.Reachable (step (futureBackend dflt))
      (configured generateID emptySide mode threadhold threshold) p) : FutureLaw dflt p := by
  refine reached.invariant ?_ ?_
  · rw [configured_fields]
    exact ⟨by simp [newPool], by simp [newPool, emptySide]⟩
  · intro p a q before law _ taken
    exact move_future (reachable_history before) law (outcome_move (step_outcome taken).2)

end TaskFuture

namespace ThreadPool
variable {τ α : Type} [DecidableEq τ]

/-- No task is lost, duplicated or reordered by either version of the pool, and the future
    of a rejected call holds the default value without its function having been entered. -/
theorem tasks_conserved {t : Int} (bounded : 0 ≤ t ∧ t < 2 ^ 31) :
    (∀ (generateID : Nat) (mode : PoolMode) (threshold : Int) (p : TaskResult.ResultPool τ α),
      Machine.Reachable (step TaskResult.resultBackend)
        (configured generateID TaskResult.emptySide mode t threshold) p →
      TasksConserved t TaskResult.resultBackend p) ∧
    (∀ (dflt : α) (generateID : Nat) (mode : PoolMode) (threshold : Int)
        (p : TaskFuture.FuturePool τ α),
      Machine.Reachable (step (TaskFuture.futureBackend dflt))
        (configured generateID TaskFuture.emptySide mode t threshold) p →
      TasksConserved t (TaskFuture.futureBackend dflt) p ∧
      ∀ (i : Nat) (c : Submit τ), p.submits[i]? = some c → c.pc = .rejected →
        p.results.values i = some dflt ∧ i ∉ p.results.called) := by
  constructor
  · intro generateID mode threshold p reached
    exact law_conserved bounded (reachable_law bounded reached)
  · intro dflt generateID mode threshold p reached
    have queue := reachable_history reached
    have futures := TaskFuture.reachable_future reached
    refine ⟨law_conserved bounded (reachable_law bounded reached), fun i c here rejected => ?_⟩
    refine ⟨futures.defaulted i c here rejected, fun entered => ?_⟩
    obtain ⟨e, popped, same⟩ := futures.entered i entered
    exact unaccepted_unowned queue here (by simp [rejected]) (popped_accepted queue popped) same

/-- A queue of one: the second call times out, is rejected, and gets the default value. -/
theorem tasks_conserved_rejection :
    ∃ p : TaskFuture.FuturePool Nat Nat, p.taskQue = [⟨5, 0⟩] ∧
      p.submits[1]? = some ⟨6, .rejected⟩ ∧ p.results.values 1 = some 9 ∧
      1 ∉ p.results.called := by
  have ran : ∃ p ∈ Machine.run (step (TaskFuture.futureBackend 9))
      (configured 0 TaskFuture.emptySide .modeFixd 1 10 : TaskFuture.FuturePool Nat Nat)
      [.call 5, .submit 0, .call 6, .submit 1, .submitTimeout 1, .submit 1],
      p.taskQue = [⟨5, 0⟩] ∧ p.submits[1]? = some ⟨6, .rejected⟩ := by decide +kernel
  obtain ⟨p, ran, queue, rejected⟩ := ran
  have bounded : 0 ≤ (1 : Int) ∧ (1 : Int) < 2 ^ 31 := by decide
  have law := (tasks_conserved bounded).2 9 0 .modeFixd 10 p (Machine.reachable_of_run ran)
  exact ⟨p, queue, rejected, law.2 1 _ rejected rfl⟩

end ThreadPool
