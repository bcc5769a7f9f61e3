import ServerPools.Threads.Answers
import ServerPools.Threads.ProgramEnd
import ServerPools.Threads.Submissions

/- threadpool/main.cpp: main submits functions to the pool of threadpool_new, gets their
   futures and returns. Whatever the schedule main prints what the functions compute; a
   default value takes the place of a result only when the queue was full for a second. -/
namespace ThreadPool
variable {τ ρ σ χ κ ν : Type} {B : Backend τ ρ σ χ κ} {G : Getter B ν} {p q : Pool τ ρ σ}
  {script : Script τ χ}

/-- The backend whose tasks compute what the script says. -/
def bound (B : Backend τ ρ σ χ κ) (run : τ → χ) : Backend τ ρ σ χ κ :=
  { B with exec := fun r e stage _ => B.exec r e stage (run e.task) }

theorem driven_bound {a : Action τ χ κ} (driven : Driven G script p a)
    (taken : step B p a = some q) : step (bound B script.run) p a = some q := by
  cases a with
  | exec w x =>
    unfold step at taken ⊢
    split at taken
    · rename_i live
      rw [if_pos live]
      change execTask B p w x = some q at taken
      change execTask (bound B script.run) p w x = some q
      unfold execTask at taken ⊢
      split at taken
      · contradiction
      · rename_i worker here
        split at taken
        · rename_i e stage pc
          obtain rfl := driven worker e stage here pc
          exact taken
        · contradiction
    · contradiction
  | call | submit | submitTimeout | submitStir | callStart | start | worker | workerTimeout | workerStir
  | idle | destroy | destroyNext | destroyStir | otherThread | client => exact taken

theorem driven_reach_bound {start : Pool τ ρ σ}
    (reached : Machine.Reach (step B) (Driven G script) start p) :
    Machine.Reachable (step (bound B script.run)) start p := by
  induction reached with
  | start => exact .start
  | next before permit taken ih => exact ih.next trivial (driven_bound permit taken)

/-- A queue that all submissions fit in refuses none of them. -/
theorem none_rejected {t : Int} (bounded : 0 ≤ t ∧ t < 2 ^ 31) {generateID : Nat} {results : ρ}
    {mode : PoolMode} {threshold : Int}
    (reached : Machine.Reachable (step B) (configured generateID results mode t threshold) p)
    (few : (p.submits.length : Int) ≤ t) {i : Nat} {c : Submit τ} (here : p.submits[i]? = some c) :
    c.pc ≠ .rejected := by
  induction reached generalizing i c with
  | start =>
    rw [configured_fields] at here
    simp [newPool] at here
  | @next p q a before permit taken ih =>
    have outcome := (step_outcome taken).2
    have law := reachable_law bounded before
    have grown : p.submits.length ≤ q.submits.length := by
      rcases TaskResult.outcome_tasks outcome with same | ⟨task, _, more⟩
      · exact Nat.le_of_eq (by simpa using (congrArg List.length same).symm)
      · have length := congrArg List.length more
        simp only [List.length_map, List.length_append, List.length_singleton] at length
        omega
    intro rejected
    have final : c.pc.final := by simp [rejected, SubmitPc.final]
    by_cases inside : i < p.submits.length
    · have there := List.getElem?_eq_getElem inside
      have fresh := ih (by omega) there
      have full := rejected_full bounded law (outcome_move outcome) there fresh here rejected
      have subs : p.accepted.map Entry.sub ⊆ (List.range p.submits.length).erase i := by
        intro j member
        obtain ⟨e, listed, rfl⟩ := List.mem_map.mp member
        obtain ⟨d, owned, accepted, _⟩ := law.owned e listed
        have below := (List.getElem?_eq_some_iff.mp owned).1
        have apart : e.sub ≠ i := by
          rintro rfl
          have stays := move_final (outcome_move outcome) (by simp [accepted, SubmitPc.final]) owned
          obtain rfl : d = c := Option.some.inj (stays.symm.trans here)
          simp [accepted] at rejected
        exact (List.mem_erase_of_ne apart).mpr (List.mem_range.mpr below)
      have short := law.once.length_le_of_subset subs
      have listed := congrArg List.length law.fifo
      rw [List.length_erase_of_mem (List.mem_range.mpr inside), List.length_range,
        List.length_map] at short
      rw [List.length_append] at listed
      omega
    · have absent : p.submits[i]? = none := List.getElem?_eq_none (Nat.le_of_not_lt inside)
      rcases TaskResult.outcome_tasks outcome with same | ⟨task, rfl, _⟩
      · have length : q.submits.length = p.submits.length := by simpa using congrArg List.length same
        exact inside (length ▸ (List.getElem?_eq_some_iff.mp here).1)
      · obtain rfl := step_call taken
        rw [List.getElem?_append_right (Nat.le_of_not_lt inside)] at here
        obtain rfl := List.mem_singleton.mp (List.mem_of_getElem? here)
        simp at rejected

/-- No submission has given up, and none is about to. -/
def Patient (p : Pool τ ρ σ) : Prop := ∀ c ∈ p.submits, c.pc ≠ .timedOut ∧ c.pc ≠ .rejected

theorem step_patient {a : Action τ χ κ} (patient : Patient p) (waits : ∀ i, a ≠ .submitTimeout i)
    (taken : step B p a = some q) : Patient q := by
  cases (step_outcome taken).2 with
  | called task =>
    intro c member
    rcases List.mem_append.mp member with old | new
    · exact patient c old
    · obtain rfl := List.mem_singleton.mp new
      simp
  | @accepts i c here awake room =>
    unfold Patient
    rw [(acceptTask_fields B p i c).2.2.2.1]
    exact Agents.forall_set patient (by simp)
  | rejects here pc full => exact absurd pc (patient _ (Agents.mem_of_position here)).1
  | submitWaits here awake full => exact Agents.forall_set patient (by simp)
  | submitAwakes here blocked how =>
    rcases how with ⟨rfl, _⟩ | ⟨_, rfl⟩
    · exact absurd rfl (waits _)
    · exact Agents.forall_set patient (by simp)
  | submitLate => exact absurd rfl (waits _)
  | starts next =>
    have same : q.submits = p.submits := (startNext_life next).2.1
    unfold Patient
    rw [same]
    exact patient
  | @takes w idleLong worker e rest here awake queue =>
    unfold Patient
    rw [(takeTask_same B p w worker e rest).2.2.2.2.2.2.2.2.1]
    refine Agents.forall_map fun c member => ?_
    obtain ⟨fresh, open_⟩ := patient c member
    rcases c with ⟨task, pc⟩
    cases pc <;> simp_all [Submit.wake]
  | destroyTests | destroyRetests =>
    rw [exitTest_eq]
    exact patient
  | startCalled | exits | waits | retires | workerAwakes | workerLate | execs | finishes | idles
  | flagged | destroyStirred | others | clients => exact patient

section Patience
variable {n : Nat} {mode : PoolMode} {t threshold : Int} {results : ρ} {s : Program τ ρ σ ν}

/-- A main whose waits do not time out sees no submission refused. -/
theorem brisk_patient (size : script.initThreadSize = n)
    (reached : Machine.Reach (programStep B G script) (Brisk G script)
      (launch mode t threshold results) s) : Patient s.pool := by
  induction reached with
  | start =>
    unfold launch
    rw [configured_fields]
    simp [Patient, newPool]
  | @next s s' turn before permit taken patient =>
    cases turn with
    | main =>
      have found := (reachable_manned (by omega) (brisk_orderly size before)).found
      rcases main_pool (brisk_pool size before).1 found (mainNext_step taken) with
        same | ⟨a, _, own, stepped⟩
      · rwa [same]
      · refine step_patient patient ?_ stepped
        rintro i rfl
        exact own.elim
    | env a =>
      obtain ⟨q, stepped, rfl⟩ := Option.map_eq_some_iff.mp taken
      refine step_patient patient ?_ stepped
      rintro i rfl
      exact permit.2.elim

end Patience

end ThreadPool

namespace TaskFuture
open ThreadPool
variable {τ α : Type} {dflt : α} {run : τ → α} {p q : FuturePool τ α}

/-- future::get waits until the shared state has a value; the destructor gives up the reference
    to it. -/
def futureGetter (dflt : α) :
    Getter (futureBackend dflt : Backend τ (Side α) (Stage α) α Empty) α where
  call s _ := some s
  next s i := (s.values i).map fun value => (s, some value)
  drop s _ := some s
  own k := nomatch k
  parting k := nomatch k
  stirs k := nomatch k
  call_client called := Or.inl (Option.some.inj called).symm
  next_client next := by
    obtain ⟨value, _, same⟩ := Option.map_eq_some_iff.mp next
    cases same
    exact Or.inl rfl
  drop_client dropped := Or.inl (Option.some.inj dropped).symm

/-- The shared states hold what the tasks compute. -/
structure Valued (run : τ → α) (p : FuturePool τ α) : Prop where
  executed : ∀ e ∈ p.executed, p.results.values e.sub = some (run e.task)
  staged : ∀ job ∈ p.jobs, job.2 = .invoke ∨ job.2 = .fulfil (run job.1.task)
  running : ∀ job ∈ p.jobs, p.results.values job.1.sub = none
  queued : ∀ e ∈ p.taskQue, p.results.values e.sub = none

theorem Valued.quiet (law : Valued run p) (quiet : Quiet p q) (results : q.results = p.results) :
    Valued run q := by
  refine ⟨?_, ?_, ?_, ?_⟩
  · rw [quiet.executed, results]
    exact law.executed
  · rw [quiet.jobs]
    exact law.staged
  · rw [quiet.jobs, results]
    exact law.running
  · rw [quiet.taskQue, results]
    exact law.queued

/-- A submission that returns sets its own shared state, which no task has. -/
theorem Valued.settled (law : Valued run p) (history : History p) {i : Nat} {c : Submit τ}
    (here : p.submits[i]? = some c) (open_ : c.pc ≠ .accepted) (values : Nat → Option α)
    (away : ∀ j ≠ i, values j = p.results.values j) {r : FuturePool τ α}
    (results : r.results.values = values) (executed : r.executed = p.executed)
    (jobs : r.jobs = p.jobs) (queue : ∀ e ∈ r.taskQue, e ∈ p.taskQue ∨ values e.sub = none) :
    Valued run r := by
  have other {e : Entry τ} (member : e ∈ p.accepted) : values e.sub = p.results.values e.sub :=
    away _ (unaccepted_unowned history here open_ member)
  refine ⟨?_, ?_, ?_, ?_⟩
  · intro e member
    rw [executed] at member
    rw [results, other (executed_accepted history member)]
    exact law.executed e member
  · rw [jobs]
    exact law.staged
  · intro job member
    rw [jobs] at member
    rw [results, other (popped_accepted history (job_popped history member))]
    exact law.running job member
  · intro e member
    rw [results]
    rcases queue e member with old | fresh
    · rw [other (queued_accepted history old)]
      exact law.queued e old
    · exact fresh

theorem move_valued (history : History p) (law : Valued run p) {a : Action τ α Empty}
    (move : QueueMove (bound (futureBackend dflt) run) p q a) : Valued run q := by
  cases move with
  | quiet quiet results => exact law.quiet quiet results
  | @accepts _ i c here awake room after =>
    obtain ⟨queue, _, _, _, _, _, executed, jobs⟩ :=
      acceptTask_fields (bound (futureBackend dflt) run) p i c
    subst after
    refine law.settled history here (by rintro pc; simp [pc, SubmitPc.awake] at awake)
      (Function.update p.results.values i none) (fun j apart => Function.update_of_ne apart _ _)
      rfl executed jobs ?_
    intro e member
    rw [queue] at member
    rcases List.mem_append.mp member with old | new
    · exact Or.inl old
    · obtain rfl := List.mem_singleton.mp new
      exact Or.inr (Function.update_self _ _ _)
  | @rejects _ i c here pc full after =>
    subst after
    exact law.settled history here (by simp [pc])
      (Function.update p.results.values i (some dflt))
      (fun j apart => Function.update_of_ne apart _ _) rfl rfl rfl fun e member => Or.inl member
  | @takes _ w worker e rest here awake queue quiet results =>
    obtain ⟨others, before, after⟩ := setWorker_jobs_perm here (.running e (Stage.invoke : Stage α))
    rw [awake_job awake] at before
    have gained : q.jobs.Perm ((e, .invoke) :: p.jobs) := by
      rw [quiet.jobs]
      exact after.trans (before.symm.cons (e, Stage.invoke))
    have fresh : p.results.values e.sub = none := law.queued e (by simp [queue])
    refine ⟨?_, ?_, ?_, ?_⟩
    · rw [quiet.executed, results]
      exact law.executed
    · intro job member
      rcases List.mem_cons.mp (gained.mem_iff.mp member) with rfl | old
      · exact Or.inl rfl
      · exact law.staged job old
    · intro job member
      rw [results]
      rcases List.mem_cons.mp (gained.mem_iff.mp member) with rfl | old
      · exact fresh
      · exact law.running job old
    · intro d member
      rw [quiet.taskQue] at member
      rw [results]
      exact law.queued d (by rw [queue]; exact List.mem_cons_of_mem _ member)
  | @execs _ x w worker e stage next results here pc ran after =>
    subst after
    obtain ⟨others, before, changed⟩ := setWorker_jobs_perm here (.running e next)
    have own : worker.job = some (e, stage) := by simp [Worker.job, pc]
    rw [own] at before
    have mine : p.results.values e.sub = none := law.running _ (running_job here pc)
    have kept {job : Entry τ × Stage α} (member : job ∈ others) : job ∈ p.jobs :=
      before.mem_iff.mpr (List.mem_cons_of_mem _ member)
    cases stage with
    | fulfil value => simp [bound, futureBackend, exec] at ran
    | invoke =>
      obtain ⟨rfl, rfl⟩ : { p.results with called := p.results.called ++ [e.sub] } = results ∧
          Stage.fulfil (run e.task) = next := by
        simpa [bound, futureBackend, exec] using ran
      refine ⟨law.executed, ?_, ?_, law.queued⟩
      · intro job member
        rcases List.mem_cons.mp (changed.mem_iff.mp member) with rfl | old
        · exact Or.inr rfl
        · exact law.staged job (kept old)
      · intro job member
        rcases List.mem_cons.mp (changed.mem_iff.mp member) with rfl | old
        · exact mine
        · exact law.running job (kept old)
  | @finishes _ x w worker e stage results here pc ran after =>
    subst after
    obtain ⟨others, before, changed⟩ := setWorker_jobs_perm here .ran
    have own : worker.job = some (e, stage) := by simp [Worker.job, pc]
    rw [own] at before
    obtain ⟨apart_running, apart_executed, apart_queued⟩ := job_apart history before
    have kept {job : Entry τ × Stage α} (member : job ∈ others) : job ∈ p.jobs :=
      before.mem_iff.mpr (List.mem_cons_of_mem _ member)
    cases stage with
    | invoke => simp [bound, futureBackend, exec] at ran
    | fulfil value =>
      obtain rfl : { p.results with
          values := Function.update p.results.values e.sub (some value) } = results := by
        simpa [bound, futureBackend, exec] using ran
      obtain rfl : value = run e.task := by
        rcases law.staged _ (running_job here pc) with first | second
        · simp at first
        · exact Stage.fulfil.inj second
      refine ⟨?_, ?_, ?_, ?_⟩
      · intro d member
        rcases List.mem_append.mp member with old | new
        · exact (Function.update_of_ne (apart_executed d old) _ _).trans (law.executed d old)
        · obtain rfl := List.mem_singleton.mp new
          exact Function.update_self _ _ _
      · intro job member
        exact law.staged job (kept (changed.mem_iff.mp member))
      · intro job member
        have inside := changed.mem_iff.mp member
        exact (Function.update_of_ne (apart_running job inside) _ _).trans (law.running job (kept inside))
      · intro d member
        exact (Function.update_of_ne (apart_queued d member) _ _).trans (law.queued d member)
  | @clients k quiet done => exact k.elim

theorem reachable_valued {generateID : Nat} {mode : PoolMode} {threadhold threshold : Int}
    (reached : Machine.Reachable (step (bound (futureBackend dflt) run))
      (configured generateID emptySide mode threadhold threshold) p) : Valued run p := by
  refine reached.invariant ?_ ?_
  · rw [configured_fields]
    refine ⟨?_, ?_, ?_, ?_⟩ <;> simp [newPool, Pool.jobs]
  · intro p a q before law _ taken
    exact move_valued (reachable_history before) law (outcome_move (step_outcome taken).2)

section Main
variable {script : Script τ α} {n : Nat} {mode : PoolMode} {t threshold : Int}
  {s s' : Program τ (Side α) (Stage α) α}

/-- The value of main's get is that of its own task, or the default if the queue was full. -/
theorem get_value (tracks : Tracks script s) {i : Nat} (place : s.main = .getting i)
    (history : History s.pool) (valued : Valued script.run s.pool) (law : FutureLaw dflt s.pool)
    {v : α} (read : s.pool.results.values i = some v) :
    ∃ c, s.pool.submits[i]? = some c ∧ script.tasks[i]? = some c.task ∧
      (v = script.run c.task ∨ c.pc = .rejected ∧ v = dflt) := by
  have inside := tracks.inside
  have length := tracks.calls_length
  have final := tracks.final
  rw [place] at inside length final
  simp only [MainPc.inside, MainPc.called, MainPc.settled] at inside length final
  obtain ⟨c, here⟩ : ∃ c, s.pool.submits[i]? = some c :=
    ⟨_, List.getElem?_eq_getElem (length ▸ inside)⟩
  refine ⟨c, here, tracks.task here, ?_⟩
  have settled := final i c inside here
  cases pc : c.pc with
  | rejected =>
    rw [law.defaulted i c here pc] at read
    exact Or.inr ⟨rfl, (Option.some.inj read).symm⟩
  | accepted =>
    have recorded := history.recorded i c here pc
    rw [history.fifo, List.mem_append] at recorded
    rcases recorded with popped | queued
    · rcases List.mem_append.mp (history.spent.mem_iff.mp popped) with running | executed
      · obtain ⟨job, member, same⟩ := List.mem_map.mp running
        have unset := valued.running job member
        rw [same] at unset
        rw [unset] at read
        contradiction
      · rw [valued.executed _ executed] at read
        exact Or.inl (Option.some.inj read).symm
    · rw [valued.queued _ queued] at read
      contradiction
  | entering | blocked | woken | timedOut => simp [pc, SubmitPc.final] at settled

/-- An answer is right, and it stays so: only a get that returns adds one. -/
theorem answers_step {Right : τ → α → Prop} (tracks : Tracks script s)
    (right : ∀ (j : Nat) (v : α), s.answers[j]? = some v → ∃ task, script.tasks[j]? = some task ∧ Right task v)
    (fresh : ∀ i v, s.main = .getting i → s.pool.results.values i = some v →
      ∃ task, script.tasks[i]? = some task ∧ Right task v)
    {turn : Turn τ α Empty}
    (taken : programStep (futureBackend dflt) (futureGetter dflt) script s turn = some s') :
    ∀ (j : Nat) (v : α), s'.answers[j]? = some v → ∃ task, script.tasks[j]? = some task ∧ Right task v := by
  cases turn with
  | env a =>
    obtain ⟨q, stepped, rfl⟩ := Option.map_eq_some_iff.mp taken
    exact right
  | main =>
    cases mainNext_step taken with
    | @answers i results value place next =>
      obtain ⟨v, read, same⟩ := Option.map_eq_some_iff.mp next
      cases same
      have length := tracks.answers
      rw [place] at length
      intro j w there
      rcases Nat.lt_or_ge j s.answers.length with old | new
      · rw [List.getElem?_append_left old] at there
        exact right j w there
      · rw [List.getElem?_append_right new] at there
        obtain ⟨zero, rfl⟩ := List.getElem?_eq_some_iff.mp there
        have last : j = i := by
          simp only [List.length_singleton, MainPc.answered] at zero length
          omega
        subst last
        simpa using fresh j value place read
    | calls | starts | started | submits | submitted | waits | settles | asks | gets | asked | drops
    | leaves | destroys | returns => exact right

/-- Under every schedule, with waits that time out and spurious wake-ups: what main got is what
    its tasks compute, unless it submits more tasks than the queue holds, and when main has
    returned the pool has run everything and its threads are gone. -/
theorem future_main_safe (positive : 1 ≤ n) (bounded : 0 ≤ t ∧ t < 2 ^ 31)
    (size : script.initThreadSize = n)
    (reached : Machine.Reach (programStep (futureBackend dflt) (futureGetter dflt) script)
      (Scheduled (futureGetter dflt) script) (launch mode t threshold emptySide) s) :
    (∀ (j : Nat) (v : α), s.answers[j]? = some v → ∃ task, script.tasks[j]? = some task ∧
      (v = script.run task ∨ v = dflt ∧ t < script.tasks.length)) ∧
    (s.main = .returned → s.answers.length = script.tasks.length ∧ AllServed s.pool ∧
      s.pool.threads = []) := by
  constructor
  · induction reached with
    | start => simp [launch]
    | @next s s' turn before permit taken ih =>
      obtain ⟨tracks, driven⟩ := program_pool size before
      refine answers_step tracks ih (fun i v place read => ?_) taken
      have plain := driven.reachable
      obtain ⟨c, here, task, right | ⟨rejected, right⟩⟩ := get_value tracks place
        (reachable_history plain) (reachable_valued (driven_reach_bound driven))
        (reachable_future plain) read
      · exact ⟨c.task, task, Or.inl right⟩
      · refine ⟨c.task, task, Or.inr ⟨right, ?_⟩⟩
        by_contra few
        have length := tracks.calls_length
        rw [place] at length
        simp only [MainPc.called] at length
        exact none_rejected bounded plain (by omega) here rejected
  · intro done
    obtain ⟨tracks, driven⟩ := program_pool size reached
    have orderly := driven.weaken fun _ _ driven => size ▸ driven_orderly driven
    have gone := tracks.gone done
    have served := returned_served positive orderly gone
    have length := tracks.answers
    rw [done] at length
    exact ⟨length, served, (served.closed (by simp [gone])).2⟩

/-- threadpool/main.cpp: the function and the statements of main. -/
def sum1 (a b : Int) : Int := a + b

def mainScript : Script (Int × Int) Int := ⟨4, [(1, 2)], fun args => sum1 args.1 args.2⟩

/-- One thread, a queue of one, and a second submission that waits for a second in vain. -/
def hurried : Script (Int × Int) Int := ⟨1, [(1, 2), (3, 4)], mainScript.run⟩

instance : DecidablePred (futureGetter (τ := τ) dflt).stirs := fun k => nomatch k

def refusedSecond : List (Turn (Int × Int) Int Empty) :=
  List.replicate 15 .main ++ [.env (.submitTimeout 1)] ++ List.replicate 4 .main ++
    [.env (.worker 0 false), .env (.exec 0 3), .env (.exec 0 3), .env (.idle 0)] ++
    List.replicate 8 .main ++ [.env (.worker 0 false)] ++ List.replicate 2 .main

theorem future_main_safe_refused :
    ∃ s : Program (Int × Int) (Side Int) (Stage Int) Int, s.main = .returned ∧ s.answers = [3, 0] ∧
      (∀ (j : Nat) (v : Int), s.answers[j]? = some v → ∃ task, hurried.tasks[j]? = some task ∧
        (v = hurried.run task ∨ v = 0 ∧ (1 : Int) < hurried.tasks.length)) := by
  have obeys : Machine.Obeys (programStep (futureBackend 0) (futureGetter 0) hurried)
      (Scheduled (futureGetter 0) hurried) (launch .modeFixd 1 10 emptySide) refusedSecond := by
    decide +kernel
  have ran : ∃ s ∈ Machine.run (programStep (futureBackend 0) (futureGetter 0) hurried)
      (launch .modeFixd 1 10 emptySide) refusedSecond, s.main = .returned ∧ s.answers = [3, 0] := by
    decide +kernel
  obtain ⟨s, reached, done, answers⟩ := Machine.reach_visits _ obeys ran
  exact ⟨s, done, answers, (future_main_safe (by decide) (by decide) rfl reached).1⟩

def futureFees (dflt : α) : Fees (futureEffort dflt : Effort (futureBackend dflt : Backend τ _ _ _ _))
    (futureGetter dflt) where
  fee := 0
  call _ _ := Nat.le_refl _
  next _ next := by
    obtain ⟨value, _, same⟩ := Option.map_eq_some_iff.mp next
    cases same
  value _ next := by
    obtain ⟨value, _, same⟩ := Option.map_eq_some_iff.mp next
    cases same
    exact Nat.le_refl _
  drop _ dropped := by
    cases dropped
    exact Nat.le_refl _

theorem future_provides (size : script.initThreadSize = n) :
    Provides (futureEffort dflt) (futureGetter dflt) script (launch mode t threshold emptySide) where
  fits _ _ := trivial
  able s _ job _ := by
    obtain ⟨e, stage⟩ := job
    cases stage <;> rfl
  calls s i _ _ _ := by simp [futureGetter]
  answers s i reached place served := by
    obtain ⟨tracks, driven⟩ := brisk_pool size reached
    have patient := brisk_patient size reached
    have valued : Valued script.run s.pool := reachable_valued (driven_reach_bound driven)
    have inside := tracks.inside
    have length := tracks.calls_length
    rw [place] at inside length
    have short : i < s.pool.submits.length := length ▸ inside
    have here := List.getElem?_eq_getElem short
    have member := List.getElem_mem short
    have final := served.answered _ member
    have kept := (patient _ member).2
    have accepted : s.pool.submits[i].pc = .accepted := by
      cases pc : s.pool.submits[i].pc <;> simp_all [SubmitPc.final]
    have recorded := (reachable_history driven.reachable).recorded i _ here accepted
    have value := valued.executed _ (served.executed.mem_iff.mpr recorded)
    simp [futureGetter, value]
  drops s left _ _ := by simp [futureGetter]

/-- Without time-outs every answer is what its task computes. -/
theorem brisk_answers (size : script.initThreadSize = n)
    (reached : Machine.Reach (programStep (futureBackend dflt) (futureGetter dflt) script)
      (Brisk (futureGetter dflt) script) (launch mode t threshold emptySide) s) :
    ∀ (j : Nat) (v : α), s.answers[j]? = some v →
      ∃ task, script.tasks[j]? = some task ∧ v = script.run task := by
  induction reached with
  | start => simp [launch]
  | @next s s' turn before permit taken ih =>
    obtain ⟨tracks, driven⟩ := brisk_pool size before
    refine answers_step tracks ih (fun i v place read => ?_) taken
    have plain := driven.reachable
    obtain ⟨c, here, task, right | ⟨rejected, _⟩⟩ := get_value tracks place
      (reachable_history plain) (reachable_valued (driven_reach_bound driven))
      (reachable_future plain) read
    · exact ⟨c.task, task, right⟩
    · exact absurd rejected (brisk_patient size before c (Agents.mem_of_position here)).2

/-- main comes to its end under every schedule without time-outs, with what its tasks compute. -/
theorem future_main_ends (positive : 1 ≤ n) (bounded : 1 ≤ t ∧ t < 2 ^ 31)
    (size : script.initThreadSize = n) :
    Machine.Inevitable (programStep (futureBackend dflt) (futureGetter dflt) script)
      (Brisk (futureGetter dflt) script)
      (fun s => s.main = .returned ∧ s.answers = script.tasks.map script.run ∧ s.pool.threads = [] ∧
        s.pool.executed.Perm s.pool.accepted)
      (launch mode t threshold emptySide) := by
  refine (main_ends (futureFees dflt) positive bounded size (future_provides size)).mono ?_
  rintro s ⟨done, served, reached⟩
  obtain ⟨tracks, _⟩ := brisk_pool size reached
  have gone := tracks.gone done
  refine ⟨done, ?_, (served.closed (by simp [gone])).2, served.executed⟩
  have length := tracks.answers
  rw [done] at length
  refine List.ext_getElem? fun j => ?_
  rw [List.getElem?_map]
  rcases Nat.lt_or_ge j s.answers.length with inside | beyond
  · obtain ⟨task, there, value⟩ := brisk_answers size reached j _ (List.getElem?_eq_getElem inside)
    rw [there, List.getElem?_eq_getElem inside, value]
    rfl
  · have past : script.tasks.length ≤ j := by
      simp only [MainPc.answered] at length
      omega
    rw [List.getElem?_eq_none beyond, List.getElem?_eq_none past]
    rfl


theorem future_main_ends_sum1 :
    Machine.Inevitable (programStep (futureBackend 0) (futureGetter 0) mainScript)
      (Brisk (futureGetter 0) mainScript)
      (fun s => s.main = .returned ∧ s.answers = [3] ∧ s.pool.threads = [] ∧
        s.pool.executed.Perm s.pool.accepted)
      (launch .modeFixd 1024 10 emptySide) :=
  future_main_ends (n := 4) (by decide) (by decide) rfl

end Main

end TaskFuture
