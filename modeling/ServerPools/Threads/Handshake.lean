import ServerPools.Threads.Queue
import ServerPools.Threads.Roster
import ServerPools.Threads.ResultView

/- The value of a task on its way from run() to the first get. Every submission has one
   Result; where its task is says in which state that Result is. -/
namespace TaskResult
open ThreadPool
variable {τ α : Type} {p q : ResultPool τ α}

/-- Every task is submitted at most once, and the Result of an accepted task is destroyed
    after the task has been executed. -/
def HandshakeRules (p : ResultPool τ α) : Action τ (Any α) ClientAction → Prop
  | .call task => ∀ c ∈ p.submits, c.task ≠ task
  | .client (.drop i) => ∀ c, p.submits[i]? = some c → c.pc = .accepted → ∃ e ∈ p.executed, e.sub = i
  | _ => True

structure Handshake (p : ResultPool τ α) : Prop where
  unborn : ∀ i, (∀ c, p.submits[i]? = some c → c.pc.final = false) → (p.results.view i).Unborn
  refused : ∀ (i : Nat) (c : Submit τ), p.submits[i]? = some c → c.pc = .rejected →
    (p.results.view i).Refused
  queued : ∀ e ∈ p.taskQue, (p.results.view e.sub).Filled none 0 none
  staged : ∀ job ∈ p.jobs, (p.results.view job.1.sub).Staged job.1.sub job.2
  executed : ∀ e ∈ p.executed, (p.results.view e.sub).Done
  pointed : ∀ e ∈ p.accepted, p.results.result e.task = some e.sub

theorem refused_final {c : Submit τ} (rejected : c.pc = .rejected) : c.pc.final := by
  simp [rejected, SubmitPc.final]

theorem Handshake.quiet (law : Handshake p) (quiet : Quiet p q) (results : q.results = p.results) :
    Handshake q := by
  refine ⟨?_, ?_, ?_, ?_, ?_, ?_⟩
  · intro i open_
    rw [results]
    refine law.unborn i fun c here => ?_
    cases final : c.pc.final with
    | false => rfl
    | true => exact final.symm.trans (open_ c ((quiet.settled i c final).mpr here))
  · intro i c here rejected
    rw [results]
    exact law.refused i c ((quiet.settled i c (refused_final rejected)).mp here) rejected
  · rw [quiet.taskQue, results]
    exact law.queued
  · rw [quiet.jobs, results]
    exact law.staged
  · rw [quiet.executed, results]
    exact law.executed
  · rw [quiet.accepted, results]
    exact law.pointed

/-- Only a new call adds a task to the submissions. -/
theorem outcome_tasks {ρ σ χ κ : Type} {B : Backend τ ρ σ χ κ} {p q : Pool τ ρ σ}
    {a : Action τ χ κ} (outcome : Outcome B p a q) :
    q.submits.map Submit.task = p.submits.map Submit.task ∨
      ∃ task, a = .call task ∧ q.submits.map Submit.task = p.submits.map Submit.task ++ [task] := by
  cases outcome with
  | called task => exact Or.inr ⟨task, rfl, by simp⟩
  | @accepts i c here awake room =>
    rw [(acceptTask_fields B p i c).2.2.2.1]
    exact Or.inl (Agents.map_set_same here rfl)
  | rejects here pc full => exact Or.inl (Agents.map_set_same here rfl)
  | submitWaits here awake full => exact Or.inl (Agents.map_set_same here rfl)
  | submitAwakes here blocked how => exact Or.inl (Agents.map_set_same here rfl)
  | submitLate here woken => exact Or.inl (Agents.map_set_same here rfl)
  | starts next => cases next <;> exact Or.inl rfl
  | @takes w idleLong worker e rest here awake queue =>
    obtain ⟨_, _, _, _, _, _, _, _, submits, _⟩ := takeTask_same B p w worker e rest
    have same : Submit.task ∘ Submit.wake = (Submit.task : Submit τ → τ) := by
      funext ⟨task, pc⟩
      cases pc <;> rfl
    rw [submits, List.map_map, same]
    exact Or.inl rfl
  | destroyTests flagged | destroyRetests woken =>
    rw [exitTest_eq]
    exact Or.inl rfl
  | startCalled | exits | waits | retires | workerAwakes | workerLate | execs | finishes | idles
  | flagged | destroyStirred | others | clients => exact Or.inl rfl

/-- Two submissions of one task are one submission. -/
theorem same_task (tasks : (p.submits.map Submit.task).Nodup) {i j : Nat} {c d : Submit τ}
    (here : p.submits[i]? = some c) (there : p.submits[j]? = some d) (same : c.task = d.task) :
    i = j := by
  have mapped (k : Nat) : (p.submits.map Submit.task)[k]? = p.submits[k]?.map Submit.task :=
    List.getElem?_map ..
  have inside : i < (p.submits.map Submit.task).length := by
    rw [List.length_map]
    exact (List.getElem?_eq_some_iff.mp here).1
  apply (List.getElem?_inj inside tasks).mp
  rw [mapped, mapped, here, there, Option.map_some, Option.map_some, same]

theorem Handshake.unborn_here (law : Handshake p) {i : Nat} {c : Submit τ}
    (here : p.submits[i]? = some c) (open_ : c.pc.final = false) : (p.results.view i).Unborn := by
  refine law.unborn i fun d there => ?_
  obtain rfl : c = d := Option.some.inj (here.symm.trans there)
  exact open_

section Construct
variable [DecidableEq τ]

/-- A submission that returns constructs its Result; the accepted tasks keep theirs. -/
theorem construct_elsewhere (law : Handshake p) (history : History p) {i : Nat} {c : Submit τ}
    (here : p.submits[i]? = some c) (open_ : c.pc.final = false)
    (tasks : (p.submits.map Submit.task).Nodup) (isValid : Bool) {e : Entry τ}
    (member : e ∈ p.accepted) :
    e.sub ≠ i ∧ (construct isValid p.results i c.task).view e.sub = p.results.view e.sub ∧
      (construct isValid p.results i c.task).result e.task = some e.sub := by
  have other : e.sub ≠ i := by
    refine unaccepted_unowned history here ?_ member
    intro accepted
    simp [accepted, SubmitPc.final] at open_
  refine ⟨other, construct_others _ _ _ _ other, ?_⟩
  obtain ⟨d, there, _, task⟩ := history.owned e member
  have apart : e.task ≠ c.task := by
    intro same
    exact other (same_task tasks there here (task.trans same))
  have old := law.pointed e member
  simpa [construct, setResult, setObject, Function.update_of_ne apart] using old

/-- What both returns of subMitTask have in common. -/
theorem handshake_constructs (law : Handshake p) (history : History p) {i : Nat} {c : Submit τ}
    {outcome : SubmitPc} {isValid : Bool} (here : p.submits[i]? = some c)
    (open_ : c.pc.final = false) (done : outcome.final)
    (tasks : (p.submits.map Submit.task).Nodup)
    (submits : q.submits = p.submits.set i { c with pc := outcome })
    (results : q.results = construct isValid p.results i c.task) (jobs : q.jobs = p.jobs)
    (executed : q.executed = p.executed)
    (refused : outcome = .rejected → (q.results.view i).Refused)
    (queued : ∀ e ∈ q.taskQue, e ∈ p.taskQue ∨ (q.results.view e.sub).Filled none 0 none)
    (pointed : ∀ e ∈ q.accepted, e ∈ p.accepted ∨ q.results.result e.task = some e.sub) :
    Handshake q := by
  have inside := (List.getElem?_eq_some_iff.mp here).1
  have old {e : Entry τ} (member : e ∈ p.accepted) :=
    construct_elsewhere law history here open_ tasks isValid member
  refine ⟨?_, ?_, ?_, ?_, ?_, ?_⟩
  · intro j none_final
    rw [submits] at none_final
    have other : j ≠ i := by
      rintro rfl
      have final := none_final _ (List.getElem?_set_self inside)
      simp [done] at final
    rw [results, construct_others _ _ _ _ other]
    rw [List.getElem?_set_ne (Ne.symm other)] at none_final
    exact law.unborn j none_final
  · intro j d there rejected
    rw [submits] at there
    by_cases same : j = i
    · subst same
      rw [List.getElem?_set_self inside] at there
      obtain rfl := Option.some.inj there
      exact refused rejected
    · rw [results, construct_others _ _ _ _ same]
      rw [List.getElem?_set_ne (Ne.symm same)] at there
      exact law.refused j d there rejected
  · intro e member
    rcases queued e member with before | new
    · rw [results, (old (queued_accepted history before)).2.1]
      exact law.queued e before
    · exact new
  · intro job member
    rw [jobs] at member
    rw [results, (old (popped_accepted history (job_popped history member))).2.1]
    exact law.staged job member
  · intro e member
    rw [executed] at member
    rw [results, (old (executed_accepted history member)).2.1]
    exact law.executed e member
  · intro e member
    rcases pointed e member with before | new
    · rw [results]
      exact (old before).2.2
    · exact new

theorem handshake_accepts (law : Handshake p) (history : History p) {i : Nat} {c : Submit τ}
    (here : p.submits[i]? = some c) (awake : c.pc.awake)
    (tasks : (p.submits.map Submit.task).Nodup) :
    Handshake (acceptTask resultBackend p i c) := by
  obtain ⟨queue, _, _, submits, accepted, _, executed, jobs⟩ := acceptTask_fields resultBackend p i c
  have results : (acceptTask resultBackend p i c).results = construct true p.results i c.task := rfl
  have unborn := law.unborn_here here (awake_open awake)
  refine handshake_constructs law history here (awake_open awake) rfl tasks submits results jobs
    executed (by simp) ?_ ?_
  · intro e member
    rw [queue] at member
    rcases List.mem_append.mp member with before | new
    · exact Or.inl before
    · obtain rfl := List.mem_singleton.mp new
      rw [results, construct_view]
      refine Or.inr ⟨rfl, unborn.produced, ?_⟩
      simp [unborn.gets]
  · intro e member
    rw [accepted] at member
    rcases List.mem_append.mp member with before | new
    · exact Or.inl before
    · obtain rfl := List.mem_singleton.mp new
      simp [results, construct, setResult]

theorem handshake_rejects (law : Handshake p) (history : History p) {i : Nat} {c : Submit τ}
    (here : p.submits[i]? = some c) (open_ : c.pc.final = false)
    (tasks : (p.submits.map Submit.task).Nodup) :
    Handshake (rejectTask resultBackend p i c) := by
  have unborn := law.unborn_here here open_
  refine handshake_constructs law history here open_ rfl tasks rfl rfl rfl rfl ?_
    (fun _ => Or.inl) fun _ => Or.inl
  intro _
  change ((construct false p.results i c.task).view i).Refused
  rw [construct_view]
  refine ⟨⟨_, rfl, rfl⟩, unborn.produced, ?_⟩
  simp [unborn.gets]

end Construct

/-- A worker takes one step of the task e; only the Result of e changes. -/
theorem handshake_steps (law : Handshake p) (history : History p) {e : Entry τ} {stage : Stage α}
    {others : List (Entry τ × Stage α)} (split : p.jobs.Perm ((e, stage) :: others))
    (away : ∀ j ≠ e.sub, q.results.view j = p.results.view j)
    (result : q.results.result = p.results.result) (submits : q.submits = p.submits)
    (queue : q.taskQue = p.taskQue) (accepted : q.accepted = p.accepted)
    (staged : ∀ job ∈ q.jobs, job ∈ others ∨ (q.results.view job.1.sub).Staged job.1.sub job.2)
    (executed : ∀ d ∈ q.executed, d ∈ p.executed ∨ (q.results.view d.sub).Done) : Handshake q := by
  obtain ⟨apart_running, apart_executed, apart_queued⟩ := job_apart history split
  have own : (e, stage) ∈ p.jobs := split.mem_iff.mpr (List.mem_cons_self ..)
  have mine := popped_accepted history (job_popped history own)
  have foreign {i : Nat} {c : Submit τ} (here : p.submits[i]? = some c) (pc : c.pc ≠ .accepted) :
      i ≠ e.sub := (unaccepted_unowned history here pc mine).symm
  refine ⟨?_, ?_, ?_, ?_, ?_, ?_⟩
  · intro i none_final
    rw [submits] at none_final
    have other : i ≠ e.sub := by
      obtain ⟨c, here, done, _⟩ := history.owned e mine
      rintro rfl
      have open_ := none_final c here
      simp [done, SubmitPc.final] at open_
    rw [away i other]
    exact law.unborn i none_final
  · intro i c here rejected
    rw [submits] at here
    rw [away i (foreign here (by simp [rejected]))]
    exact law.refused i c here rejected
  · intro d member
    rw [queue] at member
    rw [away _ (apart_queued d member)]
    exact law.queued d member
  · intro job member
    rcases staged job member with other | new
    · rw [away _ (apart_running job other)]
      exact law.staged job (split.mem_iff.mpr (List.mem_cons_of_mem _ other))
    · exact new
  · intro d member
    rcases executed d member with before | new
    · rw [away _ (apart_executed d before)]
      exact law.executed d before
    · exact new
  · rw [accepted, result]
    exact law.pointed

/-- A client takes one step on one Result. -/
theorem handshake_clients {k : ClientAction} (law : Handshake p) (history : History p)
    (permit : HandshakeRules p (.client k)) (quiet : Quiet p q)
    (taken : client p.results k = some q.results) : Handshake q := by
  obtain ⟨result, i, away, move⟩ := client_moved taken
  have kept {P : View α → Prop} {j : Nat} (before : P (p.results.view j))
      (moves : i = j → P (p.results.view i) → P (q.results.view i)) : P (q.results.view j) := by
    by_cases same : i = j
    · subst same
      exact moves rfl before
    · rw [away j (Ne.symm same)]
      exact before
  -- a Result is not destroyed while its task is queued or running
  have undropped {e : Entry τ} (elsewhere : e ∈ p.running ∨ e ∈ p.taskQue) (member : e ∈ p.accepted)
      (same : i = e.sub) : k ≠ .drop i := by
    rintro rfl
    obtain ⟨c, here, accepted, _⟩ := history.owned e member
    obtain ⟨d, executed, sub⟩ := permit c (same ▸ here) accepted
    exact executed_apart history executed elsewhere (same.symm.trans sub.symm)
  have settled {j : Nat} {c : Submit τ} (final : c.pc.final) := quiet.settled j c final
  refine ⟨?_, ?_, ?_, ?_, ?_, ?_⟩
  · intro j none_final
    refine kept (law.unborn j fun c here => ?_) fun _ before => (unborn_move before move).elim
    cases final : c.pc.final with
    | false => rfl
    | true => exact final.symm.trans (none_final c ((quiet.settled j c final).mpr here))
  · intro j c here rejected
    have before := (quiet.settled j c (refused_final rejected)).mp here
    exact kept (law.refused j c before rejected) fun _ refused => refused_move refused move
  · intro e member
    rw [quiet.taskQue] at member
    refine kept (law.queued e member) fun same filled => filled_move filled move ?_
    exact undropped (Or.inr member) (queued_accepted history member) same
  · intro job member
    rw [quiet.jobs] at member
    have accepted := popped_accepted history (job_popped history member)
    refine kept (P := fun v => v.Staged job.1.sub job.2) (law.staged job member) ?_
    intro same staged
    have kind := undropped (Or.inl (List.mem_map.mpr ⟨job, member, rfl⟩)) accepted same
    exact same ▸ staged_move (same ▸ staged) move kind
  · intro e member
    rw [quiet.executed] at member
    exact kept (law.executed e member) fun _ done => done_move done move
  · rw [quiet.accepted, result]
    exact law.pointed

/-- The Result of an accepted submission is waiting for its value or has been posted. -/
theorem Handshake.accepted_result (law : Handshake p) (history : History p) {i : Nat} {c : Submit τ}
    (here : p.submits[i]? = some c) (accepted : c.pc = .accepted) :
    (∃ any setVals produced, setVals ≤ 1 ∧ (p.results.view i).Filled any setVals produced) ∨
      ⟨c.task, i⟩ ∈ p.executed ∧ (p.results.view i).Done := by
  have recorded := history.recorded i c here accepted
  rw [history.fifo, List.mem_append] at recorded
  rcases recorded with popped | queued
  · rcases List.mem_append.mp (history.spent.mem_iff.mp popped) with running | executed
    · obtain ⟨job, member, same⟩ := List.mem_map.mp running
      have staged := law.staged job member
      rw [same] at staged
      exact Or.inl (staged_waits staged)
    · exact Or.inr ⟨executed, law.executed _ executed⟩
  · exact Or.inl ⟨_, _, _, Nat.zero_le 1, law.queued _ queued⟩

variable [DecidableEq τ]

theorem handshake_move {a : Action τ (Any α) ClientAction} (law : Handshake p) (history : History p)
    (tasks : (p.submits.map Submit.task).Nodup) (permit : HandshakeRules p a)
    (move : QueueMove resultBackend p q a) : Handshake q := by
  cases move with
  | quiet quiet results => exact law.quiet quiet results
  | accepts here awake room after => exact after ▸ handshake_accepts law history here awake tasks
  | rejects here pc full after =>
    exact after ▸ handshake_rejects law history here (by simp [pc, SubmitPc.final]) tasks
  | @takes _ w worker e rest here awake queue quiet results =>
    obtain ⟨others, before, after⟩ := setWorker_jobs_perm here (.running e Stage.test)
    rw [awake_job awake] at before
    have gained : q.jobs.Perm ((e, .test) :: p.jobs) := by
      rw [quiet.jobs]
      exact after.trans (before.symm.cons (e, Stage.test))
    have popped : Handshake (popTask resultBackend p w worker e rest) := by
      refine ⟨law.unborn, law.refused, ?_, ?_, law.executed, law.pointed⟩
      · intro d member
        exact law.queued d (queue ▸ List.mem_cons_of_mem _ member)
      · intro job member
        rw [← quiet.jobs] at member
        rcases List.mem_cons.mp (gained.mem_iff.mp member) with rfl | old
        · exact law.queued e (queue ▸ List.mem_cons_self ..)
        · exact law.staged job old
    exact popped.quiet quiet results
  | @execs _ x w worker e stage next results here pc ran after =>
    subst after
    obtain ⟨others, before, changed⟩ := setWorker_jobs_perm here (.running e next)
    have own : worker.job = some (e, stage) := by simp [Worker.job, pc]
    rw [own] at before
    have mine := popped_accepted history (running_popped history here pc)
    obtain ⟨result, away, staged⟩ :=
      exec_staged (law.pointed e mine) (law.staged _ (running_job here pc)) ran
    refine handshake_steps law history before away result rfl rfl rfl ?_ fun d => Or.inl
    intro job member
    rcases List.mem_cons.mp (changed.mem_iff.mp member) with rfl | old
    · exact Or.inr staged
    · exact Or.inl old
  | @finishes _ x w worker e stage results here pc ran after =>
    subst after
    obtain ⟨others, before, changed⟩ := setWorker_jobs_perm here .ran
    have own : worker.job = some (e, stage) := by simp [Worker.job, pc]
    rw [own] at before
    have mine := popped_accepted history (running_popped history here pc)
    obtain ⟨result, away, done⟩ :=
      exec_staged (law.pointed e mine) (law.staged _ (running_job here pc)) ran
    refine handshake_steps law history before away result rfl rfl rfl ?_ ?_
    · intro job member
      exact Or.inl (changed.mem_iff.mp member)
    · intro d member
      rcases List.mem_append.mp member with old | new
      · exact Or.inl old
      · exact Or.inr (List.mem_singleton.mp new ▸ done)
  | clients quiet done => exact handshake_clients law history permit quiet done

theorem reachable_handshake {generateID : Nat} {mode : PoolMode} {threadhold threshold : Int}
    (reached : Machine.Reach (step resultBackend) HandshakeRules
      (configured generateID emptySide mode threadhold threshold) p) :
    Handshake p ∧ (p.submits.map Submit.task).Nodup := by
  induction reached with
  | start =>
    rw [configured_fields]
    refine ⟨⟨?_, ?_, ?_, ?_, ?_, ?_⟩, ?_⟩
    · intro i _
      exact ⟨rfl, rfl, rfl⟩
    all_goals simp [newPool, Pool.jobs]
  | @next p q a before permit taken ih =>
    obtain ⟨law, tasks⟩ := ih
    have outcome := (step_outcome taken).2
    refine ⟨handshake_move law (reachable_history before.reachable) tasks permit
      (outcome_move outcome), ?_⟩
    rcases outcome_tasks outcome with same | ⟨task, rfl, more⟩
    · rw [same]
      exact tasks
    · rw [more, List.nodup_append]
      refine ⟨tasks, by simp, ?_⟩
      intro old member new last eq
      obtain ⟨c, inside, rfl⟩ := List.mem_map.mp member
      exact permit c inside (eq.trans (List.mem_singleton.mp last))

/-- The handshake in one state. The first part is about the tasks being run, the second about
    the tasks that have been run, the next two about accepted submissions and the last about
    rejected ones. -/
def HandshakeKept (p : ResultPool τ α) : Prop :=
  (∀ (w : Nat) (worker : Worker τ (Stage α)) (e : Entry τ) (stage : Stage α),
    p.workers[w]? = some worker → worker.pc = .running e stage →
      p.results.result e.task = some e.sub ∧ ∀ value, exec p.results e stage value ≠ none) ∧
  (∀ e ∈ p.executed, ∃ r value, p.results.objects e.sub = some r ∧ r.setVals = 1 ∧
    p.results.produced e.sub = some value) ∧
  (∀ (i : Nat) (c : Submit τ), p.submits[i]? = some c → c.pc = .accepted →
    ∃ r, p.results.objects i = some r ∧ r.setVals ≤ 1) ∧
  (∀ (i : Nat) (c : Submit τ) (g : Get α), p.submits[i]? = some c → c.pc = .accepted →
    g ∈ p.results.gets → g.result = i → g.pc.passed →
      (∃ e ∈ p.executed, e.sub = i) ∧
        ∀ any, g.pc = .returned any → p.results.produced i = some any) ∧
  (∀ (i : Nat) (c : Submit τ), p.submits[i]? = some c → c.pc = .rejected →
    p.results.produced i = none ∧ (∀ e ∈ p.popped ++ p.taskQue, e.sub ≠ i) ∧
      ∀ (k : Nat) (g : Get α), p.results.gets[k]? = some g → g.result = i →
        g.pc = .entering ∧ getNext p.results k = some (setGet p.results k g (.returned none)) ∨
          g.pc = .returned none)

/-- The value of every accepted task reaches the first get through its own Result. -/
theorem handshake_kept {generateID : Nat} {mode : PoolMode} {threadhold threshold : Int}
    (reached : Machine.Reach (step resultBackend) HandshakeRules
      (configured generateID emptySide mode threadhold threshold) p) : HandshakeKept p := by
  have law := (reachable_handshake reached).1
  have history := reachable_history reached.reachable
  refine ⟨?_, ?_, ?_, ?_, ?_⟩
  · intro w worker e stage here pc
    have pointed := law.pointed e (popped_accepted history (running_popped history here pc))
    exact ⟨pointed, fun value => exec_defined value pointed (law.staged _ (running_job here pc))⟩
  · intro e member
    obtain ⟨r, value, posted⟩ := law.executed e member
    exact ⟨r, value, posted.object, posted.once, posted.produced⟩
  · intro i c here accepted
    rcases law.accepted_result history here accepted with
      ⟨_, _, _, few, filled⟩ | ⟨_, r, value, posted⟩
    · exact ⟨_, filled.object, few⟩
    · exact ⟨r, posted.object, Nat.le_of_eq posted.once⟩
  · intro i c g here accepted member on past
    have inside : g.pc ∈ (p.results.view i).gets := List.mem_filterMap.mpr ⟨g, member, if_pos on⟩
    rcases law.accepted_result history here accepted with
      ⟨_, _, _, _, filled⟩ | ⟨executed, r, value, posted⟩
    · simp [filled.gets g.pc inside] at past
    · refine ⟨⟨_, executed, rfl⟩, ?_⟩
      intro any returned
      rw [posted.returned any (returned ▸ inside)]
      exact posted.produced
  · intro i c here rejected
    have refused := law.refused i c here rejected
    refine ⟨refused.produced, ?_, ?_⟩
    · intro e member
      exact unaccepted_unowned history here (by simp [rejected]) (history.fifo ▸ member)
    · intro k g there on
      obtain ⟨r, object, invalid⟩ := refused.object
      have inside : g.pc ∈ (p.results.view i).gets :=
        List.mem_filterMap.mpr ⟨g, Agents.mem_of_position there, if_pos on⟩
      rcases refused.gets g.pc inside with entering | returned
      · refine Or.inl ⟨entering, ?_⟩
        have present : p.results.objects g.result = some r := on ▸ object
        simp [getNext, there, present, entering, invalid]
      · exact Or.inr returned

instance (p : ResultPool τ α) : (a : Action τ (Any α) ClientAction) → Decidable (HandshakeRules p a)
  | .call task =>
    have : Decidable (∀ c ∈ p.submits, c.task ≠ task) := List.decidableBAll _ _
    inferInstanceAs (Decidable (∀ c ∈ p.submits, c.task ≠ task))
  | .client (.drop i) => by
    cases here : p.submits[i]? with
    | none => exact .isTrue (by simp [HandshakeRules, here])
    | some c =>
      have : Decidable (∃ e ∈ p.executed, e.sub = i) := List.decidableBEx _ _
      exact decidable_of_iff (c.pc = .accepted → ∃ e ∈ p.executed, e.sub = i)
        (by simp [HandshakeRules, here])
  | .client (.get _) | .client (.getNext _) | .client (.getStir _) | .submit _ | .submitTimeout _
  | .submitStir _ | .callStart _ | .start | .worker _ _ | .workerTimeout _ | .workerStir _
  | .exec _ _ | .idle _ | .destroy | .destroyNext | .destroyStir | .otherThread => .isTrue trivial

/-- One task; its first get is called before it runs and returns what it produced. -/
def oneHandshake : List (Action Nat (Any Nat) ClientAction) :=
  [Action.callStart 1] ++ List.replicate 8 Action.start ++
    [Action.call 5, .submit 0, .client (.get 0), .client (.getNext 0), .worker 0 false] ++
    List.replicate 5 (Action.exec 0 (some 7)) ++ [Action.client (.getNext 0), .client (.getNext 0)]

theorem handshake_kept_one_task :
    ∃ p : ResultPool Nat Nat, p.results.gets = [⟨0, .returned (some 7)⟩] ∧
      p.results.produced 0 = some (some 7) := by
  have ran : ∃ p ∈ Machine.run (step resultBackend)
      (configured 0 emptySide .modeFixd 1024 10 : ResultPool Nat Nat) oneHandshake,
      p.results.gets = [⟨0, .returned (some 7)⟩] ∧ p.submits[0]? = some ⟨5, .accepted⟩ := by
    decide +kernel
  obtain ⟨p, ran, gets, accepted⟩ := ran
  have obeys : Machine.Obeys (step resultBackend) HandshakeRules
      (configured 0 emptySide .modeFixd 1024 10 : ResultPool Nat Nat) oneHandshake := by
    decide +kernel
  have kept := handshake_kept (Machine.reach_of_run obeys ran)
  have returned := kept.2.2.2.1 0 _ ⟨0, .returned (some 7)⟩ accepted rfl (by simp [gets]) rfl rfl
  exact ⟨p, gets, returned.2 _ rfl⟩

end TaskResult
