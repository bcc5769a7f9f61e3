import ServerPools.Support.Inevitable
import ServerPools.Threads.Effort
import ServerPools.Threads.Orderly
import ServerPools.Threads.Wakeups

/- A pool serves what it has been asked: left to its own threads and to the calls that are
   under way, it runs every accepted task to its end, returns from every submission and from
   the destructor, and it does so in whatever order the threads get the lock. -/
namespace ThreadPool
variable {τ ρ σ χ κ : Type} {B : Backend τ ρ σ χ κ} {p q : Pool τ ρ σ}

/-- Every request has been served. -/
structure AllServed (p : Pool τ ρ σ) : Prop where
  queue : p.taskQue = []
  executed : p.executed.Perm p.accepted
  answered : ∀ c ∈ p.submits, c.pc.final
  closed : p.destroyCall ≠ .notCalled → p.destroyCall = .returned ∧ p.threads = []

/-- Every thread that runs a task can go on with it. -/
def Able (B : Backend τ ρ σ χ κ) (p : Pool τ ρ σ) : Prop :=
  ∀ job ∈ p.jobs, ∃ x, (B.exec p.results job.1 job.2 x).isSome

/-- No thread and no call that is under way can take a step; tasks are another matter. -/
def AtRest (B : Backend τ ρ σ χ κ) (p : Pool τ ρ σ) : Prop :=
  ∀ a : Action τ χ κ, Calm (fun _ => False) a → (∀ w x, a ≠ .exec w x) → step B p a = none

section Rest

theorem live_step {a : Action τ χ κ} (found : p.nullThread = false) (alive : p.destroyCall ≠ .returned)
    (stuck : step B p a = none) (calm : Calm (fun _ => False) a) : perform B p a = none := by
  have on : enabled p a := by
    cases a <;> first | exact alive | exact calm.elim
  unfold step at stuck
  rwa [if_pos ⟨found, on⟩] at stuck

/-- A task that is able to go on keeps its thread moving. -/
theorem rest_jobs (found : p.nullThread = false) (alive : p.destroyCall ≠ .returned)
    (able : Able B p) (rest : ∀ w x, step B p (.exec w x) = none) : p.jobs = [] := by
  apply List.eq_nil_iff_forall_not_mem.mpr
  rintro ⟨e, stage⟩ member
  obtain ⟨worker, there, own⟩ := List.mem_filterMap.mp member
  obtain ⟨w, here⟩ := List.getElem?_of_mem there
  have pc : worker.pc = .running e stage := by
    cases place : worker.pc <;> simp_all [Worker.job]
  obtain ⟨x, goes⟩ := able (e, stage) member
  have stuck : execTask B p w x = none := live_step found alive (rest w x) trivial
  unfold execTask at stuck
  simp only [here, pc] at stuck
  split at stuck
  · rename_i none_there
    simp [none_there] at goes
  · contradiction
  · contradiction

/-- At rest a thread sleeps or has left. -/
theorem rest_worker (found : p.nullThread = false) (alive : p.destroyCall ≠ .returned)
    (rest : AtRest B p) (jobs : p.jobs = []) {worker : Worker τ σ} (member : worker ∈ p.workers) :
    worker.pc.asleep ∨ worker.pc.status ≠ .active := by
  obtain ⟨w, here⟩ := List.getElem?_of_mem member
  have idle : threadFunc B p w false = none :=
    live_step found alive (rest (.worker w false) trivial (by simp)) trivial
  have settled : becomeIdle p w = none :=
    live_step found alive (rest (.idle w) trivial (by simp)) trivial
  unfold threadFunc at idle
  unfold becomeIdle at settled
  simp only [here] at idle settled
  cases pc : worker.pc with
  | entering | woken | timedOut => simp [pc] at idle
  | blocked timed => exact Or.inl rfl
  | running e stage =>
    have job : (e, stage) ∈ p.jobs :=
      List.mem_filterMap.mpr ⟨worker, member, by simp [Worker.job, pc]⟩
    simp [jobs] at job
  | ran => simp [pc] at settled
  | exited | retired => exact Or.inr (by simp [WorkerPc.status])

theorem rest_submit (found : p.nullThread = false) (alive : p.destroyCall ≠ .returned)
    (rest : AtRest B p) {c : Submit τ} (member : c ∈ p.submits) : c.pc = .blocked ∨ c.pc.final := by
  obtain ⟨i, here⟩ := List.getElem?_of_mem member
  have stuck : submit B p i = none := live_step found alive (rest (.submit i) trivial (by simp)) trivial
  unfold submit at stuck
  simp only [here] at stuck
  cases pc : c.pc with
  | entering | woken | timedOut =>
    simp only [pc] at stuck
    split at stuck <;> contradiction
  | blocked => exact Or.inl rfl
  | accepted | rejected => exact Or.inr rfl

theorem rest_start (found : p.nullThread = false) (alive : p.destroyCall ≠ .returned)
    (rest : AtRest B p) (begun : p.startCall ≠ .notCalled) : p.startCall = .returned := by
  have stuck : startNext p = none := live_step found alive (rest .start trivial (by simp)) trivial
  unfold startNext at stuck
  cases place : p.startCall <;> simp only [place] at stuck begun
  case notCalled => exact absurd rfl begun
  case returned => rfl
  case creating | launching =>
    split at stuck
    · first | contradiction | (split at stuck <;> contradiction)
    · contradiction
  all_goals contradiction

theorem rest_destroy (found : p.nullThread = false) (alive : p.destroyCall ≠ .returned)
    (rest : AtRest B p) : p.destroyCall = .notCalled ∨ p.destroyCall = .blocked := by
  have stuck : destroyNext p = none := live_step found alive (rest .destroyNext trivial (by simp)) trivial
  unfold destroyNext at stuck
  cases place : p.destroyCall <;> simp_all

end Rest

/-- The pools that the results below are about: the first of the process, started once with n
    threads, with room for a task and not caught in the destructor's wait. -/
structure Serving (B : Backend τ ρ σ χ κ) (n : Nat) (mode : PoolMode) (t threshold : Int)
    (results : ρ) (p : Pool τ ρ σ) : Prop where
  reached : Machine.Reach (step B) (Orderly n) (configured 0 results mode t threshold) p
  begun : p.startCall ≠ .notCalled
  free : ¬ Stuck p

/-- What has been popped and is not running has been executed. -/
theorem all_executed (history : History p) (queue : p.taskQue = []) (running : p.running = []) :
    p.executed.Perm p.accepted := by
  have spent := history.spent
  rw [running, List.nil_append] at spent
  rw [history.fifo, queue, List.append_nil]
  exact spent.symm

/-- A pool whose destructor has returned has served everything. -/
theorem returned_served {n : Nat} (positive : 1 ≤ n) {t : Int} {mode : PoolMode} {threshold : Int}
    {results : ρ}
    (reached : Machine.Reach (step B) (Orderly n) (configured 0 results mode t threshold) p)
    (gone : p.destroyCall = .returned) : AllServed p := by
  have history := reachable_history reached.reachable
  have sound := reachable_sound (by omega) (orderly_once reached)
  have empty := sound.returned gone
  obtain ⟨place, closed⟩ := sound.closing (by simp [gone])
  obtain ⟨good, init⟩ := reachable_good positive reached place
  have queue := (good.drained (good.some_exited positive init empty)).1
  have running : p.running = [] := by
    apply List.eq_nil_iff_forall_not_mem.mpr
    intro e member
    obtain ⟨id, active⟩ := running_active member
    simpa [empty] using good.active id active
  refine ⟨queue, all_executed history queue running, fun c member => ?_, fun _ => ⟨gone, empty⟩⟩
  have settled := closed c member
  cases pc : c.pc <;> simp_all [SubmitPc.pending, SubmitPc.final]

/-- Where nothing can move, everything has been served. -/
theorem rest_served {n : Nat} (positive : 1 ≤ n) {t : Int} (bounded : 1 ≤ t ∧ t < 2 ^ 31)
    {mode : PoolMode} {threshold : Int} {results : ρ}
    (serving : Serving B n mode t threshold results p) (rest : AtRest B p)
    (idle : p.destroyCall ≠ .returned → p.jobs = []) : AllServed p := by
  have reached := serving.reached
  by_cases alive : p.destroyCall = .returned
  · exact returned_served positive reached alive
  · have plain := reached.reachable
    have law := reachable_law ⟨by omega, bounded.2⟩ plain
    have notified := reachable_notified plain
    have manned := reachable_manned (by omega) reached
    have workers {worker : Worker τ σ} (member : worker ∈ p.workers) :=
      rest_worker manned.found alive rest (idle alive) member
    have returned := rest_start manned.found alive rest serving.begun
    obtain ⟨good, init⟩ := reachable_good positive reached returned
    have keyed := manned.keyed
    rw [returned] at keyed
    have running : p.running = [] := by rw [Pool.running, idle alive, List.map_nil]
    by_cases asleep : p.anyAt WorkerPc.asleep
    · have queue : p.taskQue = [] := by
        by_contra stocked
        exact notified.stocked stocked asleep
      have standing : p.destroyCall = .notCalled := by
        rcases rest_destroy manned.found alive rest with standing | blocked
        · exact standing
        · exact absurd asleep (notified.told (by simp [blocked, DestroyPc.notified]))
      have room : hasRoom p := by
        rw [hasRoom_iff (by rw [law.threadhold]; omega), law.threadhold, queue]
        simp only [List.length_nil]
        omega
      refine ⟨queue, all_executed law.toHistory queue running, fun c member => ?_,
        fun begun => absurd standing begun⟩
      rcases rest_submit manned.found alive rest member with blocked | final
      · exact absurd ⟨c, member, blocked⟩ (notified.roomy room)
      · exact final
    · have empty : p.threads = [] := by
        apply List.eq_nil_iff_forall_not_mem.mpr
        intro id member
        obtain ⟨worker, there, seen⟩ := List.mem_map.mp (keyed id member)
        have active : worker.pc.status = .active := congrArg Prod.snd seen
        rcases workers there with sleeps | left
        · exact asleep ⟨worker, there, sleeps⟩
        · exact left active
      have closing := (good.drained (good.some_exited positive init empty)).2
      rcases rest_destroy manned.found alive rest with standing | blocked
      · exact absurd standing closing
      · exact absurd ⟨empty, blocked⟩ serving.free

section Inevitable
variable {n : Nat} {mode : PoolMode} {t threshold : Int} {results : ρ} {helps : κ → Prop}

theorem calm_orderly {a : Action τ χ κ} (calm : Calm helps a) : Orderly n p a := by
  cases a <;> first | exact trivial | exact calm.elim

/-- The steps of the pool are calm whatever its clients may do. -/
theorem calm_helps {a : Action τ χ κ} (calm : Calm (fun _ => False) a) : Calm helps a := by
  cases a with
  | worker w idleLong => cases idleLong <;> exact calm
  | client k => exact calm.elim
  | _ => exact calm

theorem outcome_begun {a : Action τ χ κ} (outcome : Outcome B p a q)
    (begun : p.startCall ≠ .notCalled) : q.startCall ≠ .notCalled := by
  by_cases starting : a = .start
  · subst starting
    cases start_outcome outcome with
    | dereferencesNull => exact begun
    | setsRunning | setsInit | setsCur | creates | created | launches | launched | counts => simp
  · cases outcome_roster outcome with
    | called m settled standing after => simp [after]
    | quiet roster threads cur init ids start | grows mode below caller roster threads cur init ids start
    | exits here empty stopped roster threads cur init ids start
    | retires here expired surplus roster threads cur init ids start => exact start ▸ begun
    | starts next => exact absurd rfl starting

theorem Serving.next {a : Action τ χ κ} (serving : Serving B n mode t threshold results p)
    (calm : Calm helps a) (taken : step B p a = some q) :
    Serving B n mode t threshold results q := by
  have outcome := (step_outcome taken).2
  refine ⟨serving.reached.next (calm_orderly calm) taken, outcome_begun outcome serving.begun, ?_⟩
  refine outcome_not_stuck serving.free ?_ outcome
  rintro w worker rfl
  exact calm.elim

/-- A pool left to serve comes to rest with everything served, whatever the schedule. -/
theorem served_inevitably (E : Effort B) (positive : 1 ≤ n) (bounded : 1 ≤ t ∧ t < 2 ^ 31)
    {goal : Pool τ ρ σ → Prop} (serving : Serving B n mode t threshold results p)
    (fits : E.fits p.results)
    (able : ∀ q, Machine.Reach (step B) (fun _ => Calm E.helps) p q → Able B q)
    (meets : ∀ q, Machine.Reach (step B) (fun _ => Calm E.helps) p q → AllServed q →
      ¬ Machine.CanStep (step B) (fun _ => Calm E.helps) q → goal q) :
    Machine.Inevitable (step B) (fun _ => Calm E.helps) goal p := by
  apply Machine.inevitable_of_measure
    (fun q => Serving B n mode t threshold results q ∧ E.Within p.manpower p.submits.length q ∧
      Machine.Reach (step B) (fun _ => Calm E.helps) p q) (E.total p.manpower p.submits.length)
  · rintro s a u ⟨serving, within, reached⟩ calm taken
    have later := serving.next calm taken
    have found := (reachable_manned (by omega) later.reached).found
    exact ⟨later, (calm_falls within calm found (step_outcome taken).2).1, reached.next calm taken⟩
  · rintro s a u ⟨serving, within, _⟩ calm taken
    have later := serving.next calm taken
    have found := (reachable_manned (by omega) later.reached).found
    exact (calm_falls within calm found (step_outcome taken).2).2
  · rintro s ⟨serving, _, reached⟩ still
    have stuck (a : Action τ χ κ) (calm : Calm (fun _ => False) a) : step B s a = none := by
      cases taken : step B s a with
      | none => rfl
      | some u => exact absurd ⟨a, u, calm_helps calm, taken⟩ still
    have found := (reachable_manned (by omega) serving.reached).found
    refine meets s reached (rest_served positive bounded serving (fun a calm _ => stuck a calm) ?_) still
    exact fun alive => rest_jobs found alive (able s reached) fun w x => stuck (.exec w x) trivial
  · exact ⟨serving, ⟨Nat.le_refl _, Nat.le_refl _, fits⟩, .start⟩

end Inevitable

end ThreadPool
