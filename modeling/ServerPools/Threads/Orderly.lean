import ServerPools.Threads.Accounting
import ServerPools.Threads.Process

/- The first pool of a process, started before it is used and then possibly destroyed. In such
   runs the key of a thread in the map always has its thread on duty. -/
namespace ThreadPool
variable {τ ρ σ χ κ : Type} {B : Backend τ ρ σ χ κ} {p q : Pool τ ρ σ}

/-- start(n) is the only start and no other pool makes threads until it has returned; calls of
    submit lie between that return and the destructor. -/
def Orderly (n : Int) (p : Pool τ ρ σ) : Action τ χ κ → Prop
  | .callStart m => m = n ∧ p.startCall = .notCalled
  | .call _ => p.startCall = .returned ∧ p.destroyCall = .notCalled
  | .destroy => p.startCall = .returned ∧ ∀ c ∈ p.submits, c.pc.pending = false
  | .otherThread => p.startCall = .returned
  | _ => True

instance (n : Int) (p : Pool τ ρ σ) : (a : Action τ χ κ) → Decidable (Orderly n p a)
  | .callStart m => inferInstanceAs (Decidable (m = n ∧ p.startCall = .notCalled))
  | .call _ => inferInstanceAs (Decidable (p.startCall = .returned ∧ p.destroyCall = .notCalled))
  | .destroy =>
    have : Decidable (∀ c ∈ p.submits, c.pc.pending = false) := List.decidableBAll _ _
    inferInstanceAs (Decidable (p.startCall = .returned ∧ ∀ c ∈ p.submits, c.pc.pending = false))
  | .otherThread => inferInstanceAs (Decidable (p.startCall = .returned))
  | .submit _ | .submitTimeout _ | .submitStir _ | .start | .worker _ _ | .workerTimeout _
  | .workerStir _ | .exec _ _ | .idle _ | .destroyNext | .destroyStir | .client _ => .isTrue trivial

/-- The keys of the map at each place of start. -/
def StartPc.keyed (p : Pool τ ρ σ) : StartPc → Prop
  | .notCalled | .setRunning _ | .setInit _ | .setCur _ => p.threads = [] ∧ p.generateID = 0
  | .creating i => p.threads = List.range i ∧ p.generateID = i
  | .launching _ | .counting _ => p.threads = List.range p.initThreadSize.toNat
  | .returned => ∀ id ∈ p.threads, (id, .active) ∈ p.roster

structure Manned (p : Pool τ ρ σ) : Prop where
  found : p.nullThread = false
  keyed : p.startCall.keyed p

theorem orderly_once {n : Int} {start : Pool τ ρ σ}
    (reached : Machine.Reach (step B) (Orderly n) start p) :
    Machine.Reach (step B) (StartedOnce n) start p := by
  refine reached.weaken fun s a permit => ?_
  cases a <;> first | exact permit | exact permit.2 | exact trivial

/-- Once start has returned it stays so. -/
theorem outcome_returned {a : Action τ χ κ} {n : Int} (outcome : Outcome B p a q)
    (permit : Orderly n p a) (returned : p.startCall = .returned) : q.startCall = .returned := by
  by_cases starting : a = .start
  · subst starting
    cases start_outcome outcome with
    | setsRunning m place | setsInit m place | setsCur m place | creates i place | created i place
    | launches i place | dereferencesNull i place | launched i place | counts i place =>
      simp [returned] at place
  · cases outcome_roster outcome with
    | called m settled standing after =>
      obtain ⟨_, never⟩ : m = n ∧ p.startCall = .notCalled := permit
      simp [returned] at never
    | quiet roster threads cur init ids start | grows mode below caller roster threads cur init ids start
    | exits here empty stopped roster threads cur init ids start
    | retires here expired surplus roster threads cur init ids start => exact start.trans returned
    | starts next => exact absurd rfl starting

/-- Up to the return of start the run is one of those in which the accounts are right. -/
theorem orderly_first {n : Int} {start : Pool τ ρ σ}
    (reached : Machine.Reach (step B) (Orderly n) start p) (running : p.startCall ≠ .returned) :
    Machine.Reach (step B) (StartsFirst n) start p := by
  induction reached with
  | start => exact .start
  | @next p q a before permit taken ih =>
    have earlier : p.startCall ≠ .returned := fun returned =>
      running (outcome_returned (step_outcome taken).2 permit returned)
    refine (ih earlier).next ?_ taken
    cases a with
    | call task => exact absurd permit.1 earlier
    | destroy => exact absurd permit.1 earlier
    | callStart m => exact permit
    | submit | submitTimeout | submitStir | start | worker | workerTimeout | workerStir | exec
    | idle | destroyNext | destroyStir | otherThread | client => trivial

/-- Which of these steps move the counter of ids: a growing submission, and other pools. -/
theorem outcome_ids {a : Action τ χ κ} (outcome : Outcome B p a q) (starting : a ≠ .start)
    (others : a ≠ .otherThread) : q.generateID = p.generateID ∨ ∃ c ∈ p.submits, c.pc.pending := by
  cases outcome with
  | accepts here awake room =>
    exact Or.inr ⟨_, Agents.mem_of_position here, awake_pending awake⟩
  | starts next => exact absurd rfl starting
  | takes here awake queue => exact Or.inl (takeTask_same B p _ _ _ _).2.2.2.2.1
  | destroyTests | destroyRetests =>
    rw [exitTest_eq]
    exact Or.inl rfl
  | others => exact absurd rfl others
  | called | rejects | submitWaits | submitAwakes | submitLate | startCalled | exits | waits
  | retires | workerAwakes | workerLate | execs | finishes | idles | flagged | destroyStirred
  | clients =>
    exact Or.inl rfl

/-- Until start has returned the other threads leave the map and the ids alone. -/
theorem early_keys {a : Action τ χ κ} {n : Int} (sound : Sound n p) (books : Books p)
    (running : p.startCall ≠ .returned) (standing : p.destroyCall = .notCalled)
    (permit : Orderly n p a) (outcome : Outcome B p a q) (starting : a ≠ .start) :
    q.threads = p.threads ∧ q.generateID = p.generateID := by
  have others : a ≠ .otherThread := by
    rintro rfl
    exact running permit
  have ids : q.generateID = p.generateID := by
    rcases outcome_ids outcome starting others with same | some_pending
    · exact same
    · exact absurd some_pending (books.early running)
  cases outcome_roster outcome with
  | quiet roster threads => exact ⟨threads, ids⟩
  | called m settled standing' after =>
    subst after
    exact ⟨rfl, rfl⟩
  | grows mode below caller => exact absurd caller (books.early running)
  | exits here empty stopped =>
    have on := books.manned_running sound standing here
    simp [on] at stopped
  | retires here expired surplus =>
    have before := books.balance
    obtain ⟨worker, member, pc⟩ := expired
    have duty : ∃ id, id ∈ p.onDuty := by
      refine ⟨_, List.mem_map.mpr ⟨worker.view, List.mem_filter.mpr ⟨?_, ?_⟩, rfl⟩⟩
      · exact List.mem_map.mpr ⟨worker, member, rfl⟩
      · simp [Worker.view, pc, WorkerPc.status]
    obtain ⟨id, manned⟩ := duty
    cases place : p.startCall <;> simp only [place, StartPc.balance] at before
    case returned => exact absurd place running
    case launching | counting => omega
    all_goals simp [before.2] at manned
  | starts next => exact absurd rfl starting

theorem startNext_manned {n : Int} (nonneg : 0 ≤ n) (sound : Sound n p) (books : Books p)
    (manned : Manned p) (next : StartStep p q) : Manned q := by
  have keyed := manned.keyed
  have sized := sound.sized
  cases next with
  | setsRunning m place | setsInit m place =>
    rw [place] at keyed
    exact ⟨manned.found, keyed⟩
  | setsCur m place =>
    rw [place] at keyed
    exact ⟨manned.found, keyed⟩
  | creates i place more =>
    rw [place] at keyed
    obtain ⟨threads, ids⟩ := keyed
    refine ⟨manned.found, ?_, by simp [ids]⟩
    change emplace p.threads p.generateID = List.range (i + 1)
    rw [threads, ids, emplace_fresh (by simp), List.range_succ]
  | created i place done =>
    rw [place] at keyed sized
    obtain ⟨init, within⟩ := sized
    have all : i = p.initThreadSize.toNat := by omega
    have threads : p.threads = List.range p.initThreadSize.toNat := all ▸ keyed.1
    exact ⟨manned.found, threads⟩
  | launches i place more present | counts i place =>
    rw [place] at keyed
    exact ⟨manned.found, keyed⟩
  | dereferencesNull i place more absent =>
    rw [place] at keyed
    have threads : p.threads = List.range p.initThreadSize.toNat := keyed
    refine absurd ?_ absent
    rw [threads, List.mem_range]
    omega
  | launched i place done =>
    have balance := books.balance
    rw [place] at keyed sized balance
    obtain ⟨init, within⟩ := sized
    obtain ⟨_, duty, _⟩ := balance
    have threads : p.threads = List.range p.initThreadSize.toNat := keyed
    refine ⟨manned.found, fun id member => ?_⟩
    have inside : id ∈ p.onDuty := by
      rw [duty]
      have all : i = p.initThreadSize.toNat := by omega
      rwa [all, ← threads]
    obtain ⟨⟨id', status⟩, seen, rfl⟩ := List.mem_map.mp inside
    obtain ⟨listed, active⟩ := List.mem_filter.mp seen
    obtain rfl : status = .active := by simpa using active
    exact listed

/-- A thread that leaves takes its own key with it. -/
theorem leaves_manned {w id : Nat} {status : Status} (here : p.roster[w]? = some (id, .active))
    (roster : q.roster = p.roster.set w (id, status)) (threads : q.threads = p.threads.filter (· ≠ id))
    (manned : ∀ id ∈ p.threads, (id, .active) ∈ p.roster) :
    ∀ id ∈ q.threads, (id, .active) ∈ q.roster := by
  intro other member
  rw [threads, List.mem_filter] at member
  obtain ⟨present, apart⟩ := member
  obtain ⟨rest, before, after⟩ := Agents.single_out here
  have seen := before.mem_iff.mp (manned other present)
  rw [roster, (after (id, status)).mem_iff]
  rcases List.mem_cons.mp seen with same | inside
  · obtain ⟨rfl, _⟩ := Prod.mk.inj same
    simp at apart
  · exact List.mem_cons_of_mem _ inside

theorem move_manned {a : Action τ χ κ} {n : Int} (manned : Manned p) (permit : Orderly n p a)
    (early : p.startCall ≠ .returned → q.threads = p.threads ∧ q.generateID = p.generateID)
    (outcome : Outcome B p a q) (starting : a ≠ .start) : Manned q := by
  refine ⟨(outcome_nullThread outcome starting).trans manned.found, ?_⟩
  have keyed := manned.keyed
  by_cases returned : p.startCall = .returned
  · rw [outcome_returned outcome permit returned]
    rw [returned] at keyed
    change ∀ id ∈ q.threads, (id, .active) ∈ q.roster
    cases outcome_roster outcome with
    | quiet roster threads =>
      rw [roster, threads]
      exact keyed
    | called m settled standing after =>
      subst after
      exact keyed
    | grows mode below caller roster threads =>
      intro id member
      rw [roster]
      rw [threads, emplace_mem] at member
      rcases member with old | rfl
      · exact List.mem_append_left _ (keyed id old)
      · exact List.mem_append_right _ (List.mem_singleton.mpr rfl)
    | exits here empty stopped roster threads => exact leaves_manned here roster threads keyed
    | retires here expired surplus roster threads => exact leaves_manned here roster threads keyed
    | starts next => exact absurd rfl starting
  · obtain ⟨threads, ids⟩ := early returned
    have same (start : q.startCall = p.startCall) (init : q.initThreadSize = p.initThreadSize) :
        q.startCall.keyed q := by
      rw [start]
      cases place : p.startCall <;> rw [place] at keyed returned <;>
        first | exact absurd rfl returned | simpa only [StartPc.keyed, threads, ids, init] using keyed
    cases outcome_roster outcome with
    | quiet roster _ cur init _ start => exact same start init
    | called m settled standing after =>
      obtain ⟨_, never⟩ : m = n ∧ p.startCall = .notCalled := permit
      rw [never] at keyed
      subst after
      exact keyed
    | grows mode below caller roster _ cur init _ start => exact same start init
    | exits here empty stopped roster _ cur init _ start => exact same start init
    | retires here expired surplus roster _ cur init _ start => exact same start init
    | starts next => exact absurd rfl starting

theorem reachable_manned {n : Int} (nonneg : 0 ≤ n) {results : ρ} {mode : PoolMode}
    {threadhold threshold : Int}
    (reached : Machine.Reach (step B) (Orderly n) (configured 0 results mode threadhold threshold) p) :
    Manned p := by
  induction reached with
  | start =>
    rw [configured_fields]
    exact ⟨rfl, rfl, rfl⟩
  | @next p q a before permit taken manned =>
    have outcome := (step_outcome taken).2
    have sound := reachable_sound nonneg (orderly_once before)
    by_cases starting : a = .start
    · subst starting
      have next := start_outcome outcome
      by_cases returned : p.startCall = .returned
      · cases next with
        | setsRunning m place | setsInit m place | setsCur m place | creates i place
        | created i place | launches i place | dereferencesNull i place | launched i place
        | counts i place => simp [returned] at place
      · exact startNext_manned nonneg sound (reachable_books nonneg (orderly_first before returned))
          manned next
    · refine move_manned manned permit (fun running => ?_) outcome starting
      have first := orderly_first before running
      exact early_keys sound (reachable_books nonneg first) running (startsFirst_once first).1 permit
        outcome starting

/-- Every thread the map knows can be met, so the pool is in good order after start. -/
theorem reachable_good {n : Nat} (positive : 1 ≤ n) {results : ρ} {mode : PoolMode}
    {threadhold threshold : Int}
    (reached : Machine.Reach (step B) (Orderly n) (configured 0 results mode threadhold threshold) p)
    (returned : p.startCall = .returned) : Good n n p ∧ p.initThreadSize = n := by
  obtain ⟨sound, phase⟩ := reachable_drain positive (orderly_once reached)
  have keyed := (reachable_manned (by omega) reached).keyed
  have sized := sound.sized
  rw [returned] at phase sized keyed
  rcases phase with good | ⟨id, key, _, idle⟩
  · exact ⟨good, sized⟩
  · exact absurd (List.mem_map.mpr ⟨_, keyed id key, rfl⟩) idle

end ThreadPool
