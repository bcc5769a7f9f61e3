import ServerPools.Threads.Counters
import ServerPools.Threads.Drain

/- The books of a pool that is started before it is used: the map, the two counters and the
   threads on duty agree from the return of start to the destructor. -/
namespace ThreadPool
variable {τ ρ σ χ κ : Type} {B : Backend τ ρ σ χ κ} {p q : Pool τ ρ σ}

/-- start(n) is the only call of start, no submission begins before it has returned, and the
    destructor does not begin. -/
def StartsFirst (n : Int) (p : Pool τ ρ σ) : Action τ χ κ → Prop
  | .callStart m => m = n ∧ p.startCall = .notCalled
  | .call _ => p.startCall = .returned
  | .destroy => False
  | _ => True

/-- The sizes at each place of start. -/
def StartPc.balance (p : Pool τ ρ σ) : StartPc → Prop
  | .notCalled | .setRunning _ | .setInit _ | .setCur _ => p.threads = [] ∧ p.onDuty = []
  | .creating i => p.threads.length = i ∧ p.onDuty = [] ∧ p.curThreadSize = p.initThreadSize
  | .launching i => p.threads.length = p.initThreadSize ∧ p.onDuty = List.range i ∧
      p.curThreadSize = p.initThreadSize
  | .counting i => p.threads.length = p.initThreadSize ∧ p.onDuty = List.range (i + 1) ∧
      p.curThreadSize = p.initThreadSize
  | .returned => p.onDuty.length = p.threads.length ∧ p.curThreadSize = p.threads.length ∧
      p.initThreadSize ≤ p.curThreadSize ∧
      p.curThreadSize ≤ max p.initThreadSize p.threadSizeThreshHold

structure Books (p : Pool τ ρ σ) : Prop where
  keys : p.threads.Nodup
  duties : p.onDuty.Nodup
  listed : ∀ id ∈ p.onDuty, id ∈ p.threads
  idle : IdleCounted p
  early : p.startCall ≠ .returned → ¬ ∃ c ∈ p.submits, c.pc.pending
  balance : p.startCall.balance p

theorem emplace_fresh {threads : List Nat} {id : Nat} (fresh : id ∉ threads) :
    emplace threads id = threads ++ [id] := if_neg fresh

/-- In such runs the destructor has not begun, and they are runs of one start. -/
theorem startsFirst_once {n : Int} {generateID : Nat} {results : ρ} {mode : PoolMode}
    {threadhold threshold : Int}
    (reached : Machine.Reach (step B) (StartsFirst n)
      (configured generateID results mode threadhold threshold) p) :
    p.destroyCall = .notCalled ∧ Machine.Reach (step B) (StartedOnce n)
      (configured generateID results mode threadhold threshold) p := by
  induction reached with
  | start =>
    refine ⟨?_, .start⟩
    rw [configured_fields]
    rfl
  | @next p q a before permit taken ih =>
    obtain ⟨standing, once⟩ := ih
    have life := outcome_life (step_outcome taken).2
    constructor
    · by_contra begun
      rcases life.begins begun with earlier | rfl
      · exact earlier standing
      · exact permit
    · refine once.next ?_ taken
      cases a <;> first | exact permit | exact standing | exact trivial | exact permit.elim

theorem reachable_sound {n : Int} (nonneg : 0 ≤ n) {generateID : Nat} {results : ρ}
    {mode : PoolMode} {threadhold threshold : Int}
    (reached : Machine.Reach (step B) (StartedOnce n)
      (configured generateID results mode threadhold threshold) p) : Sound n p := by
  induction reached with
  | start =>
    rw [configured_fields]
    refine ⟨?_, ?_, trivial, ?_, ?_, ?_⟩ <;> simp [newPool, Pool.roster, StartPc.running]
  | @next p q a before permit taken sound =>
    have outcome := (step_outcome taken).2
    by_cases starting : a = .start
    · subst starting
      exact start_sound nonneg sound (start_outcome outcome)
    · exact sound_move sound (outcome_roster outcome) (outcome_life outcome) permit starting

/-- A step that leaves the map, the threads on duty and the sizes alone. -/
theorem Books.kept (books : Books p) (idle : IdleCounted q) (threads : q.threads = p.threads)
    (roster : q.roster = p.roster) (cur : q.curThreadSize = p.curThreadSize)
    (init : q.initThreadSize = p.initThreadSize) (start : q.startCall = p.startCall)
    (threshold : q.threadSizeThreshHold = p.threadSizeThreshHold)
    (early : p.startCall ≠ .returned → ¬ ∃ c ∈ q.submits, c.pc.pending) : Books q := by
  have duty := onDuty_same roster
  refine ⟨?_, ?_, ?_, idle, ?_, ?_⟩
  · rw [threads]
    exact books.keys
  · rw [duty]
    exact books.duties
  · rw [duty, threads]
    exact books.listed
  · rw [start]
    exact early
  · have before := books.balance
    rw [start]
    cases place : p.startCall <;> rw [place] at before <;>
      simpa only [StartPc.balance, threads, duty, cur, init, threshold] using before

theorem Books.grown (books : Books p) (idle : IdleCounted q) (returned : p.startCall = .returned)
    (fresh : p.generateID ∉ p.threads) (below : p.curThreadSize < p.threadSizeThreshHold)
    (roster : q.roster = p.roster ++ [(p.generateID, .active)])
    (threads : q.threads = emplace p.threads p.generateID)
    (cur : q.curThreadSize = p.curThreadSize + 1) (init : q.initThreadSize = p.initThreadSize)
    (start : q.startCall = p.startCall)
    (threshold : q.threadSizeThreshHold = p.threadSizeThreshHold) : Books q := by
  have duty := onDuty_joins roster
  rw [emplace_fresh fresh] at threads
  have before := books.balance
  rw [returned] at before
  obtain ⟨manned, counted, floor, ceiling⟩ := before
  refine ⟨?_, ?_, ?_, idle, ?_, ?_⟩
  · rw [threads]
    exact books.keys.append (List.nodup_singleton _) (by simpa using fresh)
  · rw [duty]
    refine books.duties.append (List.nodup_singleton _) ?_
    rw [List.disjoint_singleton]
    exact fun member => fresh (books.listed _ member)
  · intro id member
    rw [threads, List.mem_append]
    rw [duty, List.mem_append] at member
    exact member.imp_left (books.listed id)
  · intro early
    exact absurd (start.trans returned) early
  · rw [start, returned]
    simp only [StartPc.balance, threads, duty, cur, init, threshold, List.length_append,
      List.length_singleton]
    omega

theorem Books.retired (books : Books p) (idle : IdleCounted q) (returned : p.startCall = .returned)
    {w id : Nat} (here : p.roster[w]? = some (id, .active))
    (surplus : p.initThreadSize < p.curThreadSize)
    (roster : q.roster = p.roster.set w (id, .retired))
    (threads : q.threads = p.threads.filter (· ≠ id)) (cur : q.curThreadSize = p.curThreadSize - 1)
    (init : q.initThreadSize = p.initThreadSize) (start : q.startCall = p.startCall)
    (threshold : q.threadSizeThreshHold = p.threadSizeThreshHold) : Books q := by
  have duty := onDuty_leaves here (by simp) roster
  have erased : q.threads = p.threads.erase id := by
    rw [threads, books.keys.erase_eq_filter]
    exact List.filter_congr fun other _ => by by_cases same : other = id <;> simp [same]
  have present : id ∈ p.threads := books.listed id (duty.mem_iff.mpr (List.mem_cons_self ..))
  have before := books.balance
  rw [returned] at before
  obtain ⟨manned, counted, floor, ceiling⟩ := before
  obtain ⟨apart, others⟩ := List.nodup_cons.mp (duty.nodup_iff.mp books.duties)
  refine ⟨?_, others, ?_, idle, ?_, ?_⟩
  · rw [erased]
    exact books.keys.erase id
  · intro other member
    rw [erased]
    refine (List.mem_erase_of_ne ?_).mpr (books.listed other (duty.mem_iff.mpr (by simp [member])))
    exact fun same => apart (same ▸ member)
  · intro early
    exact absurd (start.trans returned) early
  · have fewer := duty.length_eq
    have shorter := List.length_erase_of_mem present
    have some_left := List.length_pos_of_mem present
    rw [List.length_cons] at fewer
    rw [start, returned]
    simp only [StartPc.balance, erased, cur, init, threshold]
    omega

/-- The statements of start, in order. -/
theorem startNext_books {n : Int} (sound : Sound n p) (books : Books p) (next : StartStep p q) :
    Books q := by
  have idle := startNext_counted books.idle next
  have before := books.balance
  have sized := sound.sized
  cases next with
  | setsRunning m place | setsInit m place =>
    rw [place] at before
    exact ⟨books.keys, books.duties, books.listed, idle, fun _ => books.early (by simp [place]), before⟩
  | setsCur m place =>
    rw [place] at before sized
    obtain ⟨same, init⟩ : m = n ∧ p.initThreadSize = n := sized
    refine ⟨books.keys, books.duties, books.listed, idle, fun _ => books.early (by simp [place]), ?_⟩
    exact ⟨by simp [before.1], before.2, same.trans init.symm⟩
  | creates i place more =>
    rw [place] at before
    obtain ⟨made, nobody, counted⟩ := before
    have fresh : p.generateID ∉ p.threads := fun member =>
      Nat.lt_irrefl _ (sound.keys _ member)
    have added := emplace_fresh fresh
    refine ⟨?_, books.duties, ?_, idle, fun _ => books.early (by simp [place]), ?_⟩
    · change (emplace p.threads p.generateID).Nodup
      rw [added]
      exact books.keys.append (List.nodup_singleton _) (by simpa using fresh)
    · intro id member
      change id ∈ emplace p.threads p.generateID
      exact emplace_mem.mpr (Or.inl (books.listed id member))
    · refine ⟨?_, nobody, counted⟩
      change (emplace p.threads p.generateID).length = i + 1
      rw [added, List.length_append, made]
      rfl
  | created i place done =>
    rw [place] at before sized
    obtain ⟨made, nobody, counted⟩ := before
    obtain ⟨init, within⟩ : p.initThreadSize = n ∧ (i : Int) ≤ n := sized
    refine ⟨books.keys, books.duties, books.listed, idle, fun _ => books.early (by simp [place]), ?_⟩
    refine ⟨?_, nobody, counted⟩
    change (p.threads.length : Int) = p.initThreadSize
    omega
  | launches i place more present =>
    rw [place] at before
    obtain ⟨made, launched, counted⟩ := before
    have joined : Pool.onDuty { p with
        workers := p.workers ++ [⟨i, .entering⟩], startCall := .counting i } = p.onDuty ++ [i] :=
      onDuty_joins (launch_roster p i _)
    refine ⟨books.keys, ?_, ?_, idle, fun _ => books.early (by simp [place]), ?_⟩
    · rw [joined, launched, ← List.range_succ]
      exact List.nodup_range
    · intro id member
      rw [joined, List.mem_append] at member
      rcases member with old | new
      · exact books.listed id old
      · obtain rfl : id = i := by simpa using new
        exact present
    · refine ⟨made, ?_, counted⟩
      rw [joined, launched, List.range_succ]
  | dereferencesNull i place more absent =>
    exact books.kept idle rfl rfl rfl rfl rfl rfl fun early => books.early early
  | launched i place done =>
    rw [place] at before sized
    obtain ⟨made, launched, counted⟩ := before
    obtain ⟨init, within⟩ : p.initThreadSize = n ∧ (i : Int) ≤ n := sized
    have manned : p.onDuty.length = i := by rw [launched, List.length_range]
    refine ⟨books.keys, books.duties, books.listed, idle, fun early => absurd rfl early, ?_⟩
    change p.onDuty.length = p.threads.length ∧ p.curThreadSize = p.threads.length ∧
      p.initThreadSize ≤ p.curThreadSize ∧
      p.curThreadSize ≤ max p.initThreadSize p.threadSizeThreshHold
    omega
  | counts i place =>
    rw [place] at before
    exact ⟨books.keys, books.duties, books.listed, idle, fun _ => books.early (by simp [place]), before⟩

/-- A thread on duty was launched by start or later, and then the pool is running. -/
theorem Books.manned_running {n : Int} (books : Books p) (sound : Sound n p)
    (standing : p.destroyCall = .notCalled) {w id : Nat}
    (here : p.roster[w]? = some (id, .active)) : p.isPoolRunning = true := by
  have manned : id ∈ p.onDuty := by
    refine List.mem_map.mpr ⟨(id, .active), List.mem_filter.mpr ⟨?_, by simp⟩, rfl⟩
    exact Agents.mem_of_position here
  refine sound.running ?_ standing
  have before := books.balance
  cases place : p.startCall <;> try rfl
  all_goals
    rw [place] at before
    simp [before.2] at manned

/-- The other steps, by what the roster shows of them. -/
theorem move_books {a : Action τ χ κ} {n : Int} (sound : Sound n p) (books : Books p)
    (idle : IdleCounted q) (standing : p.destroyCall = .notCalled) (permit : StartsFirst n p a)
    (outcome : Outcome B p a q) (other : a ≠ .start) : Books q := by
  obtain ⟨_, threshold⟩ := outcome_configured outcome
  have early : p.startCall ≠ .returned → ¬ ∃ c ∈ q.submits, c.pc.pending := by
    intro running some_pending
    rcases (outcome_life outcome).pending some_pending with before | ⟨task, rfl⟩
    · exact books.early running before
    · exact absurd permit running
  cases outcome_roster outcome with
  | quiet roster threads cur init ids start queue =>
    exact books.kept idle threads roster cur init start threshold early
  | called m settled standing' after =>
    obtain ⟨_, never⟩ : m = n ∧ p.startCall = .notCalled := permit
    have before := books.balance
    rw [never] at before
    subst after
    exact ⟨books.keys, books.duties, books.listed, idle, fun _ => books.early (by simp [never]), before⟩
  | grows mode below caller roster threads cur init ids start =>
    have returned : p.startCall = .returned := by
      by_contra running
      exact books.early running caller
    have fresh : p.generateID ∉ p.threads := fun member => Nat.lt_irrefl _ (sound.keys _ member)
    exact books.grown idle returned fresh below roster threads cur init start threshold
  | exits here empty stopped roster threads cur init ids start queue =>
    have on := books.manned_running sound standing here
    simp [on] at stopped
  | retires here expired surplus roster threads cur init ids start queue =>
    have returned : p.startCall = .returned := by
      cases place : p.startCall
      case returned => rfl
      all_goals
        have before := books.balance
        have left := onDuty_leaves here (by simp) roster
        simp only [place, StartPc.balance] at before
        first
          | (rw [before.2] at left; simp at left)
          | (rw [before.2.1] at left; simp at left)
          | omega
    exact books.retired idle returned here surplus roster threads cur init start threshold
  | starts next => exact absurd rfl other

theorem reachable_books {n : Int} (nonneg : 0 ≤ n) {generateID : Nat} {results : ρ}
    {mode : PoolMode} {threadhold threshold : Int}
    (reached : Machine.Reach (step B) (StartsFirst n)
      (configured generateID results mode threadhold threshold) p) : Books p := by
  induction reached with
  | start =>
    rw [configured_fields]
    refine ⟨?_, ?_, ?_, ?_, ?_, ?_, ?_⟩ <;> simp [newPool, Pool.onDuty, Pool.roster, IdleCounted,
      Pool.resting, StartPc.uncounted]
  | @next p q a before permit taken books =>
    obtain ⟨standing, once⟩ := startsFirst_once before
    have sound := reachable_sound nonneg once
    have outcome := (step_outcome taken).2
    by_cases starting : a = .start
    · subst starting
      exact startNext_books sound books (start_outcome outcome)
    · refine move_books sound books (outcome_counted books.idle ?_ outcome) standing permit outcome
        starting
      rintro w idleLong _ ⟨_, stopped, worker, here, awake⟩
      have seen := roster_here here
      rw [Worker.view, awake_active awake] at seen
      have on := books.manned_running sound standing seen
      simp [on] at stopped

/-- What the owner configured is what a running pool has. -/
theorem reachable_configured {generateID : Nat} {results : ρ} {mode : PoolMode}
    {threadhold threshold : Int}
    (reached : Machine.Reachable (step B)
      (configured generateID results mode threadhold threshold) p) :
    p.mode = mode ∧
      p.threadSizeThreshHold = if mode = .modeCachd then threshold else threadMaxThreshhold := by
  induction reached with
  | start =>
    rw [configured_fields]
    exact ⟨rfl, rfl⟩
  | next before permit taken same =>
    obtain ⟨mode, threshold⟩ := outcome_configured (step_outcome taken).2
    rw [mode, threshold]
    exact same

/-- The counters, the map and the threads that were launched and have not left. -/
structure Accounted (p : Pool τ ρ σ) : Prop where
  entries : p.curThreadSize = p.threads.length
  launched : p.curThreadSize = p.onDuty.length
  idle : p.idleThreadSize = p.resting
  unsigned : ∀ size : Nat, asUnsigned p.idleThreadSize < size ↔ p.idleThreadSize < size
  floor : p.initThreadSize ≤ p.curThreadSize
  ceiling : p.curThreadSize ≤ max p.initThreadSize p.threadSizeThreshHold

/-- Between the return of start(n) and the destructor the accounts are right, whatever the
    interleaving of submissions and threads. n and the threshold are ints. -/
theorem threads_accounted {n : Int} (size : 0 ≤ n ∧ n < 2 ^ 31) {generateID : Nat} {results : ρ}
    {mode : PoolMode} {threadhold threshold : Int} (limit : threshold < 2 ^ 31)
    (reached : Machine.Reach (step B) (StartsFirst n)
      (configured generateID results mode threadhold threshold) p)
    (returned : p.startCall = .returned) : Accounted p := by
  have books := reachable_books size.1 reached
  have sound := reachable_sound size.1 (startsFirst_once reached).2
  have balance := books.balance
  rw [returned] at balance
  obtain ⟨manned, counted, floor, ceiling⟩ := balance
  have idle : p.idleThreadSize = p.resting := by
    have held := books.idle
    unfold IdleCounted at held
    rw [returned] at held
    simpa [StartPc.uncounted] using held
  have small : p.idleThreadSize < 2 ^ 31 := by
    have resting := resting_onDuty p
    have init : p.initThreadSize = n := by
      have sized := sound.sized
      rw [returned] at sized
      exact sized
    have threshold' := (reachable_configured reached.reachable).2
    have within : p.threadSizeThreshHold < 2 ^ 31 := by
      rw [threshold']
      split
      · exact limit
      · simp [threadMaxThreshhold]
    omega
  refine ⟨counted, by omega, idle, fun size => ?_, floor, ceiling⟩
  have nonneg : 0 ≤ p.idleThreadSize := by omega
  unfold asUnsigned
  rw [Int.emod_eq_of_lt nonneg (by omega)]
  omega

instance (n : Int) (p : Pool τ ρ σ) : (a : Action τ χ κ) → Decidable (StartsFirst n p a)
  | .callStart m => inferInstanceAs (Decidable (m = n ∧ p.startCall = .notCalled))
  | .call _ => inferInstanceAs (Decidable (p.startCall = .returned))
  | .destroy => .isFalse id
  | .submit _ | .submitTimeout _ | .submitStir _ | .start | .worker _ _ | .workerTimeout _
  | .workerStir _ | .exec _ _ | .idle _ | .destroyNext | .destroyStir | .otherThread
  | .client _ => .isTrue trivial

/-- start(1) and two tasks, of which the second adds a thread; one thread is in its task. -/
def twoThreads : List (Action Nat Nat Empty) :=
  [Action.callStart 1] ++ List.replicate 8 Action.start ++
    [Action.call 5, .submit 0, .call 6, .submit 1, .worker 1 false, .exec 1 7]

theorem threads_accounted_two :
    ∃ p : TaskFuture.FuturePool Nat Nat, p.curThreadSize = 2 ∧ p.idleThreadSize = 1 ∧ Accounted p := by
  have ran : ∃ p ∈ Machine.run (step (TaskFuture.futureBackend 0))
      (configured 0 TaskFuture.emptySide .modeCachd 1024 10 : TaskFuture.FuturePool Nat Nat)
      twoThreads, p.startCall = .returned ∧ p.curThreadSize = 2 ∧ p.idleThreadSize = 1 := by
    decide +kernel
  obtain ⟨p, ran, returned, cur, idle⟩ := ran
  have obeys : Machine.Obeys (step (TaskFuture.futureBackend 0)) (StartsFirst 1)
      (configured 0 TaskFuture.emptySide .modeCachd 1024 10) twoThreads := by decide +kernel
  exact ⟨p, cur, idle, threads_accounted (by decide) (by decide) (Machine.reach_of_run obeys ran)
    returned⟩

end ThreadPool
