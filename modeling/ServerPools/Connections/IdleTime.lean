import ServerPools.Connections.Ownership

/- How long a connection has been idle. The pool counts processor ticks, sleeps in seconds
   and tests for a thousand ticks a second. -/
namespace ConnectionPool
open Machine

variable {p q first : Pool} {a : Action} {c : Addr} {conn : Connection} {t : Int}

/-- clock() advances by one tick with every microsecond. -/
def Ticking (_ : Pool) : Action → Prop
  | .pass wall cpu => cpu = wall
  | _ => True

instance : Decidable (Ticking p a) :=
  match a with
  | .pass _ _ => inferInstanceAs (Decidable (_ = _))
  | .construct _ _ | .call | .getConnection _ | .expire _ | .stir _ | .deleter _ | .produce _ _
  | .stirProducer | .scan => .isTrue trivial

/-- In every state of every such run to p that is later than t, c is in the queue. -/
def QueuedSince (first p : Pool) (c : Addr) (t : Int) : Prop :=
  ∀ earlier, Reach step Ticking first earlier → Reach step Ticking earlier p → t < earlier.now →
    c ∈ earlier.connetionQueue

theorem step_now (taken : step p a = some q) : p.now ≤ q.now := by
  cases (step_outcome taken).2 with
  | passes wall cpu => exact Int.le_add_of_nonneg_right (Int.natCast_nonneg wall)
  | scans asleep due move => cases move <;> exact Int.le_refl _
  | _ => exact Int.le_refl _

/-- c was pushed in this step, by which it became idle. -/
structure Pushed (p : Pool) (c : Addr) (conn : Connection) : Prop where
  absent : c ∉ p.connetionQueue
  queuedAt : conn.queuedAt = p.now
  aliveTime : conn.aliveTime = p.clock

theorem created_queue {addr : Addr} {connected : Bool} (parts : Partition p)
    (fresh : p.connections addr = none) (member : c ∈ p.connetionQueue ++ [addr])
    (object : conn ∈ (created p addr connected).connections c) :
    Pushed p c conn ∨ (c ∈ p.connetionQueue ∧ conn ∈ p.connections c) := by
  have absent : addr ∉ p.connetionQueue := fun inside =>
    parts.undeleted addr (List.mem_append_left _ inside) fresh
  rcases List.mem_append.mp member with old | new
  · have other : c ≠ addr := fun same => absent (same ▸ old)
    exact Or.inr ⟨old, by simpa [created, other] using object⟩
  · obtain rfl := List.mem_singleton.mp new
    simp only [created, Function.update_self, Option.mem_some] at object
    subst object
    exact Or.inl ⟨absent, rfl, rfl⟩

theorem released_queue {i : Nat} {b : Borrower} {d : Addr} (parts : Partition p)
    (here : p.borrowers[i]? = some b) (pc : b.pc = .holding d)
    (member : c ∈ p.connetionQueue ++ [d]) (object : conn ∈ (released p i b d).connections c) :
    Pushed p c conn ∨ (c ∈ p.connetionQueue ∧ conn ∈ p.connections c) := by
  have holds : d ∈ p.held := (release_held here pc).mem_iff.mpr List.mem_cons_self
  have absent : d ∉ p.connetionQueue := fun inside =>
    (List.nodup_append.mp parts.distinct).2.2 d inside d holds rfl
  rcases List.mem_append.mp member with old | new
  · have other : c ≠ d := fun same => absent (same ▸ old)
    exact Or.inr ⟨old, by simpa [released, setBorrower, other] using object⟩
  · obtain rfl := List.mem_singleton.mp new
    simp only [released, setBorrower, Function.update_self, Option.mem_def,
      Option.map_eq_some_iff] at object
    obtain ⟨old, _, rfl⟩ := object
    exact Or.inl ⟨absent, rfl, rfl⟩

/-- A connection in the queue after a step was pushed by it, or is as it was. -/
theorem step_queue (parts : Partition p) (taken : step p a = some q)
    (member : c ∈ q.connetionQueue) (object : conn ∈ q.connections c) :
    Pushed p c conn ∨ (c ∈ p.connetionQueue ∧ conn ∈ p.connections c) := by
  cases (step_outcome taken).2 with
  | creates phase below fresh => exact created_queue parts fresh member object
  | produces awake empty room fresh => exact created_queue parts fresh member object
  | releases here pc => exact released_queue parts here pc member object
  | lends here pc queue =>
    have inside : c ∈ p.connetionQueue := by
      rw [queue]
      exact List.mem_cons_of_mem _ member
    exact Or.inr ⟨inside, object⟩
  | scans asleep due move =>
    cases move with
    | @retired d rest surplus queue old =>
      have distinct := (List.nodup_append.mp parts.distinct).1
      rw [queue] at distinct
      have other : c ≠ d := fun same => (List.nodup_cons.mp distinct).1 (same ▸ member)
      have inside : c ∈ p.connetionQueue := by
        rw [queue]
        exact List.mem_cons_of_mem _ member
      exact Or.inr ⟨inside, (Function.update_of_ne other none p.connections).symm.trans object⟩
    | _ => exact Or.inr ⟨member, object⟩
  | _ => exact Or.inr ⟨member, object⟩

/-- Wall and processor clock run together, from the start and from every push on. -/
structure InStep (skew : Int) (p : Pool) : Prop where
  clock : p.clock = p.now + skew
  queued : ∀ c ∈ p.connetionQueue, ∀ conn ∈ p.connections c,
    conn.aliveTime = conn.queuedAt + skew

theorem step_clock (ticking : Ticking p a) (taken : step p a = some q) :
    q.clock - q.now = p.clock - p.now := by
  cases (step_outcome taken).2 with
  | passes wall cpu =>
    have same : cpu = wall := ticking
    simp only
    omega
  | scans asleep due move => cases move <;> rfl
  | _ => rfl

theorem step_in_step {skew : Int} (parts : Partition p) (before : InStep skew p)
    (ticking : Ticking p a) (taken : step p a = some q) : InStep skew q := by
  have clock := before.clock
  constructor
  · have same := step_clock ticking taken
    omega
  · intro c member conn object
    rcases step_queue parts taken member object with pushed | ⟨old, same⟩
    · rw [pushed.aliveTime, pushed.queuedAt, clock]
    · exact before.queued c old conn same

theorem reach_in_step {settings : Option Config} {now clock : Int}
    (reached : Reach step Ticking (start settings now clock) p) : InStep (clock - now) p := by
  apply reached.invariant
  · constructor
    · simp only [start]
      omega
    · simp [start]
  · intro s a t before ticked ticking taken
    exact step_in_step (reachable_partition before.reachable) ticked ticking taken

/-- What is in the queue now and was pushed before a state was in the queue there. -/
theorem queued_throughout {earlier : Pool} (parts : Partition earlier)
    (reached : Reach step Ticking earlier p) : Partition p ∧ earlier.now ≤ p.now ∧
      ∀ c ∈ p.connetionQueue, ∀ conn ∈ p.connections c, conn.queuedAt < earlier.now →
        c ∈ earlier.connetionQueue := by
  induction reached with
  | start => exact ⟨parts, Int.le_refl _, fun c member _ _ _ => member⟩
  | @next s t a before ticking taken ih =>
    obtain ⟨inside, later, kept⟩ := ih
    refine ⟨moves_partition inside (step_effect taken).moves,
      Int.le_trans later (step_now taken), fun c member conn object old => ?_⟩
    rcases step_queue inside taken member object with pushed | ⟨queued, same⟩
    · have now := pushed.queuedAt
      omega
    · exact kept c queued conn same old

/-- The run has been in a state at the time of the push in which c was not queued. -/
theorem unqueued_before {settings : Option Config} {now clock : Int}
    (reached : Reach step Ticking (start settings now clock) p) (member : c ∈ p.connetionQueue)
    (object : conn ∈ p.connections c) : ∃ earlier,
      Reach step Ticking (start settings now clock) earlier ∧ Reach step Ticking earlier p ∧
      earlier.now = conn.queuedAt ∧ c ∉ earlier.connetionQueue := by
  induction reached with
  | start => simp [start] at member
  | @next s t a before ticking taken ih =>
    rcases step_queue (reachable_partition before.reachable) taken member object with
      pushed | ⟨queued, same⟩
    · exact ⟨s, before, .next .start ticking taken, pushed.queuedAt.symm, pushed.absent⟩
    · obtain ⟨earlier, first, later, time, absent⟩ := ih queued same
      exact ⟨earlier, first, later.next ticking taken, time, absent⟩

theorem queued_since_iff {settings : Option Config} {now clock : Int}
    (reached : Reach step Ticking (start settings now clock) p) (member : c ∈ p.connetionQueue)
    (object : conn ∈ p.connections c) :
    QueuedSince (start settings now clock) p c t ↔ conn.queuedAt ≤ t := by
  constructor
  · intro since
    obtain ⟨earlier, first, later, time, absent⟩ := unqueued_before reached member object
    by_contra recent
    exact absent (since earlier first later (by omega))
  · intro old earlier first later after
    have parts := reachable_partition first.reachable
    exact (queued_throughout parts later).2.2 c member conn object (by omega)

/-- The test of the pass does not overflow, and what the pass deletes has been in the queue
    for maxIdleTime seconds. -/
structure RetiresRested (first p q : Pool) : Prop where
  product : p.config.initSize < p.connectionCnt → p.connetionQueue ≠ [] →
    p.config.maxIdleTime * 1000 < 2 ^ 31
  rested : ∀ c, p.connections c ≠ none → q.connections c = none →
    QueuedSince first p c (p.now - p.config.maxIdleTime * 1000000)

/-- A pass that looks at the front has a limit of less than 2^31 ticks, and the front has been
    idle for less than maxIdleTime milliseconds or for maxIdleTime seconds. -/
def FrontRested (p : Pool) : Prop :=
  p.config.initSize < p.connectionCnt → ∀ c ∈ p.connetionQueue.head?,
    p.config.maxIdleTime * 1000 < 2 ^ 31 ∧ ∀ conn ∈ p.connections c,
      conn.getAliveTime p.clock < p.config.maxIdleTime * 1000 ∨
        p.config.maxIdleTime * 1000000 ≤ conn.getAliveTime p.clock

theorem intMul_exact {a b : Int} (low : 0 ≤ a * b) (high : a * b < 2 ^ 31) : intMul a b = a * b := by
  apply Int.bmod_eq_of_le <;> omega

/-- A pass that leaves the objects alone deletes nothing. -/
theorem rested_of_same (same : q.connections = p.connections)
    (product : p.config.initSize < p.connectionCnt → p.connetionQueue ≠ [] →
      p.config.maxIdleTime * 1000 < 2 ^ 31) : RetiresRested first p q := by
  refine ⟨product, fun c alive deleted => ?_⟩
  rw [same] at deleted
  exact absurd deleted alive

theorem scan_rested {settings : Option Config} {now clock : Int}
    (positive : 0 ≤ p.config.maxIdleTime)
    (reached : Reach step Ticking (start settings now clock) p) (taken : step p .scan = some q) :
    RetiresRested (start settings now clock) p q ↔ FrontRested p := by
  have exact_ (small : p.config.maxIdleTime * 1000 < 2 ^ 31) :
      intMul p.config.maxIdleTime 1000 = p.config.maxIdleTime * 1000 :=
    intMul_exact (by omega) small
  cases scan_moves taken with
  | undefined surplus empty =>
    refine iff_of_true (rested_of_same rfl fun _ stocked => absurd empty stocked) ?_
    simp [FrontRested, empty]
  | idle enough =>
    refine iff_of_true (rested_of_same rfl fun surplus _ => ?_) fun surplus => ?_ <;> omega
  | @left c rest surplus queue recent =>
    constructor
    · intro kept _ d front
      have small := kept.product surplus (by simp [queue])
      obtain rfl : c = d := by simpa [queue] using front
      refine ⟨small, fun conn object => Or.inl ?_⟩
      by_contra old
      exact recent ⟨conn, object, by rw [exact_ small]; omega⟩
    · intro rested
      exact rested_of_same rfl fun _ _ => (rested surplus c (by simp [queue])).1
  | @retired c rest surplus queue old =>
    obtain ⟨conn, object, aged⟩ := old
    have member : c ∈ p.connetionQueue := by simp [queue]
    have ticks := reach_in_step reached
    have idle : conn.getAliveTime p.clock = p.now - conn.queuedAt := by
      have clock := ticks.clock
      have pushed := ticks.queued c member conn object
      simp only [Connection.getAliveTime]
      omega
    have since := queued_since_iff (t := p.now - p.config.maxIdleTime * 1000000) reached member
      object
    constructor
    · intro kept _ d front
      have small := kept.product surplus (by simp [queue])
      obtain rfl : c = d := by simpa [queue] using front
      refine ⟨small, fun other same => Or.inr ?_⟩
      obtain rfl := Option.mem_unique same object
      have long := since.mp (kept.rested c (by simp [Option.mem_def.mp object]) (by simp))
      omega
    · intro rested
      obtain ⟨small, long⟩ := rested surplus c (by simp [queue])
      refine ⟨fun _ _ => small, fun d alive deleted => ?_⟩
      have same : d = c := by
        by_contra other
        exact alive ((Function.update_of_ne other none p.connections).symm.trans deleted)
      subst same
      rw [exact_ small] at aged
      rcases long conn object with short | long
      · omega
      · exact since.mpr (by omega)

/-- Of the passes in any run with a clock as assumed, those delete no connection early, and
    compute their test without overflow, that find the front rested. -/
theorem retired_rested {settings : Option Config} {now clock : Int}
    (positive : 0 ≤ (settings.getD unloaded).maxIdleTime)
    (reached : Reach step Ticking (start settings now clock) p) (taken : step p .scan = some q) :
    RetiresRested (start settings now clock) p q ↔ FrontRested p := by
  rw [← reachable_config reached.reachable] at positive
  exact scan_rested positive reached taken

/-- Two connections, of which the one in front has been idle for the sixty seconds. -/
def restedFront : List Action :=
  [.construct 7 true, .construct 0 true, .call, .getConnection 0, .produce 8 true, .deleter 0,
    .pass 60000000 60000000]

theorem retired_rested_front :
    ∃ p q, Reach step Ticking (start (some ⟨1, 2, 60, 100⟩) 0 0) p ∧ step p .scan = some q ∧
      p.connetionQueue = [8, 7] ∧ q.connetionQueue = [7] ∧
      RetiresRested (start (some ⟨1, 2, 60, 100⟩) 0 0) p q := by
  have obeys : Obeys step Ticking (start (some ⟨1, 2, 60, 100⟩) 0 0) restedFront := by
    decide +kernel
  have ran : ∃ p ∈ run step (start (some ⟨1, 2, 60, 100⟩) 0 0) restedFront,
      p.connetionQueue = [8, 7] ∧ p.config.maxIdleTime = 60 ∧
      (∃ conn ∈ p.connections 8, conn.getAliveTime p.clock = 60000000) ∧
      ∃ q ∈ step p .scan, q.connetionQueue = [7] := by decide +kernel
  obtain ⟨p, ran, queue, limit, ⟨conn, object, idle⟩, q, taken, left⟩ := ran
  have reached := reach_of_run obeys ran
  have rested : FrontRested p := by
    intro _ c front
    obtain rfl : 8 = c := by simpa [queue] using front
    refine ⟨by omega, fun other same => Or.inr ?_⟩
    obtain rfl := Option.mem_unique same object
    omega
  exact ⟨p, q, reached, taken, queue, left,
    (retired_rested (by decide) reached taken).mpr rested⟩

/-- A client gives its connection back a second before the scanner wakes. -/
def shortIdle : List Action :=
  [.construct 7 true, .construct 0 true, .call, .getConnection 0, .produce 8 true, .call,
    .getConnection 1, .pass 59000000 59000000, .deleter 0, .pass 1000000 1000000]

/-- The limit is 3000000 seconds. -/
def longLimit : List Action :=
  [.construct 7 true, .construct 0 true, .call, .getConnection 0, .produce 8 true,
    .pass 3000000000000 3000000000000]

theorem scanner_deletes_early :
    (∃ p q, Reach step Ticking (start (some ⟨1, 2, 60, 100⟩) 0 0) p ∧ step p .scan = some q ∧
      p.connections 7 ≠ none ∧ q.connections 7 = none ∧
      ¬QueuedSince (start (some ⟨1, 2, 60, 100⟩) 0 0) p 7 (p.now - 60 * 1000000)) ∧
    (∃ p q, Reach step Ticking (start (some ⟨1, 2, 3000000, 100⟩) 0 0) p ∧
      step p .scan = some q ∧ p.config.initSize < p.connectionCnt ∧ p.connetionQueue = [8] ∧
      2 ^ 31 ≤ p.config.maxIdleTime * 1000 ∧
      intMul p.config.maxIdleTime 1000 ≠ p.config.maxIdleTime * 1000) ∧
    ¬∀ (settings : Option Config) (now clock : Int) (p q : Pool),
      0 ≤ (settings.getD unloaded).maxIdleTime →
      Reach step Ticking (start settings now clock) p → step p .scan = some q →
      RetiresRested (start settings now clock) p q := by
  have early : ∃ p q, Reach step Ticking (start (some ⟨1, 2, 60, 100⟩) 0 0) p ∧
      step p .scan = some q ∧ p.connections 7 ≠ none ∧ q.connections 7 = none ∧
      p.config.maxIdleTime = 60 ∧
      ¬QueuedSince (start (some ⟨1, 2, 60, 100⟩) 0 0) p 7 (p.now - 60 * 1000000) := by
    have obeys : Obeys step Ticking (start (some ⟨1, 2, 60, 100⟩) 0 0) shortIdle := by
      decide +kernel
    have ran : ∃ p ∈ run step (start (some ⟨1, 2, 60, 100⟩) 0 0) shortIdle,
        p.config.maxIdleTime = 60 ∧ p.connetionQueue = [7] ∧ p.now = 60000000 ∧
        (∃ conn ∈ p.connections 7, conn.queuedAt = 59000000) ∧
        ∃ q ∈ step p .scan, q.connections 7 = none := by decide +kernel
    obtain ⟨p, ran, limit, queue, now, ⟨conn, object, pushed⟩, q, taken, deleted⟩ := ran
    have reached := reach_of_run obeys ran
    refine ⟨p, q, reached, taken, by simp [Option.mem_def.mp object], deleted, limit, ?_⟩
    rw [queued_since_iff reached (by simp [queue]) object]
    omega
  have overflow : ∃ p q, Reach step Ticking (start (some ⟨1, 2, 3000000, 100⟩) 0 0) p ∧
      step p .scan = some q ∧ p.config.initSize < p.connectionCnt ∧ p.connetionQueue = [8] ∧
      2 ^ 31 ≤ p.config.maxIdleTime * 1000 ∧
      intMul p.config.maxIdleTime 1000 ≠ p.config.maxIdleTime * 1000 := by
    have obeys : Obeys step Ticking (start (some ⟨1, 2, 3000000, 100⟩) 0 0) longLimit := by
      decide +kernel
    have ran : ∃ p ∈ run step (start (some ⟨1, 2, 3000000, 100⟩) 0 0) longLimit,
        p.config.initSize < p.connectionCnt ∧ p.connetionQueue = [8] ∧
        2 ^ 31 ≤ p.config.maxIdleTime * 1000 ∧
        intMul p.config.maxIdleTime 1000 ≠ p.config.maxIdleTime * 1000 ∧
        (step p .scan).isSome = true := by decide +kernel
    obtain ⟨p, ran, surplus, queue, limit, wrapped, some⟩ := ran
    obtain ⟨q, taken⟩ := Option.isSome_iff_exists.mp some
    exact ⟨p, q, reach_of_run obeys ran, taken, surplus, queue, limit, wrapped⟩
  obtain ⟨p, q, reached, taken, alive, deleted, limit, recent⟩ := early
  refine ⟨⟨p, q, reached, taken, alive, deleted, recent⟩, overflow, fun supposed => ?_⟩
  have kept := (supposed _ _ _ p q (by decide) reached taken).rested 7 alive deleted
  rw [limit] at kept
  exact recent kept

end ConnectionPool
