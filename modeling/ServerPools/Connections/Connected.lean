import ServerPools.Connections.Ownership

/- Which connections circulate. The constructor and the producer push a connection whatever
   connect() returned, and nothing looks at the result later. -/
namespace ConnectionPool

variable {p q : Pool} {a : Action} {addr c : Addr} {connected : Bool}

/-- connect() has returned true for this object. -/
def Connected (p : Pool) (c : Addr) : Prop := ∃ conn ∈ p.connections c, conn.connected = true

instance : Decidable (Connected p c) :=
  inferInstanceAs (Decidable (∃ conn ∈ p.connections c, conn.connected = true))

/-- The connections in the queue and those that calls of getConnection have returned. -/
def Pool.circulating (p : Pool) : List Addr := p.connetionQueue ++ p.held

/-- Only connected connections circulate, and the counter counts exactly these. -/
structure OnlyConnected (p : Pool) : Prop where
  connected : ∀ c ∈ p.circulating, Connected p c
  counted : p.connectionCnt = p.circulating.countP fun c => Connected p c

/-- Where the step makes a connection, mysql_real_connect succeeds for it. -/
def ConnectSucceeds (p : Pool) : Action → Prop
  | .construct _ connected =>
    (∃ i, p.constructor = .creating i ∧ i < p.config.initSize) → connected = true
  | .produce _ connected =>
    p.connetionQueue = [] → p.connectionCnt < p.config.maxSize → connected = true
  | _ => True

theorem Partition.only_connected (parts : Partition p)
    (connected : ∀ c ∈ p.circulating, Connected p c) : OnlyConnected p := by
  refine ⟨connected, ?_⟩
  have all : p.circulating.countP (fun c => Connected p c) = p.circulating.length :=
    List.countP_eq_length.mpr fun c member => decide_eq_true (connected c member)
  rw [all, parts.counted, Pool.circulating, List.length_append]
  omega

/-- A new connection is the only one whose state is in question. -/
theorem created_connected (before : OnlyConnected p) :
    (∀ c ∈ p.connetionQueue ++ [addr] ++ p.held, Connected (created p addr connected) c) ↔
      connected = true := by
  constructor
  · intro all
    obtain ⟨conn, here, holds⟩ := all addr (by simp)
    simp only [created, Function.update_self, Option.mem_some] at here
    rwa [← here] at holds
  · intro succeeds c member
    by_cases same : c = addr
    · subst same
      exact ⟨⟨p.clock, connected, p.now⟩, by simp [created], succeeds⟩
    · have old : c ∈ p.circulating := by
        simp only [List.mem_append, List.mem_singleton, same, or_false] at member
        exact List.mem_append.mpr member
      obtain ⟨conn, here, holds⟩ := before.connected c old
      exact ⟨conn, by simpa [created, same] using here, holds⟩

/-- Whatever else a step does, it leaves an object that still circulates connected. -/
theorem kept_connected (before : OnlyConnected p) (after : Partition q)
    (circulate : ∀ c ∈ q.circulating, c ∈ p.circulating)
    (same : ∀ c ∈ q.circulating, Connected p c → Connected q c) : OnlyConnected q :=
  after.only_connected fun c member => same c member (before.connected c (circulate c member))

theorem released_connected {i : Nat} {b : Borrower} {d : Addr} (connected : Connected p c) :
    Connected (released p i b d) c := by
  obtain ⟨conn, here, holds⟩ := connected
  by_cases same : c = d
  · subst same
    refine ⟨{ conn.refreshAliveTime p.clock with queuedAt := p.now }, ?_, holds⟩
    simp [released, setBorrower, Option.mem_def.mp here]
  · exact ⟨conn, by simpa [released, setBorrower, same] using here, holds⟩

/-- The step that makes a connection. -/
theorem creates_connected (before : OnlyConnected p) (after : Partition q)
    (objects : q.connections = (created p addr connected).connections)
    (queue : q.connetionQueue = p.connetionQueue ++ [addr]) (held : q.held = p.held) :
    OnlyConnected q ↔ connected = true := by
  have new : (∀ c ∈ p.connetionQueue ++ [addr] ++ p.held, Connected (created p addr connected) c) ↔
      connected = true := created_connected before
  have circulate : q.circulating = p.connetionQueue ++ [addr] ++ p.held := by
    rw [Pool.circulating, queue, held]
  have same : ∀ c, Connected q c ↔ Connected (created p addr connected) c := by
    intro c
    rw [Connected, Connected, objects]
  constructor
  · intro only
    exact new.mp fun c member => (same c).mp (only.connected c (by rwa [circulate]))
  · intro succeeds
    refine after.only_connected fun c member => (same c).mpr (new.mpr succeeds c ?_)
    rwa [← circulate]

theorem step_connected (parts : Partition p) (before : OnlyConnected p)
    (taken : step p a = some q) : OnlyConnected q ↔ ConnectSucceeds p a := by
  have after : Partition q := moves_partition parts (step_effect taken).moves
  have kept := kept_connected before after
  have quiet (queue : q.connetionQueue = p.connetionQueue) (held : q.held = p.held)
      (objects : q.connections = p.connections) : OnlyConnected q := by
    refine kept (fun c member => ?_) fun c _ connected => ?_
    · rwa [Pool.circulating, queue, held] at member
    · rwa [Connected, objects]
  cases (step_outcome taken).2 with
  | creates phase below fresh =>
    refine (creates_connected before after rfl rfl rfl).trans ?_
    exact ⟨fun succeeds _ => succeeds, fun each => each ⟨_, phase, below⟩⟩
  | finishes phase beyond =>
    refine iff_of_true (quiet rfl rfl rfl) fun more => ?_
    obtain ⟨i, same, below⟩ := more
    obtain rfl : _ = i := ConstructorPc.creating.inj (phase.symm.trans same)
    omega
  | called built => exact iff_of_true (quiet rfl (by simp [Pool.held, Borrower.held]) rfl) trivial
  | waits here pc empty =>
    have awake := looking_empty (waits_looking pc)
    exact iff_of_true (quiet rfl (setBorrower_same_held here awake.symm) rfl) trivial
  | refused here pc empty =>
    have awake := looking_empty (late_looking pc)
    exact iff_of_true (quiet rfl (setBorrower_same_held here awake.symm) rfl) trivial
  | lends here pc queue =>
    have same := lent_perm (p := p) queue (lend_held here (looking_empty pc) _)
    exact iff_of_true (kept (fun c => same.mem_iff.mp) fun _ _ connected => connected) trivial
  | expires here pc due =>
    exact iff_of_true (quiet rfl (setBorrower_same_held here (by simp [Borrower.held, pc])) rfl)
      trivial
  | stirs here pc =>
    exact iff_of_true (quiet rfl (setBorrower_same_held here (by simp [Borrower.held, pc])) rfl)
      trivial
  | releases here pc =>
    have same := returned_perm (p := p) rfl (release_held here pc)
    exact iff_of_true (kept (fun c => same.mem_iff.mp) fun _ _ => released_connected) trivial
  | producerWaits awake stocked =>
    exact iff_of_true (quiet rfl rfl rfl) fun empty => absurd empty stocked
  | produces awake empty room fresh =>
    refine (creates_connected before after rfl rfl (notifyAll_held _)).trans ?_
    exact ⟨fun succeeds _ _ => succeeds, fun each => each empty room⟩
  | producerFull awake empty full =>
    exact iff_of_true (quiet rfl (notifyAll_held _) rfl) fun _ room => by omega
  | producerStirs waiting => exact iff_of_true (quiet rfl rfl rfl) trivial
  | scans asleep due move =>
    cases move with
    | undefined surplus empty => exact iff_of_true (quiet rfl rfl rfl) trivial
    | left surplus queue recent => exact iff_of_true (quiet rfl rfl rfl) trivial
    | idle enough => exact iff_of_true (quiet rfl rfl rfl) trivial
    | @retired c rest surplus queue old =>
      have distinct := parts.distinct
      rw [queue, List.cons_append, List.nodup_cons] at distinct
      refine iff_of_true (kept (fun d member => ?_) fun d member connected => ?_) trivial
      · rw [Pool.circulating, queue]
        exact List.mem_cons_of_mem c member
      · have other : d ≠ c := fun same => distinct.1 (same ▸ member)
        obtain ⟨conn, here, holds⟩ := connected
        exact ⟨conn, (Function.update_of_ne other none p.connections).trans here, holds⟩
  | passes wall cpu => exact iff_of_true (quiet rfl rfl rfl) trivial

theorem start_connected (settings : Option Config) (now clock : Int) :
    OnlyConnected (start settings now clock) := by
  constructor <;> simp [start, Pool.circulating, Pool.held]

/-- In runs in which every connection that is made connects, only connected connections
    circulate and are counted; and a step keeps it so exactly if it meets that condition. -/
theorem connected_circulate {settings : Option Config} {now clock : Int}
    (reached : Machine.Reach step ConnectSucceeds (start settings now clock) p) :
    OnlyConnected p ∧ ∀ a q, step p a = some q → (OnlyConnected q ↔ ConnectSucceeds p a) := by
  have only : OnlyConnected p := reached.invariant (start_connected settings now clock)
    fun before only permit taken =>
      (step_connected (reachable_partition before.reachable) only taken).mpr permit
  exact ⟨only, fun a q taken =>
    step_connected (reachable_partition reached.reachable) only taken⟩

/-- One connection is made by the constructor and lent, one by the producer. -/
def connectedRun : List Action :=
  [.construct 7 true, .construct 0 true, .call, .getConnection 0, .produce 8 true]

theorem connected_circulate_two :
    ∃ p, Machine.Reach step ConnectSucceeds (start (some ⟨1, 2, 60, 100⟩) 0 0) p ∧
      p.circulating = [8, 7] ∧ p.connectionCnt = 2 ∧ OnlyConnected p := by
  have ran : ∃ p ∈ Machine.run step (start (some ⟨1, 2, 60, 100⟩) 0 0) connectedRun,
      p.circulating = [8, 7] ∧ p.connectionCnt = 2 := by decide +kernel
  have obeys : Machine.Obeys step ConnectSucceeds (start (some ⟨1, 2, 60, 100⟩) 0 0)
      connectedRun := Machine.obeys_of_actions fun a member _ => by
    simp only [connectedRun, List.mem_cons, List.not_mem_nil, or_false] at member
    rcases member with rfl | rfl | rfl | rfl | rfl <;> simp [ConnectSucceeds]
  obtain ⟨p, ran, circulating, count⟩ := ran
  have reached := Machine.reach_of_run obeys ran
  exact ⟨p, reached, circulating, count, (connected_circulate reached).1⟩

/-- A connection fails in the constructor and one in the producer; the first is lent. -/
def failedRun : List Action :=
  [.construct 7 false, .construct 0 true, .call, .getConnection 0, .produce 8 false]

theorem failed_circulate :
    (∃ p ∈ Machine.run step (start (some ⟨1, 2, 60, 100⟩) 0 0) failedRun,
      p.held = [7] ∧ p.connetionQueue = [8] ∧ p.connectionCnt = 2 ∧ ¬Connected p 7 ∧
        ¬Connected p 8) ∧
    ¬∀ (settings : Option Config) (now clock : Int) (p : Pool),
      Machine.Reachable step (start settings now clock) p → OnlyConnected p := by
  have ran : ∃ p ∈ Machine.run step (start (some ⟨1, 2, 60, 100⟩) 0 0) failedRun,
      p.held = [7] ∧ p.connetionQueue = [8] ∧ p.connectionCnt = 2 ∧ ¬Connected p 7 ∧
        ¬Connected p 8 := by decide +kernel
  refine ⟨ran, fun supposed => ?_⟩
  obtain ⟨p, ran, held, _, _, failed, _⟩ := ran
  refine failed ((supposed _ _ _ p (Machine.reachable_of_run ran)).connected 7 ?_)
  simp [Pool.circulating, held]

end ConnectionPool
