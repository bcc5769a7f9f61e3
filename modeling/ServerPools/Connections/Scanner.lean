import ServerPools.Connections.ProducerWakeups

/- The passes of the scanner. Its guard counts the connections that clients hold, a pass
   looks at the front connection only, and the break ends the thread. -/
namespace ConnectionPool

variable {p q : Pool} {a : Action} {i : Nat} {b : Borrower} {addr c : Addr} {connected : Bool}

/-- What holds of the scanner's own fields when another thread has made a step. -/
structure Unscanned (p q : Pool) : Prop where
  error : q.frontOfEmpty = p.frontOfEmpty
  scanner : q.scanner = p.scanner ∨ ∃ wakeAt, q.scanner = .sleeping wakeAt

theorem step_unscanned (other : a ≠ .scan) (taken : step p a = some q) : Unscanned p q := by
  cases (step_outcome taken).2 with
  | scans asleep due move => exact absurd rfl other
  | finishes phase beyond => exact ⟨rfl, Or.inr ⟨_, rfl⟩⟩
  | _ => exact ⟨rfl, Or.inl rfl⟩

/-- At the end of a pass nothing is left that should have been reclaimed. -/
def Reclaimed (p : Pool) : Prop :=
  p.connectionCnt ≤ p.config.initSize ∨ p.connetionQueue = [] ∨
    ∀ c ∈ p.connetionQueue, ¬Expired p c

/-- A pass on a queue that is not empty begins with no surplus, or with an expired
    connection in front and nothing to reclaim after it. -/
def Reclaimable (p : Pool) : Action → Prop
  | .scan => p.connetionQueue = [] ∨ p.connectionCnt ≤ p.config.initSize ∨
      ∃ c rest, p.connetionQueue = c :: rest ∧ Expired p c ∧
        (p.connectionCnt = p.config.initSize + 1 ∨ ∀ d ∈ rest, ¬Expired p d)
  | _ => True

/-- A pass that deletes the front ends well exactly if there was no second one to reclaim. -/
theorem retired_reclaims {rest : List Addr} (distinct : (c :: rest).Nodup)
    (surplus : p.config.initSize < p.connectionCnt) (queue : p.connetionQueue = c :: rest)
    (old : Expired p c) :
    Reclaimed { p with
      connetionQueue := rest
      connections := Function.update p.connections c none
      connectionCnt := p.connectionCnt - 1
      scanner := .sleeping (sleepUntil p) } ↔ Reclaimable p .scan := by
  have kept : ∀ d ∈ rest, Function.update p.connections c none d = p.connections d := by
    intro d member
    have other : d ≠ c := by
      rintro rfl
      exact (List.nodup_cons.mp distinct).1 member
    exact Function.update_of_ne other _ _
  constructor
  · intro reclaimed
    refine Or.inr (Or.inr ⟨c, rest, queue, old, ?_⟩)
    rcases reclaimed with few | rfl | recent
    · simp only at few
      exact Or.inl (by omega)
    · exact Or.inr (by simp)
    · refine Or.inr fun d member => ?_
      rintro ⟨conn, object, aged⟩
      exact recent d member ⟨conn, by simpa only [kept d member] using object, aged⟩
  · rintro (empty | few | ⟨d, others, split, _, few | recent⟩)
    · simp [queue] at empty
    · omega
    · exact Or.inl (by simp only; omega)
    · rw [queue] at split
      obtain ⟨rfl, rfl⟩ := List.cons.inj split
      refine Or.inr (Or.inr fun d member => ?_)
      rintro ⟨conn, object, aged⟩
      exact recent d member ⟨conn, by simpa only [kept d member] using object, aged⟩

theorem pass_reclaims (parts : Partition p) (stocked : p.connetionQueue ≠ [])
    (taken : step p .scan = some q) :
    (Reclaimed q ∧ q.scanner ≠ .stopped) ↔ Reclaimable p .scan := by
  cases scan_moves taken with
  | undefined surplus empty => exact absurd empty stocked
  | idle enough => exact iff_of_true ⟨Or.inl enough, by simp⟩ (Or.inr (Or.inl enough))
  | left surplus queue recent =>
    refine iff_of_false (fun kept => kept.2 rfl) ?_
    rintro (empty | few | ⟨d, others, split, aged, _⟩)
    · exact stocked empty
    · omega
    · rw [queue] at split
      obtain ⟨rfl, _⟩ := List.cons.inj split
      exact recent aged
  | retired surplus queue old =>
    have distinct := (List.nodup_append.mp parts.distinct).1
    rw [queue] at distinct
    exact ⟨fun kept => (retired_reclaims distinct surplus queue old).mp kept.1,
      fun once => ⟨(retired_reclaims distinct surplus queue old).mpr once, by simp⟩⟩

theorem step_inside (parts : Partition p) (inside : p.scanner ≠ .stopped)
    (permit : Reclaimable p a) (taken : step p a = some q) : q.scanner ≠ .stopped := by
  by_cases scans : a = .scan
  · subst scans
    by_cases stocked : p.connetionQueue = []
    · cases scan_moves taken with
      | undefined surplus empty => exact inside
      | idle enough => simp
      | left surplus queue recent => simp [stocked] at queue
      | retired surplus queue old => simp
    · exact ((pass_reclaims parts stocked taken).mpr permit).2
  · rcases (step_unscanned scans taken).scanner with same | ⟨wakeAt, sleeps⟩
    · rwa [same]
    · simp [sleeps]

/-- In runs whose passes all find at most one connection to reclaim, and that one in front,
    the scanner stays in its loop; and a pass leaves nothing to reclaim and the loop running
    exactly if it meets that condition. -/
theorem scanner_reclaims {settings : Option Config} {now clock : Int}
    (reached : Machine.Reach step Reclaimable (start settings now clock) p) :
    p.scanner ≠ .stopped ∧ ∀ q, p.connetionQueue ≠ [] → step p .scan = some q →
      ((Reclaimed q ∧ q.scanner ≠ .stopped) ↔ Reclaimable p .scan) := by
  have inside : p.scanner ≠ .stopped := by
    induction reached with
    | start => simp [start]
    | next before permit taken ih =>
      exact step_inside (reachable_partition before.reachable) ih permit taken
  exact ⟨inside, fun q stocked taken =>
    pass_reclaims (reachable_partition reached.reachable) stocked taken⟩

/-- Two connections in the queue, one more than the pool should keep, and both expired. -/
def oneSurplus : List Action :=
  [.construct 7 true, .construct 0 true, .call, .getConnection 0, .produce 8 true,
    .produce 9 true, .deleter 0, .pass 60000000 60000]

theorem scanner_reclaims_one :
    ∃ p q, Machine.Reach step Reclaimable (start (some ⟨1, 2, 60, 100⟩) 0 0) p ∧
      step p .scan = some q ∧ q.connetionQueue = [7] ∧ Reclaimed q ∧ q.scanner ≠ .stopped := by
  have ran : ∃ p ∈ Machine.run step (start (some ⟨1, 2, 60, 100⟩) 0 0) oneSurplus,
      p.connetionQueue = [8, 7] ∧ p.connectionCnt = p.config.initSize + 1 ∧ Expired p 8 ∧
      ∃ q ∈ step p .scan, q.connetionQueue = [7] := by decide +kernel
  obtain ⟨p, ran, queue, count, old, q, taken, left⟩ := ran
  have reached : Machine.Reach step Reclaimable (start (some ⟨1, 2, 60, 100⟩) 0 0) p :=
    Machine.reach_of_run (Machine.obeys_of_actions fun a member _ => by
      simp only [oneSurplus, List.mem_cons, List.not_mem_nil, or_false] at member
      rcases member with rfl | rfl | rfl | rfl | rfl | rfl | rfl | rfl <;> trivial) ran
  have permit : Reclaimable p .scan := Or.inr (Or.inr ⟨8, [7], queue, old, Or.inl count⟩)
  have kept := ((scanner_reclaims reached).2 q (by simp [queue]) taken).mpr permit
  exact ⟨p, q, reached, taken, left, kept.1, kept.2⟩

/-- The front connection is not old enough: the thread ends with a surplus connection. -/
def recentFront : List Action :=
  [.construct 7 true, .construct 0 true, .call, .getConnection 0, .produce 8 true, .deleter 0,
    .pass 60000000 0, .scan]

/-- Two connections to reclaim: the pass deletes one. -/
def twoSurplus : List Action :=
  [.construct 0 true, .produce 7 true, .call, .getConnection 0, .produce 8 true, .deleter 0,
    .pass 60000000 60000]

theorem scanner_leaves_surplus :
    (∃ p ∈ Machine.run step (start (some ⟨1, 2, 60, 100⟩) 0 0) recentFront,
      p.scanner = .stopped ∧ p.config.initSize < p.connectionCnt) ∧
    (∃ p ∈ Machine.run step (start (some ⟨0, 2, 60, 100⟩) 0 0) twoSurplus,
      p.connetionQueue = [8, 7] ∧ ∃ q ∈ step p .scan, ¬Reclaimed q) ∧
    ¬∀ (settings : Option Config) (now clock : Int) (p : Pool),
      Machine.Reachable step (start settings now clock) p → p.scanner ≠ .stopped ∧
        ∀ q, p.connetionQueue ≠ [] → step p .scan = some q → Reclaimed q := by
  have ended : ∃ p ∈ Machine.run step (start (some ⟨1, 2, 60, 100⟩) 0 0) recentFront,
      p.scanner = .stopped ∧ p.config.initSize < p.connectionCnt := by decide +kernel
  have behind : ∃ p ∈ Machine.run step (start (some ⟨0, 2, 60, 100⟩) 0 0) twoSurplus,
      p.connetionQueue = [8, 7] ∧ ∃ q ∈ step p .scan, q.config.initSize < q.connectionCnt ∧
        q.connetionQueue = [7] ∧ Expired q 7 := by decide +kernel
  refine ⟨ended, ?_, fun supposed => ?_⟩
  · obtain ⟨p, ran, queue, q, taken, surplus, left, old⟩ := behind
    refine ⟨p, ran, queue, q, taken, ?_⟩
    rintro (few | empty | recent)
    · omega
    · simp [left] at empty
    · exact recent 7 (by simp [left]) old
  · obtain ⟨p, ran, stopped, _⟩ := ended
    exact (supposed _ _ _ p (Machine.reachable_of_run ran)).1 stopped

/-- Only a pass that finds a surplus looks at the front. -/
theorem step_front (sound : p.frontOfEmpty = false) (taken : step p a = some q) :
    q.frontOfEmpty = false ∨ p.config.initSize < p.connectionCnt := by
  by_cases scans : a = .scan
  · subst scans
    cases scan_moves taken with
    | undefined surplus empty => exact Or.inr surplus
    | idle enough => exact Or.inl sound
    | left surplus queue recent => exact Or.inl sound
    | retired surplus queue old => exact Or.inl sound
  · exact Or.inl ((step_unscanned scans taken).error.trans sound)

/-- The counter is in bounds in every state in which the scanner runs. -/
theorem Owned.no_surplus (owned : Owned p) (few : p.config.maxSize ≤ p.config.initSize) :
    p.connectionCnt ≤ p.config.initSize := by
  cases phase : p.constructor with
  | creating i =>
    have building := owned.building i phase
    omega
  | finished =>
    have bounded := owned.bounded phase
    omega

/-- There is always an address that malloc may give. -/
def Finite (p : Pool) : Prop := ∃ bound, ∀ c, bound ≤ c → p.connections c = none

theorem moves_finite (before : Finite p) (moves : Moves p q) : Finite q := by
  obtain ⟨bound, beyond⟩ := before
  cases moves with
  | quiet queue held objects count phase => exact ⟨bound, by rwa [objects]⟩
  | lent d queue held objects count phase => exact ⟨bound, by rwa [objects]⟩
  | created d fresh queue held objects count room =>
    obtain ⟨conn, objects⟩ := objects
    refine ⟨bound + d + 1, fun c high => ?_⟩
    have other : c ≠ d := Nat.ne_of_gt (Nat.lt_of_lt_of_le (by omega) high)
    rw [objects, Function.update_of_ne other]
    exact beyond c (Nat.le_trans (by omega) high)
  | returned d queue held objects count phase =>
    obtain ⟨refresh, objects⟩ := objects
    refine ⟨bound, fun c high => ?_⟩
    rw [objects]
    by_cases same : c = d
    · subst same
      simp [beyond c high]
    · rw [Function.update_of_ne same]
      exact beyond c high
  | retired d queue held objects count surplus scanning phase =>
    refine ⟨bound, fun c high => ?_⟩
    rw [objects]
    by_cases same : c = d
    · simp [same]
    · rw [Function.update_of_ne same]
      exact beyond c high

theorem reachable_finite {settings : Option Config} {now clock : Int}
    (reached : Machine.Reachable step (start settings now clock) p) : Finite p :=
  reached.invariant ⟨0, fun _ _ => rfl⟩ fun _ before _ taken =>
    moves_finite before (step_effect taken).moves

/-- The constructor has returned, the scanner sleeps and the producer is about to look. -/
structure Settled (p : Pool) (count wakeAt : Int) : Prop where
  built : p.constructor = .finished
  producer : p.producer = .entering ∨ p.producer = .woken
  scanner : p.scanner = .sleeping wakeAt
  sound : p.frontOfEmpty = false
  count : p.connectionCnt = count

theorem wake_awake {pc : ProducerPc} (awake : pc = .entering ∨ pc = .woken) :
    pc.wake = .entering ∨ pc.wake = .woken := by
  rcases awake with rfl | rfl
  · exact Or.inl rfl
  · exact Or.inr rfl

def withCaller (p : Pool) : Pool := { p with borrowers := p.borrowers ++ [⟨.entering, none⟩] }

/-- A new caller takes the front connection. -/
theorem Settled.borrow {start : Pool} {rest : List Addr} {count wakeAt : Int}
    (settled : Settled p count wakeAt) (reached : Machine.Reachable step start p)
    (queue : p.connetionQueue = c :: rest) :
    ∃ q, Machine.Reachable step start q ∧ Settled q count wakeAt ∧ q.connetionQueue = rest := by
  obtain ⟨built, producer, scanner, sound, counted⟩ := settled
  have called : step p .call = some (withCaller p) := by
    simp [step, sound, perform, built, withCaller]
  have newest : (withCaller p).borrowers[p.borrowers.length]? = some ⟨.entering, none⟩ := by
    simp [withCaller]
  have stocked : (withCaller p).connetionQueue = c :: rest := queue
  have lent : step (withCaller p) (.getConnection p.borrowers.length) =
      some (notifyAll (setBorrower { withCaller p with connetionQueue := rest }
        p.borrowers.length ⟨.holding c, none⟩)) := by
    have unset : (withCaller p).frontOfEmpty = false := sound
    simp [step, unset, perform, getConnection, newest, takeFront, stocked]
  exact ⟨_, (reached.next trivial called).next trivial lent,
    ⟨built, wake_awake producer, scanner, sound, counted⟩, rfl⟩

/-- Callers take all that is queued. -/
theorem Settled.drain {start : Pool} {count wakeAt : Int} (queue : List Addr)
    (settled : Settled p count wakeAt) (reached : Machine.Reachable step start p)
    (here : p.connetionQueue = queue) :
    ∃ q, Machine.Reachable step start q ∧ Settled q count wakeAt ∧ q.connetionQueue = [] := by
  induction queue generalizing p with
  | nil => exact ⟨p, reached, settled, here⟩
  | cons c rest ih =>
    obtain ⟨q, further, after, left⟩ := settled.borrow reached here
    exact ih after further left

variable {settings : Config} {now clock : Int}

theorem createConnection_fresh (unused : p.connections addr = none) :
    createConnection p addr true = some (created p addr true) := if_pos unused

/-- The rounds of the constructor's loop. -/
theorem reach_creating (now clock : Int) (n : Nat) (few : (n : Int) ≤ settings.initSize) :
    ∃ p, Machine.Reachable step (start (some settings) now clock) p ∧
      p.constructor = .creating n ∧ p.frontOfEmpty = false := by
  induction n with
  | zero => exact ⟨_, .start, rfl, rfl⟩
  | succ n ih =>
    obtain ⟨p, reached, phase, sound⟩ := ih (by omega)
    obtain ⟨fresh, beyond⟩ := reachable_finite reached
    have unused := beyond fresh (Nat.le_refl fresh)
    have config : p.config = settings := reachable_config reached
    have below : (n : Int) < p.config.initSize := by
      rw [config]
      omega
    have made : step p (.construct fresh true) =
        some { created p fresh true with constructor := .creating (n + 1) } := by
      simp [step, sound, perform, construct, phase, below, createConnection_fresh unused]
    exact ⟨_, reached.next trivial made, rfl, sound⟩

theorem reach_settled (now clock : Int) (sized : 0 ≤ settings.initSize) :
    ∃ p wakeAt, Machine.Reachable step (start (some settings) now clock) p ∧
      Settled p settings.initSize wakeAt := by
  have whole : ((settings.initSize.toNat : Nat) : Int) = settings.initSize :=
    Int.toNat_of_nonneg sized
  obtain ⟨p, reached, phase, sound⟩ :=
    reach_creating now clock settings.initSize.toNat (Int.le_of_eq whole)
  have config : p.config = settings := reachable_config reached
  have owned : Owned p := reachable_owned (fun c same => by cases same; exact sized) reached
  have count := (owned.building _ phase).1
  have done : step p (.construct 0 true) = some { p with
      constructor := .finished, producer := .entering, scanner := .sleeping (sleepUntil p) } := by
    simp [step, sound, perform, construct, phase, config, whole]
  exact ⟨_, _, reached.next trivial done, rfl, Or.inl rfl, rfl, sound, count.trans whole⟩

/-- The producer makes one more on an empty queue. -/
theorem Settled.produce {start : Pool} {count wakeAt : Int} (settled : Settled p count wakeAt)
    (reached : Machine.Reachable step start p) (empty : p.connetionQueue = [])
    (room : count < p.config.maxSize) (unused : p.connections addr = none) :
    ∃ q, Machine.Reachable step start q ∧ Settled q (count + 1) wakeAt := by
  obtain ⟨built, producer, scanner, sound, counted⟩ := settled
  have below : p.connectionCnt < p.config.maxSize := counted ▸ room
  have made : step p (.produce addr true) =
      some (notifyAll { created p addr true with producer := .entering }) := by
    simp [step, sound, perform, produceConnectionTask, producer, empty, below,
      createConnection_fresh unused]
  exact ⟨_, reached.next trivial made, built, Or.inl rfl, scanner, sound,
    congrArg (· + 1) counted⟩

/-- Once the scanner is due it looks at the front, whatever the queue is. -/
theorem Settled.scan {start : Pool} {count wakeAt : Int} (settled : Settled p count wakeAt)
    (reached : Machine.Reachable step start p) (empty : p.connetionQueue = [])
    (surplus : p.config.initSize < count) :
    ∃ q, Machine.Reachable step start q ∧ q.frontOfEmpty = true := by
  obtain ⟨built, producer, scanner, sound, counted⟩ := settled
  let late : Pool := { p with
    now := p.now + ((wakeAt - p.now).toNat : Int), clock := p.clock + 0 }
  have passed : step p (.pass (wakeAt - p.now).toNat 0) = some late := by
    simp [step, sound, perform, late]
  have due : wakeAt ≤ late.now := by
    simp only [late]
    omega
  have asleep : late.scanner = .sleeping wakeAt := scanner
  have more : late.config.initSize < late.connectionCnt := by
    simpa only [late, counted] using surplus
  have none : late.connetionQueue = [] := empty
  have looked : step late .scan = some { late with frontOfEmpty := true } := by
    have unset : late.frontOfEmpty = false := sound
    simp [step, unset, perform, scannerConnectionTask, asleep, due, more, none]
  exact ⟨_, (reached.next trivial passed).next trivial looked, rfl⟩

/-- The scanner never looks at the front of an empty queue, in any run, exactly if the
    configuration has no room for a surplus: otherwise clients can hold all connections. -/
theorem scanner_front_iff (sized : 0 ≤ settings.initSize) (now clock : Int) :
    (∀ p, Machine.Reachable step (start (some settings) now clock) p → p.frontOfEmpty = false) ↔
      settings.maxSize ≤ settings.initSize := by
  constructor
  · intro always
    by_contra room
    obtain ⟨p, wakeAt, reached, settled⟩ := reach_settled now clock sized
    obtain ⟨q, further, drained, empty⟩ := settled.drain _ reached rfl
    obtain ⟨fresh, beyond⟩ := reachable_finite further
    have config : q.config = settings := reachable_config further
    obtain ⟨r, later, produced⟩ := drained.produce further empty (by rw [config]; omega)
      (beyond fresh (Nat.le_refl fresh))
    obtain ⟨u, last, lent, none⟩ := produced.drain _ later rfl
    have same : u.config = settings := reachable_config last
    obtain ⟨v, there, looked⟩ := lent.scan last none (by rw [same]; omega)
    simp [always v there] at looked
  · intro few p reached
    induction reached with
    | start => rfl
    | next before permit taken ih =>
      have owned := reachable_owned (fun c same => by cases same; exact sized) before
      have config := reachable_config before
      rcases step_front ih taken with sound | surplus
      · exact sound
      · have enough := owned.no_surplus (by rw [config]; exact few)
        omega

theorem scanner_front_both :
    (∀ p, Machine.Reachable step (start (some ⟨2, 2, 60, 100⟩) 0 0) p → p.frontOfEmpty = false) ∧
    ¬∀ p, Machine.Reachable step (start (some ⟨1, 2, 60, 100⟩) 0 0) p → p.frontOfEmpty = false :=
  ⟨(scanner_front_iff (by decide) 0 0).mpr (by decide),
    fun always => absurd ((scanner_front_iff (by decide) 0 0).mp always) (by decide)⟩

/-- Both connections of a pool of one and at most two are lent when the scanner wakes. -/
def allLent : List Action :=
  [.construct 7 true, .construct 0 true, .call, .getConnection 0, .produce 8 true, .call,
    .getConnection 1, .pass 60000000 60000, .scan]

theorem scanner_reads_empty_front :
    (∃ p ∈ Machine.run step (start (some ⟨1, 2, 60, 100⟩) 0 0) allLent,
      p.frontOfEmpty = true ∧ p.connetionQueue = [] ∧ p.connectionCnt = 2) ∧
    ¬∀ (settings : Config) (now clock : Int), 0 ≤ settings.initSize → ∀ p,
      Machine.Reachable step (start (some settings) now clock) p → p.frontOfEmpty = false := by
  have ran : ∃ p ∈ Machine.run step (start (some ⟨1, 2, 60, 100⟩) 0 0) allLent,
      p.frontOfEmpty = true ∧ p.connetionQueue = [] ∧ p.connectionCnt = 2 := by decide +kernel
  refine ⟨ran, fun supposed => ?_⟩
  obtain ⟨p, ran, error, _⟩ := ran
  simp [supposed ⟨1, 2, 60, 100⟩ 0 0 (by decide) p (Machine.reachable_of_run ran)] at error

end ConnectionPool
