import ServerPools.Connections.Ownership

/- Which steps wake the callers of getConnection. The producer and a borrower notify cv
   after every change of the queue; the deleter pushes a connection and does not. -/
namespace ConnectionPool

/-- No caller is blocked in wait_for without having been notified. -/
def NoneWaiting (p : Pool) : Prop := ∀ b ∈ p.borrowers, b.waiting = false

/-- A connection is released only while no caller waits for one. -/
def ReleasedUnwaited (p : Pool) : Action → Prop
  | .deleter _ => NoneWaiting p
  | _ => True

theorem notifyAll_none_waiting (p : Pool) : NoneWaiting (notifyAll p) :=
  Agents.forall_map fun b _ => wake_not_waiting b

theorem setBorrower_none_waiting {p : Pool} {i : Nat} {b : Borrower} (none : NoneWaiting p)
    (awake : b.waiting = false) : NoneWaiting (setBorrower p i b) :=
  Agents.forall_set none awake

theorem scan_borrowers {p q : Pool} (move : ScanMove p q) :
    q.borrowers = p.borrowers ∧ (p.connetionQueue = [] → q.connetionQueue = []) := by
  cases move with
  | undefined surplus empty => exact ⟨rfl, id⟩
  | retired surplus queue old => exact ⟨rfl, fun empty => by simp [queue] at empty⟩
  | left surplus queue recent => exact ⟨rfl, id⟩
  | idle enough => exact ⟨rfl, id⟩

/-- Nobody calls getConnection before the constructor returns; afterwards a caller waits
    un-notified only on an empty queue. -/
structure Attended (p : Pool) : Prop where
  uncalled : ∀ i, p.constructor = .creating i → p.borrowers = []
  attended : p.connetionQueue ≠ [] → NoneWaiting p

/-- The constructor moves forwards only. -/
theorem effect_creating {p q : Pool} (effect : Effect p q) {i : Int}
    (phase : q.constructor = .creating i) : ∃ j, p.constructor = .creating j := by
  cases effect.moves with
  | quiet queue held objects count before =>
    rcases before with same | ⟨finished, _⟩
    · exact ⟨i, same ▸ phase⟩
    · simp [finished] at phase
  | created c fresh queue held objects count room =>
    rcases room with ⟨j, before, _, _⟩ | ⟨_, _, same⟩
    · exact ⟨j, before⟩
    · exact ⟨i, same ▸ phase⟩
  | lent c queue held objects count same => exact ⟨i, same ▸ phase⟩
  | returned c queue held objects count same => exact ⟨i, same ▸ phase⟩
  | retired c queue held objects count surplus scanning same => exact ⟨i, same ▸ phase⟩

theorem none_waiting_of_empty {p : Pool} (empty : p.borrowers = []) : NoneWaiting p := by
  simp [NoneWaiting, empty]

/-- A caller that goes on either found the queue empty or wakes everybody. -/
theorem step_attended {p q : Pool} {a : Action} (before : Attended p)
    (permit : ReleasedUnwaited p a) (taken : step p a = some q)
    (stocked : q.connetionQueue ≠ []) : NoneWaiting q := by
  cases (step_outcome taken).2 with
  | creates phase below fresh => exact none_waiting_of_empty (before.uncalled _ phase)
  | finishes phase beyond => exact none_waiting_of_empty (before.uncalled _ phase)
  | called built =>
    intro b member
    rcases List.mem_append.mp member with old | new
    · exact before.attended stocked b old
    · obtain rfl := List.mem_singleton.mp new
      rfl
  | waits here pc empty => exact absurd empty stocked
  | refused here pc empty => exact absurd empty stocked
  | lends here pc queue => exact notifyAll_none_waiting _
  | expires here pc due => exact setBorrower_none_waiting (before.attended stocked) rfl
  | stirs here pc => exact setBorrower_none_waiting (before.attended stocked) rfl
  | releases here pc => exact Agents.forall_set permit rfl
  | producerWaits awake full => exact before.attended full
  | produces awake empty room fresh => exact notifyAll_none_waiting _
  | producerFull awake empty full => exact notifyAll_none_waiting _
  | producerStirs waiting => exact before.attended stocked
  | scans asleep due move =>
    obtain ⟨borrowers, drained⟩ := scan_borrowers move
    have full : p.connetionQueue ≠ [] := fun empty => stocked (drained empty)
    intro b member
    exact before.attended full b (borrowers ▸ member)
  | passes wall cpu => exact before.attended stocked

/-- Before the constructor has returned there are no calls after a step either. -/
theorem step_uncalled {p q : Pool} {a : Action} (before : Attended p) (taken : step p a = some q)
    {i : Int} (phase : q.constructor = .creating i) : q.borrowers = [] := by
  obtain ⟨j, building⟩ := effect_creating (step_effect taken) phase
  have none := before.uncalled j building
  have absent (k : Nat) : p.borrowers[k]? = Option.none := by simp [none]
  cases (step_outcome taken).2 with
  | called built => simp [building] at built
  | waits here pc empty => simp [absent] at here
  | refused here pc empty => simp [absent] at here
  | lends here pc queue => simp [absent] at here
  | expires here pc due => simp [absent] at here
  | stirs here pc => simp [absent] at here
  | releases here pc => simp [absent] at here
  | produces awake empty room fresh => simp [notifyAll, created, none]
  | producerFull awake empty full => simp [notifyAll, none]
  | scans asleep due move => rw [(scan_borrowers move).1, none]
  | _ => exact none

theorem reach_attended {settings : Option Config} {now clock : Int} {p : Pool}
    (reached : Machine.Reach step ReleasedUnwaited (start settings now clock) p) : Attended p := by
  refine reached.invariant ⟨fun _ _ => rfl, fun _ => none_waiting_of_empty rfl⟩ ?_
  intro p a q _ before permit taken
  exact ⟨fun i phase => step_uncalled before taken phase, step_attended before permit taken⟩

/-- In runs that release connections only while no caller waits, no caller waits on a
    non-empty queue. -/
theorem borrowers_attended {settings : Option Config} {now clock : Int} {p : Pool}
    (reached : Machine.Reach step ReleasedUnwaited (start settings now clock) p)
    (stocked : p.connetionQueue ≠ []) : ∀ b ∈ p.borrowers, b.waiting = false :=
  (reach_attended reached).attended stocked

/-- The second caller waits for the only connection, the producer wakes it, and the first
    releases before it has the lock back. -/
def wokenBeforeRelease : List Action :=
  [.construct 7 true, .construct 0 true, .call, .call, .getConnection 0, .getConnection 1,
    .produce 0 true, .deleter 0]

theorem borrowers_attended_after_wake :
    ∃ p, Machine.Reach step ReleasedUnwaited (start (some ⟨1, 1, 60, 100⟩) 0 0) p ∧
      p.connetionQueue = [7] ∧ p.borrowers[1]? = some ⟨.woken 100000, some 0⟩ ∧
      ∀ b ∈ p.borrowers, b.waiting = false := by
  have ran : ∃ p, Machine.run step (start (some ⟨1, 1, 60, 100⟩) 0 0) wokenBeforeRelease = some p ∧
      p.connetionQueue = [7] ∧ p.borrowers[1]? = some ⟨.woken 100000, some 0⟩ := ⟨_, rfl, rfl, rfl⟩
  have obeys : Machine.Obeys step ReleasedUnwaited (start (some ⟨1, 1, 60, 100⟩) 0 0)
      wokenBeforeRelease := by
    refine ⟨trivial, trivial, trivial, trivial, trivial, trivial, trivial, ?_, trivial⟩
    change ∀ b ∈ ([⟨.holding 7, none⟩, ⟨.woken 100000, some 0⟩] : List Borrower), b.waiting = false
    decide
  obtain ⟨p, ran, queue, woken⟩ := ran
  have reached := Machine.reach_of_run obeys ran
  exact ⟨p, reached, queue, woken, borrowers_attended reached (by simp [queue])⟩

/-- A release that breaks the condition leaves the callers waiting on a non-empty queue. -/
theorem deleter_strands_waiting {p q : Pool} {i : Nat} (taken : step p (.deleter i) = some q)
    {j : Nat} {b : Borrower} (here : p.borrowers[j]? = some b) (waits : b.waiting = true) :
    q.connetionQueue ≠ [] ∧ ∃ b ∈ q.borrowers, b.waiting = true := by
  cases (step_outcome taken).2 with
  | @releases _ holder c there pc =>
    have other : i ≠ j := by
      intro same
      obtain rfl : holder = b := by simpa [same, here] using there.symm
      simp [Borrower.waiting, pc] at waits
    refine ⟨by simp [released, setBorrower], b, ?_, waits⟩
    exact List.mem_of_getElem? ((List.getElem?_set_ne other).trans here)

/-- The pool of one connection: the second caller waits, the first releases, and the second
    stays blocked and un-notified with the connection in the queue. -/
theorem release_wakes_nobody :
    ¬ ∀ (settings : Option Config) (now clock : Int) (p : Pool),
      Machine.Reachable step (start settings now clock) p → p.connetionQueue ≠ [] →
      ∀ b ∈ p.borrowers, b.waiting = false := by
  intro supposed
  have ran : ∃ p, Machine.run step (start (some ⟨1, 1, 60, 100⟩) 0 0)
      [.construct 7 true, .construct 0 true, .call, .call, .getConnection 0, .getConnection 1,
        .deleter 0] = some p ∧ p.connetionQueue = [7] ∧
      p.borrowers[1]? = some ⟨.blocked 100000, some 0⟩ := ⟨_, rfl, rfl, rfl⟩
  obtain ⟨p, ran, queue, waiting⟩ := ran
  have woken := supposed _ _ _ p (Machine.reachable_of_run ran) (by simp [queue]) _
    (List.mem_of_getElem? waiting)
  simp [Borrower.waiting] at woken

end ConnectionPool
