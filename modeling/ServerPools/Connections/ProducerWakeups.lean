import ServerPools.Connections.Ownership

/- Which steps wake the producer. It waits while the queue is not empty; a borrower that
   takes a connection notifies cv, the scanner that deletes one does not. -/
namespace ConnectionPool

variable {p q : Pool} {a : Action} {i : Nat} {b : Borrower} {addr c : Addr} {connected : Bool}

/-- On an empty queue the producer is not blocked in cv.wait without having been notified. -/
def Told (p : Pool) : Prop := p.connetionQueue = [] → p.producer ≠ .blocked

/-- The next pass of the scanner leaves the queue empty. -/
def RetiresLast (p : Pool) : Prop :=
  p.config.initSize < p.connectionCnt ∧ ∃ c, p.connetionQueue = [c] ∧ Expired p c

/-- The scanner deletes the last queued connection only while the producer does not wait. -/
def RetiredUnwaited (p : Pool) : Action → Prop
  | .scan => p.producer = .blocked → ¬RetiresLast p
  | _ => True

theorem wake_not_blocked (pc : ProducerPc) : pc.wake ≠ .blocked := by
  cases pc <;> simp [ProducerPc.wake]

theorem notifyAll_told (p : Pool) : Told (notifyAll p) := fun _ => wake_not_blocked p.producer

/-- Only a pass that empties the queue can leave the producer behind, and it does. -/
theorem scan_told (before : Told p) (move : ScanMove p q) :
    Told q ↔ (p.producer = .blocked → ¬RetiresLast p) := by
  cases move with
  | undefined surplus empty =>
    refine ⟨fun _ blocked => absurd blocked (before empty), fun _ => before⟩
  | idle enough =>
    refine ⟨fun _ _ retires => ?_, fun _ => before⟩
    have surplus := retires.1
    omega
  | left surplus queue recent =>
    refine ⟨?_, fun _ => before⟩
    rintro _ _ ⟨_, d, single, old⟩
    rw [queue] at single
    obtain ⟨rfl, _⟩ := List.cons.inj single
    exact recent old
  | @retired c rest surplus queue old =>
    constructor
    · rintro told blocked ⟨_, d, single, _⟩
      rw [queue] at single
      exact told (List.cons.inj single).2 blocked
    · rintro apart rfl blocked
      exact apart blocked ⟨surplus, c, queue, old⟩

theorem step_told (before : Told p) (taken : step p a = some q) :
    Told q ↔ RetiredUnwaited p a := by
  cases (step_outcome taken).2 with
  | scans asleep due move => exact scan_told before move
  | creates phase below fresh =>
    exact iff_of_true (fun empty => by simp [created] at empty) trivial
  | finishes phase beyond => exact iff_of_true (fun _ blocked => by contradiction) trivial
  | called built => exact iff_of_true before trivial
  | waits here pc empty => exact iff_of_true before trivial
  | refused here pc empty => exact iff_of_true before trivial
  | lends here pc queue => exact iff_of_true (notifyAll_told _) trivial
  | expires here pc due => exact iff_of_true before trivial
  | stirs here pc => exact iff_of_true before trivial
  | releases here pc =>
    exact iff_of_true (fun empty => by simp [released, setBorrower] at empty) trivial
  | producerWaits awake stocked => exact iff_of_true (fun empty => absurd empty stocked) trivial
  | produces awake empty room fresh => exact iff_of_true (notifyAll_told _) trivial
  | producerFull awake empty full => exact iff_of_true (notifyAll_told _) trivial
  | producerStirs waiting => exact iff_of_true (fun _ blocked => by contradiction) trivial
  | passes wall cpu => exact iff_of_true before trivial

theorem start_told (settings : Option Config) (now clock : Int) :
    Told (start settings now clock) := by
  intro _ blocked
  contradiction

/-- In runs whose passes of the scanner never take the last connection from under a waiting
    producer, the producer is told of every empty queue; and a step keeps it so exactly if
    it meets that condition. -/
theorem producer_told {settings : Option Config} {now clock : Int}
    (reached : Machine.Reach step RetiredUnwaited (start settings now clock) p) :
    Told p ∧ ∀ a q, step p a = some q → (Told q ↔ RetiredUnwaited p a) := by
  have told : Told p := reached.invariant (start_told settings now clock)
    fun _ before permit taken => (step_told before taken).mpr permit
  exact ⟨told, fun a q taken => step_told told taken⟩

/-- The scanner takes one of two connections and a client the other. -/
def surplusRetired : List Action :=
  [.construct 7 true, .construct 0 true, .call, .getConnection 0, .produce 8 true,
    .produce 9 true, .deleter 0, .pass 60000000 60000, .scan, .call, .getConnection 1]

theorem producer_told_after_retiring :
    ∃ p, Machine.Reach step RetiredUnwaited (start (some ⟨1, 2, 60, 100⟩) 0 0) p ∧
      p.connetionQueue = [] ∧ p.producer = .woken ∧
      (Told p ∧ ∀ a q, step p a = some q → (Told q ↔ RetiredUnwaited p a)) := by
  have ran : ∃ p ∈ Machine.run step (start (some ⟨1, 2, 60, 100⟩) 0 0) surplusRetired,
      p.connetionQueue = [] ∧ p.producer = .woken := by decide +kernel
  have obeys : Machine.Obeys step RetiredUnwaited (start (some ⟨1, 2, 60, 100⟩) 0 0)
      surplusRetired := by
    refine ⟨trivial, trivial, trivial, trivial, trivial, trivial, trivial, trivial, ?_, trivial,
      trivial, trivial⟩
    rintro _ ⟨_, c, single, _⟩
    have two : [8, 7] = [c] := single
    simp at two
  obtain ⟨p, ran, queue, woken⟩ := ran
  have reached := Machine.reach_of_run obeys ran
  exact ⟨p, reached, queue, woken, producer_told reached⟩

/-- One connection is lent, the other has expired in the queue: the scanner deletes it, and a
    caller is refused while the pool has room and the producer waits. -/
def lastRetired : List Action :=
  [.construct 7 true, .construct 0 true, .call, .getConnection 0, .produce 8 true,
    .produce 9 true, .pass 60000000 60000, .scan, .call, .getConnection 1, .pass 100000 0,
    .expire 1, .getConnection 1]

theorem scanner_wakes_nobody :
    (∃ p ∈ Machine.run step (start (some ⟨1, 2, 60, 100⟩) 0 0) lastRetired,
      p.connetionQueue = [] ∧ p.producer = .blocked ∧ p.connectionCnt < p.config.maxSize ∧
      p.borrowers[1]? = some ⟨.refused, some 60000000⟩) ∧
    ¬∀ (settings : Option Config) (now clock : Int) (p : Pool),
      Machine.Reachable step (start settings now clock) p → Told p := by
  have ran : ∃ p ∈ Machine.run step (start (some ⟨1, 2, 60, 100⟩) 0 0) lastRetired,
      p.connetionQueue = [] ∧ p.producer = .blocked ∧ p.connectionCnt < p.config.maxSize ∧
      p.borrowers[1]? = some ⟨.refused, some 60000000⟩ := by decide +kernel
  refine ⟨ran, fun supposed => ?_⟩
  obtain ⟨p, ran, queue, blocked, _⟩ := ran
  exact supposed _ _ _ p (Machine.reachable_of_run ran) queue blocked

end ConnectionPool
