import ServerPools.Connections.ConnectionPool

/- Everything a step of the pool can do, said once: the guard under which the code takes a
   branch and the state it leaves. Later proofs split on outcomes. -/
namespace ConnectionPool

variable {p q : Pool} {a : Action} {i : Nat} {b : Borrower} {addr c : Addr} {connected : Bool}

/-- By the code's own test: the connection has been idle for the limit or longer. -/
def Expired (p : Pool) (c : Addr) : Prop :=
  ∃ conn ∈ p.connections c, intMul p.config.maxIdleTime 1000 ≤ conn.getAliveTime p.clock

instance : Decidable (Expired p c) :=
  inferInstanceAs (Decidable (∃ conn ∈ p.connections c, _ ≤ conn.getAliveTime p.clock))

/-- All that a pass of the scanner can do. -/
inductive ScanMove (p : Pool) : Pool → Prop where
  | undefined (surplus : p.config.initSize < p.connectionCnt) (empty : p.connetionQueue = []) :
      ScanMove p { p with frontOfEmpty := true }
  | retired {c : Addr} {rest : List Addr} (surplus : p.config.initSize < p.connectionCnt)
      (queue : p.connetionQueue = c :: rest) (old : Expired p c) :
      ScanMove p { p with
        connetionQueue := rest
        connections := Function.update p.connections c none
        connectionCnt := p.connectionCnt - 1
        scanner := .sleeping (sleepUntil p) }
  | left {c : Addr} {rest : List Addr} (surplus : p.config.initSize < p.connectionCnt)
      (queue : p.connetionQueue = c :: rest) (recent : ¬Expired p c) :
      ScanMove p { p with scanner := .stopped }
  | idle (enough : p.connectionCnt ≤ p.config.initSize) :
      ScanMove p { p with scanner := .sleeping (sleepUntil p) }

/-- The pool with one more connection, which nobody has. -/
def created (p : Pool) (addr : Addr) (connected : Bool) : Pool :=
  { p with
    connections := Function.update p.connections addr (some ⟨p.clock, connected, p.now⟩)
    connetionQueue := p.connetionQueue ++ [addr]
    connectionCnt := p.connectionCnt + 1 }

/-- The deleter has pushed the connection that caller i held. -/
def released (p : Pool) (i : Nat) (b : Borrower) (c : Addr) : Pool :=
  setBorrower { p with
    connections := Function.update p.connections c ((p.connections c).map fun old =>
      { old.refreshAliveTime p.clock with queuedAt := p.now })
    connetionQueue := p.connetionQueue ++ [c] } i { b with pc := .released }

/-- A caller that holds the lock in getConnection. -/
def BorrowerPc.looking : BorrowerPc → Bool
  | .entering | .woken _ | .timedOut => true
  | _ => false

/-- A caller whose wait_for has been notified before its deadline. -/
def BorrowerPc.inTime (now : Int) : BorrowerPc → Bool
  | .woken deadline => now < deadline
  | _ => false

/-- A caller whose wait_for returns the timeout once it has the lock. -/
def BorrowerPc.late (now : Int) : BorrowerPc → Bool
  | .woken deadline => deadline ≤ now
  | .timedOut => true
  | _ => false

theorem waits_looking {pc : BorrowerPc} {now : Int} (waits : pc = .entering ∨ pc.inTime now) :
    pc.looking := by
  cases pc <;> simp_all [BorrowerPc.inTime, BorrowerPc.looking]

theorem late_looking {pc : BorrowerPc} {now : Int} (late : pc.late now) : pc.looking := by
  cases pc <;> simp_all [BorrowerPc.late, BorrowerPc.looking]

inductive Outcome (p : Pool) : Action → Pool → Prop where
  | creates {addr : Addr} {connected : Bool} {i : Int} (phase : p.constructor = .creating i)
      (below : i < p.config.initSize) (fresh : p.connections addr = none) :
      Outcome p (.construct addr connected)
        { created p addr connected with constructor := .creating (i + 1) }
  | finishes {addr : Addr} {connected : Bool} {i : Int} (phase : p.constructor = .creating i)
      (beyond : p.config.initSize ≤ i) :
      Outcome p (.construct addr connected) { p with
        constructor := .finished
        producer := .entering
        scanner := .sleeping (sleepUntil p) }
  | called (built : p.constructor = .finished) :
      Outcome p .call { p with borrowers := p.borrowers ++ [⟨.entering, none⟩] }
  | waits {i : Nat} {b : Borrower} (here : p.borrowers[i]? = some b)
      (pc : b.pc = .entering ∨ b.pc.inTime p.now) (empty : p.connetionQueue = []) :
      Outcome p (.getConnection i) (waitFor p i b)
  | refused {i : Nat} {b : Borrower} (here : p.borrowers[i]? = some b) (pc : b.pc.late p.now)
      (empty : p.connetionQueue = []) : Outcome p (.getConnection i) (refuse p i b)
  | lends {i : Nat} {b : Borrower} {c : Addr} {rest : List Addr}
      (here : p.borrowers[i]? = some b) (pc : b.pc.looking) (queue : p.connetionQueue = c :: rest) :
      Outcome p (.getConnection i)
        (notifyAll (setBorrower { p with connetionQueue := rest } i { b with pc := .holding c }))
  | expires {i : Nat} {b : Borrower} {deadline : Int} (here : p.borrowers[i]? = some b)
      (pc : b.pc = .blocked deadline) (due : deadline ≤ p.now) :
      Outcome p (.expire i) (setBorrower p i { b with pc := .timedOut })
  | stirs {i : Nat} {b : Borrower} {deadline : Int} (here : p.borrowers[i]? = some b)
      (pc : b.pc = .blocked deadline) :
      Outcome p (.stir i) (setBorrower p i { b with pc := .woken deadline })
  | releases {i : Nat} {b : Borrower} {c : Addr} (here : p.borrowers[i]? = some b)
      (pc : b.pc = .holding c) : Outcome p (.deleter i) (released p i b c)
  | producerWaits {addr : Addr} {connected : Bool}
      (awake : p.producer = .entering ∨ p.producer = .woken) (stocked : p.connetionQueue ≠ []) :
      Outcome p (.produce addr connected) { p with producer := .blocked }
  | produces {addr : Addr} {connected : Bool}
      (awake : p.producer = .entering ∨ p.producer = .woken) (empty : p.connetionQueue = [])
      (room : p.connectionCnt < p.config.maxSize) (fresh : p.connections addr = none) :
      Outcome p (.produce addr connected)
        (notifyAll { created p addr connected with producer := .entering })
  | producerFull {addr : Addr} {connected : Bool}
      (awake : p.producer = .entering ∨ p.producer = .woken) (empty : p.connetionQueue = [])
      (full : p.config.maxSize ≤ p.connectionCnt) :
      Outcome p (.produce addr connected) (notifyAll { p with producer := .entering })
  | producerStirs (waiting : p.producer = .blocked) :
      Outcome p .stirProducer { p with producer := .woken }
  | scans {q : Pool} {wakeAt : Int} (asleep : p.scanner = .sleeping wakeAt) (due : wakeAt ≤ p.now)
      (move : ScanMove p q) : Outcome p .scan q
  | passes (wall : Nat) (cpu : Int) :
      Outcome p (.pass wall cpu) { p with now := p.now + wall, clock := p.clock + cpu }

theorem createConnection_outcome (made : createConnection p addr connected = some q) :
    p.connections addr = none ∧ q = created p addr connected := by
  unfold createConnection at made
  split at made
  · rename_i fresh
    exact ⟨fresh, (Option.some.inj made).symm⟩
  · contradiction

theorem construct_outcome (taken : construct p addr connected = some q) :
    Outcome p (.construct addr connected) q := by
  unfold construct at taken
  split at taken
  · contradiction
  · rename_i i phase
    split at taken
    · rename_i below
      obtain ⟨mid, made, rfl⟩ := Option.map_eq_some_iff.mp taken
      obtain ⟨fresh, rfl⟩ := createConnection_outcome made
      exact .creates phase below fresh
    · rename_i beyond
      cases taken
      exact .finishes phase (Int.not_lt.mp beyond)

theorem takeFront_outcome (taken : takeFront p i b = some q) (here : p.borrowers[i]? = some b)
    (pc : b.pc.looking) : Outcome p (.getConnection i) q := by
  unfold takeFront at taken
  split at taken
  · contradiction
  · rename_i c rest queue
    cases taken
    exact .lends here pc queue

theorem getConnection_outcome (taken : getConnection p i = some q) :
    Outcome p (.getConnection i) q := by
  unfold getConnection at taken
  split at taken
  · contradiction
  · rename_i b here
    split at taken
    · rename_i pc
      split at taken
      · rename_i empty
        cases taken
        exact .waits here (Or.inl pc) empty
      · exact takeFront_outcome taken here (by simp [pc, BorrowerPc.looking])
    · rename_i deadline pc
      split at taken
      · rename_i empty
        split at taken <;> cases taken
        · rename_i passed
          exact .refused here (by simp [pc, BorrowerPc.late, passed]) empty
        · rename_i early
          exact .waits here (Or.inr (by simpa [pc, BorrowerPc.inTime] using early)) empty
      · exact takeFront_outcome taken here (by simp [pc, BorrowerPc.looking])
    · rename_i pc
      split at taken
      · rename_i empty
        cases taken
        exact .refused here (by simp [pc, BorrowerPc.late]) empty
      · exact takeFront_outcome taken here (by simp [pc, BorrowerPc.looking])
    · contradiction

theorem produceConnectionTask_outcome (taken : produceConnectionTask p addr connected = some q) :
    Outcome p (.produce addr connected) q := by
  unfold produceConnectionTask at taken
  split at taken
  · rename_i awake
    split at taken
    · rename_i stocked
      cases taken
      exact .producerWaits awake stocked
    · rename_i drained
      have empty : p.connetionQueue = [] := Decidable.not_not.mp drained
      split at taken
      · rename_i room
        obtain ⟨mid, made, rfl⟩ := Option.map_eq_some_iff.mp taken
        obtain ⟨fresh, rfl⟩ := createConnection_outcome made
        exact .produces awake empty room fresh
      · rename_i full
        cases taken
        exact .producerFull awake empty (Int.not_lt.mp full)
  · contradiction

theorem scannerConnectionTask_outcome (taken : scannerConnectionTask p = some q) :
    Outcome p .scan q := by
  unfold scannerConnectionTask at taken
  split at taken
  · rename_i wakeAt asleep
    split at taken
    · rename_i due
      refine .scans asleep due ?_
      split at taken
      · rename_i surplus
        split at taken
        · rename_i empty
          cases taken
          exact .undefined surplus empty
        · rename_i c rest queue
          split at taken
          · contradiction
          · rename_i conn object
            split at taken
            · rename_i old
              cases taken
              exact .retired surplus queue ⟨conn, object, old⟩
            · rename_i recent
              cases taken
              refine .left surplus queue ?_
              rintro ⟨other, same, old⟩
              rw [object] at same
              cases same
              exact recent old
      · rename_i enough
        cases taken
        exact .idle (Int.not_lt.mp enough)
    · contradiction
  · contradiction

theorem perform_outcome (done : perform p a = some q) : Outcome p a q := by
  cases a with
  | construct addr connected => exact construct_outcome done
  | call =>
    simp only [perform] at done
    split at done
    · rename_i built
      cases done
      exact .called built
    · contradiction
  | getConnection i => exact getConnection_outcome done
  | expire i =>
    simp only [perform, expire] at done
    split at done
    · contradiction
    · rename_i b here
      split at done
      · rename_i deadline pc
        split at done
        · rename_i due
          cases done
          exact .expires here pc due
        · contradiction
      · contradiction
  | stir i =>
    simp only [perform, stir] at done
    split at done
    · contradiction
    · rename_i b here
      split at done
      · rename_i deadline pc
        cases done
        exact .stirs here pc
      · contradiction
  | deleter i =>
    simp only [perform, deleter] at done
    split at done
    · contradiction
    · rename_i b here
      split at done
      · rename_i c pc
        cases done
        exact .releases here pc
      · contradiction
  | produce addr connected => exact produceConnectionTask_outcome done
  | stirProducer =>
    simp only [perform] at done
    split at done
    · rename_i waiting
      cases done
      exact .producerStirs waiting
    · contradiction
  | scan => exact scannerConnectionTask_outcome done
  | pass wall cpu =>
    cases done
    exact .passes wall cpu

theorem step_outcome (taken : step p a = some q) : p.frontOfEmpty = false ∧ Outcome p a q := by
  unfold step at taken
  split at taken
  · contradiction
  · rename_i sound
    exact ⟨by simpa using sound, perform_outcome taken⟩

/-- What the scanner does in a pass. -/
theorem scan_moves (taken : step p .scan = some q) : ScanMove p q := by
  cases (step_outcome taken).2 with
  | scans asleep due move => exact move

end ConnectionPool
