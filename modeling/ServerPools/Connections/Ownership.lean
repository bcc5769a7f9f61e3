import ServerPools.Connections.Outcomes

/- Who owns which connection. Every step moves at most one pointer between the heap,
   the queue and the clients; the partition and the counter follow from that. -/
namespace ConnectionPool

/-- All a step can do to the queue, the clients' pointers, the objects and the counter. -/
inductive Moves (p q : Pool) : Prop where
  | quiet (queue : q.connetionQueue = p.connetionQueue) (held : q.held = p.held)
      (objects : q.connections = p.connections) (count : q.connectionCnt = p.connectionCnt)
      (phase : q.constructor = p.constructor ∨
        q.constructor = .finished ∧ ∃ i, p.constructor = .creating i ∧ p.config.initSize ≤ i)
  | created (c : Addr) (fresh : p.connections c = none)
      (queue : q.connetionQueue = p.connetionQueue ++ [c]) (held : q.held = p.held)
      (objects : ∃ conn, q.connections = Function.update p.connections c (some conn))
      (count : q.connectionCnt = p.connectionCnt + 1)
      (room : (∃ i, p.constructor = .creating i ∧ i < p.config.initSize ∧
          q.constructor = .creating (i + 1)) ∨
        p.producer ≠ .absent ∧ p.connectionCnt < p.config.maxSize ∧ q.constructor = p.constructor)
  | lent (c : Addr) (queue : p.connetionQueue = c :: q.connetionQueue)
      (held : q.held.Perm (c :: p.held)) (objects : q.connections = p.connections)
      (count : q.connectionCnt = p.connectionCnt) (phase : q.constructor = p.constructor)
  | returned (c : Addr) (queue : q.connetionQueue = p.connetionQueue ++ [c])
      (held : p.held.Perm (c :: q.held))
      (objects : ∃ refresh, q.connections =
        Function.update p.connections c ((p.connections c).map refresh))
      (count : q.connectionCnt = p.connectionCnt) (phase : q.constructor = p.constructor)
  | retired (c : Addr) (queue : p.connetionQueue = c :: q.connetionQueue) (held : q.held = p.held)
      (objects : q.connections = Function.update p.connections c none)
      (count : q.connectionCnt = p.connectionCnt - 1)
      (surplus : p.config.initSize < p.connectionCnt) (scanning : p.scanner ≠ .absent)
      (phase : q.constructor = p.constructor)

/-- The whole effect of a step: the pointer moved, the settings kept, and no thread started
    by anything but the end of the constructor. -/
structure Effect (p q : Pool) : Prop where
  moves : Moves p q
  config : q.config = p.config
  threads : q.constructor ≠ .finished →
    (p.producer = .absent → q.producer = .absent) ∧ (p.scanner = .absent → q.scanner = .absent)

theorem wake_absent {pc : ProducerPc} (absent : pc = .absent) : pc.wake = .absent := by
  simp [absent, ProducerPc.wake]

theorem setBorrower_held {p : Pool} {i : Nat} {b : Borrower} (here : p.borrowers[i]? = some b)
    (b' : Borrower) :
    ∃ others, p.held.Perm (b.held.toList ++ others) ∧
      (setBorrower p i b').held.Perm (b'.held.toList ++ others) := by
  obtain ⟨rest, before, after⟩ := Agents.single_out here
  refine ⟨rest.filterMap Borrower.held, ?_, ?_⟩
  · have split := before.filterMap Borrower.held
    cases own : b.held <;> simpa [Pool.held, List.filterMap_cons, own] using split
  · have split := (after b').filterMap Borrower.held
    cases own : b'.held <;> simpa [Pool.held, setBorrower, List.filterMap_cons, own] using split

theorem setBorrower_same_held {p : Pool} {i : Nat} {b b' : Borrower}
    (here : p.borrowers[i]? = some b) (same : b'.held = b.held) :
    (setBorrower p i b').held = p.held :=
  Agents.filterMap_set_same here same

theorem setBorrower_effect {p : Pool} {i : Nat} {b b' : Borrower}
    (here : p.borrowers[i]? = some b) (same : b'.held = b.held) :
    Effect p (setBorrower p i b') :=
  ⟨.quiet rfl (setBorrower_same_held here same) rfl rfl (Or.inl rfl), rfl, fun _ => ⟨id, id⟩⟩

theorem lend_held {p : Pool} {i : Nat} {b : Borrower} {rest : List Addr}
    (here : p.borrowers[i]? = some b) (empty : b.held = none) (c : Addr) :
    (notifyAll (setBorrower { p with connetionQueue := rest } i { b with pc := .holding c })).held.Perm
      (c :: p.held) := by
  obtain ⟨others, before, after⟩ := setBorrower_held (p := { p with connetionQueue := rest }) here
    { b with pc := .holding c }
  rw [empty] at before
  rw [notifyAll_held]
  exact after.trans (before.symm.cons c)

theorem release_held {p : Pool} {i : Nat} {b : Borrower} {c : Addr}
    (here : p.borrowers[i]? = some b) (pc : b.pc = .holding c) :
    p.held.Perm (c :: (released p i b c).held) := by
  obtain ⟨others, before, after⟩ := setBorrower_held here { b with pc := .released }
  have own : b.held = some c := by simp [Borrower.held, pc]
  rw [own] at before
  exact before.trans (after.symm.cons c)

theorem looking_empty {b : Borrower} (pc : b.pc.looking) : b.held = none := by
  rcases b with ⟨place, first⟩
  cases place <;> simp_all [BorrowerPc.looking, Borrower.held]

theorem lend_effect {p : Pool} {i : Nat} {b : Borrower} {c : Addr} {rest : List Addr}
    (here : p.borrowers[i]? = some b) (pc : b.pc.looking) (queue : p.connetionQueue = c :: rest) :
    Effect p (notifyAll (setBorrower { p with connetionQueue := rest } i
      { b with pc := .holding c })) :=
  ⟨.lent c queue (lend_held here (looking_empty pc) c) rfl rfl rfl, rfl, fun _ => ⟨wake_absent, id⟩⟩

theorem release_effect {p : Pool} {i : Nat} {b : Borrower} {c : Addr}
    (here : p.borrowers[i]? = some b) (pc : b.pc = .holding c) : Effect p (released p i b c) :=
  ⟨.returned c rfl (release_held here pc) ⟨_, rfl⟩ rfl rfl, rfl, fun _ => ⟨id, id⟩⟩

/-- A pass leaves the constructor alone, and no pass is made by a thread not yet started. -/
theorem scan_effect {p q : Pool} (present : p.scanner ≠ .absent) (move : ScanMove p q) :
    Effect p q := by
  have threads : p.scanner = .absent → q.scanner = .absent := (absurd · present)
  cases move with
  | undefined surplus empty => exact ⟨.quiet rfl rfl rfl rfl (Or.inl rfl), rfl, fun _ => ⟨id, id⟩⟩
  | retired surplus queue old =>
    exact ⟨.retired _ queue rfl rfl rfl surplus present rfl, rfl, fun _ => ⟨id, threads⟩⟩
  | left surplus queue recent =>
    exact ⟨.quiet rfl rfl rfl rfl (Or.inl rfl), rfl, fun _ => ⟨id, threads⟩⟩
  | idle enough => exact ⟨.quiet rfl rfl rfl rfl (Or.inl rfl), rfl, fun _ => ⟨id, threads⟩⟩

theorem outcome_effect {p q : Pool} {a : Action} (outcome : Outcome p a q) : Effect p q := by
  have present (awake : p.producer = .entering ∨ p.producer = .woken) : p.producer ≠ .absent := by
    intro absent
    simp [absent] at awake
  cases outcome with
  | creates phase below fresh =>
    exact ⟨.created _ fresh rfl rfl ⟨_, rfl⟩ rfl (Or.inl ⟨_, phase, below, rfl⟩), rfl,
      fun _ => ⟨id, id⟩⟩
  | finishes phase beyond =>
    exact ⟨.quiet rfl rfl rfl rfl (Or.inr ⟨rfl, _, phase, beyond⟩), rfl,
      fun open_ => absurd rfl open_⟩
  | called built =>
    have held : Pool.held { p with borrowers := p.borrowers ++ [⟨.entering, none⟩] } = p.held := by
      simp [Pool.held, Borrower.held]
    exact ⟨.quiet rfl held rfl rfl (Or.inl rfl), rfl, fun _ => ⟨id, id⟩⟩
  | waits here pc _ =>
    refine setBorrower_effect here ?_
    rw [looking_empty (waits_looking pc)]
    rfl
  | refused here pc _ =>
    refine setBorrower_effect here ?_
    rw [looking_empty (late_looking pc)]
    rfl
  | lends here pc queue => exact lend_effect here pc queue
  | expires here pc due => exact setBorrower_effect here (by simp [Borrower.held, pc])
  | stirs here pc => exact setBorrower_effect here (by simp [Borrower.held, pc])
  | releases here pc => exact release_effect here pc
  | producerWaits awake stocked =>
    exact ⟨.quiet rfl rfl rfl rfl (Or.inl rfl), rfl, fun _ => ⟨(absurd · (present awake)), id⟩⟩
  | produces awake drained room fresh =>
    exact ⟨.created _ fresh rfl (notifyAll_held _) ⟨_, rfl⟩ rfl
      (Or.inr ⟨present awake, room, rfl⟩), rfl, fun _ => ⟨(absurd · (present awake)), id⟩⟩
  | producerFull awake drained full =>
    exact ⟨.quiet rfl (notifyAll_held _) rfl rfl (Or.inl rfl), rfl,
      fun _ => ⟨(absurd · (present awake)), id⟩⟩
  | producerStirs waiting =>
    exact ⟨.quiet rfl rfl rfl rfl (Or.inl rfl), rfl, fun _ => ⟨by simp [waiting], id⟩⟩
  | scans asleep due move => exact scan_effect (by simp [asleep]) move
  | passes wall cpu => exact ⟨.quiet rfl rfl rfl rfl (Or.inl rfl), rfl, fun _ => ⟨id, id⟩⟩

theorem step_effect {p q : Pool} {a : Action} (taken : step p a = some q) : Effect p q :=
  outcome_effect (step_outcome taken).2

/-- The pointer part of the invariant, which needs nothing about phases and bounds. -/
structure Partition (p : Pool) : Prop where
  distinct : (p.connetionQueue ++ p.held).Nodup
  undeleted : ∀ c ∈ p.connetionQueue ++ p.held, p.connections c ≠ none
  counted : p.connectionCnt = p.connetionQueue.length + p.held.length

/-- The ownership invariant. Before the constructor returns no thread runs and the counter is
    the constructor's loop variable. -/
structure Owned (p : Pool) : Prop extends Partition p where
  building : ∀ i, p.constructor = .creating i → p.connectionCnt = i ∧ i ≤ p.config.initSize ∧
    p.producer = .absent ∧ p.scanner = .absent
  bounded : p.constructor = .finished → p.config.initSize ≤ p.connectionCnt ∧
    p.connectionCnt ≤ max p.config.initSize p.config.maxSize

theorem lent_perm {p q : Pool} {c : Addr} (queue : p.connetionQueue = c :: q.connetionQueue)
    (held : q.held.Perm (c :: p.held)) :
    (q.connetionQueue ++ q.held).Perm (p.connetionQueue ++ p.held) := by
  rw [queue, List.cons_append]
  exact (held.append_left q.connetionQueue).trans List.perm_middle

theorem returned_perm {p q : Pool} {c : Addr} (queue : q.connetionQueue = p.connetionQueue ++ [c])
    (held : p.held.Perm (c :: q.held)) :
    (q.connetionQueue ++ q.held).Perm (p.connetionQueue ++ p.held) := by
  rw [queue, List.append_assoc]
  exact List.Perm.append_left p.connetionQueue held.symm

/-- A pointer passed between the queue and the clients leaves the partition as it was. -/
theorem partition_passed {p q : Pool} (parts : Partition p)
    (same : (q.connetionQueue ++ q.held).Perm (p.connetionQueue ++ p.held))
    (count : q.connectionCnt = p.connectionCnt)
    (alive : ∀ c, p.connections c ≠ none → q.connections c ≠ none) : Partition q := by
  refine ⟨same.nodup_iff.mpr parts.distinct, ?_, ?_⟩
  · intro c member
    exact alive c (parts.undeleted c (same.mem_iff.mp member))
  · have lengths := same.length_eq
    have counted := parts.counted
    simp only [List.length_append] at lengths
    omega

theorem partition_created {p q : Pool} (parts : Partition p) {c : Addr} {conn : Connection}
    (fresh : p.connections c = none) (queue : q.connetionQueue = p.connetionQueue ++ [c])
    (held : q.held = p.held)
    (objects : q.connections = Function.update p.connections c (some conn))
    (count : q.connectionCnt = p.connectionCnt + 1) : Partition q := by
  have shape : (q.connetionQueue ++ q.held).Perm (c :: (p.connetionQueue ++ p.held)) := by
    rw [queue, held, List.append_assoc]
    exact List.perm_middle
  have absent : c ∉ p.connetionQueue ++ p.held := fun member => parts.undeleted c member fresh
  refine ⟨shape.nodup_iff.mpr (List.nodup_cons.mpr ⟨absent, parts.distinct⟩), ?_, ?_⟩
  · intro d member
    rw [objects]
    rcases List.mem_cons.mp (shape.mem_iff.mp member) with same | old
    · simp [same]
    · have ne : d ≠ c := fun same => absent (same ▸ old)
      rw [Function.update_of_ne ne]
      exact parts.undeleted d old
  · have counted := parts.counted
    simp only [queue, held, List.length_append, List.length_singleton]
    omega

theorem partition_retired {p q : Pool} (parts : Partition p) {c : Addr}
    (queue : p.connetionQueue = c :: q.connetionQueue) (held : q.held = p.held)
    (objects : q.connections = Function.update p.connections c none)
    (count : q.connectionCnt = p.connectionCnt - 1) : Partition q := by
  have whole : p.connetionQueue ++ p.held = c :: (q.connetionQueue ++ q.held) := by
    rw [queue, held, List.cons_append]
  have distinct := parts.distinct
  rw [whole, List.nodup_cons] at distinct
  refine ⟨distinct.2, ?_, ?_⟩
  · intro d member
    have ne : d ≠ c := fun same => distinct.1 (same ▸ member)
    rw [objects, Function.update_of_ne ne]
    exact parts.undeleted d (by rw [whole]; exact List.mem_cons_of_mem c member)
  · have counted := parts.counted
    rw [queue, List.length_cons] at counted
    rw [held, count, counted]
    omega

theorem moves_partition {p q : Pool} (parts : Partition p) (moves : Moves p q) :
    Partition q := by
  cases moves with
  | quiet queue held objects count phase =>
    exact partition_passed parts (by rw [queue, held]) count (by rw [objects]; exact fun _ h => h)
  | created c fresh queue held objects count room =>
    obtain ⟨conn, objects⟩ := objects
    exact partition_created parts fresh queue held objects count
  | lent c queue held objects count phase =>
    exact partition_passed parts (lent_perm queue held) count (by rw [objects]; exact fun _ h => h)
  | returned c queue held objects count phase =>
    obtain ⟨refresh, objects⟩ := objects
    refine partition_passed parts (returned_perm queue held) count ?_
    intro d alive
    rw [objects]
    by_cases target : d = c
    · subst d
      simpa using alive
    · rwa [Function.update_of_ne target]
  | retired c queue held objects count surplus scanning phase =>
    exact partition_retired parts queue held objects count

/-- The counter's bounds, once the constructor has returned. -/
def Bounded (p : Pool) : Prop :=
  p.config.initSize ≤ p.connectionCnt ∧
    p.connectionCnt ≤ max p.config.initSize p.config.maxSize

theorem moves_bounded {p q : Pool} (owned : Owned p) (moves : Moves p q)
    (config : q.config = p.config) (finished : q.constructor = .finished) : Bounded q := by
  unfold Bounded
  rw [config]
  cases moves with
  | quiet queue held objects count phase =>
    rw [count]
    rcases phase with same | ⟨_, i, phase, beyond⟩
    · exact owned.bounded (same ▸ finished)
    · have building := owned.building i phase
      omega
  | created c fresh queue held objects count room =>
    rw [count]
    rcases room with ⟨i, _, _, phase⟩ | ⟨_, room, phase⟩
    · simp [phase] at finished
    · have bounded := owned.bounded (phase ▸ finished)
      omega
  | lent c queue held objects count phase =>
    rw [count]
    exact owned.bounded (phase ▸ finished)
  | returned c queue held objects count phase =>
    rw [count]
    exact owned.bounded (phase ▸ finished)
  | retired c queue held objects count surplus scanning phase =>
    have bounded := owned.bounded (phase ▸ finished)
    omega

theorem moves_building {p q : Pool} (owned : Owned p) (moves : Moves p q)
    (config : q.config = p.config) {i : Int} (phase : q.constructor = .creating i) :
    q.connectionCnt = i ∧ i ≤ q.config.initSize ∧ ∃ j, p.constructor = .creating j := by
  rw [config]
  have kept (same : q.constructor = p.constructor) (count : q.connectionCnt = p.connectionCnt) :
      q.connectionCnt = i ∧ i ≤ p.config.initSize ∧ ∃ j, p.constructor = .creating j := by
    have building := owned.building i (same ▸ phase)
    exact ⟨by omega, building.2.1, i, same ▸ phase⟩
  cases moves with
  | quiet queue held objects count before =>
    rcases before with same | ⟨finished, _⟩
    · exact kept same count
    · simp [finished] at phase
  | created c fresh queue held objects count room =>
    rcases room with ⟨j, before, below, after⟩ | ⟨present, _, same⟩
    · have next : j + 1 = i := by simpa [after] using phase
      have building := owned.building j before
      exact ⟨by omega, by omega, j, before⟩
    · exact absurd (owned.building i (same ▸ phase)).2.2.1 present
  | lent c queue held objects count same => exact kept same count
  | returned c queue held objects count same => exact kept same count
  | retired c queue held objects count surplus scanning same =>
    exact absurd (owned.building i (same ▸ phase)).2.2.2 scanning

theorem effect_owned {p q : Pool} (owned : Owned p) (effect : Effect p q) : Owned q := by
  refine ⟨moves_partition owned.toPartition effect.moves, ?_, ?_⟩
  · intro i phase
    obtain ⟨count, below, j, before⟩ := moves_building owned effect.moves effect.config phase
    obtain ⟨_, _, producer, scanner⟩ := owned.building j before
    have threads := effect.threads (by simp [phase])
    exact ⟨count, below, threads.1 producer, threads.2 scanner⟩
  · exact moves_bounded owned effect.moves effect.config

theorem start_partition (settings : Option Config) (now clock : Int) :
    Partition (start settings now clock) := by
  refine ⟨?_, ?_, ?_⟩ <;> simp [start, Pool.held]

theorem start_owned {settings : Option Config} {now clock : Int}
    (sized : ∀ c, settings = some c → 0 ≤ c.initSize) : Owned (start settings now clock) := by
  refine ⟨start_partition settings now clock, ?_, ?_⟩
  · intro i phase
    cases settings with
    | none => simp [start] at phase
    | some c =>
      have zero : 0 = i := by simpa [start] using phase
      have size := sized c rfl
      exact ⟨zero, by simpa [start, ← zero] using size, rfl, rfl⟩
  · intro finished
    cases settings with
    | none => simp [start, unloaded]
    | some c => simp [start] at finished

theorem reachable_owned {settings : Option Config} {now clock : Int} {p : Pool}
    (sized : ∀ c, settings = some c → 0 ≤ c.initSize)
    (reached : Machine.Reachable step (start settings now clock) p) : Owned p :=
  reached.invariant (start_owned sized) fun _ owned _ taken => effect_owned owned (step_effect taken)

theorem reachable_partition {settings : Option Config} {now clock : Int} {p : Pool}
    (reached : Machine.Reachable step (start settings now clock) p) : Partition p :=
  reached.invariant (start_partition settings now clock)
    fun _ parts _ taken => moves_partition parts (step_effect taken).moves

/-- A step deletes no connection that a client holds before it. -/
theorem moves_spare_held {p q : Pool} (parts : Partition p) (moves : Moves p q) {c : Addr}
    (held : c ∈ p.held) : q.connections c ≠ none := by
  have alive := parts.undeleted c (List.mem_append_right _ held)
  cases moves with
  | quiet queue _ objects count phase => rwa [objects]
  | created d fresh queue _ objects count room =>
    obtain ⟨conn, objects⟩ := objects
    have ne : c ≠ d := fun same => alive (same ▸ fresh)
    rwa [objects, Function.update_of_ne ne]
  | lent d queue _ objects count phase => rwa [objects]
  | returned d queue _ objects count phase =>
    obtain ⟨refresh, objects⟩ := objects
    by_cases same : c = d
    · simpa [objects, same] using same ▸ alive
    · rwa [objects, Function.update_of_ne same]
  | retired d queue _ objects count surplus scanning phase =>
    have apart := parts.distinct
    rw [queue, List.cons_append, List.nodup_cons] at apart
    have ne : c ≠ d := fun same => apart.1 (same ▸ List.mem_append_right _ held)
    rwa [objects, Function.update_of_ne ne]

theorem reachable_config {settings : Option Config} {now clock : Int} {p : Pool}
    (reached : Machine.Reachable step (start settings now clock) p) :
    p.config = settings.getD unloaded := by
  induction reached with
  | start => rfl
  | next before permit taken ih => exact (step_effect taken).config.trans ih

/-- Two positions of a list cannot carry the same pointer when the carried pointers differ. -/
theorem held_once {p : Pool} (distinct : p.held.Nodup) {i j : Nat} {a b : Borrower} {c : Addr}
    (here : p.borrowers[i]? = some a) (there : p.borrowers[j]? = some b)
    (holds : a.held = some c) (holds' : b.held = some c) : i = j := by
  have apart := (List.nodup_iff_pairwise_ne.mp distinct)
  rw [Pool.held, List.pairwise_filterMap] at apart
  obtain ⟨bi, rfl⟩ := List.getElem?_eq_some_iff.mp here
  obtain ⟨bj, rfl⟩ := List.getElem?_eq_some_iff.mp there
  rcases Nat.lt_trichotomy i j with less | same | more
  · exact absurd rfl (List.pairwise_iff_getElem.mp apart i j bi bj less c holds c holds')
  · exact same
  · exact absurd rfl (List.pairwise_iff_getElem.mp apart j i bj bi more c holds' c holds)

/-- Conservation and exclusive ownership in every state the running pool reaches. -/
theorem connections_conserved {settings : Option Config} {now clock : Int} {p : Pool}
    (sized : ∀ c, settings = some c → 0 ≤ c.initSize)
    (reached : Machine.Reachable step (start settings now clock) p)
    (built : p.constructor = .finished) :
    (p.connetionQueue ++ p.held).Nodup ∧
      (∀ c ∈ p.connetionQueue ++ p.held, p.connections c ≠ none) ∧
      p.connectionCnt = p.connetionQueue.length + p.held.length ∧
      (settings.getD unloaded).initSize ≤ p.connectionCnt ∧
      p.connectionCnt ≤ max (settings.getD unloaded).initSize (settings.getD unloaded).maxSize ∧
      (∀ a q, step p a = some q → ∀ c ∈ p.held, q.connections c ≠ none) ∧
      (∀ (i j : Nat) (a b : Borrower) (c : Addr), p.borrowers[i]? = some a →
        p.borrowers[j]? = some b → a.held = some c → b.held = some c → i = j) := by
  have owned := reachable_owned sized reached
  have bounds := owned.bounded built
  rw [reachable_config reached] at bounds
  refine ⟨owned.distinct, owned.undeleted, owned.counted, bounds.1, bounds.2, ?_, ?_⟩
  · intro a q taken c held
    exact moves_spare_held owned.toPartition (step_effect taken).moves held
  · intro i j a b c here there holds holds'
    exact held_once (List.nodup_append.mp owned.distinct).2.1 here there holds holds'

/-- The only connection is lent, the producer makes a second one, the first comes back, and
    the scanner deletes the second; then the first is lent again. -/
def oneRetirement : List Action :=
  [.construct 7 true, .construct 0 true, .call, .getConnection 0, .produce 8 true, .deleter 0,
    .pass 60000000 60000, .scan, .call, .getConnection 1]

theorem connections_conserved_retirement :
    ∃ p, Machine.Reachable step (start (some ⟨1, 2, 60, 100⟩) 0 0) p ∧ p.held = [7] ∧
      p.connections 8 = none ∧ p.connectionCnt = 1 ∧
      p.connectionCnt = p.connetionQueue.length + p.held.length := by
  have ran : ∃ p ∈ Machine.run step (start (some ⟨1, 2, 60, 100⟩) 0 0) oneRetirement,
      p.held = [7] ∧ p.connections 8 = none ∧ p.connectionCnt = 1 ∧ p.constructor = .finished := by
    decide +kernel
  obtain ⟨p, ran, held, deleted, one, built⟩ := ran
  have reached := Machine.reachable_of_run ran
  have sized : ∀ c, some (⟨1, 2, 60, 100⟩ : Config) = some c → 0 ≤ c.initSize := by
    intro c same
    cases same
    decide
  exact ⟨p, reached, held, deleted, one, (connections_conserved sized reached built).2.2.1⟩

end ConnectionPool
