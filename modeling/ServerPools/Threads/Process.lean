import ServerPools.Threads.ExitNotice
import ServerPools.Threads.Drain

/- All the pools of a process. They share generateID, which no destructor resets, and each
   start looks its threads up by the indices of its own loop. -/
namespace ThreadPool
variable {τ ρ σ χ κ : Type} {B : Backend τ ρ σ χ κ} {p q : Pool τ ρ σ}

/-- What the last call of start did: the ids of the Thread objects it constructed, the keys it
    added to the map, and the ids of the objects it launched. No code reads it. -/
structure StartRecord where
  asked : Int
  made : List Nat
  added : List Nat
  launched : List Nat
  deriving DecidableEq, Repr

def StartRecord.new (asked : Int) : StartRecord := ⟨asked, [], [], []⟩

def noteStart (p : Pool τ ρ σ) (r : StartRecord) : StartRecord :=
  match p.startCall with
  | .creating i =>
    if (i : Int) < p.initThreadSize then
      { r with
        made := r.made ++ [p.generateID]
        added := if p.generateID ∈ p.threads then r.added else r.added ++ [p.generateID] }
    else r
  | .launching i =>
    if (i : Int) < p.initThreadSize ∧ i ∈ p.threads then { r with launched := r.launched ++ [i] }
    else r
  | _ => r

def note (p : Pool τ ρ σ) (r : StartRecord) : Action τ χ κ → StartRecord
  | .callStart n => .new n
  | .start => noteStart p r
  | _ => r

structure Watched (τ ρ σ : Type) where
  pool : Pool τ ρ σ
  record : StartRecord

structure Process (τ ρ σ : Type) where
  generateID : Nat
  pools : List (Watched τ ρ σ)

inductive Event (τ χ κ : Type) where
  | construct (mode : PoolMode) (threadhold threshold : Int)
  | act (k : Nat) (a : Action τ χ κ)
  deriving DecidableEq, Repr

def Watched.load (w : Watched τ ρ σ) (generateID : Nat) : Watched τ ρ σ :=
  { w with pool := { w.pool with generateID := generateID } }

def watch (B : Backend τ ρ σ χ κ) (w : Watched τ ρ σ) (a : Action τ χ κ) :
    Option (Watched τ ρ σ) :=
  (step B w.pool a).map fun pool => ⟨pool, note w.pool w.record a⟩

/-- One pool takes a step with the id counter of the process. -/
def processStep (B : Backend τ ρ σ χ κ) (results : ρ) (s : Process τ ρ σ) :
    Event τ χ κ → Option (Process τ ρ σ)
  | .construct mode threadhold threshold =>
    some { s with pools := s.pools ++
      [⟨configured s.generateID results mode threadhold threshold, .new 0⟩] }
  | .act k a => do
    let w ← s.pools[k]?
    let next ← watch B (w.load s.generateID) a
    some ⟨next.pool.generateID, s.pools.set k next⟩

def newProcess : Process τ ρ σ := ⟨0, []⟩

/-- The Thread that start is about to construct, counted from 0. -/
def Pool.making (p : Pool τ ρ σ) : Option Nat :=
  match p.startCall with
  | .creating i => if (i : Int) < p.initThreadSize then some i else none
  | _ => none

/-- When start constructs its i-th Thread, i Threads were constructed in the process before. -/
def IndexedById (s : Process τ ρ σ) : Event τ χ κ → Prop
  | .act k .start => ∀ w ∈ s.pools[k]?, ∀ i ∈ w.pool.making, s.generateID = i
  | _ => True

/-- The keys of threads that nobody has launched. -/
def Unlaunched (p : Pool τ ρ σ) (id : Nat) : Prop := id ∈ p.threads ∧ id ∉ p.roster.map Prod.fst

/-- What the record holds at each place of start. -/
def StartPc.own (p : Pool τ ρ σ) (r : StartRecord) : StartPc → Prop
  | .notCalled => r = .new 0
  | .setRunning n | .setInit n => r = .new n
  | .setCur n => r = .new n ∧ p.initThreadSize = n
  | .creating i => r = ⟨p.initThreadSize, List.range i, List.range i, []⟩ ∧
      i ≤ p.initThreadSize.toNat ∧ ∀ j < i, Unlaunched p j
  | .launching i => ∃ made, r = ⟨p.initThreadSize, made, made, List.range i⟩ ∧
      made = List.range p.initThreadSize.toNat ∧ i ≤ p.initThreadSize.toNat ∧
      ∀ j, i ≤ j → j < p.initThreadSize.toNat → Unlaunched p j
  | .counting i => ∃ made, r = ⟨p.initThreadSize, made, made, List.range (i + 1)⟩ ∧
      made = List.range p.initThreadSize.toNat ∧ i < p.initThreadSize.toNat ∧
      ∀ j, i < j → j < p.initThreadSize.toNat → Unlaunched p j
  | .returned => ∃ made, r = ⟨p.initThreadSize, made, made, made⟩ ∧
      made = List.range p.initThreadSize.toNat

structure OwnThreads (p : Pool τ ρ σ) (r : StartRecord) : Prop where
  ids : ∀ id ∈ p.roster.map Prod.fst, id < p.generateID
  keys : ∀ id ∈ p.threads, id < p.generateID
  found : p.nullThread = false
  own : p.startCall.own p r

/-- What one event does to the pools. -/
theorem processStep_cases {results : ρ} {s t : Process τ ρ σ} {event : Event τ χ κ}
    (taken : processStep B results s event = some t) :
    (∃ mode threadhold threshold, t = { s with pools := s.pools ++
      [⟨configured s.generateID results mode threadhold threshold, .new 0⟩] }) ∨
    ∃ k a w q, event = .act k a ∧ s.pools[k]? = some w ∧
      step B (w.load s.generateID).pool a = some q ∧
      t = ⟨q.generateID, s.pools.set k ⟨q, note (w.load s.generateID).pool w.record a⟩⟩ := by
  cases event with
  | construct mode threadhold threshold =>
    cases taken
    exact Or.inl ⟨mode, threadhold, threshold, rfl⟩
  | act k a =>
    simp only [processStep, Option.bind_eq_bind, Option.bind_eq_some_iff] at taken
    obtain ⟨w, here, next, watched, after⟩ := taken
    obtain ⟨q, stepped, rfl⟩ := Option.map_eq_some_iff.mp watched
    cases after
    exact Or.inr ⟨k, a, w, q, rfl, here, stepped, rfl⟩

/-- A change that leaves start where it is and every unlaunched thread as it is. -/
theorem own_kept {r : StartRecord} (own : p.startCall.own p r) (start : q.startCall = p.startCall)
    (init : q.initThreadSize = p.initThreadSize)
    (idle : ∀ id, Unlaunched p id → Unlaunched q id) : q.startCall.own q r := by
  rw [start]
  cases place : p.startCall <;> rw [place] at own <;> simp only [StartPc.own, init] at own ⊢
  case creating i =>
    obtain ⟨record, within, untouched⟩ := own
    exact ⟨record, within, fun j below => idle j (untouched j below)⟩
  case launching i =>
    obtain ⟨made, record, indexed, within, untouched⟩ := own
    exact ⟨made, record, indexed, within, fun j low high => idle j (untouched j low high)⟩
  case counting i =>
    obtain ⟨made, record, indexed, within, untouched⟩ := own
    exact ⟨made, record, indexed, within, fun j low high => idle j (untouched j low high)⟩
  all_goals exact own

theorem OwnThreads.load {r : StartRecord} {generateID : Nat} (own : OwnThreads p r)
    (later : p.generateID ≤ generateID) : OwnThreads { p with generateID := generateID } r := by
  refine ⟨?_, ?_, own.found, own_kept own.own rfl rfl fun _ => id⟩
  · intro id member
    exact Nat.lt_of_lt_of_le (own.ids id member) later
  · intro id member
    exact Nat.lt_of_lt_of_le (own.keys id member) later

/-- The statements of start when its threads get the indices of its loop as ids. -/
theorem startNext_own {r : StartRecord} (own : OwnThreads p r)
    (indexed : ∀ i ∈ p.making, p.generateID = i) (next : StartStep p q) :
    OwnThreads q (noteStart p r) := by
  have here := own.own
  cases next with
  | setsRunning n place | setsInit n place =>
    rw [place] at here
    refine ⟨own.ids, own.keys, own.found, ?_⟩
    simp only [noteStart, place]
    first | exact here | exact ⟨here, rfl⟩
  | setsCur n place =>
    rw [place] at here
    obtain ⟨record, init⟩ := here
    refine ⟨own.ids, own.keys, own.found, ?_⟩
    simp only [noteStart, place]
    refine ⟨?_, Nat.zero_le _, fun j below => absurd below (Nat.not_lt_zero j)⟩
    rw [record]
    change StartRecord.mk n [] [] [] = ⟨p.initThreadSize, [], [], []⟩
    rw [init]
  | creates i place more =>
    rw [place] at here
    obtain ⟨record, within, untouched⟩ := here
    have turn : p.generateID = i := indexed i (by simp [Pool.making, place, more])
    have fresh : i ∉ p.threads := fun member => Nat.lt_irrefl _ (turn ▸ own.keys i member)
    have unused : i ∉ p.roster.map Prod.fst := fun member =>
      Nat.lt_irrefl _ (turn ▸ own.ids i member)
    refine ⟨?_, ?_, own.found, ?_⟩
    · intro id member
      exact Nat.lt_succ_of_lt (own.ids id member)
    · intro id member
      rcases emplace_mem.mp member with old | rfl
      · exact Nat.lt_succ_of_lt (own.keys id old)
      · exact Nat.lt_succ_self _
    · simp only [noteStart, place, if_pos more, turn, if_neg fresh]
      refine ⟨?_, ?_, ?_⟩
      · rw [record]
        simp [List.range_succ]
      · change i + 1 ≤ p.initThreadSize.toNat
        omega
      · intro j below
        rcases Nat.lt_succ_iff_lt_or_eq.mp below with old | rfl
        · exact ⟨emplace_mem.mpr (Or.inl (untouched j old).1), (untouched j old).2⟩
        · exact ⟨emplace_mem.mpr (Or.inr rfl), unused⟩
  | created i place done =>
    rw [place] at here
    obtain ⟨record, within, untouched⟩ := here
    refine ⟨own.ids, own.keys, own.found, ?_⟩
    simp only [noteStart, place, if_neg done]
    have all : i = p.initThreadSize.toNat := by omega
    refine ⟨List.range i, record, ?_, Nat.zero_le _, ?_⟩
    · rw [all]
    · intro j _ high
      exact untouched j (all ▸ high)
  | launches i place more present =>
    rw [place] at here
    obtain ⟨made, record, ids, within, untouched⟩ := here
    have roster := launch_roster p i (.counting i)
    refine ⟨?_, own.keys, own.found, ?_⟩
    · intro id member
      rcases ids_launch.mp (roster ▸ member) with old | rfl
      · exact own.ids id old
      · exact own.keys id present
    · simp only [noteStart, place, if_pos (And.intro more present)]
      refine ⟨made, ?_, ids, ?_, ?_⟩
      · rw [record]
        simp [List.range_succ]
      · change i < p.initThreadSize.toNat
        omega
      · intro j low high
        obtain ⟨listed, nobody⟩ := untouched j (by omega) high
        refine ⟨listed, ?_⟩
        rw [roster]
        exact unlaunched_launch nobody (by omega)
  | dereferencesNull i place more absent =>
    rw [place] at here
    obtain ⟨made, record, ids, within, untouched⟩ := here
    exact absurd (untouched i (Nat.le_refl i) (by omega)).1 absent
  | launched i place done =>
    rw [place] at here
    obtain ⟨made, record, ids, within, untouched⟩ := here
    refine ⟨own.ids, own.keys, own.found, ?_⟩
    have all : i = p.initThreadSize.toNat := by omega
    simp only [noteStart, place, if_neg fun found : _ ∧ _ => done found.1]
    refine ⟨made, ?_, ids⟩
    rw [record, ids, all]
  | counts i place =>
    rw [place] at here
    obtain ⟨made, record, ids, within, untouched⟩ := here
    refine ⟨own.ids, own.keys, own.found, ?_⟩
    simp only [noteStart, place]
    exact ⟨made, record, ids, within, untouched⟩

theorem outcome_nullThread {a : Action τ χ κ} (outcome : Outcome B p a q) (other : a ≠ .start) :
    q.nullThread = p.nullThread := by
  cases outcome with
  | @accepts i c here awake room => exact (grow_same (enqueue p ⟨c.task, i⟩)).2.2.2.2.1
  | starts next => exact absurd rfl other
  | takes here awake queue =>
    unfold takeTask
    split <;> rfl
  | destroyTests =>
    rw [exitTest_eq]
    rfl
  | destroyRetests => rw [exitTest_eq]
  | called | rejects | submitWaits | submitAwakes | submitLate | startCalled | exits | waits
  | retires | workerAwakes | workerLate | execs | finishes | idles | flagged | destroyStirred
  | others | clients => rfl

theorem step_generateID {a : Action τ χ κ} (taken : step B p a = some q) :
    p.generateID ≤ q.generateID := by
  have outcome := (step_outcome taken).2
  by_cases starting : a = .start
  · subst starting
    cases start_outcome outcome <;> first | exact Nat.le_refl _ | exact Nat.le_succ _
  · exact (roster_ids (outcome_roster outcome) starting).1

/-- Outside start only a growing submission or another pool constructs a Thread. -/
theorem move_own {a : Action τ χ κ} {r : StartRecord} (own : OwnThreads p r)
    (outcome : Outcome B p a q) (other : a ≠ .start) : OwnThreads q (note p r a) := by
  have move := outcome_roster outcome
  obtain ⟨grown, rosterIds⟩ := roster_ids move other
  have newKeys := move_keys move other
  have ids : ∀ id ∈ q.roster.map Prod.fst, id < q.generateID := by
    intro id member
    rcases rosterIds id member with old | ⟨_, below⟩
    · exact Nat.lt_of_lt_of_le (own.ids id old) grown
    · exact below
  have keys : ∀ id ∈ q.threads, id < q.generateID := by
    intro id member
    rcases newKeys id member with old | ⟨_, below, _⟩
    · exact Nat.lt_of_lt_of_le (own.keys id old) grown
    · exact below
  have found := (outcome_nullThread outcome other).trans own.found
  have idle (id : Nat) (before : Unlaunched p id) : Unlaunched q id :=
    unlaunched_kept own.keys before.1 before.2 move other
  have same (start : q.startCall = p.startCall) (init : q.initThreadSize = p.initThreadSize)
      (quiet : note p r a = r) : OwnThreads q (note p r a) := by
    rw [quiet]
    exact ⟨ids, keys, found, own_kept own.own start init idle⟩
  have unnoted (calm : ∀ n, a ≠ .callStart n) : note p r a = r := by
    cases a <;> first | rfl | exact absurd rfl other | exact absurd rfl (calm _)
  by_cases calling : ∃ n, a = .callStart n
  · obtain ⟨n, rfl⟩ := calling
    cases outcome with
    | startCalled n settled standing => exact ⟨ids, keys, found, rfl⟩
    | submitAwakes here blocked how => simp at how
    | workerAwakes here blocked how => simp at how
  · have calm (n : Int) : a ≠ .callStart n := fun same => calling ⟨n, same⟩
    cases move with
    | quiet roster threads cur init ids start => exact same start init (unnoted calm)
    | called n => exact absurd rfl (calm n)
    | grows mode below caller roster threads cur init ids start => exact same start init (unnoted calm)
    | exits here empty stopped roster threads cur init ids start =>
      exact same start init (unnoted calm)
    | retires here expired surplus roster threads cur init ids start =>
      exact same start init (unnoted calm)
    | starts next => exact absurd rfl other

theorem step_own {a : Action τ χ κ} {r : StartRecord} (own : OwnThreads p r)
    (indexed : a = .start → ∀ i ∈ p.making, p.generateID = i) (taken : step B p a = some q) :
    OwnThreads q (note p r a) := by
  have outcome := (step_outcome taken).2
  by_cases starting : a = .start
  · subst starting
    exact startNext_own own (indexed rfl) (start_outcome outcome)
  · exact move_own own outcome starting

theorem reachable_own {results : ρ} {s : Process τ ρ σ}
    (reached : Machine.Reach (processStep B results) IndexedById newProcess s) :
    ∀ w ∈ s.pools, w.pool.generateID ≤ s.generateID ∧ OwnThreads w.pool w.record := by
  induction reached with
  | start => simp [newProcess]
  | @next s t event before permit taken ih =>
    rcases processStep_cases taken with ⟨mode, threadhold, threshold, rfl⟩ |
      ⟨k, a, w, q, rfl, here, stepped, rfl⟩
    · intro w member
      rcases List.mem_append.mp member with old | new
      · exact ih w old
      · obtain rfl := List.mem_singleton.mp new
        rw [configured_fields]
        refine ⟨Nat.le_refl _, ?_, ?_, rfl, rfl⟩ <;> simp [newPool, Pool.roster]
    · obtain ⟨known, own⟩ := ih w (Agents.mem_of_position here)
      have loaded : OwnThreads (w.load s.generateID).pool w.record := own.load known
      have indexed : a = .start → ∀ i ∈ (w.load s.generateID).pool.making, s.generateID = i := by
        rintro rfl
        exact permit w here
      have grown : s.generateID ≤ q.generateID := step_generateID stepped
      refine Agents.forall_set (fun other member => ?_) ⟨Nat.le_refl _, ?_⟩
      · obtain ⟨earlier, theirs⟩ := ih other member
        exact ⟨Nat.le_trans earlier grown, theirs⟩
      · exact step_own loaded indexed stepped

section Projection

/-- Other pools construct Threads while this one waits for its turn. -/
theorem reachable_later {first : Pool τ ρ σ} {generateID : Nat} (count : Nat)
    (reached : Machine.Reachable (step B) first { p with generateID := generateID })
    (live : p.nullThread = false) (standing : p.destroyCall ≠ .returned) :
    Machine.Reachable (step B) first { p with generateID := generateID + count } := by
  induction count with
  | zero => exact reached
  | succ count ih =>
    have on : enabled { p with generateID := generateID + count } (.otherThread : Action τ χ κ) :=
      standing
    exact ih.next trivial (if_pos ⟨live, on⟩ : step B _ Action.otherThread = _)

/-- Every pool of a process is, but for the counter, the pool of the machine of one pool:
    what holds in every run of that machine holds of each pool of a process. -/
theorem process_pool_reachable {results : ρ} {s : Process τ ρ σ}
    (reached : Machine.Reachable (processStep B results) newProcess s) :
    ∀ w ∈ s.pools, ∃ first mode threadhold threshold generateID, generateID ≤ s.generateID ∧
      Machine.Reachable (step B) (configured first results mode threadhold threshold)
        { w.pool with generateID := generateID } := by
  induction reached with
  | start => simp [newProcess]
  | @next s t event before permit taken ih =>
    rcases processStep_cases taken with ⟨mode, threadhold, threshold, rfl⟩ |
      ⟨k, a, w, q, rfl, here, stepped, rfl⟩
    · intro w member
      rcases List.mem_append.mp member with old | new
      · exact ih w old
      · obtain rfl := List.mem_singleton.mp new
        refine ⟨s.generateID, mode, threadhold, threshold, s.generateID, Nat.le_refl _, ?_⟩
        rw [configured_fields]
        exact .start
    · have grown : s.generateID ≤ q.generateID := step_generateID stepped
      refine Agents.forall_set (fun other member => ?_) ?_
      · obtain ⟨first, mode, threadhold, threshold, generateID, known, reached⟩ := ih other member
        exact ⟨first, mode, threadhold, threshold, generateID, Nat.le_trans known grown, reached⟩
      obtain ⟨first, mode, threadhold, threshold, generateID, known, reached⟩ :=
        ih w (Agents.mem_of_position here)
      refine ⟨first, mode, threadhold, threshold, ?_⟩
      obtain ⟨⟨live, open_⟩, outcome⟩ := step_outcome stepped
      by_cases gone : w.pool.destroyCall = .returned
      · -- only the clients' objects are left, and their steps do not read the counter
        cases a with
        | client x =>
          cases outcome with
          | @clients _ results' done =>
            refine ⟨generateID, Nat.le_trans known grown, reached.next trivial (a := .client x) ?_⟩
            have done' : B.client w.pool.results x = some results' := done
            have live' : w.pool.nullThread = false := live
            simp [step, enabled, perform, live', done', Watched.load]
          | submitAwakes there blocked how => simp at how
          | workerAwakes there blocked how => simp at how
        | _ => exact absurd gone open_
      · refine ⟨q.generateID, Nat.le_refl _, ?_⟩
        have later := reachable_later (s.generateID - generateID) reached live gone
        rw [Nat.add_sub_cancel' known] at later
        exact later.next trivial stepped

end Projection

/-- The law of start for one pool: the lookups find their entries, and a call
    that has returned launched each Thread it constructed once, under its own id. -/
structure StartLaw (p : Pool τ ρ σ) (r : StartRecord) : Prop where
  found : p.nullThread = false
  once : r.launched.Nodup
  own : ∀ id ∈ r.launched, id ∈ r.made
  keyed : r.added = r.made
  complete : p.startCall = .returned → r.launched.Perm r.made ∧ r.made.length = r.asked.toNat

theorem OwnThreads.law {r : StartRecord} (own : OwnThreads p r) : StartLaw p r := by
  have here := own.own
  have sub {i n : Nat} (within : i ≤ n) : ∀ id ∈ List.range i, id ∈ List.range n := by
    intro id member
    simp only [List.mem_range] at member ⊢
    omega
  cases place : p.startCall <;> rw [place] at here
  case notCalled | setRunning | setInit =>
    subst here
    exact ⟨own.found, List.nodup_nil, by simp [StartRecord.new], rfl, by simp [place]⟩
  case setCur n =>
    obtain ⟨rfl, _⟩ := here
    exact ⟨own.found, List.nodup_nil, by simp [StartRecord.new], rfl, by simp [place]⟩
  case creating i =>
    obtain ⟨rfl, _⟩ := here
    exact ⟨own.found, List.nodup_nil, by simp, rfl, by simp [place]⟩
  case launching i =>
    obtain ⟨made, rfl, rfl, within, _⟩ := here
    exact ⟨own.found, List.nodup_range, sub within, rfl, by simp [place]⟩
  case counting i =>
    obtain ⟨made, rfl, rfl, within, _⟩ := here
    exact ⟨own.found, List.nodup_range, sub within, rfl, by simp [place]⟩
  case returned =>
    obtain ⟨made, rfl, rfl⟩ := here
    exact ⟨own.found, List.nodup_range, fun _ => id, rfl, fun _ => ⟨List.Perm.refl _, by simp⟩⟩

/-- In runs in which the threads of every start get the indices of its loop as ids, every
    start launches exactly its own threads. -/
theorem start_launches_own {results : ρ} {s : Process τ ρ σ}
    (reached : Machine.Reach (processStep B results) IndexedById newProcess s) :
    ∀ w ∈ s.pools, StartLaw w.pool w.record :=
  fun w member => (reachable_own reached w member).2.law

instance (s : Process τ ρ σ) : (event : Event τ χ κ) → Decidable (IndexedById s event)
  | .act k .start =>
    inferInstanceAs (Decidable (∀ w ∈ s.pools[k]?, ∀ i ∈ w.pool.making, s.generateID = i))
  | .construct _ _ _ | .act _ (.call _) | .act _ (.submit _) | .act _ (.submitTimeout _)
  | .act _ (.submitStir _) | .act _ (.callStart _) | .act _ (.worker _ _)
  | .act _ (.workerTimeout _) | .act _ (.workerStir _) | .act _ (.exec _ _) | .act _ (.idle _)
  | .act _ .destroy | .act _ .destroyNext | .act _ .destroyStir | .act _ .otherThread
  | .act _ (.client _) => .isTrue trivial

/-- Two pools, the first started with two threads, of which it then needs a third, and the
    second started with none. -/
def twoPools : List (Event Nat Nat Empty) :=
  [Event.construct .modeCachd 1024 10, .construct .modeFixd 1024 10, .act 0 (.callStart 2)] ++
    List.replicate 11 (Event.act 0 .start) ++
    [Event.act 0 (.call 5), .act 0 (.submit 0), .act 0 (.call 6), .act 0 (.submit 1),
      .act 0 (.call 7), .act 0 (.submit 2), .act 1 (.callStart 0)] ++
    List.replicate 5 (Event.act 1 .start)

theorem start_launches_own_two :
    ∃ s : Process Nat (TaskFuture.Side Nat) (TaskFuture.Stage Nat), ∃ w ∈ s.pools,
      w.record = ⟨2, [0, 1], [0, 1], [0, 1]⟩ ∧ w.pool.threads = [0, 1, 2] ∧
      StartLaw w.pool w.record := by
  have obeys : Machine.Obeys (processStep (TaskFuture.futureBackend 0) TaskFuture.emptySide)
      IndexedById newProcess twoPools := by decide +kernel
  obtain ⟨s, reached, w, member, record, threads⟩ := Machine.reach_visits
    (P := fun s => ∃ w ∈ s.pools, w.record = ⟨2, [0, 1], [0, 1], [0, 1]⟩ ∧
      w.pool.threads = [0, 1, 2]) twoPools obeys (by decide +kernel)
  exact ⟨s, w, member, record, threads, start_launches_own reached w member⟩

/-- A second pool of a process is started with one thread. -/
def secondStart : List (Event Nat χ κ) :=
  [Event.construct .modeFixd 1024 10, .construct .modeFixd 1024 10, .act 0 (.callStart 1)] ++
    List.replicate 8 (Event.act 0 .start) ++ [Event.act 1 (.callStart 1)] ++
    List.replicate 6 (Event.act 1 .start)

/-- A pool in cached mode has a thread of its own when it is started with one. -/
def lateStart : List (Event Nat χ κ) :=
  [Event.construct .modeCachd 1024 10, .act 0 (.call 5), .act 0 (.submit 0),
    .act 0 (.callStart 1)] ++ List.replicate 8 (Event.act 0 .start)

/-- start finds no entry under its index. -/
def Process.Missed (s : Process τ ρ σ) : Prop := ∃ w ∈ s.pools, w.pool.nullThread = true

/-- start has returned, launched a thread that it had not made and left its own unlaunched. -/
def Process.Mistaken (s : Process τ ρ σ) : Prop :=
  ∃ w ∈ s.pools, w.pool.startCall = .returned ∧ w.record.made = [1] ∧ w.record.launched = [0]

instance (s : Process τ ρ σ) : Decidable s.Missed :=
  inferInstanceAs (Decidable (∃ w ∈ s.pools, w.pool.nullThread = true))

instance (s : Process τ ρ σ) : Decidable s.Mistaken :=
  inferInstanceAs (Decidable (∃ w ∈ s.pools, w.pool.startCall = .returned ∧ w.record.made = [1] ∧
    w.record.launched = [0]))

/-- Both failures, in both versions. -/
theorem start_misses_own :
    (∃ s, Machine.Reachable (processStep (TaskResult.resultBackend (τ := Nat) (α := Nat))
      TaskResult.emptySide) newProcess s ∧ s.Missed) ∧
    (∃ s, Machine.Reachable (processStep (TaskResult.resultBackend (τ := Nat) (α := Nat))
      TaskResult.emptySide) newProcess s ∧ s.Mistaken) ∧
    (∃ s, Machine.Reachable (processStep (TaskFuture.futureBackend (τ := Nat) 0)
      TaskFuture.emptySide) newProcess s ∧ s.Missed) ∧
    (∃ s, Machine.Reachable (processStep (TaskFuture.futureBackend (τ := Nat) 0)
      TaskFuture.emptySide) newProcess s ∧ s.Mistaken) := by
  refine ⟨?_, ?_, ?_, ?_⟩
  · exact Machine.reachable_visits secondStart (by decide +kernel)
  · exact Machine.reachable_visits lateStart (by decide +kernel)
  · exact Machine.reachable_visits secondStart (by decide +kernel)
  · exact Machine.reachable_visits lateStart (by decide +kernel)

end ThreadPool
