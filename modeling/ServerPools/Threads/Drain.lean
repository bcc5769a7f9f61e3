import Mathlib.Data.List.Nodup
import ServerPools.Threads.Queue
import ServerPools.Threads.Roster
import ServerPools.Threads.TaskFuture

/- The destructor returns only after the queue is drained. The idle path keeps
   curThreadSize at least initThreadSize and the shutdown path does not count down, so of
   the threads that start launched at least initThreadSize leave by the path that sees an
   empty queue. -/
namespace ThreadPool
variable {τ ρ σ χ κ : Type} {B : Backend τ ρ σ χ κ} {p q : Pool τ ρ σ}

/-- The pool is started once with n, and no submission is active once the destructor runs. -/
def StartedOnce (n : Int) (p : Pool τ ρ σ) : Action τ χ κ → Prop
  | .callStart m => m = n ∧ p.startCall = .notCalled
  | .destroy => p.startCall = .returned ∧ ∀ c ∈ p.submits, c.pc.pending = false
  | .call _ => p.destroyCall = .notCalled
  | _ => True

/-- What a step does to the flags of the pool's life. -/
structure LifeMove (p q : Pool τ ρ σ) (a : Action τ χ κ) : Prop where
  begun : p.destroyCall ≠ .notCalled → q.destroyCall ≠ .notCalled
  begins : q.destroyCall ≠ .notCalled → p.destroyCall ≠ .notCalled ∨ a = .destroy
  running : q.isPoolRunning = p.isPoolRunning ∨ q.isPoolRunning = true ∨
    q.destroyCall ≠ .notCalled
  pending : (∃ c ∈ q.submits, c.pc.pending) → (∃ c ∈ p.submits, c.pc.pending) ∨
    ∃ task, a = .call task
  returned : q.destroyCall = .returned → q.threads = [] ∨ p.destroyCall = .returned

theorem wake_pending (c : Submit τ) : c.wake.pc.pending = c.pc.pending := by
  rcases c with ⟨task, pc⟩
  cases pc <;> rfl

theorem wake_begun (pc : DestroyPc) : pc.wake ≠ .notCalled ↔ pc ≠ .notCalled := by
  cases pc <;> simp [DestroyPc.wake]

theorem setSubmit_pending {i : Nat} {c : Submit τ} {pc : SubmitPc} (here : p.submits[i]? = some c)
    (open_ : pc.pending → c.pc.pending) (some_pending : ∃ d ∈ (setSubmit p i c pc).submits, d.pc.pending) :
    ∃ d ∈ p.submits, d.pc.pending := by
  obtain ⟨d, member, pending⟩ := some_pending
  rcases List.mem_or_eq_of_mem_set member with old | rfl
  · exact ⟨d, old, pending⟩
  · exact ⟨c, Agents.mem_of_position here, open_ pending⟩

theorem startNext_life (next : StartStep p q) :
    q.destroyCall = p.destroyCall ∧ q.submits = p.submits ∧
      (q.isPoolRunning = p.isPoolRunning ∨ q.isPoolRunning = true) := by
  cases next with
  | setsRunning n place => exact ⟨rfl, rfl, Or.inr rfl⟩
  | setsInit | setsCur | creates | created | launches | dereferencesNull | launched | counts =>
    exact ⟨rfl, rfl, Or.inl rfl⟩

theorem LifeMove.same {a : Action τ χ κ} (destroy : q.destroyCall = p.destroyCall)
    (running : q.isPoolRunning = p.isPoolRunning)
    (pending : (∃ c ∈ q.submits, c.pc.pending) → ∃ c ∈ p.submits, c.pc.pending) : LifeMove p q a where
  begun := destroy ▸ id
  begins begun := Or.inl (destroy ▸ begun)
  running := Or.inl running
  pending some_pending := Or.inl (pending some_pending)
  returned done := Or.inr (destroy ▸ done)

theorem exitTest_life {a : Action τ χ κ} {r : Pool τ ρ σ} (begun : p.destroyCall ≠ .notCalled)
    (running : r.isPoolRunning = p.isPoolRunning) (submits : r.submits = p.submits) :
    LifeMove p (exitTest r) a := by
  unfold exitTest
  split
  · rename_i empty
    refine ⟨fun _ => by simp, fun _ => Or.inl begun, Or.inl running, ?_, fun _ => Or.inl empty⟩
    exact fun some_pending => Or.inl (submits ▸ some_pending)
  · refine ⟨fun _ => by simp, fun _ => Or.inl begun, Or.inl running, ?_, by simp⟩
    exact fun some_pending => Or.inl (submits ▸ some_pending)

theorem outcome_life {a : Action τ χ κ} (outcome : Outcome B p a q) : LifeMove p q a := by
  cases outcome with
  | called task =>
    exact ⟨id, Or.inl, Or.inl rfl, fun _ => Or.inr ⟨task, rfl⟩, Or.inr⟩
  | @accepts i c here awake room =>
    obtain ⟨_, _, _, destroy, _, _⟩ := grow_same (enqueue p ⟨c.task, i⟩)
    have running : (grow (enqueue p ⟨c.task, i⟩)).isPoolRunning = p.isPoolRunning := by
      unfold grow
      split <;> rfl
    have submits : (grow (enqueue p ⟨c.task, i⟩)).submits = p.submits := by
      unfold grow
      split <;> rfl
    refine .same destroy running ?_
    rintro ⟨d, member, pending⟩
    change d ∈ (grow (enqueue p ⟨c.task, i⟩)).submits.set i { c with pc := .accepted } at member
    rw [submits] at member
    exact setSubmit_pending here (fun _ => awake_pending awake) ⟨d, member, pending⟩
  | rejects here pc full =>
    exact .same rfl rfl (setSubmit_pending here (by simp [SubmitPc.pending]))
  | submitWaits here awake full =>
    exact .same rfl rfl (setSubmit_pending here fun _ => awake_pending awake)
  | submitAwakes here blocked how =>
    exact .same rfl rfl (setSubmit_pending here fun _ => by simp [blocked, SubmitPc.pending])
  | submitLate here woken =>
    exact .same rfl rfl (setSubmit_pending here fun _ => by simp [woken, SubmitPc.pending])
  | starts next =>
    obtain ⟨destroy, submits, running⟩ := startNext_life next
    refine ⟨destroy ▸ id, fun begun => Or.inl (destroy ▸ begun), ?_, ?_, fun done => Or.inr (destroy ▸ done)⟩
    · rcases running with same | on
      · exact Or.inl same
      · exact Or.inr (Or.inl on)
    · intro some_pending
      rw [submits] at some_pending
      exact Or.inl some_pending
  | @takes w idleLong worker e rest here awake queue =>
    obtain ⟨_, _, _, _, _, _, destroy, running, submits, _⟩ := takeTask_same B p w worker e rest
    refine .same destroy running ?_
    rintro ⟨d, member, pending⟩
    rw [submits] at member
    obtain ⟨c, old, rfl⟩ := List.mem_map.mp member
    exact ⟨c, old, wake_pending c ▸ pending⟩
  | exits here awake empty stopped =>
    refine ⟨(wake_begun _).mpr, fun begun => Or.inl ((wake_begun _).mp begun), Or.inl rfl, Or.inl, ?_⟩
    intro done
    refine Or.inr ?_
    change p.destroyCall.wake = .returned at done
    cases call : p.destroyCall <;> simp_all [DestroyPc.wake]
  | flagged settled standing =>
    exact ⟨fun _ => by simp, fun _ => Or.inr rfl, Or.inr (Or.inr (by simp)), Or.inl, by simp⟩
  | destroyTests flagged => exact exitTest_life (by simp [flagged]) rfl rfl
  | destroyRetests woken => exact exitTest_life (by simp [woken]) rfl rfl
  | destroyStirred blocked =>
    exact ⟨fun _ => by simp, fun _ => Or.inl (by simp [blocked]), Or.inl rfl, Or.inl, by simp⟩
  | startCalled | waits | retires | workerAwakes | workerLate | execs | finishes | idles | others
  | clients =>
    exact .same rfl rfl id

/-- What the place of start says about the sizes, when start was called with n. -/
def StartPc.sized (n init : Int) : StartPc → Prop
  | .notCalled => True
  | .setRunning m | .setInit m => m = n
  | .setCur m => m = n ∧ init = n
  | .creating i | .launching i => init = n ∧ i ≤ n
  | .counting i => init = n ∧ i < n
  | .returned => init = n

def StartPc.running : StartPc → Bool
  | .notCalled | .setRunning _ => false
  | _ => true

/-- What holds whichever ids the threads of start get. -/
structure Sound (n : Int) (p : Pool τ ρ σ) : Prop where
  ids : ∀ id ∈ p.roster.map Prod.fst, id < p.generateID
  keys : ∀ id ∈ p.threads, id < p.generateID
  sized : p.startCall.sized n p.initThreadSize
  running : p.startCall.running → p.destroyCall = .notCalled → p.isPoolRunning = true
  closing : p.destroyCall ≠ .notCalled →
    p.startCall = .returned ∧ ∀ c ∈ p.submits, c.pc.pending = false
  returned : p.destroyCall = .returned → p.threads = []

/-- The key of a thread that will never run is in the map, so the map is never empty. -/
def Stranded (b : Nat) (p : Pool τ ρ σ) : Prop :=
  ∃ id ∈ p.threads, b ≤ id ∧ id ∉ p.roster.map Prod.fst

/-- start has made the threads 0 to i - 1 and launched the first k of them. -/
structure Good (k i : Nat) (p : Pool τ ρ σ) : Prop where
  made : ∀ j, k ≤ j → j < i → j ∈ p.threads ∧ j ∉ p.roster.map Prod.fst
  distinct : (p.roster.map Prod.fst).Nodup
  active : ∀ id, (id, .active) ∈ p.roster → id ∈ p.threads
  counted : p.curThreadSize + p.roster.countP (·.2 = .retired) + k =
    p.initThreadSize + p.roster.length
  floor : p.initThreadSize ≤ p.curThreadSize
  drained : (∃ id, (id, .exited) ∈ p.roster) → p.taskQue = [] ∧ p.destroyCall ≠ .notCalled

theorem emplace_mem {threads : List Nat} {id new : Nat} :
    id ∈ emplace threads new ↔ id ∈ threads ∨ id = new := by
  unfold emplace
  split
  · rename_i present
    constructor
    · exact Or.inl
    · rintro (old | rfl)
      · exact old
      · exact present
  · simp

/-- Other threads of the pool may come or go; an unlaunched one stays as it is. -/
theorem unlaunched_leave {w id gone : Nat} {status : Status} (present : id ∈ p.threads)
    (idle : id ∉ p.roster.map Prod.fst) (here : p.roster[w]? = some (gone, .active))
    (roster : q.roster = p.roster.set w (gone, status))
    (threads : q.threads = p.threads.filter (· ≠ gone)) :
    id ∈ q.threads ∧ id ∉ q.roster.map Prod.fst := by
  have owner : gone ∈ p.roster.map Prod.fst :=
    List.mem_map.mpr ⟨_, Agents.mem_of_position here, rfl⟩
  have apart : id ≠ gone := fun same => idle (same ▸ owner)
  rw [threads, List.mem_filter, roster, ids_leave here]
  exact ⟨⟨present, by simpa using apart⟩, idle⟩

theorem unlaunched_kept {a : Action τ χ κ} {id : Nat} (keys : ∀ id ∈ p.threads, id < p.generateID)
    (present : id ∈ p.threads) (idle : id ∉ p.roster.map Prod.fst) (move : RosterMove p q a)
    (other : a ≠ .start) : id ∈ q.threads ∧ id ∉ q.roster.map Prod.fst := by
  cases move with
  | quiet roster threads =>
    rw [threads, roster]
    exact ⟨present, idle⟩
  | called n settled standing after =>
    subst after
    exact ⟨present, idle⟩
  | grows mode below caller roster threads =>
    rw [threads, roster]
    exact ⟨emplace_mem.mpr (Or.inl present), unlaunched_launch idle (Nat.ne_of_lt (keys id present))⟩
  | exits here empty stopped roster threads =>
    exact unlaunched_leave present idle here roster threads
  | retires here expired surplus roster threads =>
    exact unlaunched_leave present idle here roster threads
  | starts next => exact absurd rfl other

theorem stranded_move {a : Action τ χ κ} {n : Int} {b : Nat} (sound : Sound n p)
    (stranded : Stranded b p) (move : RosterMove p q a) (other : a ≠ .start) : Stranded b q := by
  obtain ⟨id, present, above, idle⟩ := stranded
  obtain ⟨kept, unlaunched⟩ := unlaunched_kept sound.keys present idle move other
  exact ⟨id, kept, above, unlaunched⟩

/-- One active thread of the roster leaves and takes its key out of the map. -/
theorem Good.left {k i w id : Nat} {status : Status} (good : Good k i p)
    (here : p.roster[w]? = some (id, .active)) (gone : status ≠ .active)
    (roster : q.roster = p.roster.set w (id, status))
    (threads : q.threads = p.threads.filter (· ≠ id)) :
    (∀ j, k ≤ j → j < i → j ∈ q.threads ∧ j ∉ q.roster.map Prod.fst) ∧
      (q.roster.map Prod.fst).Nodup ∧ ∀ other, (other, .active) ∈ q.roster → other ∈ q.threads := by
  obtain ⟨rest, before, after⟩ := Agents.single_out here
  have new : q.roster.Perm ((id, status) :: rest) := roster ▸ after (id, status)
  refine ⟨?_, ?_, ?_⟩
  · intro j low high
    obtain ⟨present, idle⟩ := good.made j low high
    exact unlaunched_leave present idle here roster threads
  · rw [roster, ids_leave here]
    exact good.distinct
  · intro other member
    rcases List.mem_cons.mp (new.mem_iff.mp member) with first | inside
    · have eq : Status.active = status := congrArg Prod.snd first
      exact absurd eq.symm gone
    · have present := good.active other (before.mem_iff.mpr (List.mem_cons_of_mem _ inside))
      have apart : other ≠ id := by
        intro eq
        have distinct := (before.map Prod.fst).nodup_iff.mp good.distinct
        rw [List.map_cons, List.nodup_cons] at distinct
        exact distinct.1 (List.mem_map.mpr ⟨_, inside, eq⟩)
      rw [threads, List.mem_filter]
      exact ⟨present, by simpa using apart⟩

theorem leaving_counts {roster : List (Nat × Status)} {w id : Nat} {status : Status}
    (here : roster[w]? = some (id, .active)) :
    (roster.set w (id, status)).countP (·.2 = .retired) =
      roster.countP (·.2 = .retired) + if status = .retired then 1 else 0 := by
  obtain ⟨rest, before, after⟩ := Agents.single_out here
  rw [(after (id, status)).countP_eq, before.countP_eq, List.countP_cons, List.countP_cons]
  simp

theorem Sound.no_pending {n : Int} (sound : Sound n p) (begun : p.destroyCall ≠ .notCalled) :
    ¬ ∃ c ∈ p.submits, c.pc.pending := by
  rintro ⟨c, member, pending⟩
  simp [(sound.closing begun).2 c member] at pending

theorem good_move {a : Action τ χ κ} {n : Int} {k i : Nat} (sound : Sound n p) (good : Good k i p)
    (move : RosterMove p q a) (life : LifeMove p q a) (permit : StartedOnce n p a)
    (other : a ≠ .start) (up : p.startCall.running) : Good k i q := by
  cases move with
  | quiet roster threads cur init ids start queue =>
    refine ⟨?_, ?_, ?_, ?_, ?_, ?_⟩
    · intro j low high
      rw [threads, roster]
      exact good.made j low high
    · rw [roster]
      exact good.distinct
    · intro id member
      rw [threads]
      exact good.active id (roster ▸ member)
    · rw [cur, init, roster]
      exact good.counted
    · rw [cur, init]
      exact good.floor
    · rw [roster]
      intro some_exited
      obtain ⟨empty, begun⟩ := good.drained some_exited
      refine ⟨?_, life.begun begun⟩
      by_contra stocked
      rcases queue stocked with before | pending
      · exact before empty
      · exact sound.no_pending begun pending
  | called n settled standing after =>
    have never : p.startCall = .notCalled := permit.2
    simp [never, StartPc.running] at up
  | grows mode below caller roster threads cur init =>
    have none_exited : ¬ ∃ id, (id, .exited) ∈ p.roster := by
      intro some_exited
      exact sound.no_pending (good.drained some_exited).2 caller
    have fresh : p.generateID ∉ p.roster.map Prod.fst := by
      intro member
      have below := sound.ids _ member
      omega
    refine ⟨?_, ?_, ?_, ?_, ?_, ?_⟩
    · intro j low high
      obtain ⟨present, idle⟩ := good.made j low high
      rw [threads, roster]
      exact ⟨emplace_mem.mpr (Or.inl present),
        unlaunched_launch idle (Nat.ne_of_lt (sound.keys j present))⟩
    · rw [roster]
      exact distinct_launch good.distinct fresh
    · intro id member
      rw [threads]
      rw [roster, List.mem_append] at member
      rcases member with old | new
      · exact emplace_mem.mpr (Or.inl (good.active id old))
      · have same : id = p.generateID := by simpa using new
        exact emplace_mem.mpr (Or.inr same)
    · have before := good.counted
      rw [cur, init, roster, List.countP_append, List.length_append]
      simp only [List.countP_singleton, List.length_singleton]
      simp
      omega
    · have before := good.floor
      rw [cur, init]
      omega
    · rintro ⟨id, member⟩
      rw [roster, List.mem_append] at member
      rcases member with old | new
      · exact absurd ⟨id, old⟩ none_exited
      · simp at new
  | @exits _ w id here empty stopped roster threads cur init ids start queue =>
    obtain ⟨made, distinct, active⟩ := good.left here (by simp) roster threads
    refine ⟨made, distinct, active, ?_, ?_, ?_⟩
    · rw [cur, init, roster, List.length_set, leaving_counts here]
      exact good.counted
    · rw [cur, init]
      exact good.floor
    · intro _
      refine ⟨queue, life.begun ?_⟩
      intro standing
      simp [sound.running up standing] at stopped
  | @retires _ w id here expired surplus roster threads cur init ids start queue =>
    obtain ⟨made, distinct, active⟩ := good.left here (by simp) roster threads
    refine ⟨made, distinct, active, ?_, ?_, ?_⟩
    · have before := good.counted
      rw [cur, init, roster, List.length_set, leaving_counts here]
      simp only [if_true]
      omega
    · rw [cur, init]
      omega
    · rintro ⟨other, member⟩
      rw [roster] at member
      rcases List.mem_or_eq_of_mem_set member with old | new
      · obtain ⟨empty, begun⟩ := good.drained ⟨other, old⟩
        exact ⟨queue.trans empty, life.begun begun⟩
      · simp at new
  | starts next => exact absurd rfl other

theorem roster_ids {a : Action τ χ κ} (move : RosterMove p q a) (other : a ≠ .start) :
    p.generateID ≤ q.generateID ∧
      ∀ id ∈ q.roster.map Prod.fst, id ∈ p.roster.map Prod.fst ∨
        id = p.generateID ∧ id < q.generateID := by
  have left {w id : Nat} {status : Status} (here : p.roster[w]? = some (id, .active))
      (roster : q.roster = p.roster.set w (id, status)) :
      ∀ id ∈ q.roster.map Prod.fst, id ∈ p.roster.map Prod.fst := by
    intro id' member
    rwa [roster, ids_leave here] at member
  cases move with
  | quiet roster threads cur init ids =>
    refine ⟨ids, fun id member => Or.inl ?_⟩
    rwa [roster] at member
  | called n settled standing after =>
    subst after
    exact ⟨Nat.le_refl _, fun id => Or.inl⟩
  | grows mode below caller roster threads cur init ids =>
    refine ⟨by omega, fun id member => ?_⟩
    rcases ids_launch.mp (roster ▸ member) with old | same
    · exact Or.inl old
    · exact Or.inr ⟨same, by omega⟩
  | exits here empty stopped roster threads cur init ids =>
    exact ⟨by omega, fun id member => Or.inl (left here roster id member)⟩
  | retires here expired surplus roster threads cur init ids =>
    exact ⟨by omega, fun id member => Or.inl (left here roster id member)⟩
  | starts next => exact absurd rfl other

theorem move_keys {a : Action τ χ κ} (move : RosterMove p q a) (other : a ≠ .start) :
    ∀ id ∈ q.threads, id ∈ p.threads ∨
      id = p.generateID ∧ id < q.generateID ∧ ∃ c ∈ p.submits, c.pc.pending := by
  intro id member
  cases move with
  | quiet roster threads => exact Or.inl (threads ▸ member)
  | called n settled standing after =>
    subst after
    exact Or.inl member
  | grows mode below caller roster threads cur init ids =>
    rw [threads, emplace_mem] at member
    rcases member with old | new
    · exact Or.inl old
    · exact Or.inr ⟨new, by omega, caller⟩
  | exits here empty stopped roster threads =>
    rw [threads] at member
    exact Or.inl (List.mem_filter.mp member).1
  | retires here expired surplus roster threads =>
    rw [threads] at member
    exact Or.inl (List.mem_filter.mp member).1
  | starts next => exact absurd rfl other

/-- Outside start itself only the call of start moves its place. -/
theorem move_start {a : Action τ χ κ} {n : Int} (move : RosterMove p q a)
    (permit : StartedOnce n p a) (other : a ≠ .start) :
    q.startCall = p.startCall ∧ q.initThreadSize = p.initThreadSize ∨
      p.startCall = .notCalled ∧ q.startCall = .setRunning n := by
  cases move with
  | quiet roster threads cur init ids start => exact Or.inl ⟨start, init⟩
  | called m settled standing after =>
    obtain ⟨rfl, never⟩ : m = n ∧ p.startCall = .notCalled := permit
    subst after
    exact Or.inr ⟨never, rfl⟩
  | grows mode below caller roster threads cur init ids start => exact Or.inl ⟨start, init⟩
  | exits here empty stopped roster threads cur init ids start => exact Or.inl ⟨start, init⟩
  | retires here expired surplus roster threads cur init ids start => exact Or.inl ⟨start, init⟩
  | starts next => exact absurd rfl other

theorem sound_move {a : Action τ χ κ} {n : Int} (sound : Sound n p) (move : RosterMove p q a)
    (life : LifeMove p q a) (permit : StartedOnce n p a) (other : a ≠ .start) : Sound n q := by
  obtain ⟨grown, ids⟩ := roster_ids move other
  have keys := move_keys move other
  constructor
  · intro id member
    rcases ids id member with old | ⟨_, below⟩
    · have before := sound.ids id old
      omega
    · exact below
  · intro id member
    rcases keys id member with old | ⟨_, below, _⟩
    · have before := sound.keys id old
      omega
    · exact below
  · rcases move_start move permit other with ⟨start, init⟩ | ⟨_, start⟩
    · rw [start, init]
      exact sound.sized
    · rw [start]
      exact rfl
  · intro up standing
    rcases move_start move permit other with ⟨start, _⟩ | ⟨_, start⟩
    · have before : p.destroyCall = .notCalled := by
        by_contra begun
        exact life.begun begun standing
      have on := sound.running (start ▸ up) before
      rcases life.running with same | now_on | begun
      · exact same.trans on
      · exact now_on
      · exact absurd standing begun
    · simp [start, StartPc.running] at up
  · intro begun
    have settled : p.startCall = .returned ∧ ∀ c ∈ p.submits, c.pc.pending = false := by
      rcases life.begins begun with before | rfl
      · exact sound.closing before
      · exact permit
    constructor
    · rcases move_start move permit other with ⟨start, _⟩ | ⟨never, _⟩
      · exact start.trans settled.1
      · simp [settled.1] at never
    · intro c member
      by_contra pending
      rcases life.pending ⟨c, member, by simpa using pending⟩ with ⟨d, old, open_⟩ | ⟨task, rfl⟩
      · simp [settled.2 d old] at open_
      · rcases life.begins begun with before | absurd_call
        · exact before permit
        · contradiction
  · intro done
    rcases life.returned done with empty | before
    · exact empty
    · have empty := sound.returned before
      apply List.eq_nil_iff_forall_not_mem.mpr
      intro id member
      rcases keys id member with old | ⟨_, _, caller⟩
      · simp [empty] at old
      · exact sound.no_pending (by simp [before]) caller

/-- What the place of start says about the threads, when start was called with n. -/
def StartPc.phase (n : Nat) (p : Pool τ ρ σ) : StartPc → Prop
  | .notCalled | .setRunning _ | .setInit _ | .setCur _ => True
  | .creating 0 => p.roster = [] → p.curThreadSize = p.initThreadSize
  | .creating (i + 1) =>
    (Good 0 (i + 1) p ∧ ∀ id ∈ p.roster.map Prod.fst, i + 1 ≤ id) ∨ Stranded (i + 1) p
  | .launching i => Good i n p ∨ Stranded n p
  | .counting i => Good (i + 1) n p ∨ Stranded n p
  | .returned => Good n n p ∨ Stranded n p

theorem phase_move {a : Action τ χ κ} {n : Nat} (sound : Sound n p)
    (phase : p.startCall.phase n p) (move : RosterMove p q a) (life : LifeMove p q a)
    (permit : StartedOnce n p a) (other : a ≠ .start) : q.startCall.phase n q := by
  have good {k i : Nat} (up : p.startCall.running) (before : Good k i p) : Good k i q :=
    good_move sound before move life permit other up
  have stranded {b : Nat} (before : Stranded b p) : Stranded b q :=
    stranded_move sound before move other
  rcases move_start move permit other with ⟨start, init⟩ | ⟨_, start⟩
  · rw [start]
    cases place : p.startCall with
    | notCalled | setRunning _ | setInit _ | setCur _ => trivial
    | creating i =>
      rw [place] at phase
      cases i with
      | zero =>
        intro none_yet
        have empty_before {w id : Nat} {status : Status} (here : p.roster[w]? = some (id, .active))
            (roster : q.roster = p.roster.set w (id, status)) : False := by
          rw [roster, List.set_eq_nil_iff] at none_yet
          simp [none_yet] at here
        cases move with
        | quiet roster threads cur init =>
          rw [cur, init]
          exact phase (roster.symm.trans none_yet)
        | called m settled standing after => simp [startSettled, place] at settled
        | grows mode below caller roster => simp [roster] at none_yet
        | exits here empty stopped roster => exact (empty_before here roster).elim
        | retires here expired surplus roster => exact (empty_before here roster).elim
        | starts next => exact absurd rfl other
      | succ i =>
        rcases phase with ⟨before, above⟩ | before
        · refine Or.inl ⟨good (by simp [place, StartPc.running]) before, ?_⟩
          have made := sound.keys i (before.made i (by omega) (by omega)).1
          intro id member
          rcases (roster_ids move other).2 id member with old | ⟨new, _⟩
          · exact above id old
          · omega
        · exact Or.inr (stranded before)
    | launching i | counting i | returned =>
      rw [place] at phase
      rcases phase with before | before
      · exact Or.inl (good (by simp [place, StartPc.running]) before)
      · exact Or.inr (stranded before)
  · rw [start]
    trivial

theorem good_of_same {k i : Nat} (good : Good k i p) (roster : q.roster = p.roster)
    (threads : q.threads = p.threads) (cur : q.curThreadSize = p.curThreadSize)
    (init : q.initThreadSize = p.initThreadSize) (queue : q.taskQue = p.taskQue)
    (destroy : q.destroyCall = p.destroyCall) : Good k i q := by
  refine ⟨?_, ?_, ?_, ?_, ?_, ?_⟩
  · rw [threads, roster]
    exact good.made
  · rw [roster]
    exact good.distinct
  · rw [threads, roster]
    exact good.active
  · rw [cur, init, roster]
    exact good.counted
  · rw [cur, init]
    exact good.floor
  · rw [roster, queue, destroy]
    exact good.drained

/-- The next thread of start gets the next id, or one that start will never launch. -/
theorem creates_phase {n i : Nat} (sound : Sound n p) (phase : (StartPc.creating i).phase n p)
    (roster : q.roster = p.roster) (threads : q.threads = emplace p.threads p.generateID)
    (cur : q.curThreadSize = p.curThreadSize) (init : q.initThreadSize = p.initThreadSize) :
    (StartPc.creating (i + 1)).phase n q := by
  have newest : p.generateID ∈ q.threads := by
    rw [threads]
    exact emplace_mem.mpr (Or.inr rfl)
  have unborn : p.generateID ∉ q.roster.map Prod.fst := by
    rw [roster]
    intro member
    have below := sound.ids _ member
    omega
  by_cases skipped : i + 1 ≤ p.generateID
  · exact Or.inr ⟨p.generateID, newest, skipped, unborn⟩
  · cases i with
    | zero =>
      have none_yet : p.roster = [] := by
        apply List.eq_nil_iff_forall_not_mem.mpr
        intro seen member
        have below := sound.ids seen.1 (List.mem_map.mpr ⟨seen, member, rfl⟩)
        omega
      have even := phase none_yet
      refine Or.inl ⟨⟨?_, ?_, ?_, ?_, ?_, ?_⟩, ?_⟩
      · intro j low high
        have zero : p.generateID = 0 := by omega
        have first : j = p.generateID := zero.symm ▸ Nat.lt_one_iff.mp high
        rw [first]
        exact ⟨newest, unborn⟩
      · simp [roster, none_yet]
      · simp [roster, none_yet]
      · simp [roster, none_yet, cur, init, even]
      · rw [cur, init]
        omega
      · simp [roster, none_yet]
      · simp [roster, none_yet]
    | succ i =>
      rcases phase with ⟨good, above⟩ | stranded
      · have made := sound.keys i (good.made i (by omega) (by omega)).1
        have next : p.generateID = i + 1 := by omega
        have none_yet : p.roster = [] := by
          apply List.eq_nil_iff_forall_not_mem.mpr
          intro seen member
          have inside : seen.1 ∈ p.roster.map Prod.fst := List.mem_map.mpr ⟨seen, member, rfl⟩
          have below := sound.ids seen.1 inside
          have beyond := above seen.1 inside
          omega
        refine Or.inl ⟨⟨?_, ?_, ?_, ?_, ?_, ?_⟩, ?_⟩
        · intro j low high
          by_cases last : j = p.generateID
          · rw [last]
            exact ⟨newest, unborn⟩
          · rw [threads, roster]
            obtain ⟨present, idle⟩ := good.made j low (by omega)
            exact ⟨emplace_mem.mpr (Or.inl present), idle⟩
        · simp [roster, none_yet]
        · simp [roster, none_yet]
        · rw [cur, init, roster]
          exact good.counted
        · rw [cur, init]
          exact good.floor
        · simp [roster, none_yet]
        · simp [roster, none_yet]
      · obtain ⟨id, present, above, _⟩ := stranded
        have below := sound.keys id present
        omega

/-- While start runs the destructor has not begun. -/
theorem Sound.standing {n : Int} (sound : Sound n p) (here : p.startCall ≠ .returned) :
    p.destroyCall = .notCalled := by
  by_contra begun
  exact here (sound.closing begun).1

theorem launch_roster (p : Pool τ ρ σ) (i : Nat) (place : StartPc) :
    Pool.roster { p with workers := p.workers ++ [⟨i, .entering⟩], startCall := place } =
      p.roster ++ [(i, .active)] := by
  simp [Pool.roster, Worker.view, WorkerPc.status]

/-- A step of start that changes neither the threads nor their ids. -/
theorem Sound.placed {n : Int} (sound : Sound n p) (standing : p.destroyCall = .notCalled)
    (roster : q.roster = p.roster) (ids : q.generateID = p.generateID)
    (threads : q.threads = p.threads) (destroy : q.destroyCall = p.destroyCall)
    (running : q.isPoolRunning = true) (sized : q.startCall.sized n q.initThreadSize) :
    Sound n q := by
  refine ⟨?_, ?_, sized, fun _ _ => running, ?_, ?_⟩
  · rw [roster, ids]
    exact sound.ids
  · rw [threads, ids]
    exact sound.keys
  · intro begun
    exact absurd (destroy.trans standing) begun
  · intro done
    rw [destroy, standing] at done
    contradiction

theorem start_sound {n : Int} (nonneg : 0 ≤ n) (sound : Sound n p) (next : StartStep p q) :
    Sound n q := by
  have sized := sound.sized
  have standing (here : p.startCall ≠ .returned) := sound.standing here
  have on (up : p.startCall.running) (here : p.startCall ≠ .returned) :=
    sound.running up (standing here)
  cases next with
  | setsRunning m place =>
    rw [place] at sized standing
    exact sound.placed (standing (by simp)) rfl rfl rfl rfl rfl sized
  | setsInit m place =>
    rw [place] at sized standing on
    exact sound.placed (standing (by simp)) rfl rfl rfl rfl (on rfl (by simp)) ⟨sized, sized⟩
  | setsCur m place =>
    rw [place] at sized standing on
    exact sound.placed (standing (by simp)) rfl rfl rfl rfl (on rfl (by simp)) ⟨sized.2, nonneg⟩
  | creates i place more =>
    rw [place] at sized standing on
    obtain ⟨init, within⟩ : p.initThreadSize = n ∧ (i : Int) ≤ n := sized
    refine ⟨?_, ?_, ⟨init, by omega⟩, fun _ _ => on rfl (by simp), ?_, ?_⟩
    · intro id member
      have below := sound.ids id member
      change id < p.generateID + 1
      omega
    · intro id member
      rcases emplace_mem.mp member with old | new
      · have below := sound.keys id old
        change id < p.generateID + 1
        omega
      · change id < p.generateID + 1
        omega
    · intro begun
      exact absurd (standing (by simp)) begun
    · intro done
      have before := standing (by simp)
      simp [before] at done
  | created i place done =>
    rw [place] at sized standing on
    exact sound.placed (standing (by simp)) rfl rfl rfl rfl (on rfl (by simp)) ⟨sized.1, nonneg⟩
  | launches i place more present =>
    rw [place] at sized standing on
    obtain ⟨init, within⟩ : p.initThreadSize = n ∧ (i : Int) ≤ n := sized
    refine ⟨?_, sound.keys, ⟨init, by omega⟩, fun _ _ => on rfl (by simp), ?_, ?_⟩
    · intro id member
      rcases ids_launch.mp (launch_roster p i _ ▸ member) with old | same
      · exact sound.ids id old
      · exact same ▸ sound.keys i present
    · intro begun
      exact absurd (standing (by simp)) begun
    · intro done
      have before := standing (by simp)
      simp [before] at done
  | dereferencesNull i place more absent =>
    refine sound.placed (standing (by simp [place])) rfl rfl rfl rfl ?_ sized
    exact on (by simp [place, StartPc.running]) (by simp [place])
  | launched i place done =>
    rw [place] at sized standing on
    exact sound.placed (standing (by simp)) rfl rfl rfl rfl (on rfl (by simp)) sized.1
  | counts i place =>
    rw [place] at sized standing on
    obtain ⟨init, within⟩ : p.initThreadSize = n ∧ (i : Int) < n := sized
    exact sound.placed (standing (by simp)) rfl rfl rfl rfl (on rfl (by simp)) ⟨init, by omega⟩

theorem start_phase {n : Nat} (positive : 1 ≤ n) (sound : Sound n p)
    (phase : p.startCall.phase n p) (next : StartStep p q) : q.startCall.phase n q := by
  have sized := sound.sized
  cases next with
  | setsRunning m place => trivial
  | setsInit m place => trivial
  | setsCur m place =>
    rw [place] at sized
    intro none_yet
    exact sized.1.trans sized.2.symm
  | creates i place more =>
    rw [place] at phase
    exact creates_phase sound phase rfl rfl rfl rfl
  | created i place done =>
    rw [place] at phase sized
    obtain ⟨init, within⟩ : p.initThreadSize = n ∧ (i : Int) ≤ n := sized
    have all : i = n := by omega
    subst all
    cases i with
    | zero => omega
    | succ i =>
      rcases phase with ⟨good, above⟩ | stranded
      · exact Or.inl (good_of_same good rfl rfl rfl rfl rfl rfl)
      · exact Or.inr stranded
  | launches i place more present =>
    rw [place] at phase sized
    obtain ⟨init, within⟩ : p.initThreadSize = n ∧ (i : Int) ≤ n := sized
    have inside : i < n := by omega
    have standing := sound.standing (by simp [place])
    rcases phase with good | stranded
    · obtain ⟨_, idle⟩ := good.made i (Nat.le_refl i) inside
      refine Or.inl ⟨?_, ?_, ?_, ?_, good.floor, ?_⟩
      · intro j low high
        obtain ⟨kept, unborn⟩ := good.made j (by omega) high
        rw [launch_roster]
        exact ⟨kept, unlaunched_launch unborn (by omega)⟩
      · rw [launch_roster]
        exact distinct_launch good.distinct idle
      · intro id member
        rw [launch_roster, List.mem_append] at member
        rcases member with old | new
        · exact good.active id old
        · have same : id = i := by simpa using new
          exact same ▸ present
      · have before := good.counted
        rw [launch_roster, List.countP_append, List.length_append]
        simp
        omega
      · rintro ⟨id, member⟩
        rw [launch_roster, List.mem_append] at member
        rcases member with old | new
        · exact absurd standing (good.drained ⟨id, old⟩).2
        · simp at new
    · obtain ⟨id, kept, above, idle⟩ := stranded
      refine Or.inr ⟨id, kept, above, ?_⟩
      rw [launch_roster]
      exact unlaunched_launch idle (by omega)
  | dereferencesNull i place more absent =>
    rw [place] at phase
    change p.startCall.phase n { p with nullThread := true }
    rw [place]
    rcases phase with good | stranded
    · exact Or.inl (good_of_same good rfl rfl rfl rfl rfl rfl)
    · exact Or.inr stranded
  | launched i place done =>
    rw [place] at phase sized
    obtain ⟨init, within⟩ : p.initThreadSize = n ∧ (i : Int) ≤ n := sized
    have all : i = n := by omega
    subst all
    rcases phase with good | stranded
    · exact Or.inl (good_of_same good rfl rfl rfl rfl rfl rfl)
    · exact Or.inr stranded
  | counts i place =>
    rw [place] at phase
    rcases phase with good | stranded
    · exact Or.inl (good_of_same good rfl rfl rfl rfl rfl rfl)
    · exact Or.inr stranded

theorem reachable_drain {n : Nat} (positive : 1 ≤ n) {generateID : Nat} {results : ρ}
    {mode : PoolMode} {threadhold threshold : Int}
    (reached : Machine.Reach (step B) (StartedOnce n)
      (configured generateID results mode threadhold threshold) p) :
    Sound n p ∧ p.startCall.phase n p := by
  induction reached with
  | start =>
    rw [configured_fields]
    refine ⟨⟨?_, ?_, trivial, ?_, ?_, ?_⟩, trivial⟩ <;>
      simp [newPool, Pool.roster, StartPc.running]
  | @next p q a before permit taken ih =>
    obtain ⟨sound, phase⟩ := ih
    have outcome := (step_outcome taken).2
    have move := outcome_roster outcome
    by_cases starting : a = .start
    · subst starting
      have next := start_outcome outcome
      exact ⟨start_sound (by omega) sound next, start_phase positive sound phase next⟩
    · have life := outcome_life outcome
      exact ⟨sound_move sound move life permit starting,
        phase_move sound phase move life permit starting⟩

/-- When no thread is left, one that start launched has left by the shutdown path. -/
theorem Good.some_exited {n : Nat} (positive : 1 ≤ n) (good : Good n n p) (init : p.initThreadSize = n)
    (empty : p.threads = []) : ∃ id, (id, .exited) ∈ p.roster := by
  by_contra none_exited
  have all_retired : p.roster.countP (·.2 = .retired) = p.roster.length := by
    rw [List.countP_eq_length]
    rintro ⟨id, status⟩ member
    cases status with
    | active =>
      have key := good.active id member
      simp [empty] at key
    | exited => exact absurd ⟨id, member⟩ none_exited
    | retired => simp
  have counted := good.counted
  have floor := good.floor
  omega

theorem running_active {e : Entry τ} (running : e ∈ p.running) :
    ∃ id, (id, .active) ∈ p.roster := by
  obtain ⟨job, member, _⟩ := List.mem_map.mp running
  obtain ⟨worker, member, own⟩ := List.mem_filterMap.mp member
  refine ⟨worker.threadid, List.mem_map.mpr ⟨worker, member, ?_⟩⟩
  cases pc : worker.pc <;> simp_all [Worker.job, Worker.view, WorkerPc.status]

instance (n : Int) (p : Pool τ ρ σ) : (a : Action τ χ κ) → Decidable (StartedOnce n p a)
  | .callStart m => inferInstanceAs (Decidable (m = n ∧ p.startCall = .notCalled))
  | .destroy =>
    have : Decidable (∀ c ∈ p.submits, c.pc.pending = false) := List.decidableBAll _ _
    inferInstanceAs (Decidable (p.startCall = .returned ∧ ∀ c ∈ p.submits, c.pc.pending = false))
  | .call _ => inferInstanceAs (Decidable (p.destroyCall = .notCalled))
  | .submit _ | .submitTimeout _ | .submitStir _ | .start | .worker _ _ | .workerTimeout _
  | .workerStir _ | .exec _ _ | .idle _ | .destroyNext | .destroyStir | .otherThread | .client _ =>
    .isTrue trivial

end ThreadPool
