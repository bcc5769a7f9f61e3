import ServerPools.Threads.ResultMain
import ServerPools.Threads.Lifetimes
import Mathlib.Tactic.Ring

/- Such a main comes to its end with the values of its tasks, if no wait times out: every Result
   it gets is alive, every post finds its get, and no cast_ throws. -/
namespace TaskResult
open ThreadPool
variable {τ ι : Type} {data : ι → Type} {t : ι} {script : Script τ (Any (Derive data))} {n : Nat}
  {mode : PoolMode} {threadhold threshold : Int} {p q : ResultPool τ (Derive data)}
  {s s' : Program τ (Side τ (Derive data)) (Stage (Derive data)) (data t)}

section Alive
variable [DecidableEq τ]

/-- Only its own destructor ends the life of a Result. -/
theorem step_lives {a : Action τ (Any (Derive data)) ClientAction} {i : Nat}
    (other : a ≠ .client (.drop i)) (taken : step resultBackend p a = some q)
    (alive : p.results.lives i ≠ some false) : q.results.lives i ≠ some false := by
  have outcome := (step_outcome taken).2
  have constructed (isValid : Bool) (j : Nat) (task : τ) :
      (construct isValid p.results j task).lives i ≠ some false := by
    by_cases same : i = j
    · subst same
      rw [(construct_lives p.results isValid i task).1]
      simp
    · simpa [construct, setResult, setObject, Side.lives, Function.update_of_ne same] using alive
  cases outcome_move outcome with
  | quiet quiet results => rwa [results]
  | accepts here awake room after | rejects here pc full after =>
    subst after
    exact constructed _ _ _
  | takes here awake queue quiet results => rwa [results]
  | execs here pc ran after | finishes here pc ran after =>
    subst after
    exact ((exec_kept ran).2.1 i).symm ▸ alive
  | @clients k quiet done =>
    have kept := (client_kept done).2.2 i fun dropped => other (congrArg _ dropped)
    rwa [kept]

variable [DecidableEq ι]

/-- main has destroyed no Result but those it is done with. -/
def Alive (script : Script τ (Any (Derive data)))
    (s : Program τ (Side τ (Derive data)) (Stage (Derive data)) (data t)) : Prop :=
  ∀ i < s.main.kept script.tasks.length, s.pool.results.lives i ≠ some false

theorem main_alive (alive : Alive script s)
    (taken : MainStep resultBackend (resultGetter t) script s s') : Alive script s' := by
  have still {a : Action τ (Any (Derive data)) ClientAction}
      (stepped : step resultBackend s.pool a = some s'.pool) (other : ∀ i, a ≠ .client (.drop i))
      (same : s'.main.kept script.tasks.length ≤ s.main.kept script.tasks.length) : Alive script s' :=
    fun i before => step_lives (other i) stepped (alive i (Nat.lt_of_lt_of_le before same))
  have moved {k : ClientAction} (done : client s.pool.results k = some s'.pool.results)
      (other : ∀ i < s'.main.kept script.tasks.length, k ≠ .drop i)
      (same : s'.main.kept script.tasks.length ≤ s.main.kept script.tasks.length) : Alive script s' := by
    intro i before
    rw [(client_kept done).2.2 i (other i before)]
    exact alive i (Nat.lt_of_lt_of_le before same)
  cases taken with
  | calls place stepped | starts place running stepped | submits place more stepped
  | waits place here open_ stepped | leaves place stepped | destroys place alive stepped =>
    exact still stepped (by simp) (by simp [place, MainPc.kept])
  | started place | settles place | submitted place | asked place =>
    exact fun i before => alive i (by simpa [place, MainPc.kept] using before)
  | returns place => exact fun i before => absurd before (Nat.not_lt_zero i)
  | @asks i results place more called =>
    exact moved (k := .get i) called (by simp) (by simp [place, MainPc.kept])
  | @gets i results place next =>
    rcases next_some next with ⟨_, _, _, _, _, absent⟩ | ⟨taken, _⟩
    · contradiction
    · exact moved (k := .getNext i) taken (by simp) (Nat.le_refl _)
  | @answers i results value place next =>
    rcases next_some next with ⟨_, _, _, _, rfl, _⟩ | ⟨_, absent⟩
    · exact fun i before => alive i (by simpa [place, MainPc.kept] using before)
    · contradiction
  | @drops left results place dropped =>
    refine moved (k := .drop left) dropped (fun i before same => ?_) (by simp [place, MainPc.kept])
    obtain rfl := ClientAction.drop.inj same
    simp [MainPc.kept] at before

theorem result_alive (reached : Machine.Reach (programStep resultBackend (resultGetter t) script)
      (Scheduled (resultGetter t) script) (launch mode threadhold threshold emptySide) s) :
    Alive script s := by
  induction reached with
  | start =>
    intro i _
    unfold launch
    rw [configured_fields]
    simp [newPool, emptySide, Side.lives]
  | @next s s' turn before permit taken alive =>
    cases turn with
    | main => exact main_alive alive (mainNext_step taken)
    | env a =>
      obtain ⟨q, stepped, rfl⟩ := Option.map_eq_some_iff.mp taken
      intro i before
      refine step_lives ?_ stepped (alive i before)
      rintro rfl
      exact permit.elim

end Alive

section Fees
variable [DecidableEq τ] [DecidableEq ι]

def resultFees (most : Nat) : Fees (resultEffort most : Effort (resultBackend :
    Backend τ (Side τ (Derive data)) (Stage (Derive data)) (Any (Derive data)) ClientAction))
    (resultGetter t) where
  fee := 3
  call {r r' i} _ called := by
    simp only [resultGetter, castGetter, resultBackend, client] at called
    split at called
    · contradiction
    · split at called <;> cases called
      simp [resultEffort, Side.getload, GetPc.cost]
  next {r r' i} _ next := by
    rcases next_some next with ⟨_, _, _, _, _, absent⟩ | ⟨taken, _⟩
    · contradiction
    · exact (getNext_getload taken).1
  value {r r' i v} _ next := by
    rcases next_some next with ⟨_, _, _, _, rfl, _⟩ | ⟨_, absent⟩
    · exact Nat.le_refl _
    · contradiction
  drop {r r' i} _ dropped := by
    simp only [resultGetter, castGetter, resultBackend, client] at dropped
    split at dropped
    · contradiction
    · split at dropped <;> cases dropped
      exact Nat.le_refl _

end Fees

/-- What is known of the program in a run without time-outs. -/
structure Known (script : Script τ (Any (Derive data)))
    (s : Program τ (Side τ (Derive data)) (Stage (Derive data)) (data t)) : Prop where
  tracks : Tracks script s
  asked : Asked script s
  handshake : Handshake s.pool
  history : History s.pool
  computed : Computed script.run s.pool
  alive : Alive script s
  patient : Patient s.pool
  unblocked : ∀ (i : Nat) (r : Result (Derive data)), s.pool.results.objects i = some r → r.live = true →
    0 < r.sem.resLimit → ∀ g ∈ s.pool.results.gets, g.result = i → g.pc ≠ .blocked

/-- A call that has returned was accepted. -/
theorem Known.accepted (known : Known script s) {i : Nat}
    (settled : i < s.main.settled script.tasks.length) :
    ∃ c, s.pool.submits[i]? = some c ∧ c.pc = .accepted := by
  have length := known.tracks.calls_length
  have short : i < s.pool.submits.length := by
    rw [length]
    cases place : s.main <;> simp only [place, MainPc.settled, MainPc.called] at settled ⊢ <;> omega
  have here := List.getElem?_eq_getElem short
  have final := known.tracks.final i _ settled here
  have fresh := (known.patient _ (List.getElem_mem short)).2
  refine ⟨_, here, ?_⟩
  cases pc : s.pool.submits[i].pc <;> simp_all [SubmitPc.final]

/-- Its Result is there until main destroys it. -/
theorem Known.object (known : Known script s) {i : Nat}
    (settled : i < s.main.settled script.tasks.length) (held : i < s.main.kept script.tasks.length) :
    ∃ r, s.pool.results.objects i = some r ∧ r.live = true := by
  obtain ⟨c, here, accepted⟩ := known.accepted settled
  have alive := known.alive i held
  rcases known.handshake.accepted_result known.history here accepted with
    ⟨_, _, _, _, filled⟩ | ⟨_, r, value, posted⟩
  · exact ⟨_, filled.object, rfl⟩
  · have object : s.pool.results.objects i = some r := posted.object
    refine ⟨r, object, ?_⟩
    simpa [Side.lives, object] using alive

/-- The get of a task that is executed is not blocked. -/
theorem Known.awake (known : Known script s) {i : Nat} {g : Get (Derive data)}
    (here : s.pool.results.gets[i]? = some g) {r : Result (Derive data)}
    (object : s.pool.results.objects i = some r) (live : r.live = true)
    (done : (s.pool.results.view i).Done) : g.pc ≠ .blocked := by
  intro blocked
  obtain ⟨r', value, posted⟩ := done
  obtain rfl : r = r' := Option.some.inj (object.symm.trans posted.object)
  have spent := posted.spent
  have none_passed : (s.pool.results.view i).gets.countP GetPc.passed = 0 := by
    refine List.countP_eq_zero.mpr fun pc seen passed => ?_
    obtain ⟨other, member, on⟩ := List.mem_filterMap.mp seen
    obtain ⟨k, there⟩ := List.getElem?_of_mem member
    unfold Get.on at on
    split at on
    · rename_i same
      obtain rfl : k = i := (known.asked.get there).symm.trans same
      obtain rfl : g = other := Option.some.inj (here.symm.trans there)
      rw [← Option.some.inj on, blocked] at passed
      contradiction
    · contradiction
  exact known.unblocked i r object live (by omega) g (Agents.mem_of_position here)
    (known.asked.get here) blocked

/-- When main has all values they are those of its tasks. -/
theorem Known.values (known : Known script s)
    (all : s.main.answered script.tasks.length = script.tasks.length) :
    s.answers.map (fun v => (some ⟨t, v⟩ : Any (Derive data))) = script.tasks.map script.run := by
  have length := known.tracks.answers.trans all
  refine List.ext_getElem? fun j => ?_
  rw [List.getElem?_map, List.getElem?_map]
  rcases Nat.lt_or_ge j s.answers.length with inside | beyond
  · obtain ⟨g, here, returned⟩ := known.asked.told j _ (List.getElem?_eq_getElem inside)
    obtain ⟨c, sent, task, ⟨_, right⟩ | ⟨_, empty⟩⟩ := told_right known.tracks known.handshake
      known.history known.computed (Agents.mem_of_position here) returned
    · rw [known.asked.get here] at task
      rw [List.getElem?_eq_getElem inside, task]
      exact congrArg some right
    · contradiction
  · rw [List.getElem?_eq_none beyond, List.getElem?_eq_none (length ▸ beyond)]
    rfl

variable [DecidableEq τ] [DecidableEq ι]

theorem brisk_known (size : script.initThreadSize = n) (apart : script.tasks.Nodup)
    (reached : Machine.Reach (programStep resultBackend (resultGetter t) script)
      (Brisk (resultGetter t) script) (launch mode threadhold threshold emptySide) s) :
    Known script s := by
  have scheduled := reached.weaken fun _ _ => brisk_scheduled
  obtain ⟨tracks, driven⟩ := program_pool size scheduled
  obtain ⟨asked, rules⟩ := result_pool size apart scheduled
  exact {
    tracks := tracks
    asked := asked
    handshake := (reachable_handshake rules).1
    history := reachable_history driven.reachable
    computed := reachable_computed (driven_reach_bound driven)
    alive := result_alive scheduled
    patient := brisk_patient size reached
    unblocked := fun i r object live => (result_unblocked driven.reachable object live).2 }

/-- Once everything is served main's get goes on, and cast_ finds the type it asks for. -/
theorem Known.next (known : Known script s)
    (typed : ∀ task ∈ script.tasks, ∃ value, script.run task = some ⟨t, value⟩) {i : Nat}
    (place : s.main = .getting i) (served : AllServed s.pool) :
    (resultGetter t).next s.pool.results i ≠ none := by
  have inside := known.tracks.inside
  have order := congrArg List.length known.asked.order
  have settled : i < s.main.settled script.tasks.length := by
    rw [place] at inside ⊢
    exact inside
  have held : i < s.main.kept script.tasks.length := by
    rw [place] at inside ⊢
    exact inside
  obtain ⟨c, sent, accepted⟩ := known.accepted settled
  obtain ⟨r, object, live⟩ := known.object settled held
  have recorded := known.history.recorded i c sent accepted
  have done := known.handshake.executed _ (served.executed.mem_iff.mpr recorded)
  obtain ⟨g, here⟩ : ∃ g, s.pool.results.gets[i]? = some g := by
    rw [place, List.length_map, List.length_range] at order
    have short : i < s.pool.results.gets.length := by
      rw [order]
      exact Nat.lt_succ_self i
    exact ⟨_, List.getElem?_eq_getElem short⟩
  have awake := known.awake here object live done
  have own : s.pool.results.objects g.result = some r := (known.asked.get here).symm ▸ object
  simp only [resultGetter, castGetter, resultBackend, here]
  cases pc : g.pc with
  | returned any =>
    obtain ⟨d, there, task, ⟨_, right⟩ | ⟨refused, _⟩⟩ := told_right known.tracks known.handshake
      known.history known.computed (Agents.mem_of_position here) pc
    · obtain ⟨value, same⟩ := typed d.task (List.mem_of_getElem? task)
      simp [cast_ok_iff.mpr (right.trans same)]
    · rw [known.asked.get here, sent] at there
      obtain rfl := Option.some.inj there
      rw [accepted] at refused
      contradiction
  | blocked => exact absurd pc awake
  | entering =>
    simp only [client, getNext, here, own, pc]
    split
    · split <;> simp
    · simp
  | woken | acquired => simp [client, getNext, here, own, pc]

theorem result_provides (size : script.initThreadSize = n) (apart : script.tasks.Nodup)
    (typed : ∀ task ∈ script.tasks, ∃ value, script.run task = some ⟨t, value⟩) :
    Provides (resultEffort script.tasks.length) (resultGetter t) script
      (launch mode threadhold threshold emptySide) where
  fits s reached := by
    have known := brisk_known size apart reached
    have inside := known.tracks.inside
    have order := congrArg List.length known.asked.order
    rw [List.length_map, List.length_range] at order
    change s.pool.results.gets.length ≤ script.tasks.length
    rw [order]
    cases place : s.main <;> simp only [place, MainPc.inside, MainPc.asked] at inside ⊢ <;> omega
  able s reached job member := by
    have known := brisk_known size apart reached
    have pointed := known.handshake.pointed job.1
      (popped_accepted known.history (job_popped known.history member))
    exact Option.isSome_iff_ne_none.mpr (exec_defined _ pointed (known.handshake.staged _ member))
  calls s i reached place more := by
    have known := brisk_known size apart reached
    obtain ⟨r, object, live⟩ := known.object (i := i) (by simpa [place, MainPc.settled] using more)
      (by simpa [place, MainPc.kept] using more)
    simp [resultGetter, castGetter, resultBackend, client, object, live]
  answers s i reached place served := (brisk_known size apart reached).next typed place served
  drops s left reached place := by
    have known := brisk_known size apart reached
    have inside := known.tracks.inside
    have answers := known.tracks.answers
    rw [place] at inside answers
    obtain ⟨r, object, live⟩ := known.object (i := left) (by rw [place]; exact inside)
      (by rw [place]; exact Nat.lt_succ_self left)
    have idle : ∀ g ∈ s.pool.results.gets, g.result = left → g.pc.active = false := by
      intro g member on
      obtain ⟨k, here⟩ := List.getElem?_of_mem member
      obtain rfl : k = left := (known.asked.get here).symm.trans on
      have short : k < s.answers.length := by
        rw [answers]
        exact inside
      obtain ⟨other, there, returned⟩ := known.asked.told k _ (List.getElem?_eq_getElem short)
      obtain rfl : g = other := Option.some.inj (here.symm.trans there)
      simp [returned, GetPc.active]
    simp only [resultGetter, castGetter, resultBackend, client, object, live, true_and]
    rw [if_pos idle]
    simp

/-- main comes to its end under every schedule without time-outs, with what its tasks compute:
    no get waits for ever and no cast_ throws. -/
theorem result_main_ends (positive : 1 ≤ n) (bounded : 1 ≤ threadhold ∧ threadhold < 2 ^ 31)
    (size : script.initThreadSize = n) (apart : script.tasks.Nodup)
    (typed : ∀ task ∈ script.tasks, ∃ value, script.run task = some ⟨t, value⟩) :
    Machine.Inevitable (programStep resultBackend (resultGetter t) script)
      (Brisk (resultGetter t) script)
      (fun s => s.main = .returned ∧
        s.answers.map (fun v => (some ⟨t, v⟩ : Any (Derive data))) = script.tasks.map script.run ∧
        s.pool.threads = [] ∧ s.pool.executed.Perm s.pool.accepted)
      (launch mode threadhold threshold emptySide) := by
  refine (main_ends (resultFees script.tasks.length) positive bounded size
    (result_provides size apart typed)).mono ?_
  rintro s ⟨done, served, reached⟩
  have known := brisk_known size apart reached
  have gone := known.tracks.gone done
  exact ⟨done, known.values (by rw [done]; rfl), (served.closed (by simp [gone])).2, served.executed⟩

/-- MyTask of both main functions. The object is what make_shared made; no code reads it. -/
structure MyTask where
  object : Nat
  begin_ : Int
  end_ : Int
  deriving DecidableEq, Repr

/-- The loop of MyTask::run from i on. -/
def MyTask.loop (task : MyTask) (i sum : Int) : Int :=
  if i ≤ task.end_ then task.loop (i + 1) (sum + i) else sum
termination_by (task.end_ + 1 - i).toNat

def MyTask.run (task : MyTask) : Any (Derive Stored.type) := some ⟨.int, task.loop task.begin_ 0⟩

theorem loop_twice (task : MyTask) (i sum : Int) (before : i ≤ task.end_ + 1) :
    2 * task.loop i sum = 2 * sum + (task.end_ + 1 - i) * (task.end_ + i) := by
  fun_induction task.loop i sum with
  | case1 i sum more ih =>
    rw [ih (by omega)]
    ring
  | case2 i sum last =>
    obtain rfl : i = task.end_ + 1 := by omega
    ring

theorem run_sum (task : MyTask) (total : Int) (before : task.begin_ ≤ task.end_ + 1)
    (twice : 2 * total = (task.end_ + 1 - task.begin_) * (task.end_ + task.begin_)) :
    task.run = some ⟨.int, total⟩ := by
  have summed := loop_twice task task.begin_ 0 before
  have same : task.loop task.begin_ 0 = total := by omega
  unfold MyTask.run
  rw [same]

/-- The submissions of main.cpp. -/
def sums : Script MyTask (Any (Derive Stored.type)) :=
  ⟨4, [⟨0, 1, 100⟩, ⟨1, 1, 1000⟩, ⟨2, 1, 100⟩], MyTask.run⟩

theorem result_main_ends_sums :
    Machine.Inevitable (programStep resultBackend (resultGetter Stored.int) sums)
      (Brisk (resultGetter .int) sums)
      (fun s => s.main = .returned ∧
        s.answers.map (fun v => (some ⟨.int, v⟩ : Any (Derive Stored.type))) = sums.tasks.map sums.run ∧
        s.pool.threads = [] ∧ s.pool.executed.Perm s.pool.accepted)
      (launch .modeFixd 1024 10 emptySide) :=
  result_main_ends (n := 4) (by decide) (by decide) rfl (by decide) fun task _ => ⟨_, rfl⟩

end TaskResult
