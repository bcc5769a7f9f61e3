import ServerPools.Threads.Handshake
import ServerPools.Threads.ResultSemaphore
import ServerPools.Threads.Service
import ServerPools.Threads.TaskFuture

/- The service of both versions of the pool. For futures the task always runs; for Results
   the handshake says that Task::exec is never stuck, and the semaphore that every get on an
   executed task returns, except those that come after another get has taken the value. -/
namespace TaskFuture
open ThreadPool
variable {τ α : Type}

def Stage.left : Stage α → Nat
  | .invoke => 1
  | .fulfil _ => 0

def futureEffort (dflt : α) : Effort (futureBackend dflt : Backend τ (Side α) (Stage α) α Empty) where
  rank := Stage.left
  load _ := 0
  fits _ := True
  helps _ := True
  accept _ _ _ := ⟨trivial, Nat.le_refl _⟩
  reject _ _ _ := ⟨trivial, Nat.le_refl _⟩
  execs {r r' e stage next x} _ ran := by
    refine ⟨trivial, ?_⟩
    cases stage with
    | invoke =>
      obtain ⟨_, rfl⟩ : _ ∧ Stage.fulfil x = next := by simpa [futureBackend, exec] using ran
      simp [Stage.left]
    | fulfil value => simp [futureBackend, exec] at ran
  finishes _ _ := ⟨trivial, Nat.zero_le _⟩
  clients {_ _ k} _ _ _ := nomatch k

/-- A packaged task can always be entered and always be finished. -/
theorem future_able (dflt : α) (p : FuturePool τ α) : Able (futureBackend dflt) p := by
  rintro ⟨e, stage⟩ _
  cases stage <;> exact ⟨dflt, rfl⟩

end TaskFuture

namespace TaskResult
open ThreadPool
variable {τ α : Type} {p : ResultPool τ α} {s s' : Side τ α}

def GetPc.cost : GetPc α → Nat
  | .entering | .woken => 3
  | .blocked => 2
  | .acquired => 1
  | .returned _ => 0

def Stage.left (most : Nat) : Stage α → Nat
  | .test => most + 4
  | .load => most + 3
  | .runTask _ => most + 2
  | .store _ _ => most + 1
  | .post _ => most

def Side.getload (s : Side τ α) : Nat := (s.gets.map fun g => g.pc.cost).sum

/-- The calls of get that are under way go on; no new one is made and no Result is destroyed. -/
def GoesOn : ClientAction → Prop
  | .getNext _ => True
  | _ => False

theorem post_getload {i : Nat} (posted : post s i = some s') :
    s'.getload ≤ s.getload + s.gets.length ∧ s'.gets.length = s.gets.length := by
  unfold post at posted
  split at posted
  · contradiction
  · split at posted <;> cases posted
    · exact ⟨Nat.le_add_right _ _, rfl⟩
    · have gain (g : Get α) : (g.wake i).pc.cost ≤ g.pc.cost + 1 := by
        rcases g with ⟨result, pc⟩
        cases pc <;> simp [Get.wake, GetPc.cost]
        split <;> simp
      have all := Agents.sum_broadcast (f := fun g : Get α => g.pc.cost) gain s.gets
      rw [Nat.one_mul] at all
      exact ⟨all, List.length_map ..⟩

theorem setGet_getload {g : Nat} {get : Get α} (here : s.gets[g]? = some get) (pc : GetPc α)
    (cheaper : pc.cost < get.pc.cost) : (setGet s g get pc).getload < s.getload := by
  have moved := Agents.sum_set (f := fun g : Get α => g.pc.cost) here { get with pc := pc }
  unfold Side.getload setGet
  simp only at moved ⊢
  omega

theorem getNext_getload {g : Nat} (taken : getNext s g = some s') :
    s'.getload < s.getload ∧ s'.gets.length = s.gets.length := by
  unfold getNext at taken
  split at taken
  · contradiction
  · rename_i get here
    have waits (r : Result α) (dear : get.pc.cost = 3) :
        (semWait s g get r).getload < s.getload ∧ (semWait s g get r).gets.length = s.gets.length := by
      unfold semWait
      split
      · exact ⟨setGet_getload (s := setObject s _ _) here .acquired (by rw [dear]; simp [GetPc.cost]),
          List.length_set⟩
      · exact ⟨setGet_getload here .blocked (by rw [dear]; simp [GetPc.cost]), List.length_set⟩
    split at taken
    · contradiction
    · rename_i r object
      split at taken <;> rename_i pc
      · split at taken
        · split at taken <;> cases taken
          · exact ⟨setGet_getload here .acquired (by simp [pc, GetPc.cost]), List.length_set⟩
          · exact waits r (by simp [pc, GetPc.cost])
        · cases taken
          exact ⟨setGet_getload here (.returned none) (by simp [pc, GetPc.cost]), List.length_set⟩
      · cases taken
        exact waits r (by simp [pc, GetPc.cost])
      · cases taken
        exact ⟨setGet_getload (s := setObject s _ _) here (.returned _) (by simp [pc, GetPc.cost]),
          List.length_set⟩
      · contradiction

/-- The Result a get is on: that of a refused submission, or of an executed one. -/
theorem get_view (handshake : Handshake p) (served : AllServed p) (history : History p) {g : Get α}
    (member : g ∈ p.results.gets) :
    (p.results.view g.result).Refused ∨ (p.results.view g.result).Done := by
  have inside : g.pc ∈ (p.results.view g.result).gets :=
    List.mem_filterMap.mpr ⟨g, member, if_pos rfl⟩
  cases there : p.submits[g.result]? with
  | none =>
    have unborn := handshake.unborn g.result fun c here => by simp [there] at here
    simp [unborn.gets] at inside
  | some c =>
    have final := served.answered c (Agents.mem_of_position there)
    cases pc : c.pc with
    | rejected => exact Or.inl (handshake.refused g.result c there pc)
    | accepted =>
      have recorded := history.recorded g.result c there pc
      exact Or.inr (handshake.executed _ (served.executed.mem_iff.mpr recorded))
    | entering | blocked | woken | timedOut => simp [pc, SubmitPc.final] at final

theorem view_object {i : Nat} (seen : (p.results.view i).Refused ∨ (p.results.view i).Done) :
    p.results.objects i ≠ none := by
  intro absent
  rcases seen with refused | ⟨r, value, posted⟩
  · obtain ⟨r, present, _⟩ := refused.object
    simp [Side.view, absent] at present
  · have present := posted.object
    simp [Side.view, absent] at present

variable [DecidableEq τ]

def resultEffort (most : Nat) :
    Effort (resultBackend : Backend τ (Side τ α) (Stage α) (Any α) ClientAction) where
  rank := Stage.left most
  load := Side.getload
  fits s := s.gets.length ≤ most
  helps := GoesOn
  accept _ _ fits := ⟨fits, Nat.le_refl _⟩
  reject _ _ fits := ⟨fits, Nat.le_refl _⟩
  execs {r r' e stage next x} fits ran := by
    cases stage with
    | test =>
      simp only [resultBackend, exec] at ran
      split at ran <;> cases ran
      exact ⟨fits, by simp [Stage.left]⟩
    | load =>
      obtain ⟨i, _, same⟩ := Option.map_eq_some_iff.mp ran
      cases same
      exact ⟨fits, by simp [Stage.left]⟩
    | runTask i =>
      cases ran
      exact ⟨fits, by simp [Stage.left, Side.getload]⟩
    | store i any =>
      obtain ⟨object, _, same⟩ := Option.map_eq_some_iff.mp ran
      cases same
      exact ⟨fits, by simp [Stage.left, Side.getload, setObject]⟩
    | post i =>
      obtain ⟨posted, _, same⟩ := Option.map_eq_some_iff.mp ran
      cases same
  finishes {r r' e stage x} fits ran := by
    cases stage with
    | test =>
      simp only [resultBackend, exec] at ran
      split at ran <;> cases ran
      exact ⟨fits, Nat.le_add_right _ _⟩
    | load =>
      obtain ⟨i, _, same⟩ := Option.map_eq_some_iff.mp ran
      cases same
    | runTask i => cases ran
    | store i any =>
      obtain ⟨object, _, same⟩ := Option.map_eq_some_iff.mp ran
      cases same
    | post i =>
      obtain ⟨after, posted, same⟩ := Option.map_eq_some_iff.mp ran
      cases same
      obtain ⟨load, length⟩ := post_getload posted
      exact ⟨length ▸ fits, Nat.le_trans load (Nat.add_le_add_left fits _)⟩
  clients {r r' k} fits helps done := by
    cases k with
    | getNext g =>
      obtain ⟨load, length⟩ := getNext_getload done
      exact ⟨length ▸ fits, load⟩
    | get i => exact helps.elim
    | getStir g => exact helps.elim
    | drop i => exact helps.elim

theorem result_able (handshake : Handshake p) (history : History p) : Able resultBackend p := by
  rintro ⟨e, stage⟩ job
  have pointed := handshake.pointed e (popped_accepted history (job_popped history job))
  have defined := exec_defined none pointed (handshake.staged _ job)
  exact ⟨none, Option.isSome_iff_ne_none.mpr defined⟩

/-- A get that has not returned waits on a Result whose value another get has taken. -/
def GetsAnswered (p : ResultPool τ α) : Prop :=
  ∀ g ∈ p.results.gets, (∃ any, g.pc = .returned any) ∨
    g.pc = .blocked ∧ ∃ other ∈ p.results.gets, other.result = g.result ∧ ∃ any, other.pc = .returned any

/-- A get has an object, and where it can move the pool is not at rest. -/
theorem rest_get (object : ∀ g ∈ p.results.gets, p.results.objects g.result ≠ none)
    (found : p.nullThread = false)
    (still : ¬ Machine.CanStep (step resultBackend) (fun _ => Calm GoesOn) p) {g : Get α}
    (member : g ∈ p.results.gets) : g.pc = .blocked ∨ ∃ any, g.pc = .returned any := by
  obtain ⟨k, here⟩ := List.getElem?_of_mem member
  have stuck : getNext p.results k = none := by
    cases taken : getNext p.results k with
    | none => rfl
    | some s =>
      refine absurd ⟨.client (.getNext k), { p with results := s }, trivial, ?_⟩ still
      simp [step, found, enabled, perform, resultBackend, client, taken]
  unfold getNext at stuck
  simp only [here] at stuck
  cases there : p.results.objects g.result with
  | none => exact absurd there (object g member)
  | some r =>
    simp only [there] at stuck
    cases pc : g.pc with
    | blocked => exact Or.inl rfl
    | returned any => exact Or.inr ⟨any, rfl⟩
    | entering =>
      simp only [pc] at stuck
      split at stuck
      · split at stuck <;> contradiction
      · contradiction
    | woken | acquired =>
      simp only [pc] at stuck
      contradiction

theorem rest_answered (handshake : Handshake p) (history : History p) (served : AllServed p)
    (found : p.nullThread = false)
    (unblocked : ∀ (i : Nat) (r : Result α), p.results.objects i = some r → r.live = true →
      0 < r.sem.resLimit → ∀ g ∈ p.results.gets, g.result = i → g.pc ≠ .blocked)
    (still : ¬ Machine.CanStep (step resultBackend) (fun _ => Calm GoesOn) p) : GetsAnswered p := by
  have object (g : Get α) (member : g ∈ p.results.gets) : p.results.objects g.result ≠ none :=
    view_object (get_view handshake served history member)
  intro g member
  rcases rest_get object found still member with blocked | answered
  · have inside : g.pc ∈ (p.results.view g.result).gets :=
      List.mem_filterMap.mpr ⟨g, member, if_pos rfl⟩
    rcases get_view handshake served history member with refused | ⟨r, value, posted⟩
    · rcases refused.gets _ inside with entering | returned
      · simp [blocked] at entering
      · simp [blocked] at returned
    · have live : r.live = true := by
        by_contra dead
        have idle := posted.left (by simpa using dead) _ inside
        simp [blocked, GetPc.active] at idle
      have spent := posted.spent
      have nonneg := posted.nonneg
      have none_free : ¬ 0 < r.sem.resLimit := fun free =>
        unblocked g.result r posted.object live free g member rfl blocked
      have one : 0 < (p.results.view g.result).gets.countP GetPc.passed := by omega
      obtain ⟨pc, seen, passed⟩ := List.countP_pos_iff.mp one
      obtain ⟨other, there, on⟩ := List.mem_filterMap.mp seen
      obtain ⟨same, rfl⟩ : other.result = g.result ∧ other.pc = pc := by
        unfold Get.on at on
        split at on
        · rename_i same
          exact ⟨same, Option.some.inj on⟩
        · contradiction
      rcases rest_get object found still there with waits | returned
      · simp [waits, GetPc.passed] at passed
      · exact Or.inr ⟨blocked, other, there, same, returned⟩
  · exact Or.inl answered

end TaskResult

namespace ThreadPool
variable {τ α χ κ : Type} [DecidableEq τ]

/-- From every state of either version in which a started pool of n threads may be, and however
    the threads and the calls that are under way are scheduled, every accepted task is executed
    and every submission, the destructor and the gets return. -/
theorem requests_served {n : Nat} (positive : 1 ≤ n) {t : Int} (bounded : 1 ≤ t ∧ t < 2 ^ 31) :
    (∀ (mode : PoolMode) (threshold : Int) (p : TaskResult.ResultPool τ α),
      Serving TaskResult.resultBackend n mode t threshold TaskResult.emptySide p →
      Machine.Reach (step TaskResult.resultBackend) TaskResult.HandshakeRules
        (configured 0 TaskResult.emptySide mode t threshold) p →
      Machine.Inevitable (step TaskResult.resultBackend) (fun _ => Calm TaskResult.GoesOn)
        (fun q => AllServed q ∧ TaskResult.GetsAnswered q) p) ∧
    (∀ (dflt : α) (mode : PoolMode) (threshold : Int) (p : TaskFuture.FuturePool τ α),
      Serving (TaskFuture.futureBackend dflt) n mode t threshold TaskFuture.emptySide p →
      Machine.Inevitable (step (TaskFuture.futureBackend dflt)) (fun _ => Calm fun _ => True)
        AllServed p) := by
  constructor
  · intro mode threshold p serving rules
    have handled {q : TaskResult.ResultPool τ α}
        (later : Machine.Reach (step TaskResult.resultBackend) (fun _ => Calm TaskResult.GoesOn) p q) :
        Machine.Reach (step TaskResult.resultBackend) TaskResult.HandshakeRules
          (configured 0 TaskResult.emptySide mode t threshold) q := by
      refine later.invariant rules fun {s a u} _ before calm taken => before.next ?_ taken
      cases a with
      | client k =>
        cases k with
        | getNext g => trivial
        | get i => exact calm.elim
        | getStir g => exact calm.elim
        | drop i => exact calm.elim
      | call task => exact calm.elim
      | _ => trivial
    refine served_inevitably (TaskResult.resultEffort p.results.gets.length) positive bounded serving
      (Nat.le_refl _) (fun q later => ?_) fun q later served still => ?_
    · have reached := handled later
      exact TaskResult.result_able (TaskResult.reachable_handshake reached).1
        (reachable_history reached.reachable)
    · have reached := handled later
      have serving' : Serving TaskResult.resultBackend n mode t threshold TaskResult.emptySide q :=
        later.invariant serving fun _ before calm taken => before.next calm taken
      refine ⟨served, TaskResult.rest_answered (TaskResult.reachable_handshake reached).1
        (reachable_history reached.reachable) served
        (reachable_manned (by omega) serving'.reached).found (fun i r object live => ?_) still⟩
      exact (TaskResult.result_unblocked reached.reachable object live).2
  · intro dflt mode threshold p serving
    exact served_inevitably (TaskFuture.futureEffort dflt) positive bounded serving trivial
      (fun q _ => TaskFuture.future_able dflt q) fun q _ served _ => served

/-- start(1) and two submissions to a queue of one, of which the second waits. -/
def fullQueue : List (Action Nat χ κ) :=
  [Action.callStart 1] ++ List.replicate 8 Action.start ++
    [Action.call 5, .submit 0, .call 6, .submit 1]

/-- The same, and a get that waits for the value of the first task. -/
def fullQueueGet : List (Action Nat (TaskResult.Any Nat) TaskResult.ClientAction) :=
  fullQueue ++ [Action.client (.get 0), .client (.getNext 0)]

theorem requests_served_full_queue :
    (∃ p : TaskResult.ResultPool Nat Nat, p.submits[1]? = some ⟨6, .blocked⟩ ∧
      p.results.gets = [⟨0, .blocked⟩] ∧
      Machine.Inevitable (step TaskResult.resultBackend) (fun _ => Calm TaskResult.GoesOn)
        (fun q => AllServed q ∧ TaskResult.GetsAnswered q) p) ∧
    ∃ p : TaskFuture.FuturePool Nat Nat, p.submits[1]? = some ⟨6, .blocked⟩ ∧
      Machine.Inevitable (step (TaskFuture.futureBackend 0)) (fun _ => Calm fun _ => True)
        AllServed p := by
  constructor
  · have ran : ∃ p ∈ Machine.run (step TaskResult.resultBackend)
        (configured 0 TaskResult.emptySide .modeFixd 1 10 : TaskResult.ResultPool Nat Nat)
        fullQueueGet, p.submits[1]? = some ⟨6, .blocked⟩ ∧ p.results.gets = [⟨0, .blocked⟩] ∧
        p.startCall = .returned ∧ p.destroyCall = .notCalled := by decide +kernel
    obtain ⟨p, ran, waits, gets, returned, standing⟩ := ran
    have orderly : Machine.Obeys (step TaskResult.resultBackend) (Orderly 1)
        (configured 0 TaskResult.emptySide .modeFixd 1 10 : TaskResult.ResultPool Nat Nat)
        fullQueueGet := by decide +kernel
    have ruled : Machine.Obeys (step TaskResult.resultBackend) TaskResult.HandshakeRules
        (configured 0 TaskResult.emptySide .modeFixd 1 10 : TaskResult.ResultPool Nat Nat)
        fullQueueGet := by decide +kernel
    have serving : Serving TaskResult.resultBackend 1 .modeFixd 1 10 TaskResult.emptySide p :=
      ⟨Machine.reach_of_run orderly ran, by simp [returned], by simp [Stuck, standing]⟩
    exact ⟨p, waits, gets, (requests_served (by decide) (by decide)).1 .modeFixd 10 p serving
      (Machine.reach_of_run ruled ran)⟩
  · have ran : ∃ p ∈ Machine.run (step (TaskFuture.futureBackend 0))
        (configured 0 TaskFuture.emptySide .modeFixd 1 10 : TaskFuture.FuturePool Nat Nat) fullQueue,
        p.submits[1]? = some ⟨6, .blocked⟩ ∧ p.startCall = .returned ∧
        p.destroyCall = .notCalled := by decide +kernel
    obtain ⟨p, ran, waits, returned, standing⟩ := ran
    have orderly : Machine.Obeys (step (TaskFuture.futureBackend 0)) (Orderly 1)
        (configured 0 TaskFuture.emptySide .modeFixd 1 10 : TaskFuture.FuturePool Nat Nat)
        fullQueue := by decide +kernel
    have serving : Serving (TaskFuture.futureBackend 0) 1 .modeFixd 1 10 TaskFuture.emptySide p :=
      ⟨Machine.reach_of_run orderly ran, by simp [returned], by simp [Stuck, standing]⟩
    exact ⟨p, waits, (requests_served (by decide) (by decide)).2 0 .modeFixd 10 p serving⟩

end ThreadPool
