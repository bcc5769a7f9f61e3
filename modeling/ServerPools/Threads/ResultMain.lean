import ServerPools.Threads.ResultGets

/- A main that takes its values with get().cast_<T>(), one Result after the other, as main.cpp
   does. A throw of cast_ has no handler and ends main where it stands. -/
namespace TaskResult
open ThreadPool
variable {τ ι : Type} [DecidableEq τ] [DecidableEq ι] {data : ι → Type} {t : ι}

theorem cast_ok_iff {any : Any (Derive data)} {value : data t} :
    cast_ t any = .ok value ↔ any = some ⟨t, value⟩ := by
  rcases any with _ | ⟨u, stored⟩
  · simp [cast_]
  · by_cases same : u = t
    · subst same
      simp [cast_]
    · simp [cast_, same]

/-- get().cast_<T>() and the destructor of a Result, for either version of Result: gets are the
    calls of get, numbered in the order in which main makes them. -/
def castGetter {ρ σ : Type} (B : Backend τ ρ σ (Any (Derive data)) ClientAction)
    (gets : ρ → List (Get (Derive data))) (t : ι) : Getter B (data t) where
  call s i := B.client s (.get i)
  next s i :=
    match (gets s)[i]? with
    | none => none
    | some g =>
      match g.pc with
      | .returned any =>
        match cast_ t any with
        | .ok value => some (s, some value)
        | .error _ => none
      | _ => (B.client s (.getNext i)).map fun s => (s, none)
  drop s i := B.client s (.drop i)
  own
    | .get _ | .getNext _ => True
    | _ => False
  parting
    | .drop _ => True
    | _ => False
  stirs
    | .getStir _ => True
    | _ => False
  call_client called := Or.inr ⟨.get _, trivial, called⟩
  next_client {r r' i v} next := by
    split at next
    · contradiction
    · split at next
      · split at next
        · cases next
          exact Or.inl rfl
        · contradiction
      · obtain ⟨after, taken, same⟩ := Option.map_eq_some_iff.mp next
        cases same
        exact Or.inr ⟨.getNext i, trivial, taken⟩
  drop_client dropped := Or.inr ⟨.drop _, trivial, dropped⟩

def resultGetter (t : ι) :
    Getter (resultBackend : Backend τ (Side τ (Derive data)) (Stage (Derive data)) (Any (Derive data))
      ClientAction) (data t) :=
  castGetter resultBackend Side.gets t

/-- The two ways a get of main goes on. -/
theorem next_some {s s' : Side τ (Derive data)} {i : Nat} {v : Option (data t)}
    (next : (resultGetter t).next s i = some (s', v)) :
    (∃ g value, s.gets[i]? = some g ∧ g.pc = .returned (some ⟨t, value⟩) ∧ s' = s ∧ v = some value) ∨
      getNext s i = some s' ∧ v = none := by
  simp only [resultGetter, castGetter] at next
  split at next
  · contradiction
  · rename_i g here
    split at next
    · rename_i any pc
      split at next
      · rename_i value ok
        cases next
        rw [cast_ok_iff.mp ok] at pc
        exact Or.inl ⟨g, value, here, pc, rfl, rfl⟩
      · contradiction
    · obtain ⟨after, taken, same⟩ := Option.map_eq_some_iff.mp next
      cases same
      exact Or.inr ⟨taken, rfl⟩

end TaskResult

namespace ThreadPool

/-- The calls of get that main has made. -/
def MainPc.asked (all : Nat) : MainPc → Nat
  | .entered | .starting | .submitting _ | .awaiting _ => 0
  | .asking i => i
  | .getting i => i + 1
  | .dropping _ | .leaving | .returned => all

/-- What main has not destroyed yet. -/
def MainPc.kept (all : Nat) : MainPc → Nat
  | .dropping left => left
  | .leaving | .returned => 0
  | _ => all

end ThreadPool

namespace TaskResult
open ThreadPool
variable {τ ι : Type} {data : ι → Type} {t : ι} {script : Script τ (Any (Derive data))} {n : Nat}
  {mode : PoolMode} {threadhold threshold : Int}
  {s s' : Program τ (Side τ (Derive data)) (Stage (Derive data)) (data t)}

/-- The gets are as far as main has brought them, and its values are what they returned. -/
structure Asked (script : Script τ (Any (Derive data)))
    (s : Program τ (Side τ (Derive data)) (Stage (Derive data)) (data t)) : Prop where
  order : s.pool.results.gets.map Get.result = List.range (s.main.asked script.tasks.length)
  told : ∀ (i : Nat) (value : data t), s.answers[i]? = some value →
    ∃ g, s.pool.results.gets[i]? = some g ∧ g.pc = .returned (some ⟨t, value⟩)

theorem Asked.same (asked : Asked script s) (kept : GetsKept s.pool.results s'.pool.results)
    (calls : s'.main.asked script.tasks.length = s.main.asked script.tasks.length)
    (answers : s'.answers = s.answers) : Asked script s' := by
  refine ⟨?_, fun i value told => ?_⟩
  · rw [kept.order, calls]
    exact asked.order
  · obtain ⟨g, here, returned⟩ := asked.told i value (answers ▸ told)
    exact ⟨g, kept.told i g _ here returned, returned⟩

theorem Asked.get (asked : Asked script s) {i : Nat} {g : Get (Derive data)}
    (here : s.pool.results.gets[i]? = some g) : g.result = i := by
  have placed : (s.pool.results.gets.map Get.result)[i]? = some g.result := by
    rw [List.getElem?_map, here]
    rfl
  rw [asked.order] at placed
  obtain ⟨_, same⟩ := List.getElem?_eq_some_iff.mp placed
  simpa using same.symm

/-- A get that has passed the semaphore is one of an executed task, and what it returns is what
    run() returned. -/
theorem passed_executed {p : ResultPool τ (Derive data)} (handshake : Handshake p) (history : History p)
    {i : Nat} {c : Submit τ} (here : p.submits[i]? = some c) (accepted : c.pc = .accepted)
    {g : Get (Derive data)} (member : g ∈ p.results.gets) (on : g.result = i) (past : g.pc.passed) :
    ⟨c.task, i⟩ ∈ p.executed ∧ ∀ any, g.pc = .returned any → p.results.produced i = some any := by
  have inside : g.pc ∈ (p.results.view i).gets := List.mem_filterMap.mpr ⟨g, member, if_pos on⟩
  rcases handshake.accepted_result history here accepted with
    ⟨_, _, _, _, filled⟩ | ⟨executed, r, value, posted⟩
  · simp [filled.gets g.pc inside] at past
  · refine ⟨executed, fun any returned => ?_⟩
    rw [posted.returned any (returned ▸ inside)]
    exact posted.produced

/-- Where main destroys its Results all its gets have returned, so their tasks are executed. -/
theorem dropping_executed (tracks : Tracks script s) (asked : Asked script s)
    (handshake : Handshake s.pool) (history : History s.pool) {left : Nat} (place : s.main = .dropping left) {i : Nat}
    {c : Submit τ} (here : s.pool.submits[i]? = some c) (accepted : c.pc = .accepted) :
    ∃ e ∈ s.pool.executed, e.sub = i := by
  have calls := tracks.calls_length
  have answers := tracks.answers
  rw [place] at calls answers
  simp only [MainPc.called, MainPc.answered] at calls answers
  have short : i < s.answers.length := by
    rw [answers, ← calls]
    exact (List.getElem?_eq_some_iff.mp here).1
  obtain ⟨g, there, returned⟩ := asked.told i _ (List.getElem?_eq_getElem short)
  exact ⟨_, (passed_executed handshake history here accepted (Agents.mem_of_position there)
    (asked.get there) (by simp [returned, GetPc.passed])).1, rfl⟩

/-- What a get of main returns is what its task computes; it is empty if the task was refused. -/
theorem told_right (tracks : Tracks script s) (handshake : Handshake s.pool) (history : History s.pool)
    (computed : Computed script.run s.pool) {g : Get (Derive data)} (member : g ∈ s.pool.results.gets)
    {any : Any (Derive data)} (returned : g.pc = .returned any) :
    ∃ c, s.pool.submits[g.result]? = some c ∧ script.tasks[g.result]? = some c.task ∧
      (c.pc = .accepted ∧ any = script.run c.task ∨ c.pc = .rejected ∧ any = none) := by
  have inside : g.pc ∈ (s.pool.results.view g.result).gets :=
    List.mem_filterMap.mpr ⟨g, member, if_pos rfl⟩
  obtain ⟨c, here, final⟩ : ∃ c, s.pool.submits[g.result]? = some c ∧ c.pc.final := by
    by_contra none_final
    have unborn := handshake.unborn g.result fun c here => by
      cases final : c.pc.final with
      | false => rfl
      | true => exact absurd ⟨c, here, final⟩ none_final
    simp [unborn.gets] at inside
  refine ⟨c, here, tracks.task here, ?_⟩
  cases pc : c.pc with
  | accepted =>
    have passed := passed_executed handshake history here pc member rfl (by simp [returned, GetPc.passed])
    obtain ⟨d, there, value⟩ := computed g.result any (passed.2 any returned)
    obtain rfl : c = d := Option.some.inj (here.symm.trans there)
    exact Or.inl ⟨rfl, value⟩
  | rejected =>
    rcases (handshake.refused g.result c here pc).gets g.pc inside with entering | empty
    · simp [returned] at entering
    · exact Or.inr ⟨rfl, by simpa [returned] using empty⟩
  | entering | blocked | woken | timedOut => simp [pc, SubmitPc.final] at final

variable [DecidableEq τ] [DecidableEq ι]

theorem main_asked (tracks : Tracks script s) (asked : Asked script s)
    (taken : MainStep resultBackend (resultGetter t) script s s') : Asked script s' := by
  have still {a : Action τ (Any (Derive data)) ClientAction}
      (stepped : step resultBackend s.pool a = some s'.pool) (other : ∀ i, a ≠ .client (.get i)) :=
    step_gets other stepped
  cases taken with
  | calls place stepped | starts place running stepped | submits place more stepped
  | waits place here open_ stepped | leaves place stepped | destroys place alive stepped =>
    exact asked.same (still stepped (by simp)) (by simp [place, MainPc.asked]) rfl
  | started place | settles place | returns place =>
    exact asked.same (gets_same rfl) (by simp [place, MainPc.asked]) rfl
  | submitted place all => exact asked.same (gets_same rfl) (by simp [place, MainPc.asked]) rfl
  | @asked i place all =>
    have inside := tracks.inside
    rw [place] at inside
    have last : script.tasks.length = i := by
      simp only [MainPc.inside] at inside
      omega
    exact asked.same (gets_same rfl) (by simp [place, MainPc.asked, last]) rfl
  | @asks i results place more called =>
    have order := asked.order
    obtain ⟨after, same⟩ : results.gets = s.pool.results.gets ++ [⟨i, .entering⟩] ∧ True := by
      simp only [resultGetter, castGetter, resultBackend, client] at called
      split at called
      · contradiction
      · split at called <;> cases called
        exact ⟨rfl, trivial⟩
    rw [place] at order
    refine ⟨?_, fun j value told => ?_⟩
    · simp only [MainPc.asked] at order ⊢
      rw [after, List.map_append, order, List.range_succ]
      rfl
    · obtain ⟨g, here, returned⟩ := asked.told j value told
      refine ⟨g, ?_, returned⟩
      rw [after, List.getElem?_append_left (List.getElem?_eq_some_iff.mp here).1]
      exact here
  | @gets i results place next =>
    rcases next_some next with ⟨_, _, _, _, _, absent⟩ | ⟨taken, _⟩
    · contradiction
    · exact asked.same (getNext_gets taken) (by simp [place]) rfl
  | @answers i results value place next =>
    rcases next_some next with ⟨g, v, here, returned, rfl, same⟩ | ⟨_, absent⟩
    · obtain rfl := Option.some.inj same
      have length := tracks.answers
      have order := asked.order
      rw [place] at length order
      refine ⟨order, fun j w told => ?_⟩
      rcases Nat.lt_or_ge j s.answers.length with old | new
      · rw [List.getElem?_append_left old] at told
        exact asked.told j w told
      · rw [List.getElem?_append_right new] at told
        obtain ⟨zero, rfl⟩ := List.getElem?_eq_some_iff.mp told
        obtain rfl : j = i := by
          simp only [List.length_singleton, MainPc.answered] at zero length
          omega
        exact ⟨g, here, by simpa using returned⟩
    · contradiction
  | @drops left results place dropped =>
    exact asked.same (client_gets (k := .drop left) (by simp) dropped) (by simp [place, MainPc.asked]) rfl

theorem driven_rules (apart : script.tasks.Nodup) {p : ResultPool τ (Derive data)}
    {a : Action τ (Any (Derive data)) ClientAction} (driven : Driven (resultGetter t) script p a)
    (drop : ∀ i, a = .client (.drop i) → HandshakeRules p a) : HandshakeRules p a := by
  cases a with
  | call task =>
    obtain ⟨_, _, next, before⟩ := driven
    intro c member same
    have earlier : c.task ∈ script.tasks.take p.submits.length := by
      rw [← before]
      exact List.mem_map_of_mem member
    obtain ⟨j, inside, there⟩ := List.getElem_of_mem earlier
    rw [List.getElem_take] at there
    obtain ⟨bound, here⟩ := List.getElem?_eq_some_iff.mp next
    rw [List.length_take] at inside
    have twice : j = p.submits.length := (List.Nodup.getElem_inj_iff apart).mp (there.trans (same.trans here.symm))
    omega
  | client k =>
    cases k with
    | drop i => exact drop i rfl
    | get | getNext | getStir => trivial
  | submit | submitTimeout | submitStir | callStart | start | worker | workerTimeout | workerStir | exec
  | idle | destroy | destroyNext | destroyStir | otherThread => trivial

/-- Every run of such a main keeps the rules of the handshake in its pool. -/
theorem result_pool (size : script.initThreadSize = n) (apart : script.tasks.Nodup)
    (reached : Machine.Reach (programStep resultBackend (resultGetter t) script)
      (Scheduled (resultGetter t) script) (launch mode threadhold threshold emptySide) s) :
    Asked script s ∧ Machine.Reach (step resultBackend) HandshakeRules
      (configured 0 emptySide mode threadhold threshold) s.pool := by
  induction reached with
  | start =>
    refine ⟨?_, .start⟩
    unfold launch
    rw [configured_fields]
    constructor <;> simp [newPool, emptySide, MainPc.asked]
  | @next s s' turn before permit taken ih =>
    obtain ⟨asked, rules⟩ := ih
    obtain ⟨tracks, driven⟩ := program_pool size before
    cases turn with
    | main =>
      have moved := mainNext_step taken
      have orderly : Machine.Reach (step resultBackend) (Orderly n)
          (configured 0 emptySide mode threadhold threshold) s.pool :=
        driven.weaken fun p a driven => size ▸ driven_orderly driven
      refine ⟨main_asked tracks asked moved, ?_⟩
      rcases main_pool tracks (reachable_manned (by omega) orderly).found moved with
        same | ⟨a, fits, own, stepped⟩
      · rwa [same]
      · refine rules.next (driven_rules apart fits fun i dropped => ?_) stepped
        subst dropped
        obtain ⟨left, place⟩ : ∃ left, s.main = .dropping left := by
          rcases own with get | ⟨_, place⟩
          · exact get.elim
          · exact place
        intro c here accepted
        exact dropping_executed tracks asked (reachable_handshake rules).1
          (reachable_history rules.reachable) place here accepted
    | env a =>
      obtain ⟨q, stepped, rfl⟩ := Option.map_eq_some_iff.mp taken
      have fits := (ambient_driven permit).1
      refine ⟨asked.same (step_gets (fun i called => ?_) stepped) rfl rfl,
        rules.next (driven_rules apart fits fun i dropped => ?_) stepped⟩
      · subst called
        exact permit.elim
      · subst dropped
        exact permit.elim

section Right
variable (size : script.initThreadSize = n) (apart : script.tasks.Nodup)
  (reached : Machine.Reach (programStep resultBackend (resultGetter t) script)
    (Scheduled (resultGetter t) script) (launch mode threadhold threshold emptySide) s)
include size apart reached

theorem gets_right (bounded : 0 ≤ threadhold ∧ threadhold < 2 ^ 31) {g : Get (Derive data)}
    (member : g ∈ s.pool.results.gets) {any : Any (Derive data)} (returned : g.pc = .returned any) :
    ∃ task, script.tasks[g.result]? = some task ∧
      (any = script.run task ∨ any = none ∧ threadhold < script.tasks.length) := by
  obtain ⟨tracks, driven⟩ := program_pool size reached
  obtain ⟨c, here, task, ⟨_, right⟩ | ⟨rejected, empty⟩⟩ := told_right tracks
    (reachable_handshake (result_pool size apart reached).2).1 (reachable_history driven.reachable)
    (reachable_computed (driven_reach_bound driven)) member returned
  · exact ⟨c.task, task, Or.inl right⟩
  · refine ⟨c.task, task, Or.inr ⟨empty, ?_⟩⟩
    by_contra few
    have length := congrArg List.length tracks.tasks
    rw [List.length_map, List.length_take] at length
    exact none_rejected bounded driven.reachable (by omega) here rejected

theorem answers_right {j : Nat} {v : data t} (told : s.answers[j]? = some v) :
    ∃ task, script.tasks[j]? = some task ∧ script.run task = some ⟨t, v⟩ := by
  obtain ⟨tracks, driven⟩ := program_pool size reached
  obtain ⟨asked, rules⟩ := result_pool size apart reached
  obtain ⟨g, here, returned⟩ := asked.told j v told
  obtain ⟨c, _, task, ⟨_, right⟩ | ⟨_, empty⟩⟩ := told_right tracks (reachable_handshake rules).1
    (reachable_history driven.reachable) (reachable_computed (driven_reach_bound driven))
    (Agents.mem_of_position here) returned
  · exact ⟨c.task, asked.get here ▸ task, right.symm⟩
  · contradiction

end Right

/-- Under every schedule: every value main has is what its task computes, also when a wait has
    timed out. A get that leads cast_ to a throw for a task of the right type is one of a task
    that a full queue refused. When main has returned the pool has run everything and its threads
    are gone. -/
theorem result_main_safe (positive : 1 ≤ n) (bounded : 0 ≤ threadhold ∧ threadhold < 2 ^ 31)
    (size : script.initThreadSize = n) (apart : script.tasks.Nodup)
    (reached : Machine.Reach (programStep resultBackend (resultGetter t) script)
      (Scheduled (resultGetter t) script) (launch mode threadhold threshold emptySide) s) :
    (∀ (j : Nat) (v : data t), s.answers[j]? = some v →
      ∃ task, script.tasks[j]? = some task ∧ script.run task = some ⟨t, v⟩) ∧
    (∀ g ∈ s.pool.results.gets, ∀ any, g.pc = .returned any →
      ∃ task, script.tasks[g.result]? = some task ∧
        (any = script.run task ∨ any = none ∧ threadhold < script.tasks.length)) ∧
    (s.main = .returned → s.answers.length = script.tasks.length ∧ AllServed s.pool ∧
      s.pool.threads = []) := by
  refine ⟨fun j v told => answers_right size apart reached told,
    fun g member any returned => gets_right size apart reached bounded member returned, ?_⟩
  intro done
  obtain ⟨tracks, driven⟩ := program_pool size reached
  have orderly := driven.weaken fun _ _ driven => size ▸ driven_orderly driven
  have gone := tracks.gone done
  have served := returned_served positive orderly gone
  have length := tracks.answers
  rw [done] at length
  exact ⟨length, served, (served.closed (by simp [gone])).2⟩

section Refused

/-- The types that the program stores in an Any, and what is stored as such. -/
inductive Stored where
  | int
  deriving DecidableEq, Repr

abbrev Stored.type : Stored → Type
  | .int => Int

instance : ∀ u, DecidableEq (Stored.type u)
  | .int => inferInstanceAs (DecidableEq Int)

instance : DecidablePred (resultGetter t : Getter (resultBackend :
    Backend τ (Side τ (Derive data)) (Stage (Derive data)) (Any (Derive data)) ClientAction) _).stirs
  | .getStir _ => .isTrue trivial
  | .get _ | .getNext _ | .drop _ => .isFalse id

/-- One thread, a queue of one, and a second submission that waits for a second in vain. -/
def hurried : Script (Int × Int) (Any (Derive Stored.type)) :=
  ⟨1, [(1, 2), (3, 4)], fun args => some ⟨.int, args.1 + args.2⟩⟩

def refusedSecond : List (Turn (Int × Int) (Any (Derive Stored.type)) ClientAction) :=
  List.replicate 15 .main ++ [.env (.submitTimeout 1)] ++ List.replicate 4 .main ++
    [.env (.worker 0 false)] ++ List.replicate 5 (.env (.exec 0 (some ⟨.int, 3⟩))) ++ [.env (.idle 0)] ++
    List.replicate 5 .main

/-- The get of the second Result returns an empty Any, and cast_ throws. -/
theorem result_main_safe_refused :
    ∃ s : Program (Int × Int) (Side (Int × Int) (Derive Stored.type)) (Stage (Derive Stored.type)) Int,
      s.main = .getting 1 ∧ s.answers = [3] ∧ (∃ g ∈ s.pool.results.gets, g.pc = .returned none) ∧
      (∀ (j : Nat) (v : Int), s.answers[j]? = some v →
        ∃ task, hurried.tasks[j]? = some task ∧ hurried.run task = some ⟨.int, v⟩) := by
  have obeys : Machine.Obeys (programStep resultBackend (resultGetter Stored.int) hurried)
      (Scheduled (resultGetter .int) hurried) (launch .modeFixd 1 10 emptySide) refusedSecond := by
    decide +kernel
  have ran : ∃ s ∈ Machine.run (programStep resultBackend (resultGetter Stored.int) hurried)
      (launch .modeFixd 1 10 emptySide) refusedSecond,
      s.main = .getting 1 ∧ s.answers = [3] ∧ ∃ g ∈ s.pool.results.gets, g.pc = .returned none := by
    decide +kernel
  obtain ⟨s, reached, place, answers, empty⟩ := Machine.reach_visits _ obeys ran
  exact ⟨s, place, answers, empty,
    (result_main_safe (by decide) (by decide) rfl (by decide) reached).1⟩

end Refused

end TaskResult
