import ServerPools.Threads.FutureMain

/- What every step leaves of the calls of get, and what run() returned for each submission. -/
namespace TaskResult
open ThreadPool
variable {τ : Type}

/-- The calls of get in the order they were made, and what the returned ones returned. -/
structure GetsKept {α : Type} (s s' : Side τ α) : Prop where
  order : s'.gets.map Get.result = s.gets.map Get.result
  told : ∀ (g : Nat) (get : Get α) (any : Any α), s.gets[g]? = some get → get.pc = .returned any →
    s'.gets[g]? = some get

section Kept
variable {α : Type} {s s' : Side τ α} {p q : ResultPool τ α}

theorem gets_same (same : s'.gets = s.gets) : GetsKept s s' :=
  ⟨congrArg _ same, fun _ _ _ here _ => same ▸ here⟩

theorem setGet_kept {g : Nat} {get : Get α} {pc : GetPc α} (here : s.gets[g]? = some get)
    (open_ : ∀ any, get.pc ≠ .returned any) (same : s'.gets = s.gets) :
    GetsKept s (setGet s' g get pc) := by
  unfold setGet
  rw [same]
  refine ⟨Agents.map_set_same here rfl, fun k other any there returned => ?_⟩
  have apart : g ≠ k := by
    rintro rfl
    obtain rfl : get = other := Option.some.inj (here.symm.trans there)
    exact open_ any returned
  change (s.gets.set g _)[k]? = some other
  rw [List.getElem?_set_ne apart]
  exact there

theorem post_gets {i : Nat} (posted : post s i = some s') : GetsKept s s' := by
  unfold post at posted
  split at posted
  · contradiction
  · split at posted <;> cases posted
    · exact gets_same rfl
    · have kept (g : Get α) : (g.wake i).result = g.result := by
        rcases g with ⟨result, pc⟩
        cases pc <;> simp only [Get.wake]
        split <;> rfl
      refine ⟨?_, fun g get any here returned => ?_⟩
      · simp [List.map_map, Function.comp_def, kept]
      · simp [here, Get.wake, returned]

theorem exec_gets {e : Entry τ} {stage : Stage α} {value : Any α} {next : Option (Stage α)}
    (ran : exec s e stage value = some (s', next)) : GetsKept s s' := by
  cases stage with
  | test =>
    simp only [exec] at ran
    split at ran <;> cases ran <;> exact gets_same rfl
  | load =>
    obtain ⟨i, _, same⟩ := Option.map_eq_some_iff.mp ran
    cases same
    exact gets_same rfl
  | runTask i =>
    cases ran
    exact gets_same rfl
  | store i any =>
    obtain ⟨r, _, same⟩ := Option.map_eq_some_iff.mp ran
    cases same
    exact gets_same rfl
  | post i =>
    obtain ⟨after, posted, same⟩ := Option.map_eq_some_iff.mp ran
    cases same
    exact post_gets posted

theorem getNext_gets {g : Nat} (taken : getNext s g = some s') : GetsKept s s' := by
  unfold getNext at taken
  split at taken
  · contradiction
  · rename_i get here
    have waits (r : Result α) (open_ : ∀ any, get.pc ≠ .returned any) :
        GetsKept s (semWait s g get r) := by
      unfold semWait
      split
      · exact setGet_kept here open_ rfl
      · exact setGet_kept here open_ rfl
    split at taken
    · contradiction
    · rename_i r object
      split at taken <;> rename_i pc
      · split at taken
        · split at taken <;> cases taken
          · exact setGet_kept here (by simp [pc]) rfl
          · exact waits r (by simp [pc])
        · cases taken
          exact setGet_kept here (by simp [pc]) rfl
      · cases taken
        exact waits r (by simp [pc])
      · cases taken
        exact setGet_kept here (by simp [pc]) rfl
      · contradiction

theorem client_gets {k : ClientAction} (other : ∀ i, k ≠ .get i) (taken : client s k = some s') :
    GetsKept s s' := by
  cases k with
  | get i => exact absurd rfl (other i)
  | getNext g => exact getNext_gets taken
  | getStir g =>
    simp only [client] at taken
    split at taken
    · contradiction
    · rename_i get here
      split at taken
      · rename_i blocked
        cases taken
        refine setGet_kept here (fun any returned => ?_) rfl
        simp [returned] at blocked
      · contradiction
  | drop i =>
    simp only [client] at taken
    split at taken
    · contradiction
    · split at taken
      · cases taken
        exact gets_same rfl
      · contradiction

variable [DecidableEq τ]

theorem step_gets {a : Action τ (Any α) ClientAction} (other : ∀ i, a ≠ .client (.get i))
    (taken : step resultBackend p a = some q) : GetsKept p.results q.results := by
  have outcome := (step_outcome taken).2
  cases outcome_move outcome with
  | quiet quiet results => exact gets_same (congrArg _ results)
  | accepts here awake room after | rejects here pc full after =>
    subst after
    exact gets_same rfl
  | takes here awake queue quiet results => exact gets_same (congrArg _ results)
  | execs here pc ran after | finishes here pc ran after =>
    subst after
    exact exec_gets ran
  | @clients k quiet done =>
    refine client_gets (fun i => ?_) done
    rintro rfl
    exact other i rfl

end Kept

section Produced
variable {α : Type} {s s' : Side τ α} {p q : ResultPool τ α}

theorem client_produced {k : ClientAction} (taken : client s k = some s') (j : Nat) :
    s'.produced j = s.produced j := by
  obtain ⟨_, i, away, move⟩ := client_moved taken
  by_cases own : j = i
  · subst own
    cases move with
    | called object live after | dropped object live idle after => exact congrArg View.produced after
    | moved object taken before object' produced' after => exact produced'
    | stirred object' produced' before after => exact produced'
  · exact congrArg View.produced (away j own)

theorem exec_produced {e : Entry τ} {stage : Stage α} {value : Any α} {next : Option (Stage α)}
    (ran : exec s e stage value = some (s', next)) :
    s'.produced = s.produced ∨ s'.produced = Function.update s.produced e.sub (some value) := by
  cases stage with
  | test =>
    simp only [exec] at ran
    split at ran <;> cases ran <;> exact Or.inl rfl
  | load =>
    obtain ⟨i, _, same⟩ := Option.map_eq_some_iff.mp ran
    cases same
    exact Or.inl rfl
  | runTask i =>
    cases ran
    exact Or.inr rfl
  | store i any =>
    obtain ⟨r, _, same⟩ := Option.map_eq_some_iff.mp ran
    cases same
    exact Or.inl rfl
  | post i =>
    obtain ⟨after, posted, same⟩ := Option.map_eq_some_iff.mp ran
    cases same
    unfold post at posted
    split at posted
    · contradiction
    · split at posted <;> cases posted <;> exact Or.inl rfl

/-- A submission keeps its task. -/
theorem task_kept {B : Backend τ (Side τ α) (Stage α) (Any α) ClientAction}
    {a : Action τ (Any α) ClientAction} (outcome : Outcome B p a q) {i : Nat} {c : Submit τ}
    (here : p.submits[i]? = some c) : ∃ d, q.submits[i]? = some d ∧ d.task = c.task := by
  have before : (p.submits.map Submit.task)[i]? = some c.task := by
    rw [List.getElem?_map, here]
    rfl
  have after : (q.submits.map Submit.task)[i]? = some c.task := by
    rcases outcome_tasks outcome with same | ⟨task, _, more⟩
    · rw [same]
      exact before
    · rw [more, List.getElem?_append_left (List.getElem?_eq_some_iff.mp before).1]
      exact before
  rw [List.getElem?_map] at after
  exact Option.map_eq_some_iff.mp after

/-- What run() returned for a submission is what its task computes. -/
def Computed (run : τ → Any α) (p : ResultPool τ α) : Prop :=
  ∀ (i : Nat) (value : Any α), p.results.produced i = some value →
    ∃ c, p.submits[i]? = some c ∧ value = run c.task

variable [DecidableEq τ] {run : τ → Any α}

theorem executes_computed (law : Computed run p) (history : History p) {w : Nat}
    {worker : Worker τ (Stage α)} {e : Entry τ} {stage : Stage α} {x : Any α} {results : Side τ α}
    {next : Option (Stage α)} (here : p.workers[w]? = some worker)
    (pc : worker.pc = .running e stage)
    (ran : (bound resultBackend run).exec p.results e stage x = some (results, next)) {i : Nat}
    {value : Any α} (produced : results.produced i = some value) :
    ∃ c, p.submits[i]? = some c ∧ value = run c.task := by
  rcases exec_produced ran with same | stored
  · exact law i value (same ▸ produced)
  · rw [stored] at produced
    by_cases own : i = e.sub
    · subst own
      rw [Function.update_self] at produced
      obtain rfl := Option.some.inj produced
      obtain ⟨c, there, _, task⟩ :=
        history.owned e (popped_accepted history (running_popped history here pc))
      exact ⟨c, there, by rw [task]⟩
    · rw [Function.update_of_ne own] at produced
      exact law i value produced

theorem reachable_computed {generateID : Nat} {mode : PoolMode} {threadhold threshold : Int}
    (reached : Machine.Reachable (step (bound resultBackend run))
      (configured generateID emptySide mode threadhold threshold) p) : Computed run p := by
  refine reached.invariant ?_ ?_
  · rw [configured_fields]
    intro i value produced
    simp [newPool, emptySide] at produced
  · intro p a q before law _ taken i value produced
    have outcome := (step_outcome taken).2
    have history := reachable_history before
    obtain ⟨c, here, ran⟩ : ∃ c, p.submits[i]? = some c ∧ value = run c.task := by
      cases outcome_move outcome with
      | quiet quiet results => exact law i value (results ▸ produced)
      | accepts here awake room after | rejects here pc full after =>
        subst after
        exact law i value produced
      | takes here awake queue quiet results => exact law i value (results ▸ produced)
      | execs here pc ran after | finishes here pc ran after =>
        subst after
        exact executes_computed law history here pc ran produced
      | clients quiet done =>
        rw [client_produced done] at produced
        exact law i value produced
    obtain ⟨d, there, same⟩ := task_kept outcome here
    exact ⟨d, there, same ▸ ran⟩

end Produced

end TaskResult
