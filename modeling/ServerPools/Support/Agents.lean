import Mathlib.Algebra.BigOperators.Group.List.Basic
import Mathlib.Algebra.Ring.Nat
import Mathlib.Data.List.Perm.Basic

/- Unboundedly many threads of control, kept as a list of local states. A step of
   one agent is List.set at its position; a broadcast is List.map. -/
namespace Agents
variable {α β : Type}

/-- The agent at a position stands in front of the others, whatever state it takes. -/
theorem single_out {agents : List α} {i : Nat} {a : α} (here : agents[i]? = some a) :
    ∃ rest, agents.Perm (a :: rest) ∧ ∀ b, (agents.set i b).Perm (b :: rest) := by
  obtain ⟨bound, rfl⟩ := List.getElem?_eq_some_iff.mp here
  exact ⟨agents.eraseIdx i, (List.getElem_cons_eraseIdx_perm bound).symm,
    fun b => List.set_perm_cons_eraseIdx bound b⟩

/-- One agent moves; the others count as they did. -/
theorem countP_set {f : α → Bool} {agents : List α} {i : Nat} {a : α} (here : agents[i]? = some a)
    (b : α) : (agents.set i b).countP f + (f a).toNat = agents.countP f + (f b).toNat := by
  obtain ⟨rest, before, after⟩ := single_out here
  rw [(after b).countP_eq f, before.countP_eq f, List.countP_cons, List.countP_cons]
  cases f a <;> cases f b <;> simp

/-- The weights of the others stay. -/
theorem sum_set {f : α → Nat} {agents : List α} {i : Nat} {a : α} (here : agents[i]? = some a)
    (b : α) : ((agents.set i b).map f).sum + f a = (agents.map f).sum + f b := by
  obtain ⟨rest, before, after⟩ := single_out here
  rw [((after b).map f).sum_eq, (before.map f).sum_eq, List.map_cons, List.map_cons,
    List.sum_cons, List.sum_cons]
  omega

/-- A broadcast that adds at most g to an agent's weight. -/
theorem sum_broadcast {f : α → Nat} {wake : α → α} {g : Nat} (gain : ∀ a, f (wake a) ≤ f a + g)
    (agents : List α) : ((agents.map wake).map f).sum ≤ (agents.map f).sum + g * agents.length := by
  induction agents with
  | nil => simp
  | cons a rest ih =>
    have first := gain a
    simp only [List.map_cons, List.sum_cons, List.length_cons, Nat.mul_succ]
    omega

theorem mem_of_position {agents : List α} {i : Nat} {a : α} (here : agents[i]? = some a) :
    a ∈ agents :=
  List.mem_of_getElem? here

theorem forall_set {P : α → Prop} {agents : List α} {i : Nat} {b : α}
    (all : ∀ a ∈ agents, P a) (new : P b) : ∀ a ∈ agents.set i b, P a := by
  intro a member
  rcases List.mem_or_eq_of_mem_set member with old | same
  · exact all a old
  · exact same ▸ new

theorem forall_map {P : β → Prop} {agents : List α} {f : α → β}
    (all : ∀ a ∈ agents, P (f a)) : ∀ b ∈ agents.map f, P b := by
  intro b member
  obtain ⟨a, old, rfl⟩ := List.mem_map.mp member
  exact all a old

/-- A view that the new state does not change is not changed by the step. -/
theorem filterMap_set_same {f : α → Option β} {agents : List α} {i : Nat} {a b : α}
    (here : agents[i]? = some a) (same : f b = f a) :
    (agents.set i b).filterMap f = agents.filterMap f := by
  induction agents generalizing i with
  | nil => simp at here
  | cons first rest ih =>
    cases i with
    | zero =>
      obtain rfl : first = a := by simpa using here
      simp [List.filterMap_cons, same]
    | succ i =>
      have tail := ih (by simpa using here)
      simp only [List.set_cons_succ, List.filterMap_cons, tail]

theorem map_set_same {f : α → β} {agents : List α} {i : Nat} {a b : α}
    (here : agents[i]? = some a) (same : f b = f a) : (agents.set i b).map f = agents.map f := by
  have shown : (agents.map f)[i]? = some (f b) := by rw [List.getElem?_map, here, same]; rfl
  obtain ⟨inside, eq⟩ := List.getElem?_eq_some_iff.mp shown
  rw [List.map_set, ← eq, List.set_getElem_self]

end Agents
