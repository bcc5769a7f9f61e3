import Mathlib.Data.List.Basic

/- Null-terminated lists threaded through a memory: the nodes as a list, the record each
   of them makes with the address of its successor, and the walk along next. -/
namespace Linked
variable {α β : Type} {address : α → Nat} {node : α → Nat → β} {tail : Nat} {a : α}

/-- The address of the first node, or tail where there is none. -/
def headOr (address : α → Nat) (tail : Nat) : List α → Nat
  | [] => tail
  | a :: _ => address a

def links (address : α → Nat) (node : α → Nat → β) (tail : Nat) : List α → List β
  | [] => []
  | a :: rest => node a (headOr address tail rest) :: links address node tail rest

@[simp] theorem headOr_nil : headOr address tail [] = tail := rfl

@[simp] theorem headOr_cons {rest : List α} : headOr address tail (a :: rest) = address a := rfl

theorem headOr_append (xs ys : List α) :
    headOr address tail (xs ++ ys) = headOr address (headOr address tail ys) xs := by
  cases xs <;> rfl

@[simp] theorem links_nil : links address node tail [] = [] := rfl

@[simp] theorem links_cons {rest : List α} : links address node tail (a :: rest) =
    node a (headOr address tail rest) :: links address node tail rest := rfl

theorem links_append (xs ys : List α) : links address node tail (xs ++ ys) =
    links address node (headOr address tail ys) xs ++ links address node tail ys := by
  induction xs with
  | nil => rfl
  | cons x xs ih => simp only [List.cons_append, links_cons, headOr_append, ih]

theorem mem_links {r : β} {list : List α} (member : r ∈ links address node tail list) :
    ∃ a ∈ list, ∃ next, r = node a next := by
  induction list with
  | nil => simp at member
  | cons a rest ih =>
    rcases List.mem_cons.mp member with rfl | later
    · exact ⟨a, by simp, _, rfl⟩
    · obtain ⟨b, inside, next, same⟩ := ih later
      exact ⟨b, by simp [inside], next, same⟩

/-- Two kinds of records of the same nodes. -/
theorem mem_links_both {γ : Type} {other : α → Nat → γ} {r : γ} {list : List α}
    (member : r ∈ links address other tail list) :
    ∃ a ∈ list, ∃ next, r = other a next ∧ node a next ∈ links address node tail list := by
  induction list with
  | nil => simp at member
  | cons a rest ih =>
    rcases List.mem_cons.mp member with rfl | later
    · exact ⟨a, by simp, _, rfl, by simp⟩
    · obtain ⟨b, inside, next, same, here⟩ := ih later
      exact ⟨b, by simp [inside], next, same, by simp [here]⟩

theorem headOr_map {f : α → α} (same : ∀ a, address (f a) = address a) (list : List α) :
    headOr address tail (list.map f) = headOr address tail list := by
  cases list with
  | nil => rfl
  | cons a rest => exact same a

theorem links_map {f : α → α} (same : ∀ a, address (f a) = address a) (list : List α) :
    links address node tail (list.map f) = links address (fun a => node (f a)) tail list := by
  induction list with
  | nil => rfl
  | cons a rest ih => simp only [List.map_cons, links_cons, headOr_map same, ih]

theorem map_links {γ : Type} {f : β → γ} {g : α → γ} (same : ∀ a next, f (node a next) = g a)
    (list : List α) : (links address node tail list).map f = list.map g := by
  induction list with
  | nil => rfl
  | cons a rest ih => simp only [links_cons, List.map_cons, same, ih]

theorem links_mem {list : List α} (member : a ∈ list) :
    ∃ next, node a next ∈ links address node tail list := by
  obtain ⟨xs, ys, rfl⟩ := List.append_of_mem member
  exact ⟨headOr address tail ys, by simp [links_append]⟩

/-- The walk from a node along next meets exactly these nodes and then null. -/
def Follows (next : Nat → Nat) : Nat → List Nat → Prop
  | a, [] => a = 0
  | a, b :: rest => a = b ∧ b ≠ 0 ∧ Follows next (next b) rest

def followsDecidable (next : Nat → Nat) :
    ∀ (a : Nat) (list : List Nat), Decidable (Follows next a list)
  | a, [] => inferInstanceAs (Decidable (a = 0))
  | a, b :: rest =>
    have := followsDecidable next (next b) rest
    inferInstanceAs (Decidable (a = b ∧ b ≠ 0 ∧ Follows next (next b) rest))

instance {next : Nat → Nat} {a : Nat} {list : List Nat} : Decidable (Follows next a list) :=
  followsDecidable next a list

variable {next : Nat → Nat}

theorem Follows.unique {start : Nat} {left right : List Nat} (first : Follows next start left)
    (second : Follows next start right) : left = right := by
  induction left generalizing start right with
  | nil =>
    cases right with
    | nil => rfl
    | cons b rest => exact absurd (second.1.symm.trans first) second.2.1
  | cons a rest ih =>
    obtain ⟨rfl, full, later⟩ := first
    cases right with
    | nil => exact absurd second full
    | cons b others =>
      obtain ⟨rfl, _, more⟩ := second
      rw [ih later more]

theorem Follows.congr {other : Nat → Nat} {start : Nat} {list : List Nat}
    (follows : Follows next start list) (same : ∀ a ∈ list, other a = next a) :
    Follows other start list := by
  induction list generalizing start with
  | nil => exact follows
  | cons a rest ih =>
    obtain ⟨rfl, full, later⟩ := follows
    refine ⟨rfl, full, ?_⟩
    rw [same _ List.mem_cons_self]
    exact ih later fun b member => same b (List.mem_cons_of_mem _ member)

/-- A node that is its own successor is on no such list. -/
theorem not_follows_self {a : Nat} (full : a ≠ 0) (loop : next a = a) (list : List Nat) :
    ¬Follows next a list := by
  induction list with
  | nil => exact full
  | cons b rest ih =>
    rintro ⟨rfl, _, later⟩
    rw [loop] at later
    exact ih later

/-- Nodes that hold their successors' addresses are met in their order. -/
theorem follows_of_links {nodes : List α} (full : ∀ a ∈ nodes, address a ≠ 0)
    (holds : ∀ xs a ys, nodes = xs ++ a :: ys → next (address a) = headOr address 0 ys) :
    Follows next (headOr address 0 nodes) (nodes.map address) := by
  induction nodes with
  | nil => rfl
  | cons a rest ih =>
    have step : next (address a) = headOr address 0 rest := holds [] a rest rfl
    have later := ih (fun b member => full b (by simp [member])) fun xs b ys split =>
      holds (a :: xs) b ys (by simp [split])
    exact ⟨rfl, full a (by simp), by rwa [step]⟩

end Linked
