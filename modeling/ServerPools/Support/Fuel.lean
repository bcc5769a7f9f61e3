import Mathlib.Logic.Basic

/- Loops that take fuel. A computation settles on a result when some fuel is enough for
   it and less fuel gives the same result or none. -/
namespace Fuel
variable {α β : Type} {x y : Nat → Option α} {a : α} {bound wider : Nat}

structure Settles (x : Nat → Option α) (bound : Nat) (a : α) : Prop where
  enough : ∀ n, bound ≤ n → x n = some a
  only : ∀ n b, x n = some b → b = a

theorem Settles.widen (settles : Settles x bound a) (wide : bound ≤ wider) :
    Settles x wider a :=
  ⟨fun n large => settles.enough n (Nat.le_trans wide large), settles.only⟩

theorem settles_of_eq (same : ∀ n, x n = some a) : Settles x 0 a := by
  constructor
  · intro n _
    exact same n
  · intro n b returned
    exact (Option.some.inj ((same n).symm.trans returned)).symm

theorem Settles.congr (settles : Settles x bound a) (same : ∀ n, y n = x n) :
    Settles y bound a := by
  have equal : y = x := funext same
  rwa [equal]

/-- Two computations in a row, on one fuel. -/
theorem Settles.bind {f : Nat → α → Option β} {b : β} {later : Nat} (first : Settles x bound a)
    (second : Settles (fun n => f n a) later b) :
    Settles (fun n => (x n).bind (f n)) (max bound later) b := by
  constructor
  · intro n large
    have left := first.enough n (by omega)
    have right := second.enough n (by omega)
    simpa [left] using right
  · intro n c returned
    obtain ⟨mid, ran, rest⟩ := Option.bind_eq_some_iff.mp returned
    obtain rfl := first.only n mid ran
    exact second.only n c rest

theorem Settles.map {f : α → β} (first : Settles x bound a) :
    Settles (fun n => (x n).map f) bound (f a) := by
  constructor
  · intro n large
    simp [first.enough n large]
  · intro n b returned
    obtain ⟨c, ran, rfl⟩ := Option.map_eq_some_iff.mp returned
    rw [first.only n c ran]

/-- One round of a loop costs one unit. -/
theorem Settles.round (dry : y 0 = none) (same : ∀ n, y (n + 1) = x n)
    (settles : Settles x bound a) : Settles y (bound + 1) a := by
  constructor
  · intro n large
    cases n with
    | zero => omega
    | succ n =>
      rw [same]
      exact settles.enough n (by omega)
  · intro n b returned
    cases n with
    | zero => simp [dry] at returned
    | succ n => exact settles.only n b (by rwa [← same])

/-- A while loop on a state. The body has no result where it throws; a loop that runs out of
    fuel has none at all. -/
def loop (stop : α → Bool) (body : α → Option α) : Nat → α → Option (Option α)
  | 0, _ => none
  | n + 1, s =>
    if stop s then some (some s)
    else
      match body s with
      | none => some none
      | some t => loop stop body n t

section Loop
variable {stop : α → Bool} {body : α → Option α} {s t : α} {n : Nat}

theorem loop_done (halted : stop s) : loop stop body (n + 1) s = some (some s) := by
  rw [loop, if_pos halted]

theorem loop_round (running : ¬stop s) (ran : body s = some t) :
    loop stop body (n + 1) s = loop stop body n t := by
  rw [loop, if_neg running, ran]

theorem loop_settles_done (halted : stop s) :
    Settles (fun n => loop stop body n s) 1 (some s) :=
  Settles.round rfl (fun _ => loop_done halted) (settles_of_eq fun _ => rfl)

theorem loop_settles_round {bound : Nat} {last : Option α} (running : ¬stop s) (ran : body s = some t)
    (later : Settles (fun n => loop stop body n t) bound last) :
    Settles (fun n => loop stop body n s) (bound + 1) last :=
  Settles.round rfl (fun _ => loop_round running ran) later

/-- A loop that is left is left in a state that stops it and that the invariant holds of. -/
theorem loop_left (Inv : α → Prop)
    (keeps : ∀ s t, Inv s → ¬stop s → body s = some t → Inv t) (first : Inv s)
    (left : loop stop body n s = some (some t)) : stop t ∧ Inv t := by
  induction n generalizing s with
  | zero => contradiction
  | succ n ih =>
    by_cases halted : stop s
    · rw [loop_done halted] at left
      obtain rfl := Option.some.inj (Option.some.inj left)
      exact ⟨halted, first⟩
    · cases ran : body s with
      | none => simp [loop, halted, ran] at left
      | some next =>
        rw [loop_round halted ran] at left
        exact ih (keeps s next first halted ran) left

/-- A body that never throws makes a loop that never throws. -/
theorem loop_not_thrown (returns : ∀ s, ∃ t, body s = some t) : loop stop body n s ≠ some none := by
  induction n generalizing s with
  | zero => simp [loop]
  | succ n ih =>
    by_cases halted : stop s
    · simp [loop_done halted]
    · obtain ⟨next, ran⟩ := returns s
      rw [loop_round halted ran]
      exact ih

/-- A measure that falls with every round that does not stop the loop bounds the rounds. -/
theorem loop_leaves (Inv : α → Prop) (measure : α → Nat)
    (falls : ∀ s, Inv s → ¬stop s → ∃ t, body s = some t ∧ (stop t ∨ Inv t ∧ measure t < measure s))
    (first : Inv s) (near : measure s ≤ n) : ∃ t, loop stop body (n + 2) s = some (some t) := by
  induction n generalizing s with
  | zero =>
    by_cases halted : stop s
    · exact ⟨s, loop_done halted⟩
    · obtain ⟨next, ran, stops | ⟨_, less⟩⟩ := falls s first halted
      · exact ⟨next, (loop_round halted ran).trans (loop_done stops)⟩
      · omega
  | succ n ih =>
    by_cases halted : stop s
    · exact ⟨s, loop_done halted⟩
    · obtain ⟨next, ran, stops | ⟨kept, less⟩⟩ := falls s first halted
      · exact ⟨next, (loop_round halted ran).trans (loop_done stops)⟩
      · obtain ⟨last, left⟩ := ih kept (by omega)
        exact ⟨last, (loop_round halted ran).trans left⟩

end Loop

end Fuel
