import Mathlib.Logic.Basic

/- Labelled machines with a partial step function. An action that is not enabled
   gives none; all nondeterminism is in the choice of the next action. -/
namespace Machine
variable {State Action : Type}

def run (step : State → Action → Option State) : State → List Action → Option State
  | s, [] => some s
  | s, a :: rest => (step s a).bind fun t => run step t rest

/-- Every step of the run meets the condition on its action and the state before it. -/
def Obeys (step : State → Action → Option State) (allowed : State → Action → Prop) :
    State → List Action → Prop
  | _, [] => True
  | s, a :: rest => allowed s a ∧ match step s a with
    | none => True
    | some t => Obeys step allowed t rest

def obeysDecidable (step : State → Action → Option State) (allowed : State → Action → Prop)
    [∀ s a, Decidable (allowed s a)] :
    ∀ (s : State) (actions : List Action), Decidable (Obeys step allowed s actions)
  | _, [] => .isTrue trivial
  | s, a :: rest =>
    match taken : step s a with
    | none => decidable_of_iff (allowed s a) (by simp [Obeys, taken])
    | some t =>
      have := obeysDecidable step allowed t rest
      decidable_of_iff (allowed s a ∧ Obeys step allowed t rest) (by simp [Obeys, taken])

instance {step : State → Action → Option State} {allowed : State → Action → Prop}
    [∀ s a, Decidable (allowed s a)] {s : State} {actions : List Action} :
    Decidable (Obeys step allowed s actions) := obeysDecidable step allowed s actions

/-- The states entered by runs whose steps all meet the condition. -/
inductive Reach (step : State → Action → Option State) (allowed : State → Action → Prop)
    (start : State) : State → Prop where
  | start : Reach step allowed start start
  | next {s t : State} {a : Action} (before : Reach step allowed start s)
      (permit : allowed s a) (taken : step s a = some t) : Reach step allowed start t

abbrev Reachable (step : State → Action → Option State) (start : State) : State → Prop :=
  Reach step (fun _ _ => True) start

variable {step : State → Action → Option State} {allowed : State → Action → Prop}
  {start s t : State}

/-- An invariant needs the start and one step; the step may use that its source is reached. -/
theorem Reach.invariant {Inv : State → Prop} (first : Inv start)
    (keeps : ∀ {s a t}, Reach step allowed start s → Inv s → allowed s a → step s a = some t →
      Inv t)
    (reached : Reach step allowed start t) : Inv t := by
  induction reached with
  | start => exact first
  | next before permit taken ih => exact keeps before ih permit taken

theorem Reach.weaken {wider : State → Action → Prop} (wide : ∀ s a, allowed s a → wider s a)
    (reached : Reach step allowed start t) : Reach step wider start t := by
  induction reached with
  | start => exact .start
  | next before permit taken ih => exact .next ih (wide _ _ permit) taken

theorem Reach.reachable (reached : Reach step allowed start t) : Reachable step start t :=
  reached.weaken fun _ _ _ => trivial

theorem Reach.extend {actions : List Action} (before : Reach step allowed start s)
    (obeys : Obeys step allowed s actions) (ran : run step s actions = some t) :
    Reach step allowed start t := by
  induction actions generalizing s with
  | nil =>
    obtain rfl := Option.some.inj ran
    exact before
  | cons a rest ih =>
    obtain ⟨permit, later⟩ := obeys
    cases taken : step s a with
    | none => simp [run, taken] at ran
    | some mid =>
      simp only [taken] at later
      exact ih (before.next permit taken) later (by simpa [run, taken] using ran)

theorem reach_of_run {actions : List Action} (obeys : Obeys step allowed start actions)
    (ran : run step start actions = some t) : Reach step allowed start t :=
  Reach.extend .start obeys ran

/-- A condition on the actions alone is met by every run of such actions. -/
theorem obeys_of_actions {actions : List Action}
    (each : ∀ a ∈ actions, ∀ s, allowed s a) : Obeys step allowed s actions := by
  induction actions generalizing s with
  | nil => trivial
  | cons a rest ih =>
    refine ⟨each a (by simp) s, ?_⟩
    cases step s a with
    | none => trivial
    | some t => exact ih fun b member => each b (by simp [member])

theorem obeys_head {a : Action} {rest : List Action} (first : allowed s a)
    (others : ∀ b ∈ rest, ∀ t, allowed t b) : Obeys step allowed s (a :: rest) := by
  refine ⟨first, ?_⟩
  cases step s a with
  | none => trivial
  | some t => exact obeys_of_actions others

theorem reachable_of_run {actions : List Action} (ran : run step start actions = some t) :
    Reachable step start t :=
  reach_of_run (obeys_of_actions fun _ _ _ => trivial) ran

theorem reachable_visits {P : State → Prop} (actions : List Action)
    (ran : ∃ t ∈ run step start actions, P t) : ∃ t, Reachable step start t ∧ P t := by
  obtain ⟨t, ran, here⟩ := ran
  exact ⟨t, reachable_of_run ran, here⟩

theorem reach_visits {P : State → Prop} (actions : List Action)
    (obeys : Obeys step allowed start actions) (ran : ∃ t ∈ run step start actions, P t) :
    ∃ t, Reach step allowed start t ∧ P t := by
  obtain ⟨t, ran, here⟩ := ran
  exact ⟨t, reach_of_run obeys ran, here⟩

end Machine
