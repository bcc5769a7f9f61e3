import ServerPools.Support.Inevitable

/- One machine carried out by another: every step of the first is a run of at least one step of
   the second. What the second never does the first does not do, and where the second comes to
   rest so does the first. -/
namespace Machine
variable {State Action State' Action' : Type}

structure Simulation (step : State → Action → Option State) (allowed : State → Action → Prop)
    (step' : State' → Action' → Option State') (allowed' : State' → Action' → Prop)
    (R : State → State' → Prop) : Prop where
  carries : ∀ {s t : State} {a : Action} {s' : State'}, R s s' → allowed s a → step s a = some t →
    ∃ (first : Action') (rest : List Action') (t' : State'),
      Obeys step' allowed' s' (first :: rest) ∧ run step' s' (first :: rest) = some t' ∧ R t t'

variable {step : State → Action → Option State} {allowed : State → Action → Prop}
  {step' : State' → Action' → Option State'} {allowed' : State' → Action' → Prop}
  {R : State → State' → Prop} {start s : State} {start' s' t' : State'}

theorem Simulation.reach (sim : Simulation step allowed step' allowed' R) (first : R start start')
    (reached : Reach step allowed start s) : ∃ s', Reach step' allowed' start' s' ∧ R s s' := by
  induction reached with
  | start => exact ⟨start', .start, first⟩
  | next before permit taken ih =>
    obtain ⟨s', reached, here⟩ := ih
    obtain ⟨_, _, t', obeys, ran, there⟩ := sim.carries here permit taken
    exact ⟨t', reached.extend obeys ran, there⟩

/-- A run keeps what its steps keep, and lowers what they lower. -/
theorem run_falls (Inv : State' → Prop) (measure : State' → Nat)
    (keeps : ∀ {s a t}, Inv s → allowed' s a → step' s a = some t → Inv t)
    (falls : ∀ {s a t}, Inv s → allowed' s a → step' s a = some t → measure t < measure s)
    {actions : List Action'} (here : Inv s') (obeys : Obeys step' allowed' s' actions)
    (ran : run step' s' actions = some t') :
    Inv t' ∧ measure t' + actions.length ≤ measure s' := by
  induction actions generalizing s' with
  | nil =>
    obtain rfl := Option.some.inj ran
    exact ⟨here, Nat.le_refl _⟩
  | cons a rest ih =>
    obtain ⟨permit, later⟩ := obeys
    cases taken : step' s' a with
    | none => simp [run, taken] at ran
    | some mid =>
      simp only [taken] at later
      have less := falls here permit taken
      obtain ⟨there, rest⟩ := ih (keeps here permit taken) later (by simpa [run, taken] using ran)
      refine ⟨there, ?_⟩
      rw [List.length_cons]
      omega

/-- A measure of the machine below bounds the runs of the machine above. -/
theorem Simulation.inevitable (sim : Simulation step allowed step' allowed' R) {goal : State → Prop}
    (Inv : State' → Prop) (measure : State' → Nat)
    (keeps : ∀ {s a t}, Inv s → allowed' s a → step' s a = some t → Inv t)
    (falls : ∀ {s a t}, Inv s → allowed' s a → step' s a = some t → measure t < measure s)
    (rest : ∀ {s s'}, R s s' → Inv s' → ¬ CanStep step allowed s → goal s) (here : R s s')
    (held : Inv s') : Inevitable step allowed goal s := by
  induction size : measure s' using Nat.strongRecOn generalizing s s' with
  | ind size ih =>
    subst size
    by_cases can : CanStep step allowed s
    · refine .later can fun a t permit taken => ?_
      obtain ⟨first, others, t', obeys, ran, there⟩ := sim.carries here permit taken
      obtain ⟨kept, less⟩ := run_falls Inv measure keeps falls held obeys ran
      rw [List.length_cons] at less
      exact ih (measure t') (by omega) there kept rfl
    · exact .now (rest here held can)

end Machine
