import ServerPools.Support.Machine

/- What a labelled machine comes to however it is scheduled. The choice among the allowed
   actions is free at every step, so there is no fairness in these statements: a goal is
   inevitable when no way of choosing avoids it for ever. -/
namespace Machine
variable {State Action : Type}

def CanStep (step : State → Action → Option State) (allowed : State → Action → Prop)
    (s : State) : Prop := ∃ a t, allowed s a ∧ step s a = some t

/-- Every way of taking allowed actions meets the goal after finitely many of them, and until
    then one is enabled. -/
inductive Inevitable (step : State → Action → Option State) (allowed : State → Action → Prop)
    (goal : State → Prop) : State → Prop where
  | now {s : State} (met : goal s) : Inevitable step allowed goal s
  | later {s : State} (can : CanStep step allowed s)
      (next : ∀ a t, allowed s a → step s a = some t → Inevitable step allowed goal t) :
      Inevitable step allowed goal s

variable {step : State → Action → Option State} {allowed : State → Action → Prop}
  {goal : State → Prop} {s t : State}

/-- An invariant under which every allowed step lowers a measure and only the goal is at rest. -/
theorem inevitable_of_measure (Inv : State → Prop) (measure : State → Nat)
    (keeps : ∀ {s a t}, Inv s → allowed s a → step s a = some t → Inv t)
    (falls : ∀ {s a t}, Inv s → allowed s a → step s a = some t → measure t < measure s)
    (rest : ∀ {s}, Inv s → ¬ CanStep step allowed s → goal s) (here : Inv s) :
    Inevitable step allowed goal s := by
  induction size : measure s using Nat.strongRecOn generalizing s with
  | ind size ih =>
    subst size
    by_cases can : CanStep step allowed s
    · refine .later can fun a t permit taken => ?_
      exact ih (measure t) (falls here permit taken) (keeps here permit taken) rfl
    · exact .now (rest here can)

theorem Inevitable.mono {wider : State → Prop} (wide : ∀ s, goal s → wider s)
    (sure : Inevitable step allowed goal s) : Inevitable step allowed wider s := by
  induction sure with
  | now met => exact .now (wide _ met)
  | later can next ih => exact .later can ih

end Machine
