import Mathlib.Data.List.Basic

/-!
# Runs of labelled systems

A run lists its steps in order, each as the state before it and its event. The
rules lift what one step does to what a whole run does: a property that every
step keeps, and a property that the steps which meet a condition keep.
-/

namespace QChat

variable {State Event : Type} (step : State → Event → State → Prop)

/-- A run from `start`: its steps, and the state it ends in. The steps are listed with the
states they start from, and a run grows at its end. -/
inductive Run (start : State) : List (State × Event) → State → Prop where
  | nil : Run start [] start
  | snoc {steps : List (State × Event)} {state next : State} {event : Event}
      (run : Run start steps state) (stepped : step state event next) :
      Run start (steps ++ [(state, event)]) next

namespace Run

variable {step} {start final : State} {steps : List (State × Event)}

/-- What holds at the start and is kept by every step of the run holds at its end. -/
theorem invariant (run : Run step start steps final) (holds : State → Prop)
    (initially : holds start)
    (kept : ∀ state event next, (state, event) ∈ steps → step state event next → holds state →
      holds next) : holds final := by
  induction run with
  | nil => exact initially
  | snoc run stepped inductionHypothesis =>
    refine kept _ _ _ (List.mem_append_right _ (List.mem_singleton_self _)) stepped
      (inductionHypothesis ?_)
    intro state event next member
    exact kept state event next (List.mem_append_left _ member)

/-- The state before a step is reached by the steps before it. -/
theorem before (run : Run step start steps final) {state : State} {event : Event}
    (member : (state, event) ∈ steps) :
    ∃ earlier next, earlier <+: steps ∧ Run step start earlier state ∧ step state event next := by
  induction run with
  | nil => cases member
  | @snoc steps _ _ _ run stepped inductionHypothesis =>
    rcases List.mem_append.mp member with inside | last
    · obtain ⟨earlier, next, initial, reached, taken⟩ := inductionHypothesis inside
      exact ⟨earlier, next, initial.trans (List.prefix_append _ _), reached, taken⟩
    · obtain ⟨rfl, rfl⟩ := Prod.mk.inj (List.mem_singleton.mp last)
      exact ⟨steps, _, List.prefix_append _ _, run, stepped⟩

end Run

end QChat
