import Colas.Library.Run

/-!
# Forward simulations

Two systems with their guards and their starts are given: a concrete one, of which something is to
be shown, and an abstract one, of which it is known. A relation between their states is a
`Simulation` if it relates the starts, and if each guarded step of the concrete system from a
reachable state is matched by a guarded run of the abstract system from any related one. A step of
the concrete system may be matched by no step, by one or by several.

Then every run of the concrete system is matched by a run of the abstract one (`Simulation.run`),
and what holds of all states of the abstract runs holds of the concrete ones in the form in which
the relation carries it over (`Simulation.invariant`).

The abstract system may be two systems `sideBySide`, each of which takes its steps without the
other. Their runs are the pairs of their runs (`run_sideBySide_iff`), so a concrete system that they
match does what each of them does alone.
-/

set_option autoImplicit false
set_option relaxedAutoImplicit false

namespace TransitionSystem

variable {σ τ α β : Type*} {step : σ → α → Option σ} {guard : σ → α → Prop} {start : σ}
  {step' : τ → β → Option τ} {guard' : τ → β → Prop} {start' : τ}

/-- The relation matches the runs of a concrete system by runs of an abstract one. -/
structure Simulation (step' : τ → β → Option τ) (guard' : τ → β → Prop) (start' : τ)
    (step : σ → α → Option σ) (guard : σ → α → Prop) (start : σ) (R : τ → σ → Prop) : Prop where
  /-- The starts are related. -/
  initial : R start' start
  /-- A step of the concrete system from a related state is matched. -/
  step : ∀ w s b w', Run step' guard' start' w → Run step guard start s → R w s → guard' w b →
    step' w b = some w' → ∃ s', Run step guard s s' ∧ R w' s'

namespace Simulation

variable {R : τ → σ → Prop}

/-- Every run of the concrete system is matched by a run of the abstract one. -/
theorem run (h : Simulation step' guard' start' step guard start R) {w : τ}
    (hrun : Run step' guard' start' w) : ∃ s, Run step guard start s ∧ R w s :=
  hrun.invariant_reach (P := fun w ↦ ∃ s, Run step guard start s ∧ R w s)
    ⟨start, Run.refl, h.initial⟩ fun w b w' hw ⟨s, hs, hR⟩ hguard hstep ↦ by
      obtain ⟨s', hs', hR'⟩ := h.step w s b w' hw hs hR hguard hstep
      exact ⟨s', hs.trans hs', hR'⟩

/-- What holds of the states of the abstract runs holds of the related states of the concrete
runs. -/
theorem invariant (h : Simulation step' guard' start' step guard start R) {P : σ → Prop}
    {Q : τ → Prop} (hP : ∀ s, Run step guard start s → P s) (hQ : ∀ w s, R w s → P s → Q w) {w : τ}
    (hrun : Run step' guard' start' w) : Q w := by
  obtain ⟨s, hs, hR⟩ := h.run hrun
  exact hQ w s hR (hP s hs)

end Simulation

/-! ### Two systems side by side -/

section SideBySide

/-- Two systems of which one takes a step at a time. -/
def sideBySide (step : σ → α → Option σ) (step' : τ → β → Option τ) (s : σ × τ) :
    α ⊕ β → Option (σ × τ)
  | .inl a => (step s.1 a).map fun t ↦ (t, s.2)
  | .inr b => (step' s.2 b).map fun t ↦ (s.1, t)

/-- The guard of the system that takes the step. -/
def sideBySideGuard (guard : σ → α → Prop) (guard' : τ → β → Prop) (s : σ × τ) : α ⊕ β → Prop
  | .inl a => guard s.1 a
  | .inr b => guard' s.2 b

/-- The first of two systems runs while the second one waits. -/
theorem Run.left {s t : σ} (run : Run step guard s t) (v : τ) :
    Run (sideBySide step step') (sideBySideGuard guard guard') (s, v) (t, v) := by
  induction run with
  | refl => exact Run.refl
  | @tail t u a _ hguard hstep ih =>
    exact ih.tail (a := .inl a) hguard (by rw [sideBySide, hstep, Option.map_some])

/-- The second of two systems runs while the first one waits. -/
theorem Run.right (s : σ) {v w : τ} (run : Run step' guard' v w) :
    Run (sideBySide step step') (sideBySideGuard guard guard') (s, v) (s, w) := by
  induction run with
  | refl => exact Run.refl
  | @tail v w b _ hguard hstep ih =>
    exact ih.tail (a := .inr b) hguard (by rw [sideBySide, hstep, Option.map_some])

/-- The runs of two systems side by side are the pairs of their runs. -/
theorem run_sideBySide_iff {first last : σ × τ} :
    Run (sideBySide step step') (sideBySideGuard guard guard') first last ↔
      Run step guard first.1 last.1 ∧ Run step' guard' first.2 last.2 := by
  constructor
  · intro run
    induction run with
    | refl => exact ⟨Run.refl, Run.refl⟩
    | @tail s t a _ hguard hstep ih =>
      obtain ⟨hfirst, hsecond⟩ := ih
      cases a with
      | inl a =>
        obtain ⟨next, hnext, rfl⟩ := Option.map_eq_some_iff.mp hstep
        exact ⟨hfirst.tail hguard hnext, hsecond⟩
      | inr b =>
        obtain ⟨next, hnext, rfl⟩ := Option.map_eq_some_iff.mp hstep
        exact ⟨hfirst, hsecond.tail hguard hnext⟩
  · rintro ⟨hfirst, hsecond⟩
    exact (hfirst.left first.2).trans (hsecond.right last.1)

end SideBySide

end TransitionSystem
