import Mathlib.Order.Basic
import Mathlib.Tactic.ByContra

/-!
# Guarded runs of a labelled transition system

A system is a partial step function `step : σ → α → Option σ`: from a state, an action either is
impossible or leads to one state. A `Run` is a finite sequence of steps, each of which satisfies a
`guard` on the state before the step and the action. The guard is where an assumption about the
environment is stated (no message is delivered twice, an operation number is new), and also where
the exact condition is stated under which a defective step does no harm.

`Run.invariant` is the induction principle: what holds at the start and is kept by every guarded
step holds at the end. `Run.invariant_reach` lets the step use invariants that are already known of
the state it starts from. `Run.exists_first` cuts a run at the step that makes a property true, and
`Run.split_history` at the step that added an event to a history. A `Logged` state has the steps
that have led to it. `execute` follows a list of actions and checks the guard, so that concrete runs
can be computed (`run_of_execute`).
-/

set_option autoImplicit false
set_option relaxedAutoImplicit false

namespace TransitionSystem

variable {σ α : Type*} {step : σ → α → Option σ} {guard : σ → α → Prop}

/-- The states reached from `start` by steps that satisfy the guard. -/
inductive Run (step : σ → α → Option σ) (guard : σ → α → Prop) (start : σ) : σ → Prop
  | refl : Run step guard start start
  | tail {s t : σ} {a : α} (run : Run step guard start s) (hguard : guard s a)
      (hstep : step s a = some t) : Run step guard start t

namespace Run

/-- Runs compose. -/
theorem trans {first middle last : σ} (hfirst : Run step guard first middle)
    (hlast : Run step guard middle last) : Run step guard first last := by
  induction hlast with
  | refl => exact hfirst
  | tail _ hguard hstep ih => exact ih.tail hguard hstep

/-- One guarded step is a run. -/
theorem single {s t : σ} {a : α} (hguard : guard s a) (hstep : step s a = some t) :
    Run step guard s t :=
  Run.refl.tail hguard hstep

/-- A run under a guard is a run under every weaker guard. -/
theorem weaken {guard' : σ → α → Prop} (hweaker : ∀ s a, guard s a → guard' s a) {start s : σ}
    (run : Run step guard start s) : Run step guard' start s := by
  induction run with
  | refl => exact Run.refl
  | tail _ hguard hstep ih => exact ih.tail (hweaker _ _ hguard) hstep

/-- What holds at the start and is kept by every guarded step holds at the end of every run. -/
theorem invariant {P : σ → Prop} {start s : σ} (hstart : P start)
    (hkeep : ∀ s a t, P s → guard s a → step s a = some t → P t)
    (run : Run step guard start s) : P s := by
  induction run with
  | refl => exact hstart
  | tail _ hguard hstep ih => exact hkeep _ _ _ ih hguard hstep

/-- The invariant principle in which the step may use that its first state is reached from
`start`, and so every invariant proved before. -/
theorem invariant_reach {P : σ → Prop} {start s : σ} (hstart : P start)
    (hkeep : ∀ s a t, Run step guard start s → P s → guard s a → step s a = some t → P t)
    (run : Run step guard start s) : P s := by
  induction run with
  | refl => exact hstart
  | tail hprevious hguard hstep ih => exact hkeep _ _ _ hprevious ih hguard hstep

/-- A run that makes a property true does so at one of its steps. -/
theorem exists_first {P : σ → Prop} {start s : σ} (run : Run step guard start s)
    (hstart : ¬ P start) (hs : P s) :
    ∃ before a after, Run step guard start before ∧ ¬ P before ∧ guard before a ∧
      step before a = some after ∧ P after ∧ Run step guard after s := by
  induction run with
  | refl => exact absurd hs hstart
  | @tail middle last a hprevious hguard hstep ih =>
    by_cases hmiddle : P middle
    · obtain ⟨before, b, after, hbefore, hnot, hb, hbstep, hafter, hrest⟩ := ih hmiddle
      exact ⟨before, b, after, hbefore, hnot, hb, hbstep, hafter, hrest.tail hguard hstep⟩
    · exact ⟨middle, a, last, hprevious, hmiddle, hguard, hstep, hs, Run.refl⟩

/-- In a system whose steps put at most one event in front of a history, a run to a history that
contains an event passes through the step that added it. -/
theorem split_history {ε : Type*} (history : σ → List ε)
    (hstep : ∀ s a t, step s a = some t → ∃ e : Option ε, history t = e.toList ++ history s)
    {start s : σ} (run : Run step guard start s) (hstart : history start = [])
    {later earlier : List ε} {e : ε} (hsplit : history s = later ++ e :: earlier) :
    ∃ before a after, Run step guard start before ∧ history before = earlier ∧ guard before a ∧
      step before a = some after ∧ history after = e :: earlier ∧ Run step guard after s := by
  have hnot : ¬ e :: earlier <:+ history start := by simp [hstart]
  obtain ⟨before, a, after, hbefore, hnot, hguard, ha, hafter, hrest⟩ :=
    run.exists_first (P := fun t ↦ e :: earlier <:+ history t) hnot ⟨later, hsplit.symm⟩
  obtain ⟨new, hnew⟩ := hstep before a after ha
  rcases new with - | event
  · rw [hnew] at hafter
    exact absurd hafter hnot
  · rw [hnew, Option.toList_some, List.singleton_append, List.suffix_cons_iff] at hafter
    have heq := hafter.resolve_right hnot
    refine ⟨before, a, after, hbefore, (List.cons.inj heq).2.symm, hguard, ha, ?_, hrest⟩
    rw [hnew, Option.toList_some, List.singleton_append, heq]

end Run

/-! ### Logged runs -/

/-- A state with the steps that have led to it, the newest first: the state before each step and its
action. -/
structure Logged (σ α : Type*) where
  /-- The state. -/
  state : σ
  /-- The steps. -/
  log : List (σ × α)

/-- The start of a logged run. -/
def Logged.start (s : σ) : Logged σ α := ⟨s, []⟩

/-- A step that is put into the log. -/
def Logged.next (step : σ → α → Option σ) (s : Logged σ α) (a : α) : Option (Logged σ α) :=
  (step s.state a).map fun t ↦ ⟨t, (s.state, a) :: s.log⟩

/-- A logged run is a run. -/
theorem Logged.run_state {s t : Logged σ α}
    (run : Run (Logged.next step) (fun s a ↦ guard s.state a) s t) :
    Run step guard s.state t.state := by
  induction run with
  | refl => exact Run.refl
  | tail _ hguard hstep ih =>
    obtain ⟨later, hlater, rfl⟩ := Option.map_eq_some_iff.mp hstep
    exact ih.tail hguard hlater

/-! ### Executing a list of actions -/

/-- Take the actions one after the other, as far as each is possible and allowed by the guard. -/
def execute (step : σ → α → Option σ) (guard : σ → α → Prop) [∀ s a, Decidable (guard s a)]
    (s : σ) : List α → Option σ
  | [] => some s
  | a :: actions =>
    if guard s a then (step s a).bind fun t ↦ execute step guard t actions else none

/-- An execution is a guarded run. -/
theorem run_of_execute [∀ s a, Decidable (guard s a)] {actions : List α} {s t : σ}
    (h : execute step guard s actions = some t) : Run step guard s t := by
  induction actions generalizing s with
  | nil =>
    obtain rfl := Option.some.inj h
    exact Run.refl
  | cons a actions ih =>
    simp only [execute, Option.ite_none_right_eq_some, Option.bind_eq_some_iff] at h
    obtain ⟨hguard, next, hstep, hrest⟩ := h
    exact (Run.single hguard hstep).trans (ih hrest)

end TransitionSystem
