import Mathlib.Data.Nat.Find
import Mathlib.Data.Nat.Init

/-!
# Runs of event-driven machines

A machine is a total step function `σ → ε → σ`: the state it is in and the
event it takes determine the next state.  All nondeterminism of the
environment is in the sequence of events, so a run is the sequence of states
that an event sequence drives, and a property of every interleaving is a
property of every event sequence.

The file supplies the invariant rule, induction on an interval of positions,
and projection along a simulation.
-/

namespace FpgaTrivia.Transition

universe u v w x

variable {σ : Type u} {ε : Type v} {τ : Type w} {δ : Type x}

/-- The state after the first `n` events. -/
def run (step : σ → ε → σ) (start : σ) (events : Nat → ε) : Nat → σ
  | 0 => start
  | n + 1 => step (run step start events n) (events n)

@[simp]
theorem run_zero (step : σ → ε → σ) (start : σ) (events : Nat → ε) :
    run step start events 0 = start :=
  rfl

theorem run_succ (step : σ → ε → σ) (start : σ) (events : Nat → ε) (n : Nat) :
    run step start events (n + 1) = step (run step start events n) (events n) :=
  rfl

/-- With one event over and over the first step may be taken apart. -/
theorem run_const_succ (step : σ → ε → σ) (start : σ) (event : ε) (n : Nat) :
    run step start (fun _ => event) (n + 1) = run step (step start event) (fun _ => event) n := by
  induction n with
  | zero => rfl
  | succ n ih => rw [run_succ, ih, run_succ]

/-- Only the events already taken matter. -/
theorem run_congr (step : σ → ε → σ) (start : σ) {events events' : Nat → ε} {n : Nat}
    (agree : ∀ k < n, events k = events' k) :
    run step start events n = run step start events' n := by
  induction n with
  | zero => rfl
  | succ n ih =>
      rw [run_succ, run_succ, ih fun k before => agree k (Nat.lt_succ_of_lt before),
        agree n (Nat.lt_succ_self n)]

/-! ## Positions

The events of a run are addressed by their positions. -/

/-- What holds at position `m` and survives every event of the interval holds
at its end. -/
theorem interval_induction {P : Nat → Prop} {m n : Nat} (le : m ≤ n) (first : P m)
    (preserved : ∀ k, m ≤ k → k < n → P k → P (k + 1)) : P n := by
  induction n, le using Nat.le_induction with
  | base => exact first
  | succ n le ih =>
      have before := ih fun k lower upper => preserved k lower (Nat.lt_succ_of_lt upper)
      exact preserved n le (Nat.lt_succ_self n) before

/-- Among the positions before `n` with a property there is a last one. -/
theorem exists_last {P : Nat → Prop} {m n : Nat} (holds : P m) (before : m < n) :
    ∃ k, m ≤ k ∧ k < n ∧ P k ∧ ∀ i, k < i → i < n → ¬ P i := by
  classical
  induction n with
  | zero => exact absurd before (Nat.not_lt_zero m)
  | succ n ih =>
      by_cases here : P n
      · refine ⟨n, Nat.lt_succ_iff.mp before, Nat.lt_succ_self n, here, ?_⟩
        intro i after upper
        omega
      · have lower : m < n := by
          rcases Nat.lt_succ_iff_lt_or_eq.mp before with less | rfl
          · exact less
          · exact absurd holds here
        obtain ⟨k, first, last, property, none⟩ := ih lower
        refine ⟨k, first, Nat.lt_succ_of_lt last, property, ?_⟩
        intro i after upper
        rcases Nat.lt_succ_iff_lt_or_eq.mp upper with less | rfl
        · exact none i after less
        · exact here

/-- Among the positions after `m` with a property there is a first one. -/
theorem exists_first {P : Nat → Prop} {m n : Nat} (holds : P n) (after : m < n) :
    ∃ k, m < k ∧ k ≤ n ∧ P k ∧ ∀ i, m < i → i < k → ¬ P i := by
  classical
  have exists_one : ∃ k, m < k ∧ P k := ⟨n, after, holds⟩
  refine ⟨Nat.find exists_one, (Nat.find_spec exists_one).1,
    Nat.find_min' exists_one ⟨after, holds⟩, (Nat.find_spec exists_one).2, ?_⟩
  intro i lower upper property
  exact Nat.find_min exists_one upper ⟨lower, property⟩

/-! ## Invariants -/

/-- What holds at the start and is preserved by every step holds along every
run. -/
theorem run_invariant {step : σ → ε → σ} {P : σ → Prop} {start : σ}
    (initial : P start) (preserved : ∀ state event, P state → P (step state event))
    (events : Nat → ε) (n : Nat) : P (run step start events n) := by
  induction n with
  | zero => exact initial
  | succ n ih => exact preserved _ _ ih

/-! ## Projection -/

/-- A functional simulation: `view` commutes with every step when the event is
translated by `label`, which may look at the state. -/
def Simulates (step : σ → ε → σ) (step' : τ → δ → τ) (view : σ → τ)
    (label : σ → ε → δ) : Prop :=
  ∀ state event, view (step state event) = step' (view state) (label state event)

/-- The view of a run is the run of the view. -/
theorem Simulates.run {step : σ → ε → σ} {step' : τ → δ → τ} {view : σ → τ}
    {label : σ → ε → δ} (simulates : Simulates step step' view label) (start : σ)
    (events : Nat → ε) (n : Nat) :
    view (run step start events n) =
      Transition.run step' (view start)
        (fun k => label (Transition.run step start events k) (events k)) n := by
  induction n with
  | zero => rfl
  | succ n ih => rw [run_succ, simulates, ih, run_succ]

end FpgaTrivia.Transition
