import FpgaTrivia.Transition.Run
import Mathlib.Tactic.Ring

/-!
# Reloading timers

A timer counts its remaining steps down to one, expires with the step that it
takes then, and is loaded with its period again.  From any first load it
expires at one step of every period.
-/

namespace FpgaTrivia.Transition

/-- One step of a timer with `left` steps to go. -/
def reload (period left : Nat) : Nat :=
  if left = 1 then period else left - 1

theorem reload_of_expiring (period : Nat) : reload period 1 = period :=
  if_pos rfl

theorem reload_of_pending {period left : Nat} (pending : left ≠ 1) :
    reload period left = left - 1 :=
  if_neg pending

theorem reload_pos {period left : Nat} (positive : 0 < period) (armed : 0 < left) :
    0 < reload period left := by
  by_cases expiring : left = 1
  · rw [expiring, reload_of_expiring]
    exact positive
  · rw [reload_of_pending expiring]
    exact Nat.sub_pos_of_lt (Nat.lt_of_le_of_ne armed (Ne.symm expiring))

/-- The steps left after `n` steps. -/
def stepsLeft (period left n : Nat) : Nat :=
  run (fun left (_ : Unit) => reload period left) left (fun _ => ()) n

theorem stepsLeft_zero (period left : Nat) : stepsLeft period left 0 = left :=
  rfl

theorem stepsLeft_succ (period left n : Nat) :
    stepsLeft period left (n + 1) = stepsLeft period (reload period left) n :=
  run_const_succ _ left () n

/-- A timer is about to expire after the steps of its first load, less one, and
of any number of periods. -/
theorem stepsLeft_eq_one_iff {period left : Nat} (positive : 0 < period) (armed : 0 < left)
    (n : Nat) : stepsLeft period left n = 1 ↔ ∃ k, n + 1 = left + period * k := by
  induction n generalizing left with
  | zero =>
      rw [stepsLeft_zero]
      constructor
      · rintro rfl
        exact ⟨0, by simp⟩
      · rintro ⟨k, first⟩
        omega
  | succ n ih =>
      rw [stepsLeft_succ, ih (reload_pos positive armed)]
      by_cases expiring : left = 1
      · rw [expiring, reload_of_expiring]
        constructor
        · rintro ⟨k, later⟩
          exact ⟨k + 1, by rw [later]; ring⟩
        · rintro ⟨k, later⟩
          -- no period has passed with the very first step only
          cases k with
          | zero => simp at later
          | succ k =>
              refine ⟨k, ?_⟩
              rw [Nat.mul_succ] at later
              omega
      · rw [reload_of_pending expiring]
        constructor
        · rintro ⟨k, later⟩
          exact ⟨k, by omega⟩
        · rintro ⟨k, later⟩
          exact ⟨k, by omega⟩

end FpgaTrivia.Transition
