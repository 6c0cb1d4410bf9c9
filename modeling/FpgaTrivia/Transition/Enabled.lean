import FpgaTrivia.Transition.Run

/-!
# Registers with a clock enable

Such a register takes its input at the enabled positions only.  Counted by
these positions, it is one behind its input, whatever lies in between.
-/

namespace FpgaTrivia.Transition

universe u

/-- The enabled positions before `n`. -/
def enabledBefore (enable : Nat → Bool) : Nat → Nat
  | 0 => 0
  | n + 1 => enabledBefore enable n + (enable n).toNat

variable {enable : Nat → Bool} {n t : Nat}

theorem enabledBefore_succ_of_enabled (on : enable n = true) :
    enabledBefore enable (n + 1) = enabledBefore enable n + 1 := by
  rw [enabledBefore, on]
  rfl

theorem enabledBefore_succ_of_disabled (off : ¬ enable n = true) :
    enabledBefore enable (n + 1) = enabledBefore enable n := by
  rw [enabledBefore, Bool.eq_false_iff.mpr off]
  rfl

theorem enabledBefore_mono {m : Nat} (le : m ≤ n) :
    enabledBefore enable m ≤ enabledBefore enable n := by
  induction n, le using Nat.le_induction with
  | base => exact Nat.le_refl _
  | succ n _ ih => exact Nat.le_trans ih (Nat.le_add_right _ _)

theorem lt_of_enabledBefore_lt (less : enabledBefore enable t < enabledBefore enable n) : t < n :=
  Nat.lt_of_not_le fun le => Nat.not_lt.mpr (enabledBefore_mono le) less

theorem le_of_enabledBefore_le (on : enable t = true)
    (le : enabledBefore enable n ≤ enabledBefore enable t) : n ≤ t := by
  apply Nat.le_of_not_lt
  intro before
  have further : enabledBefore enable (t + 1) ≤ enabledBefore enable n := enabledBefore_mono before
  rw [enabledBefore_succ_of_enabled on] at further
  exact Nat.not_succ_le_self _ (Nat.le_trans further le)

/-- The enabled positions can be told apart by their numbers. -/
theorem exists_enabledBefore {k : Nat} (within : k < enabledBefore enable n) :
    ∃ t, t < n ∧ enable t = true ∧ enabledBefore enable t = k := by
  induction n with
  | zero => exact absurd within (Nat.not_lt_zero k)
  | succ n ih =>
      by_cases on : enable n = true
      · rw [enabledBefore_succ_of_enabled on] at within
        rcases Nat.lt_succ_iff_lt_or_eq.mp within with less | rfl
        · obtain ⟨t, before, enabled, number⟩ := ih less
          exact ⟨t, Nat.lt_succ_of_lt before, enabled, number⟩
        · exact ⟨n, Nat.lt_succ_self n, on, rfl⟩
      · rw [enabledBefore_succ_of_disabled on] at within
        obtain ⟨t, before, enabled, number⟩ := ih within
        exact ⟨t, Nat.lt_succ_of_lt before, enabled, number⟩

/-- The register takes its input at the enabled positions. -/
def ClockEnabled {α : Type u} (enable : Nat → Bool) (input register : Nat → α) : Prop :=
  ∀ n, register (n + 1) = if enable n = true then input n else register n

/-- It holds the input of the last enabled position. -/
theorem ClockEnabled.eq {α : Type u} {input register : Nat → α}
    (clocked : ClockEnabled enable input register) (on : enable t = true)
    (next : enabledBefore enable n = enabledBefore enable t + 1) : register n = input t := by
  have after : t + 1 ≤ n := lt_of_enabledBefore_lt (by rw [next]; exact Nat.lt_succ_self _)
  have first : register (t + 1) = input t := by
    rw [clocked, if_pos on]
  have off : ∀ k, t + 1 ≤ k → k < n → ¬ enable k = true := by
    intro k lower upper again
    have early : enabledBefore enable (t + 1) ≤ enabledBefore enable k := enabledBefore_mono lower
    have late : enabledBefore enable (k + 1) ≤ enabledBefore enable n := enabledBefore_mono upper
    rw [enabledBefore_succ_of_enabled on] at early
    rw [enabledBefore_succ_of_enabled again, next] at late
    exact Nat.not_succ_le_self _ (Nat.le_trans early (Nat.le_of_succ_le_succ late))
  have kept : ∀ k, t + 1 ≤ k → k < n → register k = input t → register (k + 1) = input t := by
    intro k lower upper holds
    rw [clocked, if_neg (off k lower upper), holds]
  exact @interval_induction (fun k => register k = input t) (t + 1) n after first kept

/-- Positions that are enabled again and again have arbitrarily high numbers. -/
theorem exists_le_enabledBefore (again : ∀ n, ∃ m, n ≤ m ∧ enable m = true) (k : Nat) :
    ∃ n, k ≤ enabledBefore enable n := by
  induction k with
  | zero => exact ⟨0, Nat.zero_le _⟩
  | succ k ih =>
      obtain ⟨n, upto⟩ := ih
      obtain ⟨m, later, on⟩ := again n
      refine ⟨m + 1, ?_⟩
      rw [enabledBefore_succ_of_enabled on]
      exact Nat.succ_le_succ (Nat.le_trans upto (enabledBefore_mono later))

end FpgaTrivia.Transition
