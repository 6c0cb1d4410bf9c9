import FpgaTrivia.Transition.Run

/-!
# Registers

A register takes a new value at the positions where it is written and keeps it
in between.  It holds what was written last.
-/

namespace FpgaTrivia.Transition

universe u

variable {α : Type u} {P : Nat → Prop} {s t : Nat}

/-- Position `s` is the last one before `t` with the property. -/
structure Latest (P : Nat → Prop) (s t : Nat) : Prop where
  before : s < t
  holds : P s
  none : ∀ i, s < i → i < t → ¬ P i

namespace Latest

variable {s' : Nat}

theorem unique (latest : Latest P s t) (latest' : Latest P s' t) : s = s' := by
  rcases Nat.lt_trichotomy s s' with less | same | less
  · exact absurd latest'.holds (latest.none s' less latest'.before)
  · exact same
  · exact absurd latest.holds (latest'.none s less latest.before)

theorem self (holds : P t) : Latest P t (t + 1) where
  before := Nat.lt_succ_self t
  holds := holds
  none := fun _ after upto => absurd after (Nat.not_lt.mpr (Nat.lt_succ_iff.mp upto))

theorem succ (latest : Latest P s t) (fails : ¬ P t) : Latest P s (t + 1) where
  before := Nat.lt_succ_of_lt latest.before
  holds := latest.holds
  none := by
    intro i after upto
    rcases Nat.lt_succ_iff_lt_or_eq.mp upto with less | rfl
    · exact latest.none i after less
    · exact fails

end Latest

/-- A register holds its first value until it is written, and the value written
last from then on. -/
theorem register_cases {value written : Nat → α} (writes : ∀ t, P t → value (t + 1) = written t)
    (keeps : ∀ t, ¬ P t → value (t + 1) = value t) (t : Nat) :
    (value t = value 0 ∧ ∀ i < t, ¬ P i) ∨ ∃ s, Latest P s t ∧ value t = written s := by
  classical
  induction t with
  | zero => exact Or.inl ⟨rfl, fun i before => absurd before (Nat.not_lt_zero i)⟩
  | succ t ih =>
      by_cases here : P t
      · exact Or.inr ⟨t, .self here, writes t here⟩
      · rw [keeps t here]
        apply ih.imp
        · rintro ⟨first, none⟩
          refine ⟨first, fun i before => ?_⟩
          rcases Nat.lt_succ_iff_lt_or_eq.mp before with less | rfl
          · exact none i less
          · exact here
        · rintro ⟨s, latest, holds⟩
          exact ⟨s, latest.succ here, holds⟩

end FpgaTrivia.Transition
