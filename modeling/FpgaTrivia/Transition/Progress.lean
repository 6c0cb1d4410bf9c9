import Mathlib.Order.Monotone.Basic

/-!
# Progress

A measure that never rises and falls again and again comes down to zero.  A
list that is worked off from the front passes through all its ends.
-/

namespace FpgaTrivia.Transition

universe u

/-- Unless it has come down to zero, the measure falls at some later step. -/
def Progresses (measure : Nat → Nat) : Prop :=
  ∀ n, 0 < measure n → ∃ m, n ≤ m ∧ measure (m + 1) < measure m

theorem Progresses.exists_zero {measure : Nat → Nat} (progresses : Progresses measure)
    (falls : Antitone measure) (n : Nat) : ∃ m, n ≤ m ∧ measure m = 0 := by
  generalize bound : measure n = k
  induction k using Nat.strongRecOn generalizing n with
  | ind k ih =>
      rcases Nat.eq_zero_or_pos k with zero | positive
      · exact ⟨n, Nat.le_refl n, bound.trans zero⟩
      · obtain ⟨m, later, less⟩ := progresses n (bound ▸ positive)
        have upto := falls later
        obtain ⟨p, after, zero⟩ := ih (measure (m + 1)) (by omega) (m + 1) rfl
        exact ⟨p, by omega, zero⟩

/-- A list of things to do that only ever loses its first one. -/
def WorkedOff {α : Type u} (todo : Nat → List α) : Prop :=
  ∀ n, todo (n + 1) = todo n ∨ ∃ first, todo n = first :: todo (n + 1)

theorem WorkedOff.exists_eq {α : Type u} {todo : Nat → List α} (worked : WorkedOff todo)
    {n : Nat} (empty : todo n = []) (before after : List α) (start : todo 0 = before ++ after) :
    ∃ m, todo m = after := by
  have passed : ∀ n, (∃ m, todo m = after) ∨ ∃ before, todo n = before ++ after := by
    intro n
    induction n with
    | zero => exact Or.inr ⟨before, start⟩
    | succ n ih =>
        rcases ih with reached | ⟨before, split⟩
        · exact Or.inl reached
        · rcases worked n with same | ⟨first, lost⟩
          · exact Or.inr ⟨before, same.trans split⟩
          · cases before with
            | nil => exact Or.inl ⟨n, split⟩
            | cons head rest =>
                rw [split, List.cons_append] at lost
                exact Or.inr ⟨rest, (List.cons.inj lost).2.symm⟩
  rcases passed n with reached | ⟨before, split⟩
  · exact reached
  · rw [empty] at split
    exact ⟨n, empty.trans (List.append_eq_nil_iff.mp split.symm).2.symm⟩

end FpgaTrivia.Transition
