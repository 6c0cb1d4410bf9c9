import Mathlib.Logic.Equiv.Basic
import Mathlib.Logic.Equiv.Fin.Basic
import Mathlib.Data.List.FinRange

/-!
# Shuffling an array by exchanges

An array of `n` entries is a function on `Fin n`.  A shuffle is a sequence of
exchanges at computed positions.  A position outside the array makes the
exchange undefined; when every position is in range the result is a
rearrangement of the array, whatever the positions are.
-/

namespace FpgaTrivia.Shuffle

universe u

variable {α : Type u} {n : Nat}

/-- Exchange two entries, through a temporary as in `t = a[j]; a[j] = a[i];
a[i] = t`. -/
def exchange (a : Fin n → α) (i j : Fin n) : Fin n → α :=
  let t := a j
  Function.update (Function.update a j (a i)) i t

theorem exchange_eq_comp (a : Fin n → α) (i j : Fin n) :
    exchange a i j = a ∘ Equiv.swap i j :=
  (Equiv.comp_swap_eq_update i j a).symm

/-- Exchange at machine positions; out of range there is no result. -/
def exchangeAt (a : Fin n → α) (i j : Nat) : Option (Fin n → α) :=
  if inRange : i < n ∧ j < n then
    some (exchange a ⟨i, inRange.1⟩ ⟨j, inRange.2⟩)
  else none

theorem exchangeAt_of_lt (a : Fin n → α) {i j : Nat} (hi : i < n) (hj : j < n) :
    exchangeAt a i j = some (exchange a ⟨i, hi⟩ ⟨j, hj⟩) := by
  simp [exchangeAt, hi, hj]

/-- Two arrays hold the same entries, each as often. -/
def Rearranges (b a : Fin n → α) : Prop :=
  ∃ σ : Equiv.Perm (Fin n), b = a ∘ σ

namespace Rearranges

theorem refl (a : Fin n → α) : Rearranges a a :=
  ⟨Equiv.refl _, rfl⟩

theorem trans {a b c : Fin n → α} (first : Rearranges c b) (second : Rearranges b a) :
    Rearranges c a := by
  obtain ⟨σ, rfl⟩ := first
  obtain ⟨τ, rfl⟩ := second
  exact ⟨σ.trans τ, rfl⟩

theorem exchange (a : Fin n → α) (i j : Fin n) : Rearranges (exchange a i j) a :=
  ⟨Equiv.swap i j, exchange_eq_comp a i j⟩

/-- Every entry of the array occurs in the rearranged one. -/
theorem exists_eq {a b : Fin n → α} (rearranges : Rearranges b a) (i : Fin n) :
    ∃ k, b k = a i := by
  obtain ⟨σ, rfl⟩ := rearranges
  exact ⟨σ.symm i, by simp⟩

/-- Every entry of the rearranged array comes from the array. -/
theorem exists_source {a b : Fin n → α} (rearranges : Rearranges b a) (k : Fin n) :
    ∃ i, b k = a i := by
  obtain ⟨σ, rfl⟩ := rearranges
  exact ⟨σ k, rfl⟩

/-- Distinct entries stay distinct. -/
theorem injective {a b : Fin n → α} (rearranges : Rearranges b a)
    (distinct : Function.Injective a) : Function.Injective b := by
  obtain ⟨σ, rfl⟩ := rearranges
  exact distinct.comp σ.injective

end Rearranges

/-- Exchange position `i` with `position i`, for the listed `i` in order. -/
def exchanges (position : Nat → Nat) (steps : List Nat) (a : Fin n → α) :
    Option (Fin n → α) :=
  steps.foldlM (fun a i => exchangeAt a i (position i)) a

/-- Only the positions of the listed steps matter. -/
theorem exchanges_congr {position position' : Nat → Nat} {steps : List Nat}
    (agree : ∀ i ∈ steps, position' i = position i) (a : Fin n → α) :
    exchanges position' steps a = exchanges position steps a := by
  induction steps generalizing a with
  | nil => rfl
  | cons i rest ih =>
      have later := ih fun k member => agree k (List.mem_cons_of_mem i member)
      simp only [exchanges, List.foldlM_cons] at later ⊢
      rw [agree i List.mem_cons_self]
      cases exchangeAt a i (position i) with
      | none => rfl
      | some b => exact later b

/-- Exchanges in range always have a result, and it is a rearrangement. -/
theorem exchanges_rearranges {position : Nat → Nat} {steps : List Nat}
    (inRange : ∀ i ∈ steps, i < n ∧ position i < n) (a : Fin n → α) :
    ∃ b, exchanges position steps a = some b ∧ Rearranges b a := by
  induction steps generalizing a with
  | nil => exact ⟨a, rfl, .refl a⟩
  | cons i rest ih =>
      obtain ⟨hi, hj⟩ := inRange i List.mem_cons_self
      obtain ⟨b, result, rearranges⟩ :=
        ih (fun k member => inRange k (List.mem_cons_of_mem i member))
          (exchange a ⟨i, hi⟩ ⟨position i, hj⟩)
      refine ⟨b, ?_, rearranges.trans (.exchange a _ _)⟩
      simpa [exchanges, List.foldlM_cons, exchangeAt_of_lt a hi hj] using result

end FpgaTrivia.Shuffle
