import FpgaTrivia.Transition.Log

/-!
# Runs that take several events at once

A coarse run takes a chunk of events with each of its steps.  Written one after
the other the chunks make up one sequence of events, whose run passes through
all states of the coarse one.
-/

namespace FpgaTrivia.Transition

universe u v

variable {α : Type u} {σ : Type v}

/-- The first `n` chunks in a row. -/
def chunked (chunks : Nat → List α) : Nat → List α
  | 0 => []
  | n + 1 => chunked chunks n ++ chunks n

theorem grows_chunked (chunks : Nat → List α) : Grows (chunked chunks) :=
  fun _ => List.prefix_append _ _

/-- The number of events before chunk `n`. -/
def position (chunks : Nat → List α) (n : Nat) : Nat :=
  (chunked chunks n).length

/-- The events in a row. -/
noncomputable def flatten (chunks : Nat → List α) (otherwise : α) : Nat → α :=
  entry (chunked chunks) otherwise

section Positions

variable {chunks : Nat → List α} {m n t i : Nat}

theorem position_succ (chunks : Nat → List α) (n : Nat) :
    position chunks (n + 1) = position chunks n + (chunks n).length :=
  List.length_append

theorem position_mono (le : m ≤ n) : position chunks m ≤ position chunks n :=
  (grows_chunked chunks).length_le le

/-- The events of a chunk stand at its position. -/
theorem flatten_position (otherwise : α) (within : i < (chunks n).length) :
    (chunks n)[i]? = some (flatten chunks otherwise (position chunks n + i)) := by
  have inside : position chunks n + i < (chunked chunks (n + 1)).length := by
    change _ < position chunks (n + 1)
    rw [position_succ]
    exact Nat.add_lt_add_left within _
  have event := @Grows.getElem?_eq _ _ otherwise _ _ (grows_chunked chunks) inside
  rw [chunked, position, List.getElem?_append_right (Nat.le_add_right _ i),
    Nat.add_sub_cancel_left] at event
  exact event

/-- Every event stands in some chunk. -/
theorem exists_chunk (before : t < position chunks n) :
    ∃ k < n, ∃ i < (chunks k).length, t = position chunks k + i := by
  induction n with
  | zero => exact absurd before (Nat.not_lt_zero t)
  | succ n ih =>
      rcases Nat.lt_or_ge t (position chunks n) with early | late
      · obtain ⟨k, less, rest⟩ := ih early
        exact ⟨k, Nat.lt_succ_of_lt less, rest⟩
      · rw [position_succ] at before
        exact ⟨n, Nat.lt_succ_self n, t - position chunks n, by omega, by omega⟩

/-- After every chunk the two runs agree. -/
theorem run_flatten (step : σ → α → σ) (start : σ) (chunks : Nat → List α) (otherwise : α)
    (n : Nat) : run step start (flatten chunks otherwise) (position chunks n) =
      run (fun state chunk => chunk.foldl step state) start chunks n := by
  have flat := foldl_eq_run step start (flatten chunks otherwise) (chunked chunks n)
    fun t within => (grows_chunked chunks).getElem?_eq within
  rw [position, ← flat]
  clear flat
  induction n with
  | zero => rfl
  | succ n ih => rw [chunked, List.foldl_append, ih, run_succ]

end Positions

end FpgaTrivia.Transition
