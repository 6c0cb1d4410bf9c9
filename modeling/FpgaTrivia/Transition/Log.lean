import FpgaTrivia.Transition.Run
import Mathlib.Data.List.Infix

/-!
# Growing logs

A log that is only ever appended to determines one infinite sequence of
entries, of which it is a prefix at all times.  Folding the log is running the
sequence.
-/

namespace FpgaTrivia.Transition

universe u v

variable {α : Type u} {σ : Type v}

/-- Nothing is ever taken from the log or changed in it. -/
def Grows (logs : Nat → List α) : Prop :=
  ∀ n, logs n <+: logs (n + 1)

/-- The entry that stands at place `t` once the log is long enough. -/
noncomputable def entry (logs : Nat → List α) (otherwise : α) (t : Nat) : α := by
  classical
  exact if long : ∃ n, t < (logs n).length then (logs (Nat.find long)).getD t otherwise
    else otherwise

namespace Grows

variable {logs : Nat → List α} {otherwise : α} {m n t : Nat}

theorem prefix_of_le (grows : Grows logs) (le : m ≤ n) : logs m <+: logs n := by
  induction n, le using Nat.le_induction with
  | base => exact List.prefix_refl _
  | succ n _ ih => exact ih.trans (grows n)

theorem length_le (grows : Grows logs) (le : m ≤ n) : (logs m).length ≤ (logs n).length :=
  (grows.prefix_of_le le).length_le

/-- A place that has been filled holds its entry from then on. -/
theorem getElem?_eq (grows : Grows logs) (within : t < (logs n).length) :
    (logs n)[t]? = some (entry logs otherwise t) := by
  classical
  have long : ∃ n, t < (logs n).length := ⟨n, within⟩
  have first := Nat.find_spec long
  have taken : (logs (Nat.find long))[t]? = some (entry logs otherwise t) := by
    rw [entry, dif_pos long, List.getD_eq_getElem?_getD, List.getElem?_eq_getElem first]
    rfl
  have kept := grows.prefix_of_le (Nat.find_min' long within)
  rw [← taken, List.getElem?_eq_getElem first]
  exact List.prefix_iff_getElem?.mp kept t first

end Grows

/-- A fold over a prefix of a sequence is a run of it. -/
theorem foldl_eq_run (step : σ → α → σ) (start : σ) (events : Nat → α) (prior : List α)
    (agree : ∀ t < prior.length, prior[t]? = some (events t)) :
    prior.foldl step start = run step start events prior.length := by
  induction prior using List.reverseRecOn with
  | nil => rfl
  | append_singleton prior last ih =>
      have before : ∀ t < prior.length, prior[t]? = some (events t) := by
        intro t within
        rw [← agree t (by simp; omega), List.getElem?_append_left within]
      have here : some last = some (events prior.length) := by
        rw [← agree prior.length (by simp)]
        simp
      rw [List.foldl_append, ih before, List.length_append, List.length_singleton, run_succ,
        Option.some.inj here]
      rfl

end FpgaTrivia.Transition
