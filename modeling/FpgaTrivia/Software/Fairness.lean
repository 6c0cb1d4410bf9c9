import FpgaTrivia.Arith.Buckets
import FpgaTrivia.Shuffle.Forward
import FpgaTrivia.Software.Random

/-!
# How fair the shuffle is

`shuffleQuestions` exchanges forward.  Its index is the bucket into which the
result of `rand` falls, so every index is reached, and all of them by almost
equally many results.
-/

namespace FpgaTrivia.Software

open FpgaTrivia.Arith
open FpgaTrivia.Shuffle

section Index

variable {randMax n i r : Nat}

/-- `n - i` does not wrap. -/
theorem sizeT_remaining (lt : i < n) (size : n < 2 ^ 32) : sizeT (n + 2 ^ 32 - i) = n - i := by
  rw [show n + 2 ^ 32 - i = n - i + 2 ^ 32 by omega, sizeT, Nat.add_mod_right]
  apply Nat.mod_eq_of_lt
  omega

/-- The index is computed without overflow. -/
theorem shuffleIndex_eq (lt : i < n) (size : n < 2 ^ 31) (max : randMax < 2 ^ 31)
    (le : r ≤ randMax) :
    shuffleIndex randMax n i r = i + r / (randMax / (n - i) + 1) := by
  have chosen := rand_div_lt (Nat.sub_pos_of_lt lt) le
  rw [shuffleIndex, bucketSize_eq lt (by omega) max]
  apply sizeT_of_lt
  omega

/-- Every index of the remaining array is reached. -/
theorem exists_shuffleIndex_eq {j : Nat} (lower : i ≤ j) (upper : j < n) (size : n < 2 ^ 31)
    (many : n * (n - 1) ≤ randMax) (max : randMax < 2 ^ 31) :
    ∃ r ≤ randMax, shuffleIndex randMax n i r = j := by
  have remaining : (n - i) * (n - i - 1) ≤ n * (n - 1) := by
    apply Nat.mul_le_mul
    · exact Nat.sub_le n i
    · exact Nat.sub_le_sub_right (Nat.sub_le n i) 1
  have lt : j - i < n - i := by omega
  obtain ⟨r, le, quotient⟩ := exists_div_eq (remaining.trans many) lt
  refine ⟨r, le, ?_⟩
  rw [shuffleIndex_eq (Nat.lt_of_le_of_lt lower upper) size max le, quotient]
  exact Nat.add_sub_cancel' lower

/-- The results of `rand` that lead to an index fill one bucket. -/
theorem filter_shuffleIndex {j : Nat} (lt : i < n) (lower : i ≤ j) (size : n < 2 ^ 31)
    (max : randMax < 2 ^ 31) :
    ((Finset.range (randMax + 1)).filter fun r => shuffleIndex randMax n i r = j) =
      bucket (randMax + 1) (randMax / (n - i) + 1) (j - i) := by
  apply Finset.filter_congr
  intro r member
  rw [shuffleIndex_eq lt size max (Nat.le_of_lt_succ (Finset.mem_range.mp member))]
  omega

end Index

section Shuffle

variable {α : Type} {randMax n : Nat} {rand : Nat → Nat}

theorem shuffleQuestions_of_long (long : 2 ≤ n) (questions : Fin n → α) :
    shuffleQuestions randMax rand questions =
      exchanges (fun i => shuffleIndex randMax n i (rand i)) (List.range' 0 (n - 1))
        questions := by
  rw [shuffleQuestions, if_pos (Nat.lt_of_succ_le long), List.range_eq_range']

theorem forward_shuffleIndex (size : n < 2 ^ 31) (max : randMax < 2 ^ 31)
    (le : ∀ k, rand k ≤ randMax) :
    Forward n (fun i => shuffleIndex randMax n i (rand i)) (List.range' 0 (n - 1)) := by
  intro i member
  have upper := (List.mem_range'_1.mp member).2
  exact shuffleIndex_bounds (by omega) size max (le i)

/-- Every permutation is the outcome of a shuffle. -/
theorem exists_shuffleQuestions_eq (long : 2 ≤ n) (size : n < 2 ^ 31)
    (many : n * (n - 1) ≤ randMax) (max : randMax < 2 ^ 31) (questions : Fin n → α)
    (σ : Equiv.Perm (Fin n)) :
    ∃ rand, (∀ k, rand k ≤ randMax) ∧
      shuffleQuestions randMax rand questions = some (questions ∘ σ) := by
  obtain ⟨position, forward, result⟩ := @exists_forward α n questions σ 0 (n - 1) (by omega)
    fun k before => absurd before (Nat.not_lt_zero _)
  have choice : ∀ i, ∃ r ≤ randMax, i ∈ List.range' 0 (n - 1) →
      shuffleIndex randMax n i r = position i := by
    intro i
    by_cases member : i ∈ List.range' 0 (n - 1)
    · obtain ⟨lower, upper⟩ := forward i member
      obtain ⟨r, le, index⟩ := exists_shuffleIndex_eq lower upper size many max
      exact ⟨r, le, fun _ => index⟩
    · exact ⟨0, Nat.zero_le _, fun listed => absurd listed member⟩
  choose rand le index using choice
  refine ⟨rand, le, ?_⟩
  rw [shuffleQuestions_of_long long, exchanges_congr index, result]

/-- On distinct entries no other indices lead to the same outcome. -/
theorem shuffleIndex_unique (long : 2 ≤ n) (size : n < 2 ^ 31) (max : randMax < 2 ^ 31)
    {questions shuffled : Fin n → α} (distinct : Function.Injective questions)
    {rand' : Nat → Nat} (le : ∀ k, rand k ≤ randMax) (le' : ∀ k, rand' k ≤ randMax)
    (result : shuffleQuestions randMax rand questions = some shuffled)
    (result' : shuffleQuestions randMax rand' questions = some shuffled) {i : Nat}
    (step : i < n - 1) :
    shuffleIndex randMax n i (rand i) = shuffleIndex randMax n i (rand' i) := by
  rw [shuffleQuestions_of_long long] at result result'
  apply forward_unique distinct (forward_shuffleIndex size max le)
    (forward_shuffleIndex size max le') result result'
  exact List.mem_range'_1.mpr ⟨Nat.zero_le i, by omega⟩

end Shuffle

/-- The shuffle is in range, complete and nearly fair.  The index is the exact
quotient in the remaining array; the outcome is a rearrangement; on distinct
entries every permutation comes from exactly one sequence of indices; every index is
reached, and two indices of one step are reached by almost equally many
results of `rand`. -/
theorem shuffleQuestions_fair {randMax n : Nat} (long : 2 ≤ n) (many : n * (n - 1) ≤ randMax)
    (max : randMax < 2 ^ 31) :
    (∀ i < n - 1, ∀ r ≤ randMax,
      sizeT (n + 2 ^ 32 - i) = n - i ∧ n - i ≠ 0 ∧
      bucketSize randMax n i = randMax / (n - i) + 1 ∧
      shuffleIndex randMax n i r = i + r / (randMax / (n - i) + 1) ∧
      i ≤ shuffleIndex randMax n i r ∧ shuffleIndex randMax n i r ≤ n - 1) ∧
    (∀ (α : Type) (questions : Fin n → α) (rand : Nat → Nat), (∀ k, rand k ≤ randMax) →
      ∃ shuffled, shuffleQuestions randMax rand questions = some shuffled ∧
        Rearranges shuffled questions) ∧
    (∀ (α : Type) (questions : Fin n → α), Function.Injective questions →
      ∀ σ : Equiv.Perm (Fin n), ∃! j : Fin (n - 1) → Nat, ∃ rand : Nat → Nat,
        (∀ k, rand k ≤ randMax) ∧ (∀ i, shuffleIndex randMax n i.val (rand i.val) = j i) ∧
        shuffleQuestions randMax rand questions = some (questions ∘ σ)) ∧
    (∀ i < n - 1, ∀ j, i ≤ j → j ≤ n - 1 → ∃ r ≤ randMax, shuffleIndex randMax n i r = j) ∧
    (∀ i < n - 1, ∀ j j', i ≤ j → j ≤ n - 1 → i ≤ j' → j' ≤ n - 1 →
      ((Finset.range (randMax + 1)).filter fun r => shuffleIndex randMax n i r = j).card ≤
        ((Finset.range (randMax + 1)).filter fun r => shuffleIndex randMax n i r = j').card +
          (n - i - 1)) := by
  have size : n < 2 ^ 31 := by
    have once : n * 1 ≤ n * (n - 1) := Nat.mul_le_mul_left n (by omega)
    omega
  refine ⟨?_, ?_, ?_, ?_, ?_⟩
  · intro i step r le
    have lt : i < n := by omega
    obtain ⟨lower, upper⟩ := shuffleIndex_bounds lt size max le
    exact ⟨sizeT_remaining lt (by omega), by omega, bucketSize_eq lt (by omega) max,
      shuffleIndex_eq lt size max le, lower, Nat.le_sub_one_of_lt upper⟩
  · intro α questions rand le
    exact shuffleQuestions_rearranges size max le questions
  · intro α questions distinct σ
    obtain ⟨rand, le, result⟩ := exists_shuffleQuestions_eq long size many max questions σ
    refine ⟨fun i => shuffleIndex randMax n i.val (rand i.val),
      ⟨rand, le, fun _ => rfl, result⟩, ?_⟩
    rintro j ⟨rand', le', index, result'⟩
    funext i
    rw [← index i]
    exact shuffleIndex_unique long size max distinct le' le result' result i.isLt
  · intro i step j lower upper
    exact exists_shuffleIndex_eq lower (by omega) size many max
  · intro i step j j' lower upper lower' upper'
    have lt : i < n := by omega
    rw [filter_shuffleIndex lt lower size max, filter_shuffleIndex lt lower' size max]
    apply card_bucket_le_add
    omega

/-- The array of the program with the `rand` of its library. -/
theorem shuffleQuestions_fair_fifteen : 2 ≤ 15 ∧ 15 * (15 - 1) ≤ 0x7fffffff ∧
    ∀ σ : Equiv.Perm (Fin 15), ∃! j : Fin 14 → Nat, ∃ rand : Nat → Nat,
      (∀ k, rand k ≤ 0x7fffffff) ∧
      (∀ i, shuffleIndex 0x7fffffff 15 i.val (rand i.val) = j i) ∧
      shuffleQuestions 0x7fffffff rand fillQuestions = some (fillQuestions ∘ σ) := by
  have distinct : Function.Injective fillQuestions := by
    have different : ∀ i j, fillQuestions i = fillQuestions j → i = j := by decide +kernel
    exact fun i j same => different i j same
  have fair := @shuffleQuestions_fair 0x7fffffff 15 (by decide) (by decide) (by decide)
  exact ⟨by decide, by decide, fair.2.2.1 Question fillQuestions distinct⟩

end FpgaTrivia.Software
