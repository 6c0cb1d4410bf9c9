import FpgaTrivia.Shuffle.Exchange
import FpgaTrivia.Software.Question
import Mathlib.Algebra.Group.Nat.Defs

/-!
# Random questions

The functions of the program that call `rand`.  `rand k` is the result of the
`k`-th call that a function makes; a caller hands on the later results to the
functions it calls later.
-/

namespace FpgaTrivia.Software

open FpgaTrivia.Shuffle

/-- `RAND_MAX` of the C library that the program is linked with. -/
def randMax : Nat := 0x7fffffff

/-- A result of `rand`. -/
abbrev Rand := Fin (randMax + 1)

/-- The lowest result. -/
def Rand.lowest : Rand :=
  0

/-- `size_t` is an unsigned 32-bit type. -/
def sizeT (x : Nat) : Nat :=
  x % 2 ^ 32

/-- The divisor `RAND_MAX / (n - i) + 1`. -/
def bucketSize (randMax n i : Nat) : Nat :=
  sizeT (randMax / sizeT (n + 2 ^ 32 - i) + 1)

/-- The index `j = i + rand() / (RAND_MAX / (n - i) + 1)`. -/
def shuffleIndex (randMax n i r : Nat) : Nat :=
  sizeT (i + r / bucketSize randMax n i)

/-- `shuffleQuestions` on an array of any length.  An index outside the array
has no result. -/
def shuffleQuestions {α : Type} {n : Nat} (randMax : Nat) (rand : Nat → Nat)
    (questions : Fin n → α) : Option (Fin n → α) :=
  if 1 < n then
    exchanges (fun i => shuffleIndex randMax n i (rand i)) (List.range (n - 1)) questions
  else some questions

theorem sizeT_of_lt {x : Nat} (lt : x < 2 ^ 32) : sizeT x = x :=
  Nat.mod_eq_of_lt lt

/-- In a nonempty remainder of the array the divisor is computed without
overflow. -/
theorem bucketSize_eq {randMax n i : Nat} (lt : i < n) (size : n < 2 ^ 32)
    (max : randMax < 2 ^ 31) : bucketSize randMax n i = randMax / (n - i) + 1 := by
  have remaining : sizeT (n + 2 ^ 32 - i) = n - i := by
    unfold sizeT
    omega
  have quotient : randMax / (n - i) ≤ randMax := Nat.div_le_self _ _
  rw [bucketSize, remaining, sizeT_of_lt (by omega)]

/-- The quotient of a result of `rand` selects one of the remaining entries. -/
theorem rand_div_lt {randMax d r : Nat} (pos : 0 < d) (le : r ≤ randMax) :
    r / (randMax / d + 1) < d := by
  rw [Nat.div_lt_iff_lt_mul (Nat.succ_pos _)]
  exact lt_of_le_of_lt le (Nat.lt_mul_div_succ randMax pos)

/-- The index is computed without overflow and lies in the remaining array. -/
theorem shuffleIndex_bounds {randMax n i r : Nat} (lt : i < n) (size : n < 2 ^ 31)
    (max : randMax < 2 ^ 31) (le : r ≤ randMax) :
    i ≤ shuffleIndex randMax n i r ∧ shuffleIndex randMax n i r < n := by
  have chosen := rand_div_lt (d := n - i) (by omega) le
  rw [shuffleIndex, bucketSize_eq lt (by omega) max]
  generalize r / (randMax / (n - i) + 1) = quotient at chosen ⊢
  rw [sizeT_of_lt (by omega)]
  omega

/-- The shuffle of an array of two or more entries is defined and rearranges
it. -/
theorem shuffleQuestions_rearranges {α : Type} {n : Nat} {randMax : Nat} {rand : Nat → Nat}
    (size : n < 2 ^ 31) (max : randMax < 2 ^ 31) (le : ∀ k, rand k ≤ randMax)
    (questions : Fin n → α) :
    ∃ shuffled, shuffleQuestions randMax rand questions = some shuffled ∧
      Rearranges shuffled questions := by
  unfold shuffleQuestions
  split
  · apply exchanges_rearranges
    intro i member
    have lt : i < n - 1 := List.mem_range.mp member
    exact ⟨by omega, (shuffleIndex_bounds (by omega) size max (le i)).2⟩
  · exact ⟨questions, rfl, .refl questions⟩

/-- `getRandomQuestionByLevel`: shuffle, then take the first record of the
level.  There is no result if the search falls through. -/
def getRandomQuestionByLevel (rand : Nat → Rand) (level : Nat)
    (questions : Fin 15 → Question) : Option (Question × (Fin 15 → Question)) :=
  (shuffleQuestions randMax (fun k => (rand k).val) questions).bind fun questions =>
    ((List.ofFn questions).find? fun q => q.level == level).map fun q => (q, questions)

/-- The calls of `rand` that one call of `getRandomQuestionByLevel` makes. -/
def questionCalls : Nat := 14

/-- Later calls of `rand` do not influence the question. -/
theorem getRandomQuestionByLevel_congr {rand rand' : Nat → Rand} {level : Nat}
    {questions : Fin 15 → Question} (same : ∀ k < questionCalls, rand' k = rand k) :
    getRandomQuestionByLevel rand' level questions =
      getRandomQuestionByLevel rand level questions := by
  have shuffled : shuffleQuestions randMax (fun k => (rand' k).val) questions =
      shuffleQuestions randMax (fun k => (rand k).val) questions := by
    have long : 1 < 15 := by decide
    rw [shuffleQuestions, shuffleQuestions, if_pos long, if_pos long]
    apply exchanges_congr
    intro i member
    rw [same i (List.mem_range.mp member)]
  rw [getRandomQuestionByLevel, shuffled, getRandomQuestionByLevel]

/-- From any rearrangement of the recorded questions a record of an asked
level is found, and the array stays a rearrangement. -/
theorem getRandomQuestionByLevel_spec {questions : Fin 15 → Question}
    (recorded : Rearranges questions fillQuestions) (rand : Nat → Rand) {level : Nat}
    (pos : 1 ≤ level) (le : level ≤ 5) :
    ∃ q shuffled, getRandomQuestionByLevel rand level questions = some (q, shuffled) ∧
      q.level = level ∧ Recorded q ∧ Rearranges shuffled fillQuestions := by
  obtain ⟨shuffled, result, rearranges⟩ :=
    shuffleQuestions_rearranges (by decide) (show randMax < 2 ^ 31 by decide)
      (fun k => Nat.le_of_lt_succ (rand k).isLt) questions
  have whole := rearranges.trans recorded
  obtain ⟨i, asked⟩ := fillQuestions_level level pos le
  obtain ⟨k, source⟩ := whole.exists_eq i
  have found : ∃ q, (List.ofFn shuffled).find? (fun q => q.level == level) = some q := by
    rw [← Option.isSome_iff_exists, List.find?_isSome]
    exact ⟨shuffled k, (List.mem_ofFn' _ _).mpr ⟨k, rfl⟩, by simp [source, asked]⟩
  obtain ⟨q, search⟩ := found
  have level_eq : q.level = level := by simpa using List.find?_some search
  obtain ⟨j, rfl⟩ := (List.mem_ofFn' _ _).mp (List.mem_of_find?_eq_some search)
  obtain ⟨l, origin⟩ := whole.exists_source j
  refine ⟨shuffled j, shuffled, ?_, level_eq, ⟨l, origin.symm⟩, whole⟩
  rw [getRandomQuestionByLevel, result, Option.bind_some, search, Option.map_some]

/-- `shuffleAnswers`: three exchanges with a random one of the four slots. -/
def shuffleAnswers (rand : Nat → Rand) (answers : Fin 4 → String) : Fin 4 → String :=
  [0, 1, 2].foldl
    (fun answers i => exchange answers (Fin.ofNat 4 i) (Fin.ofNat 4 (rand i).val)) answers

theorem shuffleAnswers_rearranges (rand : Nat → Rand) (answers : Fin 4 → String) :
    Rearranges (shuffleAnswers rand answers) answers := by
  simp only [shuffleAnswers, List.foldl_cons, List.foldl_nil]
  exact ((Rearranges.exchange _ _ _).trans (.exchange _ _ _)).trans (.exchange _ _ _)

end FpgaTrivia.Software
