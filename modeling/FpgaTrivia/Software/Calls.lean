import FpgaTrivia.Software.Fairness

/-!
# Repeated calls

Every call of `getRandomQuestionByLevel` shuffles the array that the earlier
calls have left in `questions[]`.  The file follows the array through any
sequence of calls.
-/

namespace FpgaTrivia.Software

open FpgaTrivia.Shuffle

/-- A call of `getRandomQuestionByLevel`: a level of the game and the results
that `rand` gives during the call. -/
structure Call where
  level : Nat
  rand : Nat → Rand
  asked : 1 ≤ level ∧ level ≤ 5

/-- What a call returns, and the array that it leaves. -/
def Call.run (call : Call) (questions : Fin 15 → Question) :
    Option (Question × (Fin 15 → Question)) :=
  getRandomQuestionByLevel call.rand call.level questions

/-- The array after a sequence of calls. -/
def questionsAfter (calls : List Call) (questions : Fin 15 → Question) :
    Option (Fin 15 → Question) :=
  calls.foldlM (fun questions call => (call.run questions).map Prod.snd) questions

/-- A call that returns hands its array on to the later ones. -/
theorem questionsAfter_cons {call : Call} {questions shuffled : Fin 15 → Question}
    {q : Question} (result : call.run questions = some (q, shuffled)) (rest : List Call) :
    questionsAfter (call :: rest) questions = questionsAfter rest shuffled := by
  simp only [questionsAfter, List.foldlM_cons, result]
  rfl

/-- A call on a rearrangement of the recorded questions returns one of them,
and leaves a rearrangement. -/
theorem Call.run_spec (call : Call) {questions : Fin 15 → Question}
    (recorded : Rearranges questions fillQuestions) :
    ∃ k shuffled, call.run questions = some (fillQuestions k, shuffled) ∧
      (fillQuestions k).level = call.level ∧ Rearranges shuffled fillQuestions := by
  obtain ⟨q, shuffled, result, level, ⟨k, rfl⟩, whole⟩ :=
    getRandomQuestionByLevel_spec recorded call.rand call.asked.1 call.asked.2
  exact ⟨k, shuffled, result, level, whole⟩

/-- Calls never run out of a question, and never lose one. -/
theorem questionsAfter_rearranges (calls : List Call) {start : Fin 15 → Question}
    (recorded : Rearranges start fillQuestions) :
    ∃ questions, questionsAfter calls start = some questions ∧
      Rearranges questions fillQuestions := by
  induction calls generalizing start with
  | nil => exact ⟨start, rfl, recorded⟩
  | cons call rest ih =>
      obtain ⟨k, shuffled, result, -, whole⟩ := call.run_spec recorded
      rw [questionsAfter_cons result]
      exact ih whole

/-- A record that the shuffle has put first is the one that the search
finds. -/
theorem getRandomQuestionByLevel_of_first {rand : Nat → Rand} {level : Nat}
    {questions shuffled : Fin 15 → Question}
    (result : shuffleQuestions randMax (fun k => (rand k).val) questions = some shuffled)
    (first : (shuffled 0).level = level) :
    getRandomQuestionByLevel rand level questions = some (shuffled 0, shuffled) := by
  have search : (List.ofFn shuffled).find? (fun q => q.level == level) = some (shuffled 0) := by
    rw [List.ofFn_succ]
    exact List.find?_cons_of_pos (beq_iff_eq.mpr first)
  rw [getRandomQuestionByLevel, result, Option.bind_some, search, Option.map_some]

/-- Any record of the asked level is returned for some results of `rand`. -/
theorem exists_getRandomQuestionByLevel_eq {questions : Fin 15 → Question}
    (recorded : Rearranges questions fillQuestions) (k : Fin 15) :
    ∃ rand shuffled, getRandomQuestionByLevel rand (fillQuestions k).level questions =
      some (fillQuestions k, shuffled) := by
  obtain ⟨l, source⟩ := recorded.exists_eq k
  obtain ⟨rand, le, result⟩ := exists_shuffleQuestions_eq (by decide) (by decide)
    (show 15 * (15 - 1) ≤ randMax by decide) (by decide) questions (Equiv.swap 0 l)
  have first : (questions ∘ Equiv.swap 0 l) 0 = fillQuestions k := by
    rw [Function.comp_apply, Equiv.swap_apply_left, source]
  refine ⟨fun i => ⟨rand i, Nat.lt_succ_of_le (le i)⟩, questions ∘ Equiv.swap 0 l, ?_⟩
  rw [getRandomQuestionByLevel_of_first result (congrArg Question.level first), first]

/-- After any calls the array is a rearrangement of the recorded questions.  The
next call returns a record of its level, and each of them for some results of
`rand`. -/
theorem calls_always_find (calls : List Call) :
    ∃ questions, questionsAfter calls fillQuestions = some questions ∧
      Rearranges questions fillQuestions ∧
      ∀ level, 1 ≤ level → level ≤ 5 →
        (∀ rand, ∃ k shuffled,
          getRandomQuestionByLevel rand level questions = some (fillQuestions k, shuffled) ∧
            (fillQuestions k).level = level) ∧
        ∀ k, (fillQuestions k).level = level → ∃ rand shuffled,
          getRandomQuestionByLevel rand level questions = some (fillQuestions k, shuffled) := by
  obtain ⟨questions, result, whole⟩ := questionsAfter_rearranges calls (.refl fillQuestions)
  refine ⟨questions, result, whole, ?_⟩
  intro level lower upper
  constructor
  · intro rand
    obtain ⟨k, shuffled, found, level_eq, -⟩ := Call.run_spec ⟨level, rand, lower, upper⟩ whole
    exact ⟨k, shuffled, found, level_eq⟩
  · rintro k rfl
    exact exists_getRandomQuestionByLevel_eq whole k

end FpgaTrivia.Software
