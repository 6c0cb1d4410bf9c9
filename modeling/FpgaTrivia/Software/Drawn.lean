import FpgaTrivia.Software.Control
import FpgaTrivia.Software.Layout

/-!
# The question that has been drawn

`q` and `answers` are set by the redraw block only, both at once.  Until its
first run `q` is the record that `fillQuestions` has left there and `answers`
is empty.  After that they belong to the old level, and nothing is counted at a
level for which no question has been drawn.
-/

namespace FpgaTrivia.Software

open FpgaTrivia.Arith
open FpgaTrivia.Shuffle

/-- The levels that have a branch in the redraw block. -/
def Draws (level : Nat) : Prop :=
  1 ≤ level ∧ level ≤ 5

namespace Sw

/-- The current question is a record of the level, and the slots hold its
answers. -/
structure Shows (level : Nat) (s : Sw) : Prop where
  level_eq : s.q.level = level
  recorded : Recorded s.q
  answers : Rearranges s.answers s.q.options

theorem SameQuestion.shows {level : Nat} {s t : Sw} (same : SameQuestion t s)
    (shows : Shows level s) : Shows level t where
  level_eq := by
    rw [same.q]
    exact shows.level_eq
  recorded := by
    rw [same.q]
    exact shows.recorded
  answers := by
    rw [same.q, same.answers]
    exact shows.answers

/-- The four answers of a record are distinct texts, so exactly one slot holds
the correct one. -/
theorem Shows.exists_unique {level : Nat} {s : Sw} (shows : Shows level s) :
    ∃ slot, ∀ i, s.answers i = s.q.answerCorrect ↔ i = slot := by
  obtain ⟨record, question⟩ := shows.recorded
  obtain ⟨slot, correct⟩ := shows.answers.exists_eq 3
  have distinct : Function.Injective s.answers := by
    apply shows.answers.injective
    rw [← question]
    exact fillQuestions_options_injective record
  refine ⟨slot, fun i => ?_⟩
  rw [show s.q.answerCorrect = s.answers slot from correct.symm]
  exact distinct.eq_iff

/-! ## Drawing -/

theorem redraw_of_redraws {s : Sw} (rand : Nat → Rand) (redraws : s.Redraws) :
    (s.redraw rand).SameQuestion
      ((s.drawQuestion rand).showScreen fun k => rand (k + s.drawCalls)) := by
  rw [redraw, if_pos redraws]
  exact ⟨rfl, rfl, rfl⟩

/-- At a question level the block stores a recorded question of the level. -/
theorem drawQuestion_of_draws {s : Sw} (rand : Nat → Rand) (draws : Draws s.level)
    (recorded : Rearranges s.questions fillQuestions) :
    ∃ q questions, s.drawQuestion rand = { s with q := q, questions := questions } ∧
      q.level = s.level ∧ Recorded q ∧ Rearranges questions fillQuestions := by
  obtain ⟨q, questions, result, level, record, whole⟩ :=
    getRandomQuestionByLevel_spec recorded rand draws.1 draws.2
  refine ⟨q, questions, ?_, level, record, whole⟩
  simp only [drawQuestion, if_pos (show 1 ≤ s.level ∧ s.level ≤ 5 from draws), result]

/-- At a question level the block shows the question screen. -/
theorem showScreen_of_draws {s : Sw} (rand : Nat → Rand) (draws : Draws s.level) :
    s.showScreen rand =
      { s with
        answers := shuffleAnswers rand s.q.options
        charBuf := questionScreen s.q rand s.level s.charBuf } := by
  have notIdle : s.level ≠ 0 := Nat.ne_of_gt draws.1
  have notWon : s.level ≠ 6 := fun won => absurd draws.2 (by omega)
  rw [showScreen, if_neg notIdle, if_neg notWon]
  rfl

theorem showScreen_of_not_draws {s : Sw} (rand : Nat → Rand) (quiet : ¬ Draws s.level)
    (upper : s.level ≤ 6) : (s.showScreen rand).SameQuestion s := by
  unfold Draws at quiet
  unfold showScreen
  split
  · exact ⟨rfl, rfl, rfl⟩
  · split
    · exact ⟨rfl, rfl, rfl⟩
    · omega

/-- The redraw block at a question level sets the question and its answers. -/
theorem shows_redraw {s : Sw} (rand : Nat → Rand) (redraws : s.Redraws) (draws : Draws s.level)
    (recorded : Rearranges s.questions fillQuestions) :
    Shows s.level (s.redraw rand) ∧ Rearranges (s.redraw rand).questions fillQuestions := by
  obtain ⟨q, questions, drawn, level, record, whole⟩ := drawQuestion_of_draws rand draws recorded
  have same := redraw_of_redraws rand redraws
  rw [drawn, @showScreen_of_draws { s with q := q, questions := questions } _ draws] at same
  have shownQ : (s.redraw rand).q = q := same.q
  have shownAnswers : (s.redraw rand).answers =
      shuffleAnswers (fun k => rand (k + s.drawCalls)) q.options := same.answers
  have shownQuestions : (s.redraw rand).questions = questions := same.questions
  refine ⟨⟨?_, ?_, ?_⟩, ?_⟩
  · rw [shownQ]
    exact level
  · rw [shownQ]
    exact record
  · rw [shownAnswers, shownQ]
    exact shuffleAnswers_rearranges _ _
  · rw [shownQuestions]
    exact whole

/-- The title screens leave the question alone. -/
theorem sameQuestion_redraw_of_not_draws {s : Sw} (rand : Nat → Rand) (quiet : ¬ Draws s.level)
    (upper : s.level ≤ 6) : (s.redraw rand).SameQuestion s := by
  by_cases redraws : s.Redraws
  · have drawn : s.drawQuestion rand = s := if_neg quiet
    have same := redraw_of_redraws rand redraws
    rw [drawn] at same
    exact same.trans (showScreen_of_not_draws _ quiet upper)
  · exact sameQuestion_redraw rand redraws

/-! ## The invariant -/

/-- The redraw block has not been entered yet. -/
structure First (s : Sw) : Prop where
  cnt : s.cnt = 0
  unpublished : s.pc ≠ .wrong ∧ s.pc ≠ .writeAnswer
  timeCnt : s.pc ≠ .redraw → s.timeCnt = 0

/-- The question belongs to the old level.  Before the redraw block of an
iteration the delay may have been counted at a level that is about to be
drawn. -/
structure Current (s : Sw) : Prop where
  shows : Draws s.oldLevel → Shows s.oldLevel s
  counting : s.timeCnt ≠ 0 → Draws s.oldLevel ∨
    ((s.pc = .wrong ∨ s.pc = .redraw) ∧ s.level ≠ s.oldLevel)

/-- What holds in every run that reads levels up to six. -/
structure Consistent (s : Sw) : Prop where
  questions : Rearranges s.questions fillQuestions
  reading : s.pc ≠ .readKey → s.pc ≠ .readLevel → s.level ≤ 6
  drawn : First s ∨ Current s

theorem consistent_boot (junk : Sw) : Consistent (boot junk) where
  questions := .refl fillQuestions
  reading := fun started => absurd rfl started
  drawn := Or.inl ⟨rfl, ⟨by simp [boot], by simp [boot]⟩, fun _ => rfl⟩

variable {s : Sw} {input : Input} {level : BitVec 4}

/-- The first iteration goes straight to the redraw block. -/
theorem First.step (first : First s) (undrawn : s.pc ≠ .redraw) :
    First (s.step input level) := by
  rcases pc : s.pc with _ | _ | _ | _ | _ | _
  · rw [step_readKey pc]
    exact ⟨first.cnt, ⟨by simp [readKey], by simp [readKey]⟩, fun _ => first.timeCnt undrawn⟩
  · rw [step_readLevel pc]
    exact ⟨first.cnt, ⟨by simp [readLevel], by simp [readLevel]⟩, fun _ => first.timeCnt undrawn⟩
  · have next : (s.judge input.wild).control.pc = .redraw := by
      rw [control_judge]
      apply Control.judge_pc_of_not_wrong
      right
      left
      rw [show s.control.timeCnt = 0 from first.timeCnt undrawn]
      decide
    change (s.judge input.wild).pc = .redraw at next
    rw [step_judge pc]
    exact ⟨(judge_cnt input.wild s).trans first.cnt, ⟨by simp [next], by simp [next]⟩,
      fun other => absurd next other⟩
  · exact absurd pc first.unpublished.1
  · exact absurd pc undrawn
  · exact absurd pc first.unpublished.2

theorem First.redraws (first : First s) : s.Redraws :=
  Or.inr first.cnt

theorem Consistent.judge (consistent : Consistent s) (pc : s.pc = .judge) :
    Consistent (s.judge input.wild) := by
  have same := sameQuestion_judge input.wild s
  have upper : s.level ≤ 6 := consistent.reading (by simp [pc]) (by simp [pc])
  have counts := @Control.judge_counted (s.verdict input.wild) s.control
  rw [← control_judge] at counts
  refine ⟨same.questions ▸ consistent.questions, fun _ _ => (judge_level _ s).le.trans upper, ?_⟩
  rcases consistent.drawn with first | current
  · left
    rw [← @step_judge s input 0 pc]
    exact first.step (by simp [pc])
  · right
    constructor
    · intro draws
      rw [judge_oldLevel] at draws ⊢
      exact same.shows (current.shows draws)
    · intro counted
      by_cases here : s.level = s.oldLevel
      · left
        rw [judge_oldLevel]
        rcases counts counted with before | ⟨notIdle, notWon⟩
        · exact (current.counting before).resolve_right fun both => both.2 here
        · change s.level ≠ 0 at notIdle
          change s.level ≠ 6 at notWon
          exact here ▸ ⟨by omega, by omega⟩
      · right
        refine ⟨(judge_pc input.wild s).symm, ?_⟩
        rw [judge_level, judge_oldLevel]
        exact here

theorem Consistent.redraw (consistent : Consistent s) (pc : s.pc = .redraw) :
    Consistent (s.redraw input.rand) := by
  have upper : s.level ≤ 6 := consistent.reading (by simp [pc]) (by simp [pc])
  have shown : Draws s.level → Shows s.level (s.redraw input.rand) ∧
      Rearranges (s.redraw input.rand).questions fillQuestions := by
    intro draws
    by_cases redraws : s.Redraws
    · exact shows_redraw input.rand redraws draws consistent.questions
    · have same := sameQuestion_redraw input.rand redraws
      have stays : s.level = s.oldLevel := by
        by_contra changed
        exact redraws (Or.inl changed)
      have current := consistent.drawn.resolve_left fun first => redraws first.redraws
      exact ⟨same.shows (stays ▸ current.shows (stays ▸ draws)),
        same.questions ▸ consistent.questions⟩
  refine ⟨?_, fun _ _ => (redraw_level _ s).le.trans upper, Or.inr ⟨?_, ?_⟩⟩
  · by_cases draws : Draws s.level
    · exact (shown draws).2
    · rw [(sameQuestion_redraw_of_not_draws input.rand draws upper).questions]
      exact consistent.questions
  · intro draws
    rw [redraw_oldLevel] at draws ⊢
    exact (shown draws).1
  · intro counted
    left
    rw [redraw_oldLevel]
    by_cases redraws : s.Redraws
    · -- the block has reset the counter
      have zero : (s.redraw input.rand).control.timeCnt = 0 := by
        rw [control_redraw, Control.redraw_of_redraws (show s.control.Redraws from redraws)]
      exact absurd zero counted
    · have stays : s.level = s.oldLevel := by
        by_contra changed
        exact redraws (Or.inl changed)
      have kept : (s.redraw input.rand).control.timeCnt = s.timeCnt := by
        rw [control_redraw, Control.redraw_of_not_redraws (show ¬ s.control.Redraws from redraws)]
        rfl
      have current := consistent.drawn.resolve_left fun first => redraws first.redraws
      rw [stays]
      exact (current.counting (fun zero => counted (kept.trans zero))).resolve_right
        fun both => both.2 stays

theorem Consistent.step (consistent : Consistent s) (upper : level.toNat ≤ 6) :
    Consistent (s.step input level) := by
  rcases pc : s.pc with _ | _ | _ | _ | _ | _
  · have first : First s → First (s.step input level) := fun first => first.step (by simp [pc])
    rw [step_readKey pc] at first ⊢
    refine ⟨consistent.questions, fun _ other => absurd rfl other, consistent.drawn.imp first ?_⟩
    intro current
    refine ⟨fun draws => (sameQuestion_readKey input.key s).shows (current.shows draws), ?_⟩
    intro counted
    exact Or.inl ((current.counting counted).resolve_right (by simp [pc]))
  · have first : First s → First (s.step input level) := fun first => first.step (by simp [pc])
    rw [step_readLevel pc] at first ⊢
    refine ⟨consistent.questions, fun _ _ => upper, consistent.drawn.imp first ?_⟩
    intro current
    refine ⟨fun draws => (sameQuestion_readLevel level s).shows (current.shows draws), ?_⟩
    intro counted
    exact Or.inl ((current.counting counted).resolve_right (by simp [pc]))
  · rw [step_judge pc]
    exact consistent.judge pc
  · have reading : s.level ≤ 6 := consistent.reading (by simp [pc]) (by simp [pc])
    rw [step_wrong pc]
    refine ⟨consistent.questions, fun _ _ => reading, Or.inr ?_⟩
    have current := consistent.drawn.resolve_left fun first => first.unpublished.1 pc
    exact ⟨fun draws => (sameQuestion_wrong s).shows (current.shows draws),
      fun counted => (current.counting counted).imp_right fun both => ⟨Or.inr rfl, both.2⟩⟩
  · rw [step_redraw pc]
    exact consistent.redraw pc
  · have reading : s.level ≤ 6 := consistent.reading (by simp [pc]) (by simp [pc])
    rw [step_writeAnswer pc]
    refine ⟨consistent.questions, fun started => absurd rfl started, Or.inr ?_⟩
    have current := consistent.drawn.resolve_left fun first => first.unpublished.2 pc
    exact ⟨fun draws => (sameQuestion_writeAnswer s).shows (current.shows draws),
      fun counted => Or.inl ((current.counting counted).resolve_right (by simp [pc]))⟩

/-- An answer is judged against the question of the old level. -/
theorem Consistent.shows_of_judges (consistent : Consistent s) (judges : s.Judges) :
    Shows s.oldLevel s := by
  obtain ⟨pc, -, -, -, -, passed⟩ := judges
  have counted : s.timeCnt ≠ 0 := by
    intro zero
    rw [zero] at passed
    exact absurd passed (by decide)
  have current := consistent.drawn.resolve_left fun first => counted (first.timeCnt (by simp [pc]))
  exact current.shows ((current.counting counted).resolve_right (by simp [pc]))

end Sw

end FpgaTrivia.Software
