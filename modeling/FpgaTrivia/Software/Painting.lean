import FpgaTrivia.Hardware.DriverRun
import FpgaTrivia.Software.Highlight

/-!
# The driver calls of the program

For every function that draws, the calls of the driver that it makes, in their
order.  They do to the screen what the function does, and so do the calls of a
step of the program.
-/

namespace FpgaTrivia.Software

open FpgaTrivia.Hardware
open FpgaTrivia.Shuffle

/-- `alt_up_char_buffer_string` with a text. -/
def callOf (text : CharBuffer.Text) : DriverCall :=
  .string text.ptr text.x text.y

/-- What the calls do to a screen. -/
def performAll (buf : CharBuffer) (calls : List DriverCall) : CharBuffer :=
  calls.foldl DriverCall.perform buf

/-! ## The functions that draw -/

/-- The calls of `displayTitle`. -/
def displayTitleCalls (text : String) : List DriverCall :=
  [.clear, .string text (xMargin + 17) (yMargin + 15)]

/-- The calls of `displayLevel`. -/
def displayLevelCalls (level : Nat) : List DriverCall :=
  levelNames.map callOf ++ (levelArrow level).map callOf

/-- The calls of `displayBoxes`. -/
def displayBoxesCalls : List DriverCall :=
  questionLine.map callOf ++ answerLines.map callOf

/-- The calls of `displayQuestion`. -/
def displayQuestionCalls (q : Question) (rand : Nat → Rand) (showAnswers : Bool) :
    List DriverCall :=
  [.clear] ++
    (if showAnswers then (answerTexts (shuffleAnswers rand q.options)).map callOf else []) ++
    [.string q.question (xMargin - 2) yMargin]

/-- The calls of `highlightAnswer`. -/
def highlightAnswerCalls (key : Nat) : List DriverCall :=
  if key = 0b0000 then
    [.string " " (xMargin - 1) (yMargin + 10), .string " " (xMargin + 30 - 1) (yMargin + 10),
      .string " " (xMargin - 1) (yMargin + 20), .string " " (xMargin + 30 - 1) (yMargin + 20)]
  else if key = 0b0001 then [.string "O" (xMargin - 1) (yMargin + 10)]
  else if key = 0b0010 then [.string "O" (xMargin + 30 - 1) (yMargin + 10)]
  else if key = 0b0100 then [.string "O" (xMargin - 1) (yMargin + 20)]
  else if key = 0b1000 then [.string "O" (xMargin + 30 - 1) (yMargin + 20)]
  else []

/-- The calls in the loop of `highlighCorrecttAnswer`. -/
def highlightIfCorrectCalls (q : Question) (answers : Fin 4 → String) (i : Fin 4) :
    List DriverCall :=
  if answers i = q.answerCorrect then
    if i = 0 then [.string "O" (xMargin - 1) (yMargin + 10)]
    else if i = 1 then [.string "O" (xMargin + 30 - 1) (yMargin + 10)]
    else if i = 2 then [.string "O" (xMargin - 1) (yMargin + 20)]
    else if i = 3 then [.string "O" (xMargin + 30 - 1) (yMargin + 20)]
    else []
  else []

/-- The calls of `highlighCorrecttAnswer`. -/
def highlighCorrecttAnswerCalls (key : Nat) (q : Question) (answers : Fin 4 → String) :
    List DriverCall :=
  [0, 1, 2, 3].flatMap (highlightIfCorrectCalls q answers) ++
    if key = 0b0001 then [.string "X" (xMargin - 1) (yMargin + 10)]
    else if key = 0b0010 then [.string "X" (xMargin + 30 - 1) (yMargin + 10)]
    else if key = 0b0100 then [.string "X" (xMargin - 1) (yMargin + 20)]
    else if key = 0b1000 then [.string "X" (xMargin + 30 - 1) (yMargin + 20)]
    else []

section Perform

variable {buf : CharBuffer}

theorem performAll_append (buf : CharBuffer) (calls calls' : List DriverCall) :
    performAll buf (calls ++ calls') = performAll (performAll buf calls) calls' :=
  List.foldl_append

theorem performAll_texts (buf : CharBuffer) (texts : List CharBuffer.Text) :
    performAll buf (texts.map callOf) = buf.drawAll texts := by
  induction texts generalizing buf with
  | nil => rfl
  | cons text rest ih => exact ih (buf.draw text.ptr text.x text.y)

theorem performAll_displayTitle (text : String) :
    performAll buf (displayTitleCalls text) = displayTitle text buf :=
  rfl

theorem performAll_displayLevel (level : Nat) :
    performAll buf (displayLevelCalls level) = displayLevel level buf := by
  rw [displayLevelCalls, performAll_append, performAll_texts, performAll_texts]
  rfl

theorem performAll_displayBoxes : performAll buf displayBoxesCalls = displayBoxes buf := by
  rw [displayBoxesCalls, performAll_append, performAll_texts, performAll_texts]
  rfl

theorem performAll_displayQuestion (q : Question) (rand : Nat → Rand) (showAnswers : Bool) :
    performAll buf (displayQuestionCalls q rand showAnswers) =
      (displayQuestion q rand showAnswers buf).2 := by
  rw [displayQuestionCalls, performAll_append, performAll_append]
  cases showAnswers with
  | true =>
      rw [if_pos rfl, performAll_texts]
      rfl
  | false => rfl

theorem performAll_highlightAnswer (key : Nat) :
    performAll buf (highlightAnswerCalls key) = highlightAnswer key buf := by
  unfold highlightAnswerCalls highlightAnswer
  repeat' split
  all_goals rfl

theorem performAll_highlightIfCorrect (q : Question) (answers : Fin 4 → String) (i : Fin 4) :
    performAll buf (highlightIfCorrectCalls q answers i) =
      highlightIfCorrect q answers buf i := by
  unfold highlightIfCorrectCalls highlightIfCorrect
  repeat' split
  all_goals rfl

theorem performAll_highlighCorrecttAnswer (key : Nat) (q : Question) (answers : Fin 4 → String) :
    performAll buf (highlighCorrecttAnswerCalls key q answers) =
      highlighCorrecttAnswer key q answers buf := by
  have marks : performAll buf ([0, 1, 2, 3].flatMap (highlightIfCorrectCalls q answers)) =
      [0, 1, 2, 3].foldl (highlightIfCorrect q answers) buf := by
    simp only [List.flatMap_cons, List.flatMap_nil, List.append_nil, performAll_append,
      performAll_highlightIfCorrect, List.foldl_cons, List.foldl_nil]
  rw [highlighCorrecttAnswerCalls, performAll_append, marks, highlighCorrecttAnswer]
  repeat' split
  all_goals rfl

end Perform

namespace Sw

/-! ## The steps of the loop -/

/-- The calls of `highlight`. -/
def highlightCalls (s : Sw) : List DriverCall :=
  if s.level ≠ 0 ∧ s.level ≠ 6 then highlightAnswerCalls s.key else []

/-- The calls in the block `if (ready == 1)`. -/
def respondCalls (s : Sw) : List DriverCall :=
  if s.ready = 1 then
    if s.level = 0b0000 then []
    else if s.level = 0b0110 then []
    else if s.key ≠ 0b0000 then highlightAnswerCalls s.key
    else []
  else []

/-- The calls of `judge`. -/
def judgeCalls (s : Sw) : List DriverCall :=
  s.highlightCalls ++ s.highlight.release.noAnswer.respondCalls

/-- The calls of `showScreen`. -/
def showScreenCalls (rand : Nat → Rand) (s : Sw) : List DriverCall :=
  if s.level = 0 then displayTitleCalls "Press any key to start the game."
  else if s.level = 6 then displayTitleCalls "You win!!!"
  else displayQuestionCalls s.q rand true ++ displayLevelCalls s.level ++ displayBoxesCalls

/-- The calls of `redraw`. -/
def redrawCalls (rand : Nat → Rand) (s : Sw) : List DriverCall :=
  if s.Redraws then
    (s.drawQuestion rand).showScreenCalls fun k => rand (k + s.drawCalls)
  else []

/-- The calls that the program makes in a step of the loop. -/
def calls (input : Input) (s : Sw) : List DriverCall :=
  match s.pc with
  | .readKey => []
  | .readLevel => []
  | .judge => s.judgeCalls
  | .wrong => highlighCorrecttAnswerCalls s.key s.q s.answers
  | .redraw => s.redrawCalls input.rand
  | .writeAnswer => []

theorem performAll_highlight (s : Sw) :
    performAll s.charBuf s.highlightCalls = s.highlight.charBuf := by
  unfold highlightCalls highlight
  split
  · exact performAll_highlightAnswer s.key
  · rfl

theorem performAll_respond (wild : Bool) (s : Sw) :
    performAll s.charBuf s.respondCalls = (s.respond wild).charBuf := by
  unfold respondCalls respond
  split
  · split
    · split <;> rfl
    · split
      · rfl
      · split
        · rw [confirm_charBuf]
          exact performAll_highlightAnswer s.key
        · rfl
  · rfl

theorem performAll_judge (wild : Bool) (s : Sw) :
    performAll s.charBuf s.judgeCalls = (s.judge wild).charBuf := by
  have prepared : s.highlight.charBuf = s.highlight.release.noAnswer.charBuf := by
    unfold noAnswer release
    split <;> rfl
  rw [judgeCalls, performAll_append, performAll_highlight, prepared, performAll_respond wild, judge]

theorem drawQuestion_charBuf (rand : Nat → Rand) (s : Sw) :
    (s.drawQuestion rand).charBuf = s.charBuf := by
  unfold drawQuestion
  split
  · split <;> rfl
  · rfl

theorem performAll_showScreen (rand : Nat → Rand) (s : Sw) :
    performAll s.charBuf (s.showScreenCalls rand) = (s.showScreen rand).charBuf := by
  unfold showScreenCalls showScreen
  split
  · exact performAll_displayTitle _
  · split
    · exact performAll_displayTitle _
    · rw [performAll_append, performAll_append, performAll_displayQuestion,
        performAll_displayLevel, performAll_displayBoxes]

theorem performAll_redraw (rand : Nat → Rand) (s : Sw) :
    performAll s.charBuf (s.redrawCalls rand) = (s.redraw rand).charBuf := by
  unfold redrawCalls redraw
  split
  · rw [← drawQuestion_charBuf rand s]
    exact performAll_showScreen _ _
  · rfl

/-- The calls of a step do to the screen what the step does. -/
theorem performAll_calls (input : Input) (level : BitVec 4) (s : Sw) :
    performAll s.charBuf (s.calls input) = (s.step input level).charBuf := by
  unfold calls
  rcases pc : s.pc with _ | _ | _ | _ | _ | _
  · rw [step_readKey pc]
    rfl
  · rw [step_readLevel pc]
    rfl
  · rw [step_judge pc]
    exact performAll_judge input.wild s
  · rw [step_wrong pc]
    exact performAll_highlighCorrecttAnswer s.key s.q s.answers
  · rw [step_redraw pc]
    exact performAll_redraw input.rand s
  · rw [step_writeAnswer pc]
    rfl

/-- Every screen begins with a clear. -/
theorem redrawCalls_of_redraws {s : Sw} (redraws : s.Redraws) (rand : Nat → Rand) :
    ∃ rest, s.redrawCalls rand = .clear :: rest := by
  rw [redrawCalls, if_pos redraws, showScreenCalls]
  split
  · exact ⟨_, rfl⟩
  · split
    · exact ⟨_, rfl⟩
    · exact ⟨_, rfl⟩

end Sw

end FpgaTrivia.Software
