import FpgaTrivia.Hardware.Paint
import FpgaTrivia.Software.Highlight
import FpgaTrivia.Software.Outputs

/-!
# What the screen shows

A screen is one of the two titles, or a question with its marks.  It says what
every visible cell is to show.  The file follows the screen through a session:
the redraw block replaces it, and nothing but the marks changes in between.
-/

namespace FpgaTrivia.Software

open FpgaTrivia.Hardware
open FpgaTrivia.Hardware.CharBuffer
open FpgaTrivia.Shuffle
open FpgaTrivia.Transition

/-- What is to be seen. -/
inductive Screen
  | title (text : String)
  | asking (q : Question) (answers : Fin 4 → String) (level : Nat) (marks : Fin 4 → Char)

namespace Screen

/-- A mark as a text of one character. -/
def markText (marks : Fin 4 → Char) (slot : Fin 4) : Text :=
  ⟨String.singleton (marks slot), markColumn slot, markRow slot⟩

/-- The texts of a screen, in the order in which they cover each other. -/
def texts : Screen → List Text
  | title text => [⟨text, xMargin + 17, yMargin + 15⟩]
  | asking q answers level marks =>
      contents q answers level ++ answerLines ++ (List.finRange 4).map (markText marks)

/-- The character to be seen in column `x` of row `y`. -/
def char (screen : Screen) (x y : Nat) : Char :=
  paint screen.texts x y ' '

/-- The buffer shows the screen in all visible cells. -/
def On (screen : Screen) (buf : CharBuffer) : Prop :=
  ∀ x < xResolution, ∀ y < yResolution, buf.cell x y = screen.char x y

/-! ## The cells of the marks -/

/-- The cell holds no mark. -/
def Away (x y : Nat) : Prop :=
  ∀ slot, ¬ (x = markColumn slot ∧ y = markRow slot)

theorem charAt_markText (marks : Fin 4 → Char) (slot : Fin 4) (x y : Nat) :
    (markText marks slot).charAt x y =
      if x = markColumn slot ∧ y = markRow slot then some (marks slot) else none := by
  have single : (markText marks slot).ptr.toList = [marks slot] := by simp [markText]
  unfold Text.charAt
  rw [single]
  change (if y = markRow slot ∧ markColumn slot ≤ x then
    [marks slot][x - markColumn slot]? else none) = _
  by_cases here : x = markColumn slot ∧ y = markRow slot
  · rw [if_pos here, if_pos ⟨here.2, here.1.symm.le⟩, here.1, Nat.sub_self]
    rfl
  · rw [if_neg here]
    split
    · rename_i covered
      apply List.getElem?_eq_none
      simp
      omega
    · rfl

theorem paint_marks_away (marks : Fin 4 → Char) {x y : Nat} (away : Away x y) (ground : Char) :
    paint ((List.finRange 4).map (markText marks)) x y ground = ground := by
  apply paint_of_misses
  intro text member
  obtain ⟨slot, -, rfl⟩ := List.mem_map.mp member
  apply Text.misses_of_charAt
  rw [charAt_markText, if_neg (away slot)]

theorem paint_marks (marks : Fin 4 → Char) (slot : Fin 4) (ground : Char) :
    paint ((List.finRange 4).map (markText marks)) (markColumn slot) (markRow slot) ground =
      marks slot := by
  have apart : ∀ slot other : Fin 4,
      (markColumn slot = markColumn other ∧ markRow slot = markRow other) ↔ slot = other := by
    decide
  have four : List.finRange 4 = [0, 1, 2, 3] := rfl
  simp only [four, List.map_cons, List.map_nil, paint, List.foldl_cons, List.foldl_nil,
    charAt_markText, apart]
  revert slot
  apply forall_slots <;> rfl

theorem char_asking_away (q : Question) (answers : Fin 4 → String) (level : Nat)
    (marks : Fin 4 → Char) {x y : Nat} (away : Away x y) :
    (asking q answers level marks).char x y = paint (contents q answers level ++ answerLines) x y ' '
    := by
  rw [char, texts, paint_append, paint_marks_away marks away]

theorem char_asking_mark (q : Question) (answers : Fin 4 → String) (level : Nat)
    (marks : Fin 4 → Char) (slot : Fin 4) :
    (asking q answers level marks).char (markColumn slot) (markRow slot) = marks slot := by
  rw [char, texts, paint_append, paint_marks]

/-- A question is shown when the marks are and the rest of the screen is. -/
theorem on_asking {q : Question} {answers : Fin 4 → String} {level : Nat} {marks : Fin 4 → Char}
    {buf : CharBuffer} (marked : ∀ slot, mark buf slot = marks slot)
    (rest : ∀ x < xResolution, ∀ y < yResolution, Away x y →
      buf.cell x y = paint (contents q answers level ++ answerLines) x y ' ') :
    (asking q answers level marks).On buf := by
  intro x column y row
  by_cases away : Away x y
  · rw [rest x column y row away, char_asking_away q answers level marks away]
  · simp only [Away, not_forall, not_not] at away
    obtain ⟨slot, rfl, rfl⟩ := away
    rw [char_asking_mark]
    exact marked slot

/-- A title that fits is shown alone. -/
theorem on_displayTitle {text : String} (fits : Text.Fits ⟨text, xMargin + 17, yMargin + 15⟩)
    (buf : CharBuffer) : (title text).On (displayTitle text buf) := by
  intro x column y _
  exact cell_draw buf.clear fits column

theorem fits_of_part {q : Question} (printable : Printable q) {rand : Nat → Rand} {level : Nat}
    {text : Text} (part : Part q (shuffleAnswers rand q.options) level text) : text.Fits := by
  cases part with
  | label slot here =>
      have labels : ∀ slot, (labelText slot).Fits := by decide
      exact here ▸ labels slot
  | answer slot here => exact here ▸ printable.fits_answer rand slot
  | question here => exact here ▸ printable.fits_question
  | name here =>
      have names : ∀ text ∈ levelNames, text.Fits := by decide
      exact names text here
  | arrow here =>
      revert here
      unfold levelArrow
      repeat' split
      all_goals
        revert text
        decide
  | underline here =>
      have line : ∀ text ∈ questionLine, text.Fits := by decide
      exact line text here
  | line here =>
      have lines : ∀ text ∈ answerLines, text.Fits := by decide
      exact lines text here

/-- A new question is shown without marks. -/
theorem on_questionScreen {q : Question} (printable : Printable q) (rand : Nat → Rand)
    (level : Nat) (buf : CharBuffer) :
    (asking q (shuffleAnswers rand q.options) level fun _ => ' ').On
      (questionScreen q rand level buf) := by
  apply on_asking (mark_questionScreen printable rand level buf)
  intro x column y _ _
  rw [questionScreen_eq]
  exact cell_drawAll buf.clear (fun text member => fits_of_part printable (part_of_mem member))
    column

/-! ## Marking -/

/-- Only marks have been drawn. -/
def OnlyMarks (buf buf' : CharBuffer) : Prop :=
  ∀ x < xResolution, ∀ y, Away x y → buf'.cell x y = buf.cell x y

theorem OnlyMarks.refl (buf : CharBuffer) : OnlyMarks buf buf :=
  fun _ _ _ _ => rfl

theorem OnlyMarks.trans {buf buf' buf'' : CharBuffer} (first : OnlyMarks buf buf')
    (second : OnlyMarks buf' buf'') : OnlyMarks buf buf'' :=
  fun x column y away => (second x column y away).trans (first x column y away)

theorem onlyMarks_drawMark {ptr : String} (single : ptr.length = 1) (slot : Fin 4)
    (buf : CharBuffer) : OnlyMarks buf (drawMark ptr slot buf) := by
  intro x column y away
  apply cell_draw_of_disjoint buf ptr column
  have apart := away slot
  omega

theorem onlyMarks_highlightAnswer (key : Nat) (buf : CharBuffer) :
    OnlyMarks buf (highlightAnswer key buf) := by
  by_cases released : key = 0
  · have blanks : highlightAnswer key buf =
        drawMark " " 3 (drawMark " " 2 (drawMark " " 1 (drawMark " " 0 buf))) := by
      rw [released]
      rfl
    have blank : ∀ slot buf, OnlyMarks buf (drawMark " " slot buf) := onlyMarks_drawMark rfl
    rw [blanks]
    exact (((blank 0 _).trans (blank 1 _)).trans (blank 2 _)).trans (blank 3 _)
  · by_cases single : ∃ slot, key = keyOf slot
    · obtain ⟨slot, rfl⟩ := single
      rw [highlightAnswer_keyOf]
      exact onlyMarks_drawMark rfl slot buf
    · rw [highlightAnswer_of_ne released fun slot same => single ⟨slot, same⟩]
      exact .refl buf

/-- The loop body draws at its own slot. -/
theorem highlightIfCorrect_eq (q : Question) (answers : Fin 4 → String) (buf : CharBuffer)
    (slot : Fin 4) : highlightIfCorrect q answers buf slot =
      if answers slot = q.answerCorrect then drawMark "O" slot buf else buf := by
  revert slot
  apply forall_slots <;> rfl

theorem mark_highlightIfCorrect (q : Question) (answers : Fin 4 → String) (buf : CharBuffer)
    (i slot : Fin 4) : mark (highlightIfCorrect q answers buf i) slot =
      if slot = i ∧ answers i = q.answerCorrect then 'O' else mark buf slot := by
  rw [highlightIfCorrect_eq]
  by_cases correct : answers i = q.answerCorrect
  · rw [if_pos correct, mark_drawMark (show "O".toList = ['O'] from rfl) (by decide)]
    simp [correct]
  · rw [if_neg correct, if_neg fun both => correct both.2]

theorem onlyMarks_highlightIfCorrect (q : Question) (answers : Fin 4 → String) (buf : CharBuffer)
    (slot : Fin 4) : OnlyMarks buf (highlightIfCorrect q answers buf slot) := by
  rw [highlightIfCorrect_eq]
  split
  · exact onlyMarks_drawMark rfl slot buf
  · exact .refl buf

/-- After the loop a single key is crossed. -/
theorem highlighCorrecttAnswer_eq (key : Nat) (q : Question) (answers : Fin 4 → String)
    (buf : CharBuffer) :
    (∃ slot, key = keyOf slot ∧ highlighCorrecttAnswer key q answers buf =
        drawMark "X" slot ([0, 1, 2, 3].foldl (highlightIfCorrect q answers) buf)) ∨
      ((∀ slot, key ≠ keyOf slot) ∧ highlighCorrecttAnswer key q answers buf =
        [0, 1, 2, 3].foldl (highlightIfCorrect q answers) buf) := by
  by_cases single : ∃ slot, key = keyOf slot
  · obtain ⟨slot, rfl⟩ := single
    left
    refine ⟨slot, rfl, ?_⟩
    revert slot
    apply forall_slots <;> rfl
  · right
    have first : key ≠ 1 := fun same => single ⟨0, same⟩
    have second : key ≠ 2 := fun same => single ⟨1, same⟩
    have third : key ≠ 4 := fun same => single ⟨2, same⟩
    have fourth : key ≠ 8 := fun same => single ⟨3, same⟩
    refine ⟨fun slot same => single ⟨slot, same⟩, ?_⟩
    simp [highlighCorrecttAnswer, first, second, third, fourth]

theorem onlyMarks_highlighCorrecttAnswer (key : Nat) (q : Question) (answers : Fin 4 → String)
    (buf : CharBuffer) : OnlyMarks buf (highlighCorrecttAnswer key q answers buf) := by
  have circle := onlyMarks_highlightIfCorrect q answers
  have circles : OnlyMarks buf ([0, 1, 2, 3].foldl (highlightIfCorrect q answers) buf) :=
    (((circle _ 0).trans (circle _ 1)).trans (circle _ 2)).trans (circle _ 3)
  rcases highlighCorrecttAnswer_eq key q answers buf with ⟨slot, -, cross⟩ | ⟨-, same⟩
  · rw [cross]
    exact circles.trans (onlyMarks_drawMark rfl slot _)
  · rw [same]
    exact circles

/-- The marks after a wrong answer, whatever keys are down and whatever the
slots hold. -/
theorem mark_highlighCorrecttAnswer_eq (key : Nat) (q : Question) (answers : Fin 4 → String)
    (buf : CharBuffer) (slot : Fin 4) :
    mark (highlighCorrecttAnswer key q answers buf) slot =
      if key = keyOf slot then 'X'
      else if answers slot = q.answerCorrect then 'O' else mark buf slot := by
  have circles : mark ([0, 1, 2, 3].foldl (highlightIfCorrect q answers) buf) slot =
      if answers slot = q.answerCorrect then 'O' else mark buf slot := by
    simp only [List.foldl_cons, List.foldl_nil, mark_highlightIfCorrect]
    revert slot
    apply forall_slots <;> simp
  rcases highlighCorrecttAnswer_eq key q answers buf with ⟨pressed, rfl, cross⟩ | ⟨none, same⟩
  · rw [cross, mark_drawMark (show "X".toList = ['X'] from rfl) (by decide), circles]
    simp only [keyOf_injective.eq_iff, eq_comm]
  · rw [same, circles, if_neg (none slot)]

/-- Where only marks are drawn, the rest of a question stays. -/
theorem On.remark {q : Question} {answers : Fin 4 → String} {level : Nat}
    {marks marks' : Fin 4 → Char} {buf buf' : CharBuffer}
    (shown : (asking q answers level marks).On buf) (only : OnlyMarks buf buf')
    (marked : ∀ slot, mark buf' slot = marks' slot) :
    (asking q answers level marks').On buf' := by
  apply on_asking marked
  intro x column y row away
  rw [only x column y away, shown x column y row, char_asking_away q answers level marks away]

theorem On.mark {q : Question} {answers : Fin 4 → String} {level : Nat} {marks : Fin 4 → Char}
    {buf : CharBuffer} (shown : (asking q answers level marks).On buf) (slot : Fin 4) :
    Software.mark buf slot = marks slot := by
  have row : markRow slot < yResolution := by
    have rows := markRow_eq slot
    change markRow slot < 60
    omega
  rw [Software.mark, shown _ (markColumn_lt slot) _ row, char_asking_mark]

end Screen

/-- What an iteration makes of the marks: the key it reads is added, or all are
blanked; a wrong verdict circles the right answer and crosses the chosen one. -/
def remark (key : BitVec 4) (wrong : Bool) (q : Question) (answers : Fin 4 → String)
    (marks : Fin 4 → Char) (slot : Fin 4) : Char :=
  let shown := if key = 0 then ' ' else if key.toNat = keyOf slot then 'O' else marks slot
  if wrong = true then
    if key.toNat = keyOf slot then 'X'
    else if answers slot = q.answerCorrect then 'O' else shown
  else shown

/-- The screen of a level. -/
def Screen.ofLevel (level : Nat) (q : Question) (answers : Fin 4 → String)
    (marks : Fin 4 → Char) : Screen :=
  if level = 0 then .title "Press any key to start the game."
  else if level = 6 then .title "You win!!!"
  else .asking q answers level marks

namespace Sw

open Screen

variable {s : Sw} {reading : Reading}

/-! ## One iteration -/

/-- At the titles nothing is drawn before the redraw block. -/
theorem decided_charBuf_of_title (title : ¬ Asks reading.level) :
    (s.decided reading).charBuf = s.charBuf := by
  have quiet : ¬ (s.entered reading).Counts := fun counts => title counts.2.2
  have unlit : (s.entered reading).highlight = s.entered reading := if_neg title
  obtain ⟨next, -, -⟩ := @judge_of_not_counts _ reading.input.wild quiet
  rw [decided_of_redraw next, judge_charBuf_of_not_counts quiet, unlit]
  rfl

theorem onlyMarks_judge (asks : s.level ≠ 0 ∧ s.level ≠ 6) (wild : Bool) :
    OnlyMarks s.charBuf (s.judge wild).charBuf := by
  have prepared : s.highlight.release.noAnswer.charBuf = highlightAnswer s.key s.charBuf := by
    unfold noAnswer release highlight
    rw [if_pos asks]
    split <;> rfl
  have first := onlyMarks_highlightAnswer s.key s.charBuf
  rw [judge]
  rcases respond_charBuf wild s.highlight.release.noAnswer with same | again
  · rw [same, prepared]
    exact first
  · rw [again, prepared]
    exact first.trans (onlyMarks_highlightAnswer _ _)

/-- At a question the iteration changes the marks only, up to the redraw
block. -/
theorem decided_marks (asks : Asks reading.level) {wrong : Bool}
    (decides : wrong = true ↔ (s.entered reading).Judges ∧
      (s.entered reading).verdict reading.input.wild = false) :
    OnlyMarks s.charBuf (s.decided reading).charBuf ∧
      ∀ slot, mark (s.decided reading).charBuf slot =
        remark reading.input.key wrong s.q s.answers (mark s.charBuf) slot := by
  have released : reading.input.key = 0 ↔ reading.input.key.toNat = 0 :=
    ⟨fun zero => congrArg BitVec.toNat zero, fun zero => BitVec.eq_of_toNat_eq zero⟩
  have lit : ∀ slot, mark (highlightAnswer reading.input.key.toNat s.charBuf) slot =
      if reading.input.key = 0 then ' '
      else if reading.input.key.toNat = keyOf slot then 'O' else mark s.charBuf slot := by
    intro slot
    rw [mark_highlightAnswer]
    simp only [released]
  by_cases judged : (s.entered reading).Judges ∧
      (s.entered reading).verdict reading.input.wild = false
  · obtain ⟨judges, incorrect⟩ := judged
    have published : (s.entered reading).judge reading.input.wild =
        (s.entered reading).compared.publishWrong := by
      rw [judge_of_judges judges, if_neg (by simp [incorrect])]
    have screen : (s.decided reading).charBuf =
        highlighCorrecttAnswer reading.input.key.toNat s.q s.answers
          (highlightAnswer reading.input.key.toNat
            (highlightAnswer reading.input.key.toNat s.charBuf)) := by
      rw [decided, published, settle, if_pos (by simp [publishWrong])]
      rfl
    have wrongly : wrong = true := decides.mpr ⟨judges, incorrect⟩
    rw [screen]
    constructor
    · exact ((onlyMarks_highlightAnswer _ _).trans (onlyMarks_highlightAnswer _ _)).trans
        (onlyMarks_highlighCorrecttAnswer _ _ _ _)
    · intro slot
      rw [mark_highlighCorrecttAnswer_eq, mark_highlightAnswer_again, lit, remark, if_pos wrongly]
  · have right : (s.entered reading).Judges →
        (s.entered reading).verdict reading.input.wild = true := by
      intro judges
      by_contra incorrect
      exact judged ⟨judges, by simpa using incorrect⟩
    have straight := (judge_of_not_wrong (show (s.entered reading).pc = .judge from rfl) right).1
    have rightly : ¬ wrong = true := mt decides.mp judged
    rw [decided_of_redraw straight]
    constructor
    · exact @onlyMarks_judge (s.entered reading) asks reading.input.wild
    · intro slot
      rw [@mark_judge (s.entered reading) asks, remark, if_neg rightly]
      exact lit slot

/-! ## The redraw block -/

theorem drawQuestion_level (rand : Nat → Rand) (s : Sw) :
    (s.drawQuestion rand).level = s.level :=
  congrArg Control.level (control_drawQuestion rand s)

/-- The question is always one of the recorded ones. -/
theorem recorded_drawQuestion (rand : Nat → Rand)
    (questions : Rearranges s.questions fillQuestions) (known : Recorded s.q) :
    Recorded (s.drawQuestion rand).q := by
  by_cases draws : Draws s.level
  · obtain ⟨q, questions', drawn, -, record, -⟩ := drawQuestion_of_draws rand draws questions
    rw [drawn]
    exact record
  · rw [show s.drawQuestion rand = s from if_neg draws]
    exact known

theorem showScreen_q (rand : Nat → Rand) (s : Sw) : (s.showScreen rand).q = s.q := by
  unfold showScreen
  split
  · rfl
  · split <;> rfl

theorem on_showScreen (rand : Nat → Rand) (known : Recorded s.q) :
    (ofLevel s.level s.q (s.showScreen rand).answers fun _ => ' ').On
      (s.showScreen rand).charBuf := by
  unfold showScreen ofLevel
  by_cases idle : s.level = 0
  · rw [if_pos idle, if_pos idle]
    exact on_displayTitle (by decide) s.charBuf
  · rw [if_neg idle, if_neg idle]
    by_cases won : s.level = 6
    · rw [if_pos won, if_pos won]
      exact on_displayTitle (by decide) s.charBuf
    · obtain ⟨i, question⟩ := known
      have printable : Printable s.q := question ▸ printable_fillQuestions i
      rw [if_neg won, if_neg won]
      exact on_questionScreen printable rand s.level s.charBuf

theorem recorded_redraw (rand : Nat → Rand) (questions : Rearranges s.questions fillQuestions)
    (known : Recorded s.q) : Recorded (s.redraw rand).q := by
  by_cases redraws : s.Redraws
  · rw [(redraw_of_redraws rand redraws).q, showScreen_q]
    exact recorded_drawQuestion rand questions known
  · rw [(sameQuestion_redraw rand redraws).q]
    exact known

/-- The redraw block replaces the screen. -/
theorem on_redraw (rand : Nat → Rand) (redraws : s.Redraws)
    (questions : Rearranges s.questions fillQuestions) (known : Recorded s.q) :
    (ofLevel s.level (s.redraw rand).q (s.redraw rand).answers fun _ => ' ').On
      (s.redraw rand).charBuf := by
  have same := redraw_of_redraws rand redraws
  have screen : (s.redraw rand).charBuf =
      ((s.drawQuestion rand).showScreen fun k => rand (k + s.drawCalls)).charBuf := by
    rw [redraw, if_pos redraws]
  have shown := on_showScreen (fun k => rand (k + s.drawCalls))
    (recorded_drawQuestion rand questions known)
  rw [drawQuestion_level] at shown
  rw [same.q, same.answers, screen, showScreen_q]
  exact shown

/-- An iteration that redraws shows the screen of its level. -/
theorem on_iteration_of_redraws (redraws : (s.decided reading).Redraws)
    (questions : Rearranges s.questions fillQuestions) (known : Recorded s.q) :
    (ofLevel reading.level.toNat (s.iteration reading).q (s.iteration reading).answers
      fun _ => ' ').On (s.iteration reading).charBuf := by
  have same := sameQuestion_decided reading s
  have shown := on_redraw reading.input.rand redraws (same.questions.symm ▸ questions)
    (same.q.symm ▸ known)
  rw [decided_level] at shown
  have kept := sameQuestion_writeAnswer ((s.decided reading).redraw reading.input.rand)
  rw [iteration_charBuf, iteration, kept.q, kept.answers]
  exact shown

/-- Any other iteration changes the marks of a question, and nothing else. -/
theorem on_iteration_of_quiet (quiet : ¬ (s.decided reading).Redraws) {wrong : Bool}
    (decides : wrong = true ↔ (s.entered reading).Judges ∧
      (s.entered reading).verdict reading.input.wild = false) {marks : Fin 4 → Char}
    (shown : (ofLevel reading.level.toNat s.q s.answers marks).On s.charBuf) :
    (ofLevel reading.level.toNat (s.iteration reading).q (s.iteration reading).answers
      (remark reading.input.key wrong s.q s.answers marks)).On (s.iteration reading).charBuf := by
  have same := sameQuestion_iteration reading (mt (decided_redraws reading s).mpr quiet)
  have kept : ((s.decided reading).redraw reading.input.rand).charBuf =
      (s.decided reading).charBuf := by
    rw [redraw, if_neg quiet]
  rw [iteration_charBuf, kept, same.q, same.answers]
  by_cases asks : Asks reading.level
  · unfold ofLevel at shown ⊢
    rw [if_neg asks.1, if_neg asks.2] at shown ⊢
    obtain ⟨only, marked⟩ := decided_marks asks decides
    apply shown.remark only
    intro slot
    rw [marked slot]
    congr 1
    funext slot
    exact shown.mark slot
  · rw [decided_charBuf_of_title asks]
    unfold ofLevel at shown ⊢
    split
    · rename_i idle
      rw [if_pos idle] at shown
      exact shown
    · rename_i idle
      rw [if_neg idle] at shown
      split
      · rename_i won
        rw [if_pos won] at shown
        exact shown
      · rename_i won
        exact absurd ⟨idle, won⟩ asks

end Sw

/-! ## A whole session -/

namespace Session

theorem recorded_after (session : Session) (t : Nat) : Recorded (session.after t).q := by
  induction t with
  | zero => exact ⟨14, rfl⟩
  | succ t ih =>
      have same := Sw.sameQuestion_decided (session.readings t) (session.after t)
      rw [after_succ, Sw.iteration, (Sw.sameQuestion_writeAnswer _).q]
      apply Sw.recorded_redraw
      · rw [same.questions]
        exact session.rearranges_after t
      · rw [same.q]
        exact ih

/-- Iteration `t` judges an answer, and finds it wrong. -/
noncomputable def wrong (session : Session) (t : Nat) : Bool := by
  classical
  exact decide (session.Judges t ∧ session.verdict t = false)

theorem wrong_iff (session : Session) (t : Nat) :
    session.wrong t = true ↔ session.Judges t ∧ session.verdict t = false := by
  classical
  exact decide_eq_true_iff

/-- The marks after `k` iterations that follow the draw in iteration `d`. -/
noncomputable def marks (session : Session) (d : Nat) : Nat → Fin 4 → Char
  | 0 => fun _ => ' '
  | k + 1 =>
      remark (session.key (d + 1 + k)) (session.wrong (d + 1 + k)) (session.after (d + 1 + k)).q
        (session.after (d + 1 + k)).answers (marks session d k)

/-- Since the last redraw the level has been the same. -/
theorem level_of_latest {levels : Nat → BitVec 4} {d t i : Nat}
    (latest : Latest (Redrawn levels) d t) (lower : d ≤ i) (upper : i < t) :
    levels i = levels d := by
  induction i, lower using Nat.le_induction with
  | base => rfl
  | succ i lower ih =>
      have quiet := latest.none (i + 1) (Nat.lt_succ_of_le lower) upper
      rw [← ih (Nat.lt_of_succ_lt upper)]
      by_contra changed
      exact quiet (Or.inl ⟨Nat.succ_ne_zero i, changed⟩)

/-- After every iteration the screen is, in every visible cell, the one of the
last redraw, except for the marks that the keys and the wrong verdicts since
then have set. -/
theorem screen_history (session : Session) (t : Nat) :
    ∃ d, Latest (Redrawn session.level) d (t + 1) ∧
      (Screen.ofLevel (session.level d).toNat (session.after (t + 1)).q
        (session.after (t + 1)).answers (session.marks d (t - d))).On
          (session.after (t + 1)).charBuf := by
  induction t with
  | zero =>
      refine ⟨0, .self (redrawn_zero session.level), ?_⟩
      exact Sw.on_iteration_of_redraws ((session.redraws_iff 0).mpr (redrawn_zero session.level))
        (session.rearranges_after 0) (session.recorded_after 0)
  | succ t ih =>
      by_cases redrawn : Redrawn session.level (t + 1)
      · refine ⟨t + 1, .self redrawn, ?_⟩
        rw [Nat.sub_self]
        exact Sw.on_iteration_of_redraws ((session.redraws_iff (t + 1)).mpr redrawn)
          (session.rearranges_after (t + 1)) (session.recorded_after (t + 1))
      · obtain ⟨d, latest, shown⟩ := ih
        refine ⟨d, latest.succ redrawn, ?_⟩
        have since : d ≤ t := Nat.lt_succ_iff.mp latest.before
        have level : session.level (t + 1) = session.level d :=
          level_of_latest (latest.succ redrawn) (Nat.le_succ_of_le since)
            (Nat.lt_succ_self (t + 1))
        have counted : session.marks d (t + 1 - d) =
            remark (session.key (t + 1)) (session.wrong (t + 1)) (session.after (t + 1)).q
              (session.after (t + 1)).answers (session.marks d (t - d)) := by
          rw [show t + 1 - d = t - d + 1 by omega, marks, show d + 1 + (t - d) = t + 1 by omega]
        rw [counted]
        rw [← level] at shown ⊢
        exact Sw.on_iteration_of_quiet (mt (session.redraws_iff (t + 1)).mp redrawn)
          (session.wrong_iff (t + 1)) shown

end Session

end FpgaTrivia.Software
