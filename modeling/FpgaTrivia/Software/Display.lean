import FpgaTrivia.Hardware.CharBuffer
import FpgaTrivia.Software.Keys
import FpgaTrivia.Software.Random

/-!
# The screens

The functions that draw on the character buffer.  Next to each answer stands
an indicator cell, its mark: `highlightAnswer` and `highlighCorrecttAnswer`
write the marks, and the screens leave them blank.
-/

namespace FpgaTrivia.Software

open FpgaTrivia.Hardware
open FpgaTrivia.Shuffle

/-- Margin for question and answers. -/
def xMargin : Nat := 10

/-- Margin for question and answers. -/
def yMargin : Nat := 10

/-- `displayTitle`. -/
def displayTitle (text : String) (buf : CharBuffer) : CharBuffer :=
  buf.clear.draw text (xMargin + 17) (yMargin + 15)

/-- The names drawn by `displayLevel`. -/
def levelNames : List CharBuffer.Text :=
  [⟨"Level 1", xMargin + 60, yMargin + 20⟩,
    ⟨"Level 2", xMargin + 60, yMargin + 15⟩,
    ⟨"Level 3", xMargin + 60, yMargin + 10⟩,
    ⟨"Level 4", xMargin + 60, yMargin + 5⟩,
    ⟨"Level 5", xMargin + 60, yMargin⟩]

/-- The arrow and the blanks drawn by `displayLevel`, in the order of its
branches. -/
def levelArrow (level : Nat) : List CharBuffer.Text :=
  if level = 1 then
    [⟨"->", xMargin + 58, yMargin + 20⟩, ⟨"  ", xMargin + 58, yMargin + 15⟩,
      ⟨"  ", xMargin + 58, yMargin + 10⟩, ⟨"  ", xMargin + 58, yMargin + 5⟩,
      ⟨"  ", xMargin + 58, yMargin⟩]
  else if level = 2 then
    [⟨"->", xMargin + 58, yMargin + 15⟩, ⟨"  ", xMargin + 58, yMargin + 20⟩,
      ⟨"  ", xMargin + 58, yMargin + 10⟩, ⟨"  ", xMargin + 58, yMargin + 5⟩,
      ⟨"  ", xMargin + 58, yMargin⟩]
  else if level = 3 then
    [⟨"->", xMargin + 58, yMargin + 10⟩, ⟨"  ", xMargin + 58, yMargin + 15⟩,
      ⟨"  ", xMargin + 58, yMargin + 20⟩, ⟨"  ", xMargin + 58, yMargin + 5⟩,
      ⟨"  ", xMargin + 58, yMargin⟩]
  else if level = 4 then
    [⟨"->", xMargin + 58, yMargin + 5⟩, ⟨"  ", xMargin + 58, yMargin + 15⟩,
      ⟨"  ", xMargin + 58, yMargin + 10⟩, ⟨"  ", xMargin + 58, yMargin + 20⟩,
      ⟨"  ", xMargin + 58, yMargin⟩]
  else if level = 5 then
    [⟨"->", xMargin + 58, yMargin⟩, ⟨"  ", xMargin + 58, yMargin + 15⟩,
      ⟨"  ", xMargin + 58, yMargin + 10⟩, ⟨"  ", xMargin + 58, yMargin + 5⟩,
      ⟨"  ", xMargin + 58, yMargin + 20⟩]
  else
    [⟨"  ", xMargin + 58, yMargin⟩, ⟨"  ", xMargin + 58, yMargin + 15⟩,
      ⟨"  ", xMargin + 58, yMargin + 10⟩, ⟨"  ", xMargin + 58, yMargin + 5⟩,
      ⟨"  ", xMargin + 58, yMargin + 20⟩]

/-- `displayLevel`. -/
def displayLevel (level : Nat) (buf : CharBuffer) : CharBuffer :=
  (buf.drawAll levelNames).drawAll (levelArrow level)

/-- The line under the question, `for (int i = -2; i < 56; i++)`. -/
def questionLine : List CharBuffer.Text :=
  (List.range 58).map fun i => ⟨"_", xMargin + i - 2, yMargin + 1⟩

/-- The lines next to the answers A, B, C and D of `displayBoxes`. -/
def answerLines : List CharBuffer.Text :=
  [⟨"|", xMargin - 2, yMargin + 9⟩, ⟨"|", xMargin - 2, yMargin + 10⟩,
    ⟨"|", xMargin - 2, yMargin + 11⟩, ⟨"|", xMargin + 25, yMargin + 9⟩,
    ⟨"|", xMargin + 25, yMargin + 10⟩, ⟨"|", xMargin + 25, yMargin + 11⟩,
    ⟨"|", xMargin - 2, yMargin + 19⟩, ⟨"|", xMargin - 2, yMargin + 20⟩,
    ⟨"|", xMargin - 2, yMargin + 21⟩, ⟨"|", xMargin + 25, yMargin + 19⟩,
    ⟨"|", xMargin + 25, yMargin + 20⟩, ⟨"|", xMargin + 25, yMargin + 21⟩,
    ⟨"|", xMargin + 28, yMargin + 9⟩, ⟨"|", xMargin + 28, yMargin + 10⟩,
    ⟨"|", xMargin + 28, yMargin + 11⟩, ⟨"|", xMargin + 55, yMargin + 9⟩,
    ⟨"|", xMargin + 55, yMargin + 10⟩, ⟨"|", xMargin + 55, yMargin + 11⟩,
    ⟨"|", xMargin + 28, yMargin + 19⟩, ⟨"|", xMargin + 28, yMargin + 20⟩,
    ⟨"|", xMargin + 28, yMargin + 21⟩, ⟨"|", xMargin + 55, yMargin + 19⟩,
    ⟨"|", xMargin + 55, yMargin + 20⟩, ⟨"|", xMargin + 55, yMargin + 21⟩]

/-- `displayBoxes`. -/
def displayBoxes (buf : CharBuffer) : CharBuffer :=
  (buf.drawAll questionLine).drawAll answerLines

/-- The labels and the answers drawn by `displayQuestion`. -/
def answerTexts (answers : Fin 4 → String) : List CharBuffer.Text :=
  [⟨"A.", xMargin, yMargin + 10⟩, ⟨"B.", xMargin + 30, yMargin + 10⟩,
    ⟨"C.", xMargin, yMargin + 20⟩, ⟨"D.", xMargin + 30, yMargin + 20⟩,
    ⟨answers 0, xMargin + 3, yMargin + 10⟩, ⟨answers 1, xMargin + 33, yMargin + 10⟩,
    ⟨answers 2, xMargin + 3, yMargin + 20⟩, ⟨answers 3, xMargin + 33, yMargin + 20⟩]

/-- `displayQuestion`: the new contents of `answers[]` and of the screen. -/
def displayQuestion (q : Question) (rand : Nat → Rand) (showAnswers : Bool)
    (buf : CharBuffer) : (Fin 4 → String) × CharBuffer :=
  let answers := shuffleAnswers rand q.options
  let buf := buf.clear
  let buf := if showAnswers then buf.drawAll (answerTexts answers) else buf
  (answers, buf.draw q.question (xMargin - 2) yMargin)

/-- `highlightAnswer`. -/
def highlightAnswer (key : Nat) (buf : CharBuffer) : CharBuffer :=
  if key = 0b0000 then
    buf.drawAll
      [⟨" ", xMargin - 1, yMargin + 10⟩, ⟨" ", xMargin + 30 - 1, yMargin + 10⟩,
        ⟨" ", xMargin - 1, yMargin + 20⟩, ⟨" ", xMargin + 30 - 1, yMargin + 20⟩]
  else if key = 0b0001 then buf.draw "O" (xMargin - 1) (yMargin + 10)
  else if key = 0b0010 then buf.draw "O" (xMargin + 30 - 1) (yMargin + 10)
  else if key = 0b0100 then buf.draw "O" (xMargin - 1) (yMargin + 20)
  else if key = 0b1000 then buf.draw "O" (xMargin + 30 - 1) (yMargin + 20)
  else buf

/-- The body of the loop of `highlighCorrecttAnswer`. -/
def highlightIfCorrect (q : Question) (answers : Fin 4 → String) (buf : CharBuffer)
    (i : Fin 4) : CharBuffer :=
  if answers i = q.answerCorrect then
    if i = 0 then buf.draw "O" (xMargin - 1) (yMargin + 10)
    else if i = 1 then buf.draw "O" (xMargin + 30 - 1) (yMargin + 10)
    else if i = 2 then buf.draw "O" (xMargin - 1) (yMargin + 20)
    else if i = 3 then buf.draw "O" (xMargin + 30 - 1) (yMargin + 20)
    else buf
  else buf

/-- `highlighCorrecttAnswer`. -/
def highlighCorrecttAnswer (key : Nat) (q : Question) (answers : Fin 4 → String)
    (buf : CharBuffer) : CharBuffer :=
  let buf := [0, 1, 2, 3].foldl (highlightIfCorrect q answers) buf
  if key = 0b0001 then buf.draw "X" (xMargin - 1) (yMargin + 10)
  else if key = 0b0010 then buf.draw "X" (xMargin + 30 - 1) (yMargin + 10)
  else if key = 0b0100 then buf.draw "X" (xMargin - 1) (yMargin + 20)
  else if key = 0b1000 then buf.draw "X" (xMargin + 30 - 1) (yMargin + 20)
  else buf

/-! ## Marks -/

/-- The column of the mark of a slot. -/
def markColumn : Fin 4 → Nat :=
  ![xMargin - 1, xMargin + 30 - 1, xMargin - 1, xMargin + 30 - 1]

/-- The row of the mark of a slot. -/
def markRow : Fin 4 → Nat :=
  ![yMargin + 10, yMargin + 10, yMargin + 20, yMargin + 20]

/-- The mark next to the answer in `slot`. -/
def mark (buf : CharBuffer) (slot : Fin 4) : Char :=
  buf.cell (markColumn slot) (markRow slot)

/-- Draw a character at a mark. -/
def drawMark (ptr : String) (slot : Fin 4) (buf : CharBuffer) : CharBuffer :=
  buf.draw ptr (markColumn slot) (markRow slot)

/-- What holds of the four slots holds of every slot. -/
theorem forall_slots {P : Fin 4 → Prop} (first : P 0) (second : P 1) (third : P 2)
    (fourth : P 3) (slot : Fin 4) : P slot := by
  revert slot
  rw [Fin.forall_fin_succ, Fin.forall_fin_succ, Fin.forall_fin_succ, Fin.forall_fin_succ]
  exact ⟨first, second, third, fourth, fun none => none.elim0⟩

theorem markColumn_lt (slot : Fin 4) : markColumn slot < CharBuffer.xResolution := by
  revert slot
  decide

theorem markColumn_eq (slot : Fin 4) : markColumn slot = 9 ∨ markColumn slot = 39 := by
  revert slot
  decide

theorem markRow_eq (slot : Fin 4) : markRow slot = 20 ∨ markRow slot = 30 := by
  revert slot
  decide

theorem mark_address_injective {i j : Fin 4}
    (same : CharBuffer.address (markColumn i) (markRow i) =
      CharBuffer.address (markColumn j) (markRow j)) : i = j := by
  revert i j
  decide

theorem mark_drawMark {ptr : String} {c : Char} (single : ptr.toList = [c])
    (visible : c ≠ '\x00') (buf : CharBuffer) (i j : Fin 4) :
    mark (drawMark ptr i buf) j = if j = i then c else mark buf j := by
  have column := markColumn_lt i
  have row : markRow i < CharBuffer.yResolution := by
    revert i
    decide
  rw [drawMark, CharBuffer.draw_singleton buf single visible column row]
  unfold mark CharBuffer.cell
  split
  · rename_i same
    rw [same, Function.update_self]
  · rename_i other
    exact Function.update_of_ne (fun same => other (mark_address_injective same)) _ _

/-- Texts that miss all four marks leave them alone. -/
theorem mark_drawAll (buf : CharBuffer) {texts : List CharBuffer.Text}
    (misses : ∀ text ∈ texts, ∀ slot, text.Misses (markColumn slot) (markRow slot))
    (slot : Fin 4) : mark (buf.drawAll texts) slot = mark buf slot :=
  CharBuffer.cell_drawAll_of_misses buf (markColumn_lt slot)
    fun text member => misses text member slot

theorem mark_draw (buf : CharBuffer) {text : CharBuffer.Text}
    (misses : ∀ slot, text.Misses (markColumn slot) (markRow slot)) (slot : Fin 4) :
    mark (buf.draw text.ptr text.x text.y) slot = mark buf slot :=
  CharBuffer.cell_draw_of_disjoint buf text.ptr (markColumn_lt slot) (misses slot)

/-- Releasing all keys blanks the marks. -/
theorem mark_highlightAnswer_zero (buf : CharBuffer) (slot : Fin 4) :
    mark (highlightAnswer 0 buf) slot = ' ' := by
  have blanks : highlightAnswer 0 buf =
      drawMark " " 3 (drawMark " " 2 (drawMark " " 1 (drawMark " " 0 buf))) := rfl
  have blank := mark_drawMark (show " ".toList = [' '] from rfl) (by decide)
  rw [blanks]
  simp only [blank]
  revert slot
  apply forall_slots <;> simp

/-- A single key puts an O at its slot and leaves the other marks. -/
theorem highlightAnswer_keyOf (slot : Fin 4) (buf : CharBuffer) :
    highlightAnswer (keyOf slot) buf = drawMark "O" slot buf := by
  revert slot
  apply forall_slots <;> rfl

/-- Several keys at once change nothing. -/
theorem highlightAnswer_of_ne {key : Nat} (notZero : key ≠ 0)
    (notSingle : ∀ slot, key ≠ keyOf slot) (buf : CharBuffer) :
    highlightAnswer key buf = buf := by
  have first : key ≠ 1 := notSingle 0
  have second : key ≠ 2 := notSingle 1
  have third : key ≠ 4 := notSingle 2
  have fourth : key ≠ 8 := notSingle 3
  simp [highlightAnswer, notZero, first, second, third, fourth]

/-- What a highlight does to the marks. -/
theorem mark_highlightAnswer (key : Nat) (buf : CharBuffer) (slot : Fin 4) :
    mark (highlightAnswer key buf) slot =
      if key = 0 then ' ' else if key = keyOf slot then 'O' else mark buf slot := by
  by_cases released : key = 0
  · rw [if_pos released, released, mark_highlightAnswer_zero]
  · rw [if_neg released]
    by_cases single : ∃ pressed, key = keyOf pressed
    · obtain ⟨pressed, rfl⟩ := single
      rw [highlightAnswer_keyOf, mark_drawMark (show "O".toList = ['O'] from rfl) (by decide)]
      simp only [keyOf_injective.eq_iff, eq_comm]
    · have several : ∀ pressed, key ≠ keyOf pressed := fun pressed same => single ⟨pressed, same⟩
      rw [highlightAnswer_of_ne released several, if_neg (several slot)]

/-- The marks after a wrong answer: an O next to the one correct slot and an X
next to the pressed one, which wins if they coincide. -/
theorem mark_highlighCorrecttAnswer {q : Question} {answers : Fin 4 → String} {slot : Fin 4}
    (unique : ∀ i, answers i = q.answerCorrect ↔ i = slot) (pressed : Fin 4)
    (buf : CharBuffer) (i : Fin 4) :
    mark (highlighCorrecttAnswer (keyOf pressed) q answers buf) i =
      if i = pressed then 'X' else if i = slot then 'O' else mark buf i := by
  have circle : [0, 1, 2, 3].foldl (highlightIfCorrect q answers) buf =
      drawMark "O" slot buf := by
    simp only [List.foldl_cons, List.foldl_nil, highlightIfCorrect, unique]
    clear unique
    revert slot
    apply forall_slots <;> rfl
  have cross : highlighCorrecttAnswer (keyOf pressed) q answers buf =
      drawMark "X" pressed (drawMark "O" slot buf) := by
    rw [← circle]
    revert pressed
    apply forall_slots <;> rfl
  rw [cross, mark_drawMark (show "X".toList = ['X'] from rfl) (by decide),
    mark_drawMark (show "O".toList = ['O'] from rfl) (by decide)]

/-! ## The texts of a slot -/

/-- The label of a slot. -/
def labelText (slot : Fin 4) : CharBuffer.Text :=
  ⟨!["A.", "B.", "C.", "D."] slot, markColumn slot + 1, markRow slot⟩

/-- The answer in a slot. -/
def answerText (answers : Fin 4 → String) (slot : Fin 4) : CharBuffer.Text :=
  ⟨answers slot, markColumn slot + 4, markRow slot⟩

theorem answerTexts_eq (answers : Fin 4 → String) :
    answerTexts answers =
      [labelText 0, labelText 1, labelText 2, labelText 3, answerText answers 0,
        answerText answers 1, answerText answers 2, answerText answers 3] :=
  rfl

theorem mem_answerTexts {answers : Fin 4 → String} {text : CharBuffer.Text} :
    text ∈ answerTexts answers ↔
      (∃ slot, text = labelText slot) ∨ ∃ slot, text = answerText answers slot := by
  simp [answerTexts_eq, Fin.exists_fin_succ, or_assoc]

theorem label_place {text : CharBuffer.Text} {slot : Fin 4} (here : text = labelText slot) :
    text.x = markColumn slot + 1 ∧ text.y = markRow slot ∧ text.ptr.length = 2 := by
  subst here
  have length : ∀ slot, (labelText slot).ptr.length = 2 := by decide
  exact ⟨rfl, rfl, length slot⟩

theorem answerText_place {answers : Fin 4 → String} (short : ∀ i, (answers i).length ≤ 23)
    {text : CharBuffer.Text} {slot : Fin 4} (here : text = answerText answers slot) :
    text.x = markColumn slot + 4 ∧ text.y = markRow slot ∧ text.ptr.length ≤ 23 := by
  subst here
  exact ⟨rfl, rfl, short slot⟩

/-! ## The screens leave the marks blank -/

theorem mark_displayTitle {text : String} (buf : CharBuffer) (slot : Fin 4) :
    mark (displayTitle text buf) slot = ' ' := by
  have rows : ∀ slot, markRow slot ≠ yMargin + 15 := by decide
  have misses : ∀ slot, CharBuffer.Text.Misses ⟨text, xMargin + 17, yMargin + 15⟩
      (markColumn slot) (markRow slot) := fun slot => Or.inl (rows slot)
  rw [displayTitle, mark_draw _ misses]
  rfl

theorem levelNames_misses : ∀ text ∈ levelNames, ∀ slot,
    text.Misses (markColumn slot) (markRow slot) := by
  decide

theorem levelArrow_misses (level : Nat) : ∀ text ∈ levelArrow level, ∀ slot,
    text.Misses (markColumn slot) (markRow slot) := by
  unfold levelArrow
  repeat' split
  all_goals decide

theorem questionLine_misses : ∀ text ∈ questionLine, ∀ slot,
    text.Misses (markColumn slot) (markRow slot) := by
  decide

theorem answerLines_misses : ∀ text ∈ answerLines, ∀ slot,
    text.Misses (markColumn slot) (markRow slot) := by
  decide

theorem mark_displayLevel (level : Nat) (buf : CharBuffer) (slot : Fin 4) :
    mark (displayLevel level buf) slot = mark buf slot := by
  rw [displayLevel, mark_drawAll _ (levelArrow_misses level), mark_drawAll _ levelNames_misses]

theorem mark_displayBoxes (buf : CharBuffer) (slot : Fin 4) :
    mark (displayBoxes buf) slot = mark buf slot := by
  rw [displayBoxes, mark_drawAll _ answerLines_misses, mark_drawAll _ questionLine_misses]

/-- The labels and the answers end left of the next mark. -/
theorem answerTexts_misses {answers : Fin 4 → String}
    (short : ∀ i, (answers i).length ≤ 23) : ∀ text ∈ answerTexts answers, ∀ slot,
    text.Misses (markColumn slot) (markRow slot) := by
  intro text member slot
  have columns := markColumn_eq slot
  rw [CharBuffer.Text.misses_iff]
  rcases mem_answerTexts.mp member with ⟨slot', here⟩ | ⟨slot', here⟩
  · obtain ⟨x, -, length⟩ := label_place here
    have columns' := markColumn_eq slot'
    omega
  · obtain ⟨x, -, length⟩ := answerText_place short here
    have columns' := markColumn_eq slot'
    omega

theorem mark_displayQuestion {q : Question} {rand : Nat → Rand}
    (short : ∀ i, (q.options i).length ≤ 23) (showAnswers : Bool) (buf : CharBuffer)
    (slot : Fin 4) : mark (displayQuestion q rand showAnswers buf).2 slot = ' ' := by
  have shuffled : ∀ i, (shuffleAnswers rand q.options i).length ≤ 23 := by
    intro i
    obtain ⟨k, source⟩ := (shuffleAnswers_rearranges rand q.options).exists_source i
    rw [source]
    exact short k
  have rows : ∀ slot, markRow slot ≠ yMargin := by decide
  have misses : ∀ slot, CharBuffer.Text.Misses ⟨q.question, xMargin - 2, yMargin⟩
      (markColumn slot) (markRow slot) := fun slot => Or.inl (rows slot)
  rw [displayQuestion, mark_draw _ misses]
  cases showAnswers with
  | true =>
      rw [if_pos rfl, mark_drawAll _ (answerTexts_misses shuffled)]
      rfl
  | false => rfl

end FpgaTrivia.Software
