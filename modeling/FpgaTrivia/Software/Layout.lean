import FpgaTrivia.Software.Display

/-!
# The layout of the question screen

The question screen is one list of texts, drawn in order.  Every text on it
keeps clear of the others, with one exception: the line on the right of an
answer stands in the column of the 23rd character of the answer.
-/

namespace FpgaTrivia.Software

open FpgaTrivia.Hardware
open FpgaTrivia.Hardware.CharBuffer
open FpgaTrivia.Shuffle

/-- What the redraw block shows at a question level. -/
def questionScreen (q : Question) (rand : Nat → Rand) (level : Nat) (buf : CharBuffer) :
    CharBuffer :=
  displayBoxes (displayLevel level (displayQuestion q rand true buf).2)

/-- The text of the question and where it stands. -/
def questionText (q : Question) : Text :=
  ⟨q.question, xMargin - 2, yMargin⟩

/-- The texts to be read: the question, the labels, the answers and the level
names. -/
def shownTexts (q : Question) (answers : Fin 4 → String) : List Text :=
  questionText q :: (answerTexts answers ++ levelNames)

/-- Everything that is drawn before the lines next to the answers. -/
def contents (q : Question) (answers : Fin 4 → String) (level : Nat) : List Text :=
  answerTexts answers ++ (questionText q :: (levelNames ++ levelArrow level ++ questionLine))

theorem questionScreen_eq (q : Question) (rand : Nat → Rand) (level : Nat) (buf : CharBuffer) :
    questionScreen q rand level buf =
      buf.clear.drawAll (contents q (displayQuestion q rand true buf).1 level ++ answerLines) := by
  rw [contents, drawAll_append, drawAll_append, drawAll_cons, drawAll_append, drawAll_append]
  rfl

/-! ## The parts of the screen -/

/-- The part of the screen that a text belongs to. -/
inductive Part (q : Question) (answers : Fin 4 → String) (level : Nat) (text : Text) : Prop
  | label (slot : Fin 4) (here : text = labelText slot)
  | answer (slot : Fin 4) (here : text = answerText answers slot)
  | question (here : text = questionText q)
  | name (here : text ∈ levelNames)
  | arrow (here : text ∈ levelArrow level)
  | underline (here : text ∈ questionLine)
  | line (here : text ∈ answerLines)

theorem part_of_mem {q : Question} {answers : Fin 4 → String} {level : Nat} {text : Text}
    (member : text ∈ contents q answers level ++ answerLines) : Part q answers level text := by
  simp only [contents, List.mem_append, List.mem_cons, mem_answerTexts] at member
  rcases member with ((⟨slot, here⟩ | ⟨slot, here⟩) | here | (here | here) | here) | here
  · exact .label slot here
  · exact .answer slot here
  · exact .question here
  · exact .name here
  · exact .arrow here
  · exact .underline here
  · exact .line here

theorem mark_ne {i j : Fin 4} (ne : i ≠ j) :
    markRow i ≠ markRow j ∨ markColumn i ≠ markColumn j := by
  revert i j
  decide

theorem questionText_place {q : Question} (short : q.question.length ≤ 60) {text : Text}
    (here : text = questionText q) : text.x = 8 ∧ text.y = 10 ∧ text.ptr.length ≤ 60 := by
  subst here
  exact ⟨rfl, rfl, short⟩

theorem levelNames_place : ∀ text ∈ levelNames, text.x = 70 ∧ text.ptr.length = 7 := by
  decide

theorem levelNames_rows : ∀ text ∈ levelNames, ∀ other ∈ levelNames,
    other ≠ text → text.y ≠ other.y := by
  decide

theorem levelArrow_place (level : Nat) :
    ∀ text ∈ levelArrow level, text.x = 68 ∧ text.ptr.length = 2 := by
  unfold levelArrow
  repeat' split
  all_goals decide

theorem questionLine_row : ∀ text ∈ questionLine, text.y = 11 := by
  decide

theorem levelNames_row : ∀ text ∈ levelNames, text.y ≠ 11 := by
  decide

theorem answerLines_place : ∀ text ∈ answerLines,
    (text.x = 8 ∨ text.x = 35 ∨ text.x = 38 ∨ text.x = 65) ∧ text.ptr.length = 1 ∧
      19 ≤ text.y := by
  decide

/-! ## What keeps clear of what -/

section Misses

variable {q : Question} {answers : Fin 4 → String} {level k : Nat} {other : Text}

/-- Only the question starts in the row of the question left of the level. -/
theorem Part.misses_question (part : Part q answers level other) (ne : other ≠ questionText q)
    (inside : k < 60) : other.Misses (8 + k) 10 := by
  cases part with
  | label slot here =>
      obtain ⟨-, y, -⟩ := label_place here
      have rows := markRow_eq slot
      exact Or.inl (by omega)
  | answer slot here =>
      have y : other.y = markRow slot := here ▸ rfl
      have rows := markRow_eq slot
      exact Or.inl (by omega)
  | question here => exact absurd here ne
  | name here =>
      obtain ⟨x, -⟩ := levelNames_place other here
      exact Or.inr (Or.inl (by omega))
  | arrow here =>
      obtain ⟨x, -⟩ := levelArrow_place level other here
      exact Or.inr (Or.inl (by omega))
  | underline here =>
      have y := questionLine_row other here
      exact Or.inl (by omega)
  | line here =>
      obtain ⟨-, -, y⟩ := answerLines_place other here
      exact Or.inl (by omega)

/-- Everything else ends left of the level names. -/
theorem Part.misses_name (short : ∀ i, (answers i).length ≤ 23)
    (shortQuestion : q.question.length ≤ 60) (part : Part q answers level other) {text : Text}
    (name : text ∈ levelNames) (ne : other ≠ text) : other.Misses (70 + k) text.y := by
  cases part with
  | label slot here =>
      obtain ⟨x, -, length⟩ := label_place here
      have columns := markColumn_eq slot
      exact Or.inr (Or.inr (by omega))
  | answer slot here =>
      obtain ⟨x, -, length⟩ := answerText_place short here
      have columns := markColumn_eq slot
      exact Or.inr (Or.inr (by omega))
  | question here =>
      obtain ⟨x, -, length⟩ := questionText_place shortQuestion here
      exact Or.inr (Or.inr (by omega))
  | name here => exact Or.inl (levelNames_rows text name other here ne)
  | arrow here =>
      obtain ⟨x, length⟩ := levelArrow_place level other here
      exact Or.inr (Or.inr (by omega))
  | underline here =>
      have y := questionLine_row other here
      have row := levelNames_row text name
      exact Or.inl (by omega)
  | line here =>
      obtain ⟨x, length, -⟩ := answerLines_place other here
      exact Or.inr (Or.inr (by omega))

/-- Between the mark of a slot and its line stand only its label and its
answer. -/
theorem Part.misses_slot (short : ∀ i, (answers i).length ≤ 23)
    (part : Part q answers level other) {slot : Fin 4} (notLabel : other ≠ labelText slot)
    (notAnswer : other ≠ answerText answers slot) (inside : k < 25) :
    other.Misses (markColumn slot + 1 + k) (markRow slot) := by
  have rows := markRow_eq slot
  have columns := markColumn_eq slot
  rw [Text.misses_iff]
  cases part with
  | label slot' here =>
      obtain ⟨x, y, length⟩ := label_place here
      have columns' := markColumn_eq slot'
      have apart := @mark_ne slot' slot fun same => notLabel (same ▸ here)
      omega
  | answer slot' here =>
      obtain ⟨x, y, length⟩ := answerText_place short here
      have columns' := markColumn_eq slot'
      have apart := @mark_ne slot' slot fun same => notAnswer (same ▸ here)
      omega
  | question here =>
      have y : other.y = 10 := here ▸ rfl
      omega
  | name here =>
      obtain ⟨x, -⟩ := levelNames_place other here
      omega
  | arrow here =>
      obtain ⟨x, -⟩ := levelArrow_place level other here
      omega
  | underline here =>
      have y := questionLine_row other here
      omega
  | line here =>
      obtain ⟨x, length, -⟩ := answerLines_place other here
      omega

/-- The label of a slot ends before its answer starts. -/
theorem Part.misses_label (short : ∀ i, (answers i).length ≤ 23)
    (part : Part q answers level other) {slot : Fin 4} (ne : other ≠ labelText slot)
    (inside : k < 2) : other.Misses (markColumn slot + 1 + k) (markRow slot) := by
  by_cases answer : other = answerText answers slot
  · obtain ⟨x, -⟩ := answerText_place short answer
    exact Or.inr (Or.inl (by omega))
  · exact part.misses_slot short ne answer (by omega)

/-- The first 22 characters of an answer end before the line of its slot. -/
theorem Part.misses_answer (short : ∀ i, (answers i).length ≤ 23)
    (part : Part q answers level other) {slot : Fin 4} (ne : other ≠ answerText answers slot)
    (inside : k < 22) : other.Misses (markColumn slot + 4 + k) (markRow slot) := by
  by_cases label : other = labelText slot
  · obtain ⟨x, -, length⟩ := label_place label
    exact Or.inr (Or.inr (by omega))
  · rw [show markColumn slot + 4 + k = markColumn slot + 1 + (3 + k) by omega]
    exact part.misses_slot short label ne (by omega)

end Misses

/-! ## Reading the screen back -/

/-- The texts of a record have room on the screen, and no NUL inside. -/
structure Printable (q : Question) : Prop where
  options : ∀ i, (q.options i).length ≤ 23
  question : q.question.length ≤ 60
  optionsVisible : ∀ i, '\x00' ∉ (q.options i).toList
  questionVisible : '\x00' ∉ q.question.toList

section Screen

variable {q : Question} {rand : Nat → Rand} {level : Nat} {buf : CharBuffer}

theorem Printable.length_le (printable : Printable q) (rand : Nat → Rand) (slot : Fin 4) :
    (shuffleAnswers rand q.options slot).length ≤ 23 := by
  obtain ⟨i, source⟩ := (shuffleAnswers_rearranges rand q.options).exists_source slot
  exact source ▸ printable.options i

theorem Printable.fits_answer (printable : Printable q) (rand : Nat → Rand) (slot : Fin 4) :
    (answerText (shuffleAnswers rand q.options) slot).Fits where
  row := by
    have rows := markRow_eq slot
    change markRow slot < 60
    omega
  columns := by
    have columns := markColumn_eq slot
    have length := printable.length_le rand slot
    change markColumn slot + 4 + (shuffleAnswers rand q.options slot).length ≤ 80
    omega
  visible := by
    obtain ⟨i, source⟩ := (shuffleAnswers_rearranges rand q.options).exists_source slot
    change '\x00' ∉ (shuffleAnswers rand q.options slot).toList
    exact source ▸ printable.optionsVisible i

theorem Printable.fits_question (printable : Printable q) : (questionText q).Fits where
  row := by
    change 10 < 60
    decide
  columns := by
    have length := printable.question
    change 8 + q.question.length ≤ 80
    omega
  visible := printable.questionVisible

/-- A cell of a text that the rest of the screen misses. -/
theorem cell_questionScreen {text : Text}
    (member : text ∈ contents q (shuffleAnswers rand q.options) level ++ answerLines)
    (fits : text.Fits) {k : Nat} {c : Char} (char : text.ptr.toList[k]? = some c)
    (misses : ∀ other, Part q (shuffleAnswers rand q.options) level other → other ≠ text →
      other.Misses (text.x + k) text.y) :
    (questionScreen q rand level buf).cell (text.x + k) text.y = c := by
  rw [questionScreen_eq]
  exact cell_drawAll_of_mem _ member fits char fun other listed =>
    misses other (part_of_mem listed)

theorem lt_of_char {text : Text} {k : Nat} {c : Char} (char : text.ptr.toList[k]? = some c) :
    k < text.ptr.length :=
  String.length_toList ▸ (List.getElem?_eq_some_iff.mp char).1

theorem question_readsBack (printable : Printable q) :
    (questionText q).ReadsBack (questionScreen q rand level buf) := by
  apply Text.readsBack_iff.mpr
  intro k c char
  apply cell_questionScreen (by simp [contents]) printable.fits_question char
  intro other part ne
  exact part.misses_question ne ((lt_of_char char).trans_le printable.question)

theorem label_readsBack (printable : Printable q) (slot : Fin 4) :
    (labelText slot).ReadsBack (questionScreen q rand level buf) := by
  have fits : ∀ slot, (labelText slot).Fits := by decide
  have member : labelText slot ∈ contents q (shuffleAnswers rand q.options) level ++ answerLines :=
    by simp [contents, mem_answerTexts]
  apply Text.readsBack_iff.mpr
  intro k c char
  apply cell_questionScreen member (fits slot) char
  intro other part ne
  exact part.misses_label (printable.length_le rand) ne ((lt_of_char char).trans_eq
    (label_place rfl).2.2)

theorem name_readsBack (printable : Printable q) {text : Text} (name : text ∈ levelNames) :
    text.ReadsBack (questionScreen q rand level buf) := by
  have fits : ∀ text ∈ levelNames, text.Fits := by decide
  have member : text ∈ contents q (shuffleAnswers rand q.options) level ++ answerLines := by
    simp [contents, name]
  apply Text.readsBack_iff.mpr
  intro k c char
  apply cell_questionScreen member (fits text name) char
  intro other part ne
  rw [(levelNames_place text name).1]
  exact part.misses_name (printable.length_le rand) printable.question name ne

/-- The line on the right of an answer stands in the column of its 23rd
character. -/
theorem cell_line (slot : Fin 4) : (questionScreen q rand level buf).cell
    (markColumn slot + 4 + 22) (markRow slot) = '|' := by
  have listed : ∀ slot, (⟨"|", markColumn slot + 4 + 22, markRow slot⟩ : Text) ∈ answerLines := by
    decide
  have fits : ∀ slot, (⟨"|", markColumn slot + 4 + 22, markRow slot⟩ : Text).Fits := by decide
  have apart : ∀ slot, ∀ other ∈ answerLines,
      other ≠ ⟨"|", markColumn slot + 4 + 22, markRow slot⟩ →
        other.Misses (markColumn slot + 4 + 22) (markRow slot) := by
    decide
  have char : "|".toList[0]? = some '|' := by decide
  rw [questionScreen_eq, drawAll_append]
  exact @cell_drawAll_of_mem _ _ ⟨"|", markColumn slot + 4 + 22, markRow slot⟩ (listed slot)
    (fits slot) 0 '|' char (apart slot)

/-- An answer reads back unless the line stands for its 23rd character. -/
theorem answer_readsBack_iff (printable : Printable q) (slot : Fin 4) :
    (answerText (shuffleAnswers rand q.options) slot).ReadsBack (questionScreen q rand level buf) ↔
      ∀ c, (shuffleAnswers rand q.options slot).toList[22]? = some c → c = '|' := by
  have member : answerText (shuffleAnswers rand q.options) slot ∈
      contents q (shuffleAnswers rand q.options) level ++ answerLines := by
    simp [contents, mem_answerTexts]
  rw [Text.readsBack_iff]
  constructor
  · intro cells c char
    exact (cells 22 c char).symm.trans (cell_line slot)
  · intro line k c char
    have length : k < 23 := (lt_of_char char).trans_le (printable.length_le rand slot)
    rcases Nat.lt_succ_iff_lt_or_eq.mp length with before | rfl
    · apply cell_questionScreen member (printable.fits_answer rand slot) char
      intro other part ne
      exact part.misses_answer (printable.length_le rand) ne before
    · rw [line c char]
      exact cell_line slot

/-- Every text of the question screen can be read in full, exactly if no answer
has a 23rd character other than the line that is drawn over it. -/
theorem shownTexts_readBack_iff (printable : Printable q) (rand : Nat → Rand) (level : Nat)
    (buf : CharBuffer) :
    (∀ text ∈ shownTexts q (displayQuestion q rand true buf).1,
        text.ReadsBack (questionScreen q rand level buf)) ↔
      ∀ i c, (q.options i).toList[22]? = some c → c = '|' := by
  have shuffled := shuffleAnswers_rearranges rand q.options
  constructor
  · intro reads i c char
    obtain ⟨slot, source⟩ := shuffled.exists_eq i
    have shown := reads (answerText (shuffleAnswers rand q.options) slot)
      (List.mem_cons_of_mem _ (List.mem_append_left _ (mem_answerTexts.mpr (Or.inr ⟨slot, rfl⟩))))
    exact (answer_readsBack_iff printable slot).mp shown c (source ▸ char)
  · intro lines text member
    rcases List.mem_cons.mp member with rfl | member
    · exact question_readsBack printable
    · rcases List.mem_append.mp member with answer | name
      · rcases mem_answerTexts.mp answer with ⟨slot, rfl⟩ | ⟨slot, rfl⟩
        · exact label_readsBack printable slot
        · apply (answer_readsBack_iff printable slot).mpr
          obtain ⟨i, source⟩ := shuffled.exists_source slot
          exact source ▸ lines i
      · exact name_readsBack printable name

end Screen

theorem fillQuestions_question_chars : ∀ i, (fillQuestions i).question.toList.length ≤ 60 ∧
    '\x00' ∉ (fillQuestions i).question.toList := by
  decide +kernel

theorem fillQuestions_options_chars : ∀ i k, '\x00' ∉ ((fillQuestions i).options k).toList := by
  decide +kernel

/-- Every recorded question can be printed. -/
theorem printable_fillQuestions (i : Fin 15) : Printable (fillQuestions i) where
  options := fillQuestions_options_length i
  question := String.length_toList ▸ (fillQuestions_question_chars i).1
  optionsVisible := fillQuestions_options_chars i
  questionVisible := (fillQuestions_question_chars i).2

/-- All texts of the first record can be read. -/
theorem creates_readBack : Printable (fillQuestions 0) ∧
    ∀ text ∈ shownTexts (fillQuestions 0)
        (displayQuestion (fillQuestions 0) (fun _ => .lowest) true fun _ => ' ').1,
      text.ReadsBack (questionScreen (fillQuestions 0) (fun _ => .lowest) 1 fun _ => ' ') := by
  have short : ∀ i, ((fillQuestions 0).options i).toList[22]? = none := by decide
  have printable := printable_fillQuestions 0
  refine ⟨printable, (shownTexts_readBack_iff printable (fun _ => .lowest) 1 fun _ => ' ').mpr ?_⟩
  intro i c char
  rw [short i] at char
  cases char

/-- The last letter of "Register Transfer Level" is drawn over. -/
theorem register_not_readBack :
    ¬ ∀ (q : Question) (rand : Nat → Rand) (level : Nat) (buf : CharBuffer), Printable q →
      1 ≤ level → level ≤ 5 → ∀ text ∈ shownTexts q (displayQuestion q rand true buf).1,
        text.ReadsBack (questionScreen q rand level buf) := by
  intro reads
  have printable := printable_fillQuestions 1
  have letter : ((fillQuestions 1).options 3).toList[22]? = some 'l' := by decide
  obtain ⟨slot, source⟩ :=
    (shuffleAnswers_rearranges (fun _ => .lowest) (fillQuestions 1).options).exists_eq 3
  have shown := reads (fillQuestions 1) (fun _ => .lowest) 1 (fun _ => ' ') printable (by decide)
    (by decide) (answerText (shuffleAnswers (fun _ => .lowest) (fillQuestions 1).options) slot)
    (List.mem_cons_of_mem _ (List.mem_append_left _ (mem_answerTexts.mpr (Or.inr ⟨slot, rfl⟩))))
  have drawnOver := (answer_readsBack_iff printable slot).mp shown 'l' (source ▸ letter)
  exact absurd drawnOver (by decide)

end FpgaTrivia.Software
