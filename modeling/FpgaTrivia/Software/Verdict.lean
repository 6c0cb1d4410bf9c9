import FpgaTrivia.Software.Drawn

/-!
# Verdicts

What the judging step leaves behind, and what becomes of it until the
iteration has finished: the answer, the two letters on the display, and the
marks on the screen.
-/

namespace FpgaTrivia.Software

open FpgaTrivia.Arith
open FpgaTrivia.Hardware

/-- The answer to key `pressed` when slot `correct` is the right one. -/
def verdictOf (pressed correct : Fin 4) : BitVec 2 :=
  if pressed = correct then 0b11#2 else 0b10#2

theorem verdictOf_eq_right_iff (pressed correct : Fin 4) :
    verdictOf pressed correct = 0b11#2 ↔ pressed = correct := by
  unfold verdictOf
  split <;> simp [*]

theorem verdictOf_eq_wrong_iff (pressed correct : Fin 4) :
    verdictOf pressed correct = 0b10#2 ↔ pressed ≠ correct := by
  unfold verdictOf
  split <;> simp [*]

/-- The two letters on the display: the pressed slot in the lower byte, the
correct one in the upper byte. -/
def letters (pressed correct : Fin 4) : Nat :=
  segmentLetter pressed + 256 * segmentLetter correct

theorem letters_low (pressed correct : Fin 4) :
    letters pressed correct % 256 = segmentLetter pressed := by
  rw [letters, Nat.add_mul_mod_self_left, Nat.mod_eq_of_lt (segmentLetter_lt pressed)]

theorem letters_high (pressed correct : Fin 4) :
    letters pressed correct / 256 = segmentLetter correct := by
  rw [letters, Nat.add_mul_div_left _ _ (by decide),
    Nat.div_eq_of_lt (segmentLetter_lt pressed), Nat.zero_add]

theorem letters_lt (pressed correct : Fin 4) : letters pressed correct < 2 ^ 16 := by
  have low := segmentLetter_lt pressed
  have high := segmentLetter_lt correct
  unfold letters
  omega

namespace Sw

variable {s : Sw} {pressed correct : Fin 4} {redraws : Prop}

/-- The answers that the program compares with. -/
def OnlyCorrect (s : Sw) (correct : Fin 4) : Prop :=
  ∀ i, s.answers i = s.q.answerCorrect ↔ i = correct

/-- What is left of a verdict, from the step after the judgement to the end of
the iteration.  `redraws` says whether the iteration enters the redraw
block. -/
structure Judged (pressed correct : Fin 4) (redraws : Prop) (s : Sw) : Prop where
  decided : s.pc ≠ .readKey → s.answer = verdictOf pressed correct
  published : s.pc = .readKey → s.pioOutputAnswer = verdictOf pressed correct
  test : s.pc = .wrong ∨ s.pc = .redraw → (s.Redraws ↔ redraws)
  marking : s.pc = .wrong → pressed ≠ correct ∧ s.key = keyOf pressed ∧
    s.ssegValue1 = segmentLetter pressed ∧ s.OnlyCorrect correct
  display : s.pc ≠ .wrong → s.pioSseg.toNat = letters pressed correct
  marks : s.pc = .redraw ∨ (s.pc ≠ .wrong ∧ ¬ redraws) → pressed ≠ correct →
    mark s.charBuf correct = 'O' ∧ mark s.charBuf pressed = 'X'

/-- The iteration has judged and not yet published its answer at the end. -/
def Deciding (s : Sw) : Prop :=
  s.pc = .wrong ∨ s.pc = .redraw ∨ s.pc = .writeAnswer

/-! ## The judging step -/

/-- The state in which a pressed key is compared. -/
def compared (s : Sw) : Sw :=
  { s with
    keyMem := s.key
    answer := 0b00#2
    timeCnt := wrap 32 (s.timeCnt + 1)
    ssegValue1 := getSSEG1value s.q s.key
    ssegValue2 := 0b0000000000000000
    charBuf := highlightAnswer s.key (highlightAnswer s.key s.charBuf) }

theorem judge_of_judges (judges : s.Judges) (wild : Bool) :
    s.judge wild =
      if s.verdict wild = true then s.compared.right else s.compared.publishWrong := by
  obtain ⟨-, key, ready, idle, won, passed⟩ := judges
  have asked : s.highlight =
      { s with charBuf := highlightAnswer s.key s.charBuf, ssegValue1 := 0b00000000 } :=
    if_pos ⟨idle, won⟩
  have released : s.highlight.release = s.highlight := by
    rw [release, asked]
    exact if_neg key
  have prepared : s.highlight.release.noAnswer.press.clearLetter = s.compared := by
    rw [released, asked]
    rfl
  have counted : 30000 ≤ s.highlight.release.noAnswer.press.timeCnt := by
    rw [released, asked]
    exact passed
  have responds : s.judge wild = s.highlight.release.noAnswer.confirm wild := by
    unfold judge respond
    rw [released, asked]
    simp only [noAnswer, ready, idle, won, key, if_true, if_false, ne_eq, not_false_eq_true]
  rw [responds, confirm, if_pos counted, prepared]
  rfl

/-- Without a wrong verdict the judging step writes nothing. -/
theorem judge_of_not_wrong (pc : s.pc = .judge) {wild : Bool}
    (right : s.Judges → s.verdict wild = true) :
    (s.judge wild).pc = .redraw ∧ (s.judge wild).pioOutputAnswer = s.pioOutputAnswer := by
  change (s.judge wild).control.pc = .redraw ∧ (s.judge wild).control.port = s.control.port
  rw [control_judge]
  have spec := Control.judge_spec (s.verdict wild) s.control
  generalize s.control.judge (s.verdict wild) = judged at spec ⊢
  cases spec with
  | silent => exact ⟨rfl, Control.release_port s.control⟩
  | start => exact ⟨rfl, rfl⟩
  | leave => exact ⟨rfl, Control.release_port s.control⟩
  | delay => exact ⟨rfl, rfl⟩
  | right => exact ⟨rfl, rfl⟩
  | wrong ready asked pressed passed incorrect =>
      have correct := right ⟨pc, pressed, ready, asked.1, asked.2, passed⟩
      exact absurd (correct.symm.trans incorrect) (by decide)

/-- With one key down and one correct slot the comparison compares slots. -/
theorem verdict_iff (key : s.key = keyOf pressed) (only : s.OnlyCorrect correct) (wild : Bool) :
    s.verdict wild = true ↔ pressed = correct := by
  rw [verdict, key, answerAt_key2index_keyOf]
  exact beq_iff_eq.trans (only pressed)

theorem Judged.of_judges (judges : s.Judges) (key : s.key = keyOf pressed)
    (only : s.OnlyCorrect correct) (wild : Bool) :
    Judged pressed correct s.Redraws (s.judge wild) := by
  have verdict := verdict_iff key only wild
  have letter : s.compared.ssegValue1 = segmentLetter pressed := by
    change getSSEG1value s.q s.key = _
    rw [key, getSSEG1value_keyOf]
  rw [judge_of_judges judges]
  by_cases right : pressed = correct
  · rw [if_pos (verdict.mpr right)]
    have answer : verdictOf pressed correct = 0b11#2 := (verdictOf_eq_right_iff _ _).mpr right
    have value : s.compared.right.pioSseg =
        BitVec.ofNat 16 (s.compared.ssegValue1 + getSSEG2value s.q s.answers) := rfl
    exact {
      decided := fun _ => answer.symm
      published := by simp [Sw.right]
      test := fun _ => Iff.rfl
      marking := by simp [Sw.right]
      display := by
        intro _
        rw [value, letter, getSSEG2value_of_unique only]
        exact Nat.mod_eq_of_lt (letters_lt pressed correct)
      marks := fun _ different => absurd right different }
  · rw [if_neg (mt verdict.mp right)]
    have answer : verdictOf pressed correct = 0b10#2 := (verdictOf_eq_wrong_iff _ _).mpr right
    exact {
      decided := fun _ => answer.symm
      published := by simp [publishWrong]
      test := fun _ => Iff.rfl
      marking := fun _ => ⟨right, key, letter, only⟩
      display := by simp [publishWrong]
      marks := by simp [publishWrong] }

/-! ## The rest of the iteration -/

theorem Judged.wrong (judged : Judged pressed correct redraws s) (pc : s.pc = .wrong) :
    Judged pressed correct redraws s.wrong := by
  obtain ⟨different, key, letter, only⟩ := judged.marking pc
  have value : s.wrong.pioSseg =
      BitVec.ofNat 16 (s.ssegValue1 + getSSEG2value s.q s.answers) := rfl
  have screen : s.wrong.charBuf = highlighCorrecttAnswer s.key s.q s.answers s.charBuf := rfl
  exact {
    decided := fun _ => judged.decided (by simp [pc])
    published := by simp [Sw.wrong]
    test := fun _ => judged.test (Or.inl pc)
    marking := by simp [Sw.wrong]
    display := by
      intro _
      rw [value, letter, getSSEG2value_of_unique only]
      exact Nat.mod_eq_of_lt (letters_lt pressed correct)
    marks := by
      intro _ _
      rw [screen, key, mark_highlighCorrecttAnswer only, mark_highlighCorrecttAnswer only]
      simp [Ne.symm different] }

theorem drawQuestion_pioSseg (s : Sw) (rand : Nat → Rand) :
    (s.drawQuestion rand).pioSseg = s.pioSseg := by
  unfold drawQuestion
  split
  · split <;> rfl
  · rfl

theorem showScreen_pioSseg (s : Sw) (rand : Nat → Rand) :
    (s.showScreen rand).pioSseg = s.pioSseg := by
  unfold showScreen
  split
  · rfl
  · split <;> rfl

/-- Drawing a question leaves the display alone. -/
theorem redraw_pioSseg (s : Sw) (rand : Nat → Rand) : (s.redraw rand).pioSseg = s.pioSseg := by
  rw [Sw.redraw]
  split
  · exact (showScreen_pioSseg _ _).trans (drawQuestion_pioSseg s rand)
  · rfl

theorem Judged.redraw (judged : Judged pressed correct redraws s) (pc : s.pc = .redraw)
    (rand : Nat → Rand) : Judged pressed correct redraws (s.redraw rand) := by
  have undecided : s.pc ≠ .readKey := by simp [pc]
  exact {
    decided := fun _ => (redraw_answer rand s).trans (judged.decided undecided)
    published := by simp
    test := by simp
    marking := by simp
    display := by
      intro _
      rw [redraw_pioSseg]
      exact judged.display (by simp [pc])
    marks := by
      rintro (same | ⟨_, quiet⟩) different
      · simp at same
      · have kept : (s.redraw rand).charBuf = s.charBuf := by
          rw [Sw.redraw, if_neg (mt (judged.test (Or.inr pc)).mp quiet)]
        rw [kept]
        exact judged.marks (Or.inl pc) different }

theorem Judged.writeAnswer (judged : Judged pressed correct redraws s) (pc : s.pc = .writeAnswer) :
    Judged pressed correct redraws s.writeAnswer where
  decided := fun unfinished => absurd rfl unfinished
  published := fun _ => judged.decided (by simp [pc])
  test := by simp [Sw.writeAnswer]
  marking := by simp [Sw.writeAnswer]
  display := fun _ => judged.display (by simp [pc])
  marks := by
    rintro (same | ⟨_, quiet⟩) different
    · simp [Sw.writeAnswer] at same
    · exact judged.marks (Or.inr ⟨by simp [pc], quiet⟩) different

/-- Until the iteration has finished the outcome of the judgement persists. -/
theorem Judged.step (judged : Judged pressed correct redraws s) (inside : s.Deciding)
    (input : Input) (level : BitVec 4) :
    Judged pressed correct redraws (s.step input level) ∧
      ((s.step input level).pc = .readKey ∨ (s.step input level).Deciding) := by
  rcases inside with pc | pc | pc
  · rw [step_wrong pc]
    exact ⟨judged.wrong pc, Or.inr (Or.inr (Or.inl rfl))⟩
  · rw [step_redraw pc]
    exact ⟨judged.redraw pc input.rand, Or.inr (Or.inr (Or.inr (redraw_pc input.rand s)))⟩
  · rw [step_writeAnswer pc]
    exact ⟨judged.writeAnswer pc, Or.inl rfl⟩

end Sw

end FpgaTrivia.Software
