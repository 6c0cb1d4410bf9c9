import FpgaTrivia.Software.Drawn

/-!
# States that look alike from outside

Two states of the program look alike if they differ at most in the order of
the answers and in what the screen shows outside the marks.  A step that
neither judges an answer nor draws a question keeps them alike: nothing else
that the program does depends on the order of the answers.
-/

namespace FpgaTrivia.Software

open FpgaTrivia.Arith
open FpgaTrivia.Hardware
open FpgaTrivia.Shuffle

/-- The marks after highlighting depend on the marks before it. -/
theorem mark_highlightAnswer_congr {buf buf' : CharBuffer}
    (same : ∀ slot, mark buf' slot = mark buf slot) (key : Nat) (slot : Fin 4) :
    mark (highlightAnswer key buf') slot = mark (highlightAnswer key buf) slot := by
  rw [mark_highlightAnswer, mark_highlightAnswer, same]

namespace Sw

/-- Two states look alike from outside, and no verdict is being shown. -/
structure Alike (s s' : Sw) : Prop where
  control : s'.control = s.control
  unjudged : s.pc ≠ .wrong
  questions : s'.questions = s.questions
  q : s'.q = s.q
  ssegValue1 : s'.ssegValue1 = s.ssegValue1
  ssegValue2 : s'.ssegValue2 = s.ssegValue2
  pioSseg : s'.pioSseg = s.pioSseg
  accesses : s'.accesses = s.accesses
  marks : ∀ slot, mark s'.charBuf slot = mark s.charBuf slot

namespace Alike

variable {s s' : Sw}

section Fields

theorem pc (alike : Alike s s') : s'.pc = s.pc :=
  congrArg Control.pc alike.control

theorem key (alike : Alike s s') : s'.key = s.key :=
  congrArg Control.key alike.control

theorem level (alike : Alike s s') : s'.level = s.level :=
  congrArg Control.level alike.control

theorem answer (alike : Alike s s') : s'.answer = s.answer :=
  congrArg Control.answer alike.control

theorem timeCnt (alike : Alike s s') : s'.timeCnt = s.timeCnt :=
  congrArg Control.timeCnt alike.control

theorem ready (alike : Alike s s') : s'.ready = s.ready :=
  congrArg Control.ready alike.control

end Fields

theorem readKey (alike : Alike s s') (reading : BitVec 4) :
    Alike (s.readKey reading) (s'.readKey reading) where
  control := congrArg (Control.readKey reading) alike.control
  unjudged := by simp [Sw.readKey]
  questions := alike.questions
  q := alike.q
  ssegValue1 := alike.ssegValue1
  ssegValue2 := alike.ssegValue2
  pioSseg := alike.pioSseg
  accesses := congrArg (List.cons (Access.key reading)) alike.accesses
  marks := alike.marks

theorem readLevel (alike : Alike s s') (reading : BitVec 4) :
    Alike (s.readLevel reading) (s'.readLevel reading) where
  control := congrArg (Control.readLevel reading) alike.control
  unjudged := by simp [Sw.readLevel]
  questions := alike.questions
  q := alike.q
  ssegValue1 := alike.ssegValue1
  ssegValue2 := alike.ssegValue2
  pioSseg := alike.pioSseg
  accesses := congrArg (List.cons (Access.level reading)) alike.accesses
  marks := alike.marks

theorem highlight (alike : Alike s s') : Alike s.highlight s'.highlight := by
  have control : s'.highlight.control = s.highlight.control := by
    rw [control_highlight, control_highlight, alike.control]
  by_cases asked : s.level ≠ 0 ∧ s.level ≠ 6
  · have asked' : s'.level ≠ 0 ∧ s'.level ≠ 6 := by rwa [alike.level]
    have left : s.highlight = { s with
        charBuf := highlightAnswer s.key s.charBuf, ssegValue1 := 0b00000000 } := if_pos asked
    have right : s'.highlight = { s' with
        charBuf := highlightAnswer s'.key s'.charBuf, ssegValue1 := 0b00000000 } := if_pos asked'
    rw [left, right] at control ⊢
    exact {
      control := control
      unjudged := alike.unjudged
      questions := alike.questions
      q := alike.q
      ssegValue1 := rfl
      ssegValue2 := alike.ssegValue2
      pioSseg := alike.pioSseg
      accesses := alike.accesses
      marks := by
        intro slot
        rw [alike.key]
        exact mark_highlightAnswer_congr alike.marks s.key slot }
  · have asked' : ¬ (s'.level ≠ 0 ∧ s'.level ≠ 6) := by rwa [alike.level]
    rw [show s.highlight = s from if_neg asked, show s'.highlight = s' from if_neg asked']
    exact alike

theorem release (alike : Alike s s') : Alike s.release s'.release := by
  have control : s'.release.control = s.release.control := by
    rw [control_release, control_release, alike.control]
  by_cases released : s.key = 0
  · have released' : s'.key = 0 := by rwa [alike.key]
    have left : s.release = { s with ready := 1, timeCnt := 0 } := if_pos released
    have right : s'.release = { s' with ready := 1, timeCnt := 0 } := if_pos released'
    rw [left, right] at control ⊢
    exact { alike with control := control }
  · have released' : ¬ s'.key = 0 := by rwa [alike.key]
    rw [show s.release = s from if_neg released, show s'.release = s' from if_neg released']
    exact alike

theorem noAnswer (alike : Alike s s') : Alike s.noAnswer s'.noAnswer :=
  { alike with control := congrArg Control.noAnswer alike.control }

/-- The branches that only set the answer. -/
theorem answering (alike : Alike s s') (answer : BitVec 2) :
    Alike { s with answer := answer, pc := .redraw } { s' with answer := answer, pc := .redraw } :=
  { alike with
    control := congrArg (fun c : Control => { c with answer := answer, pc := .redraw })
      alike.control
    unjudged := by simp }

theorem press (alike : Alike s s') : Alike s.press s'.press where
  control := congrArg (fun c : Control => { c with timeCnt := wrap 32 (c.timeCnt + 1) })
    alike.control
  unjudged := alike.unjudged
  questions := alike.questions
  q := alike.q
  ssegValue1 := by
    change getSSEG1value s'.q s'.key = getSSEG1value s.q s.key
    rw [alike.key]
    rfl
  ssegValue2 := alike.ssegValue2
  pioSseg := alike.pioSseg
  accesses := alike.accesses
  marks := by
    intro slot
    change mark (highlightAnswer s'.key s'.charBuf) slot =
      mark (highlightAnswer s.key s.charBuf) slot
    rw [alike.key]
    exact mark_highlightAnswer_congr alike.marks s.key slot

theorem writeSseg (alike : Alike s s') : Alike s.writeSseg s'.writeSseg := by
  have value : BitVec.ofNat 16 (s'.ssegValue1 + s'.ssegValue2) =
      BitVec.ofNat 16 (s.ssegValue1 + s.ssegValue2) := by
    rw [alike.ssegValue1, alike.ssegValue2]
  exact { alike with
    pioSseg := value
    accesses := by
      change Access.sseg _ :: s'.accesses = Access.sseg _ :: s.accesses
      rw [value, alike.accesses] }

theorem toRedraw (alike : Alike s s') : Alike { s with pc := .redraw } { s' with pc := .redraw } :=
  { alike with
    control := congrArg (fun c : Control => { c with pc := .redraw }) alike.control
    unjudged := by simp }

/-- Without a judgement both states take the same branch. -/
theorem respond (alike : Alike s s') (wild wild' : Bool)
    (quiet : s.key ≠ 0 → s.ready = 1 → s.level ≠ 0 → s.level ≠ 6 →
      wrap 32 (s.timeCnt + 1) < 30000) :
    Alike (s.respond wild) (s'.respond wild') := by
  unfold Sw.respond
  by_cases ready : s.ready = 1
  · rw [if_pos ready, if_pos (alike.ready.trans ready)]
    by_cases idle : s.level = 0
    · rw [if_pos idle, if_pos (alike.level.trans idle)]
      by_cases pressed : s.key ≠ 0
      · rw [if_pos pressed, if_pos (show s'.key ≠ 0 by rwa [alike.key])]
        exact alike.answering 0b11#2
      · rw [if_neg pressed, if_neg (show ¬ s'.key ≠ 0 by rwa [alike.key])]
        exact alike.toRedraw
    · rw [if_neg idle, if_neg (show ¬ s'.level = 0 by rwa [alike.level])]
      by_cases won : s.level = 6
      · rw [if_pos won, if_pos (alike.level.trans won)]
        exact alike.answering 0b10#2
      · rw [if_neg won, if_neg (show ¬ s'.level = 6 by rwa [alike.level])]
        by_cases pressed : s.key ≠ 0
        · have early : ¬ 30000 ≤ s.press.timeCnt := Int.not_le.mpr (quiet pressed ready idle won)
          have early' : ¬ 30000 ≤ s'.press.timeCnt := by rwa [alike.press.timeCnt]
          rw [if_pos pressed, if_pos (show s'.key ≠ 0 by rwa [alike.key]), confirm, confirm,
            if_neg early, if_neg early']
          exact alike.press.writeSseg.toRedraw
        · rw [if_neg pressed, if_neg (show ¬ s'.key ≠ 0 by rwa [alike.key])]
          exact alike.toRedraw
  · rw [if_neg ready, if_neg (show ¬ s'.ready = 1 by rwa [alike.ready])]
    exact alike.toRedraw

theorem judge (alike : Alike s s') (pc : s.pc = .judge) (quiet : ¬ s.Judges) (wild wild' : Bool) :
    Alike (s.judge wild) (s'.judge wild') := by
  apply alike.highlight.release.noAnswer.respond
  intro pressed ready notIdle notWon
  have prepared : s.highlight.release.noAnswer.control = s.control.release.noAnswer := by
    rw [← control_highlight s, ← control_release]
    rfl
  have key : s.key ≠ 0 := by
    rw [← show s.control.release.noAnswer.key = s.key from Control.release_key s.control,
      ← prepared]
    exact pressed
  rw [Control.release_of_pressed (show s.control.key ≠ 0 from key)] at prepared
  have level : s.highlight.release.noAnswer.level = s.level := congrArg Control.level prepared
  have timeCnt : s.highlight.release.noAnswer.timeCnt = s.timeCnt :=
    congrArg Control.timeCnt prepared
  have isReady : s.highlight.release.noAnswer.ready = s.ready := congrArg Control.ready prepared
  rw [timeCnt]
  by_contra passed
  exact quiet ⟨pc, key, isReady.symm.trans ready, level ▸ notIdle, level ▸ notWon,
    Int.not_lt.mp passed⟩

theorem writeAnswer (alike : Alike s s') : Alike s.writeAnswer s'.writeAnswer where
  control := congrArg Control.writeAnswer alike.control
  unjudged := by simp [Sw.writeAnswer]
  questions := alike.questions
  q := alike.q
  ssegValue1 := alike.ssegValue1
  ssegValue2 := alike.ssegValue2
  pioSseg := alike.pioSseg
  accesses := by
    change Access.answer s'.answer :: s'.accesses = Access.answer s.answer :: s.accesses
    rw [alike.answer, alike.accesses]
  marks := alike.marks

/-- What the redraw block does after the screen has been drawn. -/
theorem restart (alike : Alike s s') :
    Alike
      { s with oldLevel := s.level, ready := 0, timeCnt := 0, cnt := (s.cnt + 1) % 256,
               pc := .writeAnswer }
      { s' with oldLevel := s'.level, ready := 0, timeCnt := 0, cnt := (s'.cnt + 1) % 256,
                pc := .writeAnswer } :=
  { alike with
    control := congrArg (fun c : Control => { c with
      oldLevel := c.level, ready := 0, timeCnt := 0, cnt := (c.cnt + 1) % 256,
      pc := .writeAnswer }) alike.control
    unjudged := by simp }

theorem toWriteAnswer (alike : Alike s s') :
    Alike { s with pc := .writeAnswer } { s' with pc := .writeAnswer } :=
  { alike with
    control := congrArg (fun c : Control => { c with pc := .writeAnswer }) alike.control
    unjudged := by simp }

/-- Both states show the same title. -/
theorem title (alike : Alike s s') (text : String) :
    Alike { s with charBuf := displayTitle text s.charBuf }
      { s' with charBuf := displayTitle text s'.charBuf } :=
  { alike with
    control := alike.control
    marks := by
      intro slot
      rw [mark_displayTitle, mark_displayTitle] }

theorem showScreen (alike : Alike s s') (quiet : ¬ Draws s.level) (upper : s.level ≤ 6)
    (rand rand' : Nat → Rand) : Alike (s.showScreen rand) (s'.showScreen rand') := by
  unfold Draws at quiet
  unfold Sw.showScreen
  by_cases idle : s.level = 0
  · rw [if_pos idle, if_pos (alike.level.trans idle)]
    exact alike.title _
  · have won : s.level = 6 := by omega
    rw [if_neg idle, if_neg (show ¬ s'.level = 0 by rwa [alike.level]), if_pos won,
      if_pos (alike.level.trans won)]
    exact alike.title _

/-- The redraw block keeps the states alike unless it draws a question. -/
theorem redraw (alike : Alike s s') (quiet : s.Redraws → ¬ Draws s.level) (upper : s.level ≤ 6)
    (rand rand' : Nat → Rand) : Alike (s.redraw rand) (s'.redraw rand') := by
  have test : s'.Redraws ↔ s.Redraws := by
    change s'.control.Redraws ↔ s.control.Redraws
    rw [alike.control]
  unfold Sw.redraw
  by_cases redraws : s.Redraws
  · have undrawn : s.drawQuestion rand = s := if_neg (quiet redraws)
    have undrawn' : s'.drawQuestion rand' = s' := by
      apply if_neg
      rw [alike.level]
      exact quiet redraws
    rw [if_pos redraws, if_pos (test.mpr redraws), undrawn, undrawn']
    exact (alike.showScreen (quiet redraws) upper _ _).restart
  · rw [if_neg redraws, if_neg (mt test.mp redraws)]
    exact alike.toWriteAnswer

end Alike

/-! ## Drawing a question -/

variable {s : Sw}

theorem alike_refl (unjudged : s.pc ≠ .wrong) : Alike s s :=
  ⟨rfl, unjudged, rfl, rfl, rfl, rfl, rfl, rfl, fun _ => rfl⟩

/-- The question screen leaves the marks blank, whatever the order of the
answers. -/
theorem alike_showScreen (unjudged : s.pc ≠ .wrong) (recorded : Recorded s.q)
    (rand rand' : Nat → Rand) : Alike (s.showScreen rand) (s.showScreen rand') := by
  obtain ⟨record, question⟩ := recorded
  have short : ∀ i, (s.q.options i).length ≤ 23 := by
    rw [← question]
    exact fillQuestions_options_length record
  have alike := alike_refl unjudged
  unfold Sw.showScreen
  split
  · exact alike.title _
  · split
    · exact alike.title _
    · exact { alike with
        control := rfl
        marks := by
          intro slot
          rw [mark_displayBoxes, mark_displayBoxes, mark_displayLevel, mark_displayLevel,
            mark_displayQuestion short, mark_displayQuestion short] }

/-- Two outcomes of `shuffleAnswers` look alike. -/
theorem alike_redraw (unjudged : s.pc ≠ .wrong) (redraws : s.Redraws) (draws : Draws s.level)
    (recorded : Rearranges s.questions fillQuestions) {rand rand' : Nat → Rand}
    (same : ∀ k < questionCalls, rand' k = rand k) :
    Alike (s.redraw rand) (s.redraw rand') := by
  obtain ⟨q, questions, result, -, record, -⟩ :=
    getRandomQuestionByLevel_spec recorded rand draws.1 draws.2
  have drawn : s.drawQuestion rand = { s with q := q, questions := questions } := by
    simp only [drawQuestion, if_pos (show 1 ≤ s.level ∧ s.level ≤ 5 from draws), result]
  have drawn' : s.drawQuestion rand' = { s with q := q, questions := questions } := by
    simp only [drawQuestion, if_pos (show 1 ≤ s.level ∧ s.level ≤ 5 from draws),
      getRandomQuestionByLevel_congr same, result]
  unfold Sw.redraw
  rw [if_pos redraws, if_pos redraws, drawn, drawn']
  exact (@alike_showScreen { s with q := q, questions := questions } unjudged record _ _).restart

/-- A step that neither judges an answer nor draws a question keeps the states
alike, whatever the surroundings contribute besides the readings. -/
theorem Alike.step {s' : Sw} (alike : Alike s s') {input input' : Input} {level : BitVec 4}
    (key : input'.key = input.key) (upper : s.pc ≠ .readKey → s.pc ≠ .readLevel → s.level ≤ 6)
    (unjudging : ¬ s.Judges) (undrawn : s.pc = .redraw → s.Redraws → ¬ Draws s.level) :
    Alike (s.step input level) (s'.step input' level) := by
  rcases pc : s.pc with _ | _ | _ | _ | _ | _
  · rw [step_readKey pc, step_readKey (alike.pc.trans pc), key]
    exact alike.readKey _
  · rw [step_readLevel pc, step_readLevel (alike.pc.trans pc)]
    exact alike.readLevel _
  · rw [step_judge pc, step_judge (alike.pc.trans pc)]
    exact alike.judge pc unjudging _ _
  · exact absurd pc alike.unjudged
  · rw [step_redraw pc, step_redraw (alike.pc.trans pc)]
    exact alike.redraw (undrawn pc) (upper (by simp [pc]) (by simp [pc])) _ _
  · rw [step_writeAnswer pc, step_writeAnswer (alike.pc.trans pc)]
    exact alike.writeAnswer

end Sw

end FpgaTrivia.Software
