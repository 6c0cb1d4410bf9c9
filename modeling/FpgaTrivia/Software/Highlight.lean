import FpgaTrivia.Software.Drawn
import FpgaTrivia.Software.Layout
import FpgaTrivia.Software.Session
import FpgaTrivia.Software.Verdict

/-!
# The highlighted answer

The marks are not drawn anew in every iteration.  A released key blanks them
all, a pressed one adds its own, and nothing else touches them between two
draws.  So the marks are those of all keys pressed since the last release.
-/

namespace FpgaTrivia.Software

open FpgaTrivia.Hardware
open FpgaTrivia.Shuffle

/-- Highlighting the same key again changes no mark. -/
theorem mark_highlightAnswer_again (key : Nat) (buf : CharBuffer) (slot : Fin 4) :
    mark (highlightAnswer key (highlightAnswer key buf)) slot =
      mark (highlightAnswer key buf) slot := by
  simp only [mark_highlightAnswer]
  split
  · rfl
  · split <;> rfl

theorem mark_questionScreen {q : Question} (printable : Printable q) (rand : Nat → Rand)
    (level : Nat) (buf : CharBuffer) (slot : Fin 4) :
    mark (questionScreen q rand level buf) slot = ' ' := by
  rw [questionScreen, mark_displayBoxes, mark_displayLevel, mark_displayQuestion printable.options]

namespace Sw

variable {s : Sw} {reading : Reading}

theorem writeAnswer_charBuf (s : Sw) : s.writeAnswer.charBuf = s.charBuf :=
  rfl

theorem iteration_charBuf (reading : Reading) (s : Sw) :
    (s.iteration reading).charBuf = ((s.decided reading).redraw reading.input.rand).charBuf :=
  writeAnswer_charBuf _

/-! ## An iteration that draws nothing -/

theorem confirm_charBuf (wild : Bool) (s : Sw) :
    (s.confirm wild).charBuf = highlightAnswer s.key s.charBuf := by
  unfold confirm
  split
  · split <;> rfl
  · rfl

theorem respond_charBuf (wild : Bool) (s : Sw) :
    (s.respond wild).charBuf = s.charBuf ∨
      (s.respond wild).charBuf = highlightAnswer s.key s.charBuf := by
  unfold respond
  split
  · split
    · left
      split <;> rfl
    · split
      · exact Or.inl rfl
      · split
        · exact Or.inr (confirm_charBuf wild s)
        · exact Or.inl rfl
  · exact Or.inl rfl

/-- At a question level the judging step highlights the key, once or twice. -/
theorem mark_judge (asks : s.level ≠ 0 ∧ s.level ≠ 6) (wild : Bool) (slot : Fin 4) :
    mark (s.judge wild).charBuf slot = mark (highlightAnswer s.key s.charBuf) slot := by
  have prepared : s.highlight.release.noAnswer.charBuf = highlightAnswer s.key s.charBuf ∧
      s.highlight.release.noAnswer.key = s.key := by
    unfold noAnswer release highlight
    rw [if_pos asks]
    split <;> exact ⟨rfl, rfl⟩
  obtain ⟨charBuf, key⟩ := prepared
  rw [judge]
  rcases respond_charBuf wild s.highlight.release.noAnswer with same | again
  · rw [same, charBuf]
  · rw [again, charBuf, key, mark_highlightAnswer_again]

theorem mark_iteration (asks : Asks reading.level) (quiet : ¬ (s.decided reading).Redraws)
    (right : (s.entered reading).Judges →
      (s.entered reading).verdict reading.input.wild = true) (slot : Fin 4) :
    mark (s.iteration reading).charBuf slot =
      mark (highlightAnswer reading.input.key.toNat s.charBuf) slot := by
  have straight := (judge_of_not_wrong (show (s.entered reading).pc = .judge from rfl) right).1
  have settled : s.decided reading = (s.entered reading).judge reading.input.wild :=
    if_neg (by simp [straight])
  have kept : ((s.decided reading).redraw reading.input.rand).charBuf =
      (s.decided reading).charBuf := by
    rw [redraw, if_neg quiet]
  rw [iteration_charBuf, kept, settled, @mark_judge (s.entered reading) asks]
  rfl

/-! ## An iteration that draws a question -/

theorem showScreen_questions (rand : Nat → Rand) (s : Sw) :
    (s.showScreen rand).questions = s.questions := by
  unfold showScreen
  split
  · rfl
  · split <;> rfl

/-- The redraw block keeps all recorded questions, whatever the level. -/
theorem rearranges_redraw (rand : Nat → Rand) (recorded : Rearranges s.questions fillQuestions) :
    Rearranges (s.redraw rand).questions fillQuestions := by
  by_cases redraws : s.Redraws
  · by_cases draws : Draws s.level
    · exact (shows_redraw rand redraws draws recorded).2
    · rw [(redraw_of_redraws rand redraws).questions, showScreen_questions,
        show s.drawQuestion rand = s from if_neg draws]
      exact recorded
  · rw [(sameQuestion_redraw rand redraws).questions]
    exact recorded

theorem rearranges_iteration (recorded : Rearranges s.questions fillQuestions) :
    Rearranges (s.iteration reading).questions fillQuestions := by
  rw [← (sameQuestion_decided reading s).questions] at recorded
  rw [iteration, (sameQuestion_writeAnswer _).questions]
  exact rearranges_redraw reading.input.rand recorded

/-- The redraw block at a question level shows a recorded question. -/
theorem charBuf_redraw (rand : Nat → Rand) (redraws : s.Redraws) (draws : Draws s.level)
    (recorded : Rearranges s.questions fillQuestions) :
    ∃ i later, (s.redraw rand).charBuf =
      questionScreen (fillQuestions i) later s.level s.charBuf := by
  obtain ⟨_, questions, drawn, -, ⟨i, rfl⟩, -⟩ := drawQuestion_of_draws rand draws recorded
  refine ⟨i, fun k => rand (k + s.drawCalls), ?_⟩
  rw [redraw, if_pos redraws, drawn,
    @showScreen_of_draws { s with q := fillQuestions i, questions := questions } _ draws]

theorem decided_level (reading : Reading) (s : Sw) :
    (s.decided reading).level = reading.level.toNat := by
  change (s.decided reading).control.level = _
  rw [control_decided, Control.settle_level, Control.judge_level]
  rfl

/-- A new question is shown without marks. -/
theorem mark_iteration_of_redraws (redraws : (s.decided reading).Redraws)
    (draws : Draws reading.level.toNat) (recorded : Rearranges s.questions fillQuestions)
    (slot : Fin 4) : mark (s.iteration reading).charBuf slot = ' ' := by
  rw [← (sameQuestion_decided reading s).questions] at recorded
  rw [← decided_level reading s] at draws
  obtain ⟨i, later, screen⟩ := charBuf_redraw reading.input.rand redraws draws recorded
  rw [iteration_charBuf, screen, mark_questionScreen (printable_fillQuestions i)]

end Sw

/-! ## From one draw to the next -/

namespace Session

variable {session : Session} {d m t : Nat}

theorem after_succ (session : Session) (t : Nat) :
    session.after (t + 1) = (session.after t).iteration (session.readings t) :=
  rfl

theorem rearranges_after (session : Session) (t : Nat) :
    Rearranges (session.after t).questions fillQuestions := by
  induction t with
  | zero => exact .refl fillQuestions
  | succ t ih =>
      rw [after_succ]
      exact Sw.rearranges_iteration ih

/-- Iteration `d` draws a question, and up to iteration `m` the level stays the
same: nothing more is drawn, no verdict is wrong, and at most one key is
down. -/
structure Steady (session : Session) (d m : Nat) : Prop where
  drawn : session.Redraws d
  draws : Draws (session.level d).toNat
  stays : ∀ t, d < t → t ≤ m → session.level t = session.level d
  quiet : ∀ t, d < t → t ≤ m → ¬ session.Redraws t
  right : ∀ t, d < t → t ≤ m → session.Judges t → session.verdict t = true
  single : ∀ t, d < t → t ≤ m →
    session.key t = 0 ∨ ∃ slot, (session.key t).toNat = keyOf slot

/-- After iteration `t` exactly the key that it has read is marked. -/
def MarksShow (session : Session) (t : Nat) : Prop :=
  ∀ slot, mark (session.after (t + 1)).charBuf slot =
    if (session.key t).toNat = keyOf slot then 'O' else ' '

/-- Every later iteration adds the key that it reads, or blanks all marks. -/
theorem Steady.mark_after_succ (steady : Steady session d m) (lower : d < t) (upper : t ≤ m)
    (slot : Fin 4) : mark (session.after (t + 1)).charBuf slot =
      if session.key t = 0 then ' '
      else if (session.key t).toNat = keyOf slot then 'O'
      else mark (session.after t).charBuf slot := by
  have asks : Asks (session.level t) := by
    obtain ⟨one, five⟩ := steady.draws
    rw [steady.stays t lower upper]
    exact ⟨by omega, by omega⟩
  have released : session.key t = 0 ↔ (session.key t).toNat = 0 :=
    ⟨fun zero => congrArg BitVec.toNat zero, fun zero => BitVec.eq_of_toNat_eq zero⟩
  rw [after_succ, Sw.mark_iteration asks (steady.quiet t lower upper) (steady.right t lower upper),
    mark_highlightAnswer]
  simp only [released]
  rfl

theorem key_ne_zero_of_keyOf {slot : Fin 4} (pressed : (session.key t).toNat = keyOf slot) :
    session.key t ≠ 0 := by
  intro zero
  rw [zero] at pressed
  exact keyOf_ne_zero slot pressed.symm

/-- On unmarked cells, and on those that show the same key, the marks come out
right. -/
theorem Steady.marksShow (steady : Steady session d m) (lower : d < t) (upper : t ≤ m)
    (before : ∀ slot, mark (session.after t).charBuf slot = ' ' ∨
      (session.key t).toNat = keyOf slot ∨ session.key t = 0) : session.MarksShow t := by
  intro slot
  rw [steady.mark_after_succ lower upper]
  by_cases pressed : (session.key t).toNat = keyOf slot
  · rw [if_neg (key_ne_zero_of_keyOf pressed), if_pos pressed, if_pos pressed]
  · rw [if_neg pressed, if_neg pressed]
    split
    · rfl
    · rename_i down
      exact (before slot).resolve_right fun either => either.elim pressed down

/-- As long as every change of the key goes through a release, the marks show
the key. -/
theorem Steady.marksShow_of_changes (steady : Steady session d m)
    (changes : ∀ t, d + 1 < t → t ≤ m →
      session.key t = session.key (t - 1) ∨ session.key t = 0 ∨ session.key (t - 1) = 0)
    (lower : d < t) (upper : t ≤ m) : session.MarksShow t := by
  induction t, lower using Nat.le_induction with
  | base =>
      apply steady.marksShow (Nat.lt_succ_self d) upper
      intro slot
      left
      rw [after_succ]
      exact Sw.mark_iteration_of_redraws steady.drawn steady.draws (session.rearranges_after d) slot
  | succ t lower ih =>
      have shown := ih (Nat.le_of_succ_le upper)
      apply steady.marksShow (Nat.lt_succ_of_lt lower) upper
      intro slot
      rw [shown slot]
      rcases changes (t + 1) (Nat.succ_lt_succ lower) upper with same | released | released
      · rw [Nat.add_sub_cancel] at same
        rw [same]
        split
        · rename_i pressed
          exact Or.inr (Or.inl pressed)
        · exact Or.inl rfl
      · exact Or.inr (Or.inr released)
      · rw [Nat.add_sub_cancel] at released
        left
        apply if_neg
        intro pressed
        exact key_ne_zero_of_keyOf pressed released

/-- A change from one key to another leaves both marked. -/
theorem Steady.changes_of_marksShow (steady : Steady session d m) (before : d < t)
    (upper : t + 1 ≤ m) (shown : session.MarksShow t) (shown' : session.MarksShow (t + 1)) :
    session.key (t + 1) = session.key t ∨ session.key (t + 1) = 0 ∨ session.key t = 0 := by
  rcases steady.single t before (Nat.le_of_succ_le upper) with released | ⟨slot, pressed⟩
  · exact Or.inr (Or.inr released)
  · by_cases released : session.key (t + 1) = 0
    · exact Or.inr (Or.inl released)
    · left
      by_contra changed
      have other : (session.key (t + 1)).toNat ≠ keyOf slot :=
        fun same => changed (BitVec.eq_of_toNat_eq (same.trans pressed.symm))
      have mark := steady.mark_after_succ (Nat.lt_succ_of_lt before) upper slot
      rw [shown' slot, shown slot, if_neg other, if_neg released, if_neg other, if_pos pressed]
        at mark
      exact absurd mark (by decide)

/-- The marks show the key that has been read and no other, exactly as long as
every change from one key to another goes through a release. -/
theorem marksShow_iff (steady : Steady session d m) :
    (∀ t, d < t → t ≤ m → session.MarksShow t) ↔
      ∀ t, d + 1 < t → t ≤ m →
        session.key t = session.key (t - 1) ∨ session.key t = 0 ∨ session.key (t - 1) = 0 := by
  constructor
  · intro shown t lower upper
    obtain ⟨t, rfl⟩ := Nat.exists_eq_succ_of_ne_zero (Nat.ne_zero_of_lt lower)
    have before : d < t := Nat.lt_of_succ_lt_succ lower
    exact steady.changes_of_marksShow before upper (shown t before (Nat.le_of_succ_le upper))
      (shown (t + 1) (Nat.lt_succ_of_lt before) upper)
  · intro changes t lower upper
    exact steady.marksShow_of_changes changes lower upper

/-- A session at level 1. -/
def atLevelOne (keys : Nat → BitVec 4) : Session where
  junk := .zeroed
  readings t := ⟨⟨keys t, false, fun _ => .lowest⟩, 1⟩

/-- No answer is judged so early. -/
theorem atLevelOne_steady {keys : Nat → BitVec 4}
    (single : ∀ t, keys t = 0 ∨ ∃ slot, (keys t).toNat = keyOf slot) :
    Steady (atLevelOne keys) 0 2 where
  drawn := (redraws_iff _ 0).mpr (redrawn_zero _)
  draws := ⟨Nat.le_refl 1, Nat.le_add_left 1 4⟩
  stays := fun _ _ _ => rfl
  quiet := by
    intro t lower _ redraws
    rw [redraws_iff, redrawn_iff_of_const fun _ => rfl] at redraws
    omega
  right := by
    intro t _ upper judges
    have late := ((judges_iff_confirms _ t).mp judges).pressed.1
    omega
  single := fun t _ _ => single t

/-- Key A, and then key B: the change is not shown. -/
theorem marks_of_slide_wrong :
    ¬ ∀ (session : Session) (d m : Nat), Steady session d m →
      ∀ t, d < t → t ≤ m → session.MarksShow t := by
  intro shown
  have steady := @atLevelOne_steady (fun t => if t < 2 then 0b0001 else 0b0010) (by
    intro t
    right
    split
    · exact ⟨0, rfl⟩
    · exact ⟨1, rfl⟩)
  have changes := steady.changes_of_marksShow (Nat.zero_lt_one) (Nat.le_refl 2)
    (shown _ 0 2 steady 1 (by decide) (by decide)) (shown _ 0 2 steady 2 (by decide) (by decide))
  exact absurd changes (by decide)

/-- Key A held down is shown. -/
theorem marks_of_hold : Steady (atLevelOne fun _ => 0b0001) 0 2 ∧
    ∀ t, 0 < t → t ≤ 2 → (atLevelOne fun _ => 0b0001).MarksShow t := by
  have steady := @atLevelOne_steady (fun _ => 0b0001) fun _ => Or.inr ⟨0, rfl⟩
  exact ⟨steady, (marksShow_iff steady).mpr fun _ _ _ => Or.inl rfl⟩

end Session

end FpgaTrivia.Software
