import FpgaTrivia.Hardware.Fsm
import Mathlib.Data.List.Infix
import Mathlib.Tactic.IntervalCases

/-!
# The trivia game that the state machine plays

The reference game knows only a level.  The state machine follows it exactly
as long as, at level six, answered and unanswered samples are not mixed: its
six-reached test stands on one of the two edges into the question state, and
its win state drops to idle on an unanswered sample.
-/

namespace FpgaTrivia.Hardware

open FpgaTrivia.Arith

namespace Game

/-- One answer in the reference game: a correct answer climbs up to level six,
a wrong one falls to level zero, and no answer leaves the level alone. -/
def step (level : Nat) (answer : BitVec 2) : Nat :=
  if answer = 0b11#2 then min (level + 1) 6
  else if answer = 0b10#2 then 0
  else level

/-- The level after a stream of answers. -/
def play (answers : List (BitVec 2)) : Nat :=
  answers.foldl step 0

@[simp]
theorem play_nil : play [] = 0 :=
  rfl

@[simp]
theorem play_append_singleton (answers : List (BitVec 2)) (answer : BitVec 2) :
    play (answers ++ [answer]) = step (play answers) answer := by
  simp [play]

end Game

namespace Fsm

/-- The registers after a stream of sampled answers. -/
def sample (answers : List (BitVec 2)) : Fsm :=
  answers.foldl risingEdge reset

@[simp]
theorem sample_nil : sample [] = reset :=
  rfl

@[simp]
theorem sample_append_singleton (answers : List (BitVec 2)) (answer : BitVec 2) :
    sample (answers ++ [answer]) = (sample answers).risingEdge answer := by
  simp [sample]

/-- How the registers stand for a level of the game.  At level six the state
remembers the last answer given there: none yet, a correct one, or silence. -/
inductive StandsFor : Fsm → Nat → Prop
  | zero : StandsFor reset 0
  | asked {state : StateType} {level : Nat} (inState : state = .question ∨ state = .wait)
      (pos : 0 < level) (lt : level < 6) : StandsFor ⟨state, level⟩ level
  | arrived : StandsFor ⟨.question, 6⟩ 6
  | won : StandsFor ⟨.win, 6⟩ 6
  | silent : StandsFor ⟨.wait, 6⟩ 6

theorem StandsFor.sCnt_eq {fsm : Fsm} {level : Nat} (stands : StandsFor fsm level) :
    fsm.sCnt = level := by
  cases stands <;> rfl

theorem StandsFor.oCount_eq {fsm : Fsm} {level : Nat} (stands : StandsFor fsm level) :
    fsm.oCount.toNat = level := by
  have count := stands.sCnt_eq
  have lt : level < 16 := by cases stands <;> omega
  have cast : (fsm.oCount.toNat : Int) = fsm.sCnt := oCount_toNat_of_range (by omega) (by omega)
  omega

/-- Entering the question state one level higher. -/
theorem StandsFor.question {level : Nat} (lt : level < 6) :
    StandsFor ⟨.question, wrap 32 (level + 1)⟩ (Game.step level 0b11#2) := by
  have count : wrap 32 ((level : Int) + 1) = (level + 1 : Nat) :=
    wrap_eq_self (by omega) (by omega)
  have climbed : Game.step level 0b11#2 = level + 1 := by
    simp only [Game.step, if_true]
    omega
  rw [count, climbed]
  by_cases last : level = 5
  · subst last
    exact .arrived
  · exact .asked (Or.inl rfl) (by omega) (by omega)

/-- The answers that the registers of level six do not follow: silence in the
win state, and a correct answer in the wait state. -/
def Mixes (fsm : Fsm) (answer : BitVec 2) : Prop :=
  (fsm = ⟨.win, 6⟩ ∧ questionAnswered answer = false) ∨ (fsm = ⟨.wait, 6⟩ ∧ answer = 0b11#2)

theorem StandsFor.correct {fsm : Fsm} {level : Nat} (stands : StandsFor fsm level)
    (steady : ¬ Mixes fsm 0b11#2) :
    StandsFor (fsm.risingEdge 0b11#2) (Game.step level 0b11#2) := by
  cases stands with
  | zero =>
      rw [risingEdge_correct (by simp [reset]) (by simp [reset])]
      exact @StandsFor.question 0 (by omega)
  | asked inState pos lt =>
      rw [risingEdge_correct (by rcases inState with rfl | rfl <;> simp) (by intro _; simp; omega)]
      exact StandsFor.question lt
  | arrived =>
      rw [risingEdge_correct_six rfl rfl]
      exact .won
  | won =>
      rw [risingEdge_correct_win rfl]
      exact .won
  | silent => exact absurd (Or.inr ⟨rfl, rfl⟩) steady

theorem StandsFor.silence {fsm : Fsm} {level : Nat} {answer : BitVec 2}
    (stands : StandsFor fsm level) (notAnswered : questionAnswered answer = false)
    (steady : ¬ Mixes fsm answer) :
    StandsFor (fsm.risingEdge answer) level := by
  rw [risingEdge_unanswered fsm notAnswered]
  cases stands with
  | zero => exact .zero
  | asked inState pos lt =>
      rcases inState with rfl | rfl
      · exact .asked (Or.inr rfl) pos lt
      · exact .asked (Or.inr rfl) pos lt
  | arrived => exact .silent
  | won => exact absurd (Or.inl ⟨rfl, notAnswered⟩) steady
  | silent => exact .silent

theorem step_of_unanswered (level : Nat) {answer : BitVec 2}
    (notAnswered : questionAnswered answer = false) : Game.step level answer = level := by
  rcases answer_cases answer with rfl | rfl | rfl | rfl
  · exact absurd notAnswered (by decide)
  · exact absurd notAnswered (by decide)
  · rfl
  · rfl

/-- The registers follow every answer that does not mix. -/
theorem StandsFor.step {fsm : Fsm} {level : Nat} {answer : BitVec 2}
    (stands : StandsFor fsm level) (steady : ¬ Mixes fsm answer) :
    StandsFor (fsm.risingEdge answer) (Game.step level answer) := by
  by_cases notAnswered : questionAnswered answer = false
  · rw [step_of_unanswered level notAnswered]
    exact stands.silence notAnswered steady
  · rcases answer_cases answer with rfl | rfl | rfl | rfl
    · exact stands.correct steady
    · rw [risingEdge_wrong]
      exact .zero
    · exact absurd rfl notAnswered
    · exact absurd rfl notAnswered

/-- A mixing answer is visible at once on the level port. -/
theorem Mixes.oCount_ne {fsm : Fsm} {level : Nat} {answer : BitVec 2}
    (mixes : Mixes fsm answer) (stands : StandsFor fsm level) :
    (fsm.risingEdge answer).oCount.toNat ≠ Game.step level answer := by
  have count := stands.sCnt_eq
  rcases mixes with ⟨rfl, notAnswered⟩ | ⟨rfl, rfl⟩
  · have six : level = 6 := Int.ofNat_inj.mp count.symm
    rw [risingEdge_unanswered _ notAnswered, step_of_unanswered _ notAnswered, six]
    decide
  · have six : level = 6 := Int.ofNat_inj.mp count.symm
    subst six
    decide

/-! ## Whole streams -/

/-- After `answers` the registers stand for the level of the game, and at level
six they remember the kind of the last answer that was given there. -/
structure Tracks (answers : List (BitVec 2)) : Prop where
  stands : StandsFor (sample answers) (Game.play answers)
  remembers : ∀ before last, answers = before ++ [last] → Game.play before = 6 →
    last ≠ 0b10#2 → sample answers = ⟨if last = 0b11#2 then .win else .wait, 6⟩
  given : sample answers = ⟨.win, 6⟩ ∨ sample answers = ⟨.wait, 6⟩ →
    ∃ before last, answers = before ++ [last] ∧ Game.play before = 6 ∧ last ≠ 0b10#2

/-- The last two samples were both taken at level six, neither was a wrong
answer, and one of them was a correct answer and the other silence. -/
def MixedAtSix (answers : List (BitVec 2)) (next : BitVec 2) : Prop :=
  ∃ before last, answers = before ++ [last] ∧ Game.play before = 6 ∧
    last ≠ 0b10#2 ∧ next ≠ 0b10#2 ∧ ¬ (last = 0b11#2 ↔ next = 0b11#2)

theorem Tracks.mixes_iff {answers : List (BitVec 2)} (tracks : Tracks answers)
    (next : BitVec 2) : Mixes (sample answers) next ↔ MixedAtSix answers next := by
  constructor
  · rintro (⟨won, notAnswered⟩ | ⟨silent, rfl⟩)
    · obtain ⟨before, last, split, six, answered⟩ := tracks.given (Or.inl won)
      have state := tracks.remembers before last split six answered
      have correct : last = 0b11#2 := by
        by_contra other
        simp [won, other] at state
      refine ⟨before, last, split, six, answered, ?_, ?_⟩
      · rintro rfl
        exact absurd notAnswered (by decide)
      · rintro same
        rw [same.mp correct] at notAnswered
        exact absurd notAnswered (by decide)
    · obtain ⟨before, last, split, six, answered⟩ := tracks.given (Or.inr silent)
      have state := tracks.remembers before last split six answered
      have other : last ≠ 0b11#2 := by
        rintro rfl
        simp [silent] at state
      exact ⟨before, last, split, six, answered, by decide, fun same => other (same.mpr rfl)⟩
  · rintro ⟨before, last, split, six, answered, nextAnswered, differ⟩
    have state := tracks.remembers before last split six answered
    by_cases correct : last = 0b11#2
    · left
      refine ⟨by simpa [correct] using state, ?_⟩
      rcases answer_cases next with rfl | rfl | rfl | rfl
      · exact absurd ⟨fun _ => rfl, fun _ => correct⟩ differ
      · exact absurd rfl nextAnswered
      · rfl
      · rfl
    · right
      refine ⟨by simpa [correct] using state, ?_⟩
      by_contra other
      exact differ ⟨fun same => absurd same correct, fun same => absurd same other⟩

theorem tracks_nil : Tracks [] where
  stands := .zero
  remembers := by
    intro before last split
    simp at split
  given := by
    rintro (won | silent)
    · exact absurd (congrArg Fsm.state won) (by decide)
    · exact absurd (congrArg Fsm.state silent) (by decide)

/-- Where the registers stand after an answer that left them in the win or in
the wait state of level six. -/
theorem StandsFor.six_before {fsm : Fsm} {level : Nat} {answer : BitVec 2}
    (stands : StandsFor fsm level)
    (after : fsm.risingEdge answer = ⟨.win, 6⟩ ∨ fsm.risingEdge answer = ⟨.wait, 6⟩) :
    level = 6 ∧ answer ≠ 0b10#2 := by
  have answered : answer ≠ 0b10#2 := by
    rintro rfl
    simp [reset] at after
  refine ⟨?_, answered⟩
  cases stands with
  | zero =>
      rcases answer_cases answer with rfl | rfl | rfl | rfl <;>
        simp [risingEdge, stateNext, reset] at after
  | @asked state level inState pos lt =>
      rcases answer_cases answer with rfl | rfl | rfl | rfl
      · rw [risingEdge_correct (by rcases inState with rfl | rfl <;> simp)
          (by intro _; simp; omega)] at after
        simp at after
      · exact absurd rfl answered
      · rw [risingEdge_unanswered _ rfl] at after
        rcases inState with rfl | rfl <;> simp [unanswered] at after <;> omega
      · rw [risingEdge_unanswered _ rfl] at after
        rcases inState with rfl | rfl <;> simp [unanswered] at after <;> omega
  | arrived => rfl
  | won => rfl
  | silent => rfl

/-- Where level six leaves the registers after an answer that does not mix. -/
theorem StandsFor.six_after {fsm : Fsm} {answer : BitVec 2} (stands : StandsFor fsm 6)
    (answered : answer ≠ 0b10#2) (steady : ¬ Mixes fsm answer) :
    fsm.risingEdge answer = ⟨if answer = 0b11#2 then .win else .wait, 6⟩ := by
  cases stands with
  | asked _ _ lt => omega
  | arrived =>
      rcases answer_cases answer with rfl | rfl | rfl | rfl
      · decide
      · exact absurd rfl answered
      · decide
      · decide
  | won =>
      rcases answer_cases answer with rfl | rfl | rfl | rfl
      · decide
      · exact absurd rfl answered
      · exact absurd (Or.inl ⟨rfl, rfl⟩) steady
      · exact absurd (Or.inl ⟨rfl, rfl⟩) steady
  | silent =>
      rcases answer_cases answer with rfl | rfl | rfl | rfl
      · exact absurd (Or.inr ⟨rfl, rfl⟩) steady
      · exact absurd rfl answered
      · decide
      · decide

theorem Tracks.append {answers : List (BitVec 2)} {next : BitVec 2} (tracks : Tracks answers)
    (steady : ¬ Mixes (sample answers) next) : Tracks (answers ++ [next]) where
  stands := by
    rw [sample_append_singleton, Game.play_append_singleton]
    exact tracks.stands.step steady
  remembers := by
    intro before last split six answered
    obtain ⟨rfl, rfl⟩ := List.append_singleton_inj.mp split
    rw [sample_append_singleton]
    exact StandsFor.six_after (six ▸ tracks.stands) answered steady
  given := by
    intro after
    rw [sample_append_singleton] at after
    obtain ⟨six, answered⟩ := tracks.stands.six_before after
    exact ⟨answers, next, rfl, six, answered⟩

/-- The level port shows the level of the game after every sample of the
stream. -/
def Follows (answers : List (BitVec 2)) : Prop :=
  ∀ taken, taken <+: answers → (sample taken).oCount.toNat = Game.play taken

/-- As long as the game stays at level six, either all samples are correct
answers or all are silence. -/
def Unmixed (answers : List (BitVec 2)) : Prop :=
  ∀ before last next, before ++ [last, next] <+: answers → Game.play before = 6 →
    last ≠ 0b10#2 → next ≠ 0b10#2 → (last = 0b11#2 ↔ next = 0b11#2)

theorem tracks_of_follows {answers : List (BitVec 2)} (follows : Follows answers) :
    Tracks answers := by
  induction answers using List.reverseRecOn with
  | nil => exact tracks_nil
  | append_singleton answers next ih =>
      have tracks := ih fun taken le => follows taken (le.trans (List.prefix_append _ _))
      refine tracks.append fun mixes => mixes.oCount_ne tracks.stands ?_
      rw [← sample_append_singleton, ← Game.play_append_singleton]
      exact follows _ (List.prefix_refl _)

theorem tracks_of_unmixed {answers : List (BitVec 2)} (unmixed : Unmixed answers) :
    Tracks answers := by
  induction answers using List.reverseRecOn with
  | nil => exact tracks_nil
  | append_singleton answers next ih =>
      have tracks := ih fun before last other le =>
        unmixed before last other (le.trans (List.prefix_append _ _))
      refine tracks.append fun mixes => ?_
      obtain ⟨before, last, rfl, six, answered, nextAnswered, differ⟩ :=
        (tracks.mixes_iff next).mp mixes
      exact differ (unmixed before last next (by simp) six answered nextAnswered)

/-- The state machine plays the game on exactly the streams that never mix
correct answers and silence at level six. -/
theorem follows_iff_unmixed (answers : List (BitVec 2)) : Follows answers ↔ Unmixed answers := by
  constructor
  · intro follows before last next le six answered nextAnswered
    by_contra differ
    have shorter : before ++ [last] <+: answers :=
      List.IsPrefix.trans ⟨[next], by simp⟩ le
    have tracks : Tracks (before ++ [last]) :=
      tracks_of_follows fun taken within => follows taken (within.trans shorter)
    have mixes := (tracks.mixes_iff next).mpr
      ⟨before, last, rfl, six, answered, nextAnswered, differ⟩
    apply mixes.oCount_ne tracks.stands
    rw [← sample_append_singleton, ← Game.play_append_singleton]
    exact follows _ (by simpa using le)
  · intro unmixed taken le
    have tracks : Tracks taken := tracks_of_unmixed fun before last next within =>
      unmixed before last next (within.trans le)
    exact tracks.stands.oCount_eq

/-- Two streams on which the state machine leaves the game: a pause and a
correct answer at level six count on to seven, and a pause after the win falls
to level zero. -/
theorem sample_ne_play :
    ((sample (List.replicate 6 0b11#2 ++ [0b00#2, 0b11#2])).oCount.toNat = 7 ∧
        Game.play (List.replicate 6 0b11#2 ++ [0b00#2, 0b11#2]) = 6) ∧
      ((sample (List.replicate 7 0b11#2 ++ [0b00#2])).oCount.toNat = 0 ∧
        Game.play (List.replicate 7 0b11#2 ++ [0b00#2]) = 6) := by
  decide

end Fsm

end FpgaTrivia.Hardware
