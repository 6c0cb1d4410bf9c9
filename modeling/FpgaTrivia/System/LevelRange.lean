import FpgaTrivia.System.Board
import Mathlib.Tactic.IntervalCases

/-!
# The level range

The state machine alone does not bound its counter: the edge from the wait to
the question state counts without a test.  The bound rests on the answers that
the program can still have in flight.  Once the counter has reached six and the
port is no longer raised, no correct answer can follow: the iteration that is
under way reads level six or has decided already, and level six is never
answered with a correct answer.
-/

namespace FpgaTrivia.Hardware.Fsm

open FpgaTrivia.Arith

/-- The counts that belong to the four states. -/
def Bounded (fsm : Fsm) : Prop :=
  match fsm.state with
  | .idle => fsm.sCnt = 0
  | .question => 1 ≤ fsm.sCnt ∧ fsm.sCnt ≤ 6
  | .wait => 1 ≤ fsm.sCnt ∧ fsm.sCnt ≤ 6
  | .win => fsm.sCnt = 6

theorem bounded_reset : Bounded reset :=
  rfl

theorem Bounded.range {fsm : Fsm} (bounded : fsm.Bounded) : 0 ≤ fsm.sCnt ∧ fsm.sCnt ≤ 6 := by
  rcases fsm with ⟨state, sCnt⟩
  cases state <;> simp only [Bounded] at bounded ⊢ <;> omega

theorem Bounded.oCount_eq {fsm : Fsm} (bounded : fsm.Bounded) :
    (fsm.oCount.toNat : Int) = fsm.sCnt :=
  oCount_toNat_of_range bounded.range.1 (by have := bounded.range.2; omega)

/-- Entering the question state below six stays in range. -/
theorem bounded_question {sCnt : Int} (lower : 0 ≤ sCnt) (upper : sCnt < 6) :
    Bounded ⟨.question, wrap 32 (sCnt + 1)⟩ := by
  rw [wrap_eq_self (by omega) (by omega)]
  simp only [Bounded]
  omega

theorem Bounded.unanswered {fsm : Fsm} (bounded : fsm.Bounded) : fsm.unanswered.Bounded := by
  rcases fsm with ⟨state, sCnt⟩
  cases state with
  | idle => exact bounded_reset
  | question => exact bounded
  | wait => exact bounded
  | win => exact bounded_reset

/-- Outside the win state an unanswered sample keeps the counter. -/
theorem Bounded.unanswered_sCnt {fsm : Fsm} (bounded : fsm.Bounded) (notWin : fsm.state ≠ .win) :
    fsm.unanswered.sCnt = fsm.sCnt := by
  rcases fsm with ⟨state, sCnt⟩
  cases state with
  | idle =>
      have zero : sCnt = 0 := bounded
      simp [Fsm.unanswered, reset, zero]
  | question => rfl
  | wait => rfl
  | win => exact absurd rfl notWin

theorem unanswered_win {fsm : Fsm} (win : fsm.state = .win) : fsm.unanswered = reset := by
  simp only [Fsm.unanswered, win]

/-- The win state is entered by a correct answer in the question state at count
six. -/
theorem correct_six_of_risingEdge_win {fsm : Fsm} {iAnswer : BitVec 2}
    (notWin : fsm.state ≠ .win) (win : (fsm.risingEdge iAnswer).state = .win) :
    iAnswer = 0b11#2 ∧ fsm.sCnt = 6 := by
  rcases answer_cases iAnswer with rfl | rfl | rfl | rfl
  · by_cases six : fsm.state = .question ∧ fsm.sCnt = 6
    · exact ⟨rfl, six.2⟩
    · rw [risingEdge_correct notWin fun question count => six ⟨question, count⟩] at win
      simp at win
  · simp [reset] at win
  · rw [risingEdge_unanswered _ rfl] at win
    rcases fsm with ⟨state, sCnt⟩
    cases state <;> simp [Fsm.unanswered, reset] at win
  · rw [risingEdge_unanswered _ rfl] at win
    rcases fsm with ⟨state, sCnt⟩
    cases state <;> simp [Fsm.unanswered, reset] at win

/-- An edge keeps the counter in range unless it samples a correct answer in
the wait state at count six. -/
theorem Bounded.risingEdge {fsm : Fsm} {iAnswer : BitVec 2} (bounded : fsm.Bounded)
    (safe : fsm.state = .wait → fsm.sCnt = 6 → iAnswer ≠ 0b11#2) :
    (fsm.risingEdge iAnswer).Bounded := by
  rcases answer_cases iAnswer with rfl | rfl | rfl | rfl
  · rcases fsm with ⟨state, sCnt⟩
    cases state with
    | idle =>
        have zero : sCnt = 0 := bounded
        rw [risingEdge_correct (by simp) (by simp)]
        exact bounded_question (by simp [zero]) (by simp [zero])
    | question =>
        by_cases six : sCnt = 6
        · rw [risingEdge_correct_six rfl six]
          exact six
        · rw [risingEdge_correct (by simp) (fun _ => six)]
          simp only [Bounded] at bounded
          exact bounded_question (by simp; omega) (by simp; omega)
    | wait =>
        have notSix : sCnt ≠ 6 := fun six => safe rfl six rfl
        rw [risingEdge_correct (by simp) (by simp)]
        simp only [Bounded] at bounded
        exact bounded_question (by simp; omega) (by simp; omega)
    | win =>
        rw [risingEdge_correct_win rfl]
        exact bounded
  · rw [risingEdge_wrong]
    exact bounded_reset
  · rw [risingEdge_unanswered fsm rfl]
    exact bounded.unanswered
  · rw [risingEdge_unanswered fsm rfl]
    exact bounded.unanswered

/-- The only edge into the wait state at count six comes from level six with
an unanswered sample. -/
theorem wait_six_of_risingEdge {fsm : Fsm} {iAnswer : BitVec 2} (bounded : fsm.Bounded)
    (state : (fsm.risingEdge iAnswer).state = .wait)
    (six : (fsm.risingEdge iAnswer).sCnt = 6) :
    questionAnswered iAnswer = false ∧ (fsm.state = .question ∨ fsm.state = .wait) ∧
      fsm.sCnt = 6 := by
  rcases fsm with ⟨old, sCnt⟩
  rcases answer_cases iAnswer with rfl | rfl | rfl | rfl
  · cases old <;> simp [Fsm.risingEdge, stateNext] at state
    split at state <;> simp at state
  · simp [reset] at state
  · rw [risingEdge_unanswered _ rfl] at state six
    cases old <;> simp_all [unanswered, reset]
  · rw [risingEdge_unanswered _ rfl] at state six
    cases old <;> simp_all [unanswered, reset]

end FpgaTrivia.Hardware.Fsm

namespace FpgaTrivia.System

open FpgaTrivia.Hardware
open FpgaTrivia.Software

namespace Handshake

/-- No correct answer is in flight: none on the port, none decided, and none to
be decided from a level below six that has been read already. -/
structure NoCorrectInFlight (c : Control) : Prop where
  port : c.port ≠ 0b11#2
  pending : c.Pending → c.answer ≠ 0b11#2
  reading : c.pc = .judge → c.level = 6

/-- Level six has been reached and the port is not raised any more. -/
def Settled (h : Handshake) : Prop :=
  h.fsm.sCnt = 6 ∧
    (h.fsm.state = .wait ∨ (h.fsm.state = .question ∧ Fsm.questionAnswered h.control.port = false))

/-- The counter is in range, and it stays there. -/
structure InRange (h : Handshake) : Prop where
  bounded : h.fsm.Bounded
  settled : h.Settled → NoCorrectInFlight h.control

theorem inRange_initial {h : Handshake} (initial : Initial h) : InRange h where
  bounded := by
    rw [initial.fsm]
    exact Fsm.bounded_reset
  settled := by
    rintro ⟨six, _⟩
    rw [initial.fsm] at six
    exact absurd six (by decide)

theorem InRange.tick {h : Handshake} (inRange : InRange h) : InRange (h.step .tick) where
  bounded := by
    apply inRange.bounded.risingEdge
    intro wait six
    exact (inRange.settled ⟨six, Or.inl wait⟩).port
  settled := by
    rintro ⟨six, wait | ⟨question, lowered⟩⟩
    · obtain ⟨lowered, state, count⟩ := Fsm.wait_six_of_risingEdge inRange.bounded wait six
      rcases state with question | waiting
      · exact inRange.settled ⟨count, Or.inr ⟨question, lowered⟩⟩
      · exact inRange.settled ⟨count, Or.inl waiting⟩
    · -- the question state is entered by a correct answer only, so the port is raised
      have notCorrect : h.control.port ≠ 0b11#2 := by
        intro correct
        rw [show (h.step .tick).control.port = h.control.port from rfl, correct] at lowered
        exact absurd lowered (by decide)
      have silent : h.fsm.risingEdge h.control.port = h.fsm.unanswered :=
        Fsm.risingEdge_unanswered _ lowered
      change (h.fsm.risingEdge h.control.port).state = .question at question
      rw [silent] at question
      rcases h with ⟨⟨state, sCnt⟩, control⟩
      cases state <;> simp [Fsm.unanswered, Fsm.reset] at question

/-- A loop step taken at level six keeps correct answers out of flight. -/
theorem NoCorrectInFlight.step {c : Control} {level : BitVec 4} (quiet : NoCorrectInFlight c)
    (six : level.toNat = 6) (key : BitVec 4) (verdict : Bool) :
    NoCorrectInFlight (c.step key level verdict) := by
  rcases pc : c.pc with _ | _ | _ | _ | _ | _
  · rw [Control.step_readKey pc]
    exact ⟨quiet.port, by simp [Control.Pending, Control.readKey], by simp [Control.readKey]⟩
  · rw [Control.step_readLevel pc]
    exact ⟨quiet.port, by simp [Control.Pending, Control.readLevel], fun _ => six⟩
  · rw [Control.step_judge pc]
    have reading := quiet.reading pc
    have port := quiet.port
    have spec := Control.judge_spec verdict c
    generalize c.judge verdict = judged at spec ⊢
    cases spec with
    | silent => exact ⟨by simpa using port, by simp, by simp⟩
    | start _ level => omega
    | leave => exact ⟨by simpa using port, by simp, by simp⟩
    | delay _ asked => omega
    | right _ asked => omega
    | wrong _ asked => omega
  · rw [Control.step_wrong pc]
    exact ⟨quiet.port, fun _ => quiet.pending (Or.inl pc), by simp [Control.wrong]⟩
  · rw [Control.step_redraw pc]
    have pending := quiet.pending (Or.inr (Or.inl pc))
    unfold Control.redraw
    split
    · exact ⟨quiet.port, fun _ => pending, by simp⟩
    · exact ⟨quiet.port, fun _ => pending, by simp⟩
  · rw [Control.step_writeAnswer pc]
    have pending := quiet.pending (Or.inr (Or.inr pc))
    exact ⟨pending, by simp [Control.Pending, Control.writeAnswer], by simp [Control.writeAnswer]⟩

/-- The step that lowers the port publishes an answer that is not correct, and
leaves nothing pending. -/
theorem noCorrectInFlight_of_lowered {c : Control} {key level : BitVec 4} {verdict : Bool}
    (raised : Fsm.questionAnswered c.port ≠ false)
    (lowered : Fsm.questionAnswered (c.step key level verdict).port = false) :
    NoCorrectInFlight (c.step key level verdict) := by
  rcases c.step_port key level verdict with same | wrong | written
  · exact absurd (same ▸ lowered) raised
  · rw [wrong] at lowered
    exact absurd lowered (by decide)
  · rw [written] at lowered ⊢
    refine ⟨?_, by simp [Control.Pending, Control.writeAnswer], by simp [Control.writeAnswer]⟩
    intro correct
    rw [correct] at lowered
    exact absurd lowered (by decide)

/-- The step into the branch of a wrong verdict publishes it and leaves it to be
written. -/
theorem noCorrectInFlight_of_step_wrong {c : Control} {key level : BitVec 4} {verdict : Bool}
    (pc : (c.step key level verdict).pc = .wrong) :
    NoCorrectInFlight (c.step key level verdict) := by
  rcases here : c.pc with _ | _ | _ | _ | _ | _
  case judge =>
    rw [Control.step_judge here] at pc ⊢
    have spec := Control.judge_spec verdict c
    generalize c.judge verdict = judged at pc spec ⊢
    cases spec with
    | wrong => exact ⟨by simp, by simp, by simp⟩
    | silent => cases pc
    | start => cases pc
    | leave => cases pc
    | delay => cases pc
    | right => cases pc
  all_goals
    rw [Control.step, here] at pc
    simp [Control.readKey, Control.readLevel, Control.wrong, Control.writeAnswer] at pc

theorem InRange.loop {h : Handshake} (inRange : InRange h) (key : BitVec 4) (verdict : Bool) :
    InRange (h.step (.loop key verdict)) where
  bounded := inRange.bounded
  settled := by
    rintro ⟨six, state⟩
    have level : h.fsm.oCount.toNat = 6 := by
      have count := inRange.bounded.oCount_eq
      rw [show h.fsm.sCnt = 6 from six] at count
      omega
    by_cases before : h.Settled
    · exact (inRange.settled before).step level key verdict
    · rcases state with wait | ⟨question, lowered⟩
      · exact absurd ⟨six, Or.inl wait⟩ before
      · apply noCorrectInFlight_of_lowered _ lowered
        intro down
        exact before ⟨six, Or.inr ⟨question, down⟩⟩

theorem InRange.step {h : Handshake} (inRange : InRange h) (event : Event) :
    InRange (h.step event) := by
  cases event with
  | tick => exact inRange.tick
  | loop key verdict => exact inRange.loop key verdict

end Handshake

namespace Board

theorem run_inRange (junk : Sw) (events : Nat → Event) (n : Nat) :
    (run junk events n).handshake.InRange :=
  run_handshake_invariant (fun _ => Handshake.inRange_initial)
    (fun _ event inRange => inRange.step event) junk events n

/-- Along every run the counter stays between zero and six, so that `o_count`
shows it in full and the program never reads a level above six. -/
theorem run_sCnt_range (junk : Sw) (events : Nat → Event) (n : Nat) :
    (0 ≤ (run junk events n).fsm.sCnt ∧ (run junk events n).fsm.sCnt ≤ 6) ∧
      ((run junk events n).fsm.oCount.toNat : Int) = (run junk events n).fsm.sCnt ∧
      ∀ input, events n = .loop input → (run junk events n).sw.pc = .readLevel →
        (run junk events (n + 1)).sw.level ≤ 6 := by
  have bounded : (run junk events n).fsm.Bounded := (run_inRange junk events n).bounded
  refine ⟨bounded.range, bounded.oCount_eq, ?_⟩
  intro input event pc
  have reading : (run junk events (n + 1)).sw.level = (run junk events n).fsm.oCount.toNat := by
    rw [run_succ, event]
    simp only [step, Sw.step, pc]
    rfl
  have upper := bounded.range.2
  have count := bounded.oCount_eq
  omega

end Board

end FpgaTrivia.System
