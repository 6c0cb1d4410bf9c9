import FpgaTrivia.Arith.SignedWord
import Mathlib.Tactic.Common

/-!
# The level state machine

The entity `FinalProject_Trivia_FSM`: four states and the integer `s_cnt`,
clocked by the divided clock.  On every rising edge it samples the two-bit
answer port; bit 1 says that a question has been answered, bit 0 that the
answer was correct.  `o_count`, the level shown to the software, is the low
four bits of the counter.
-/

namespace FpgaTrivia.Hardware

open FpgaTrivia.Arith

/-- `state_type` of the architecture. -/
inductive StateType
  | idle
  | question
  | wait
  | win
  deriving DecidableEq, Repr

/-- The registers of the entity.  `s_cnt` is a VHDL `integer`, a 32-bit signed
word. -/
structure Fsm where
  state : StateType
  sCnt : Int
  deriving DecidableEq, Repr

namespace Fsm

/-- The next-state process `NSL`. -/
def stateNext (fsm : Fsm) (iAnswer : BitVec 2) : StateType :=
  match fsm.state with
  | .idle =>
      if iAnswer[1] = true ∧ iAnswer[0] = true then .question else .idle
  | .question =>
      if iAnswer[1] = true ∧ iAnswer[0] = true then
        if fsm.sCnt = 6 then .win else .question
      else if iAnswer[1] = false then .wait
      else .idle
  | .win =>
      if iAnswer[1] = true ∧ iAnswer[0] = true then .win else .idle
  | .wait =>
      if iAnswer[1] = true ∧ iAnswer[0] = true then .question
      else if iAnswer[1] = false then .wait
      else .idle

/-- The clocked process on a rising edge of `i_clk`. -/
def risingEdge (fsm : Fsm) (iAnswer : BitVec 2) : Fsm :=
  let stateNext := fsm.stateNext iAnswer
  { state := stateNext
    sCnt :=
      if stateNext = .question then wrap 32 (fsm.sCnt + 1)
      else if stateNext = .idle then 0
      else fsm.sCnt }

/-- The registers after `i_rstb = '0'`. -/
def reset : Fsm :=
  { state := .idle, sCnt := 0 }

/-- `o_count`: `to_unsigned` keeps the low four bits of the counter. -/
def oCount (fsm : Fsm) : BitVec 4 :=
  BitVec.ofInt 4 fsm.sCnt

/-! ## What the machine does with each answer -/

/-- The four values of the answer port. -/
theorem answer_cases (iAnswer : BitVec 2) :
    iAnswer = 0b11#2 ∨ iAnswer = 0b10#2 ∨ iAnswer = 0b00#2 ∨ iAnswer = 0b01#2 := by
  revert iAnswer
  decide

/-- A wrong answer leads to the idle state from everywhere. -/
@[simp]
theorem risingEdge_wrong (fsm : Fsm) : fsm.risingEdge 0b10#2 = reset := by
  rcases fsm with ⟨state, sCnt⟩
  cases state <;> simp [risingEdge, stateNext, reset]

/-- `i_answer(1)`: a question has been answered. -/
abbrev questionAnswered (iAnswer : BitVec 2) : Bool :=
  iAnswer[1]

/-- The state after an unanswered sample: both encodings act alike. -/
def unanswered (fsm : Fsm) : Fsm :=
  match fsm.state with
  | .idle | .win => reset
  | .question | .wait => { fsm with state := .wait }

theorem risingEdge_unanswered (fsm : Fsm) {iAnswer : BitVec 2}
    (notAnswered : questionAnswered iAnswer = false) :
    fsm.risingEdge iAnswer = fsm.unanswered := by
  rcases fsm with ⟨state, sCnt⟩
  cases state <;> simp [risingEdge, stateNext, unanswered, notAnswered, reset]

/-- A correct answer in the win state is absorbed. -/
theorem risingEdge_correct_win {fsm : Fsm} (inState : fsm.state = .win) :
    fsm.risingEdge 0b11#2 = fsm := by
  rcases fsm with ⟨state, sCnt⟩
  subst inState
  simp [risingEdge, stateNext]

/-- The only guarded edge: a correct answer in the question state at count six
leads to the win state. -/
theorem risingEdge_correct_six {fsm : Fsm} (inState : fsm.state = .question)
    (six : fsm.sCnt = 6) : fsm.risingEdge 0b11#2 = { fsm with state := .win } := by
  rcases fsm with ⟨state, sCnt⟩
  subst inState six
  simp [risingEdge, stateNext]

/-- Every other correct answer enters the question state and counts. -/
theorem risingEdge_correct {fsm : Fsm} (notWin : fsm.state ≠ .win)
    (notSix : fsm.state = .question → fsm.sCnt ≠ 6) :
    fsm.risingEdge 0b11#2 = { state := .question, sCnt := wrap 32 (fsm.sCnt + 1) } := by
  rcases fsm with ⟨state, sCnt⟩
  cases state with
  | idle => simp [risingEdge, stateNext]
  | question => simp [risingEdge, stateNext, notSix rfl]
  | wait => simp [risingEdge, stateNext]
  | win => exact absurd rfl notWin

/-- `o_count` as a number. -/
theorem oCount_toNat (fsm : Fsm) : fsm.oCount.toNat = (fsm.sCnt % 16).toNat := by
  simp [oCount, BitVec.toNat_ofInt]

/-- On four-bit counts nothing is truncated. -/
theorem oCount_toNat_of_range {fsm : Fsm} (lower : 0 ≤ fsm.sCnt) (upper : fsm.sCnt < 16) :
    (fsm.oCount.toNat : Int) = fsm.sCnt := by
  rw [oCount_toNat]
  omega

end Fsm

end FpgaTrivia.Hardware
