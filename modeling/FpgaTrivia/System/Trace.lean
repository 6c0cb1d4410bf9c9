import FpgaTrivia.System.LevelRange

/-!
# What happens along a run

A trace is a power-up state with an event sequence.  Positions of a trace are
classified by what the event there does: a tick, with or without a change of
the shown level, or one of the steps of an iteration.
-/

namespace FpgaTrivia.System

open FpgaTrivia.Hardware
open FpgaTrivia.Software
open FpgaTrivia.Transition

/-- The contents of the memory at power-up and an interleaving. -/
structure Trace where
  junk : Sw
  events : Nat → Event

namespace Trace

variable (trace : Trace)

/-- The board before event `n`. -/
def board (n : Nat) : Board :=
  Board.run trace.junk trace.events n

/-- The program before event `n`. -/
def sw (n : Nat) : Sw :=
  (trace.board n).sw

/-- The level that the board shows before event `n`. -/
def shown (n : Nat) : Nat :=
  (trace.board n).fsm.oCount.toNat

/-- Event `n` is a tick. -/
def Ticks (n : Nat) : Prop :=
  trace.events n = .tick

/-- Event `n` is the step `pc` of an iteration. -/
def Steps (pc : Pc) (n : Nat) : Prop :=
  (∃ input, trace.events n = .loop input) ∧ (trace.sw n).pc = pc

/-- An iteration starts with event `n`. -/
def Starts (n : Nat) : Prop :=
  trace.Steps .readKey n

/-- An iteration finishes with event `n`. -/
def Finishes (n : Nat) : Prop :=
  trace.Steps .writeAnswer n

/-- Event `n` starts an iteration that finds all keys released. -/
def ReadsZero (n : Nat) : Prop :=
  ∃ input, trace.events n = .loop input ∧ (trace.sw n).pc = .readKey ∧ input.key = 0

/-- Event `n` is a tick that changes the shown level. -/
def Changes (n : Nat) : Prop :=
  trace.Ticks n ∧ trace.shown (n + 1) ≠ trace.shown n

/-- Event `n` is a tick that raises the shown level. -/
def Raises (n : Nat) : Prop :=
  trace.Ticks n ∧ trace.shown n < trace.shown (n + 1)

/-- Two whole iterations start and finish between events `m` and `n`. -/
def TwoIterations (m n : Nat) : Prop :=
  ∃ s₁ f₁ s₂ f₂, (m < s₁ ∧ s₁ < f₁ ∧ f₁ < s₂ ∧ s₂ < f₂ ∧ f₂ < n) ∧
    trace.Starts s₁ ∧ trace.Finishes f₁ ∧ trace.Starts s₂ ∧ trace.Finishes f₂

variable {trace} {n : Nat}

theorem Raises.changes (raises : trace.Raises n) : trace.Changes n :=
  ⟨raises.1, Nat.ne_of_gt raises.2⟩

/-! ## One event -/

theorem board_succ (trace : Trace) (n : Nat) :
    trace.board (n + 1) = (trace.board n).step (trace.events n) :=
  rfl

/-- A tick moves the state machine only. -/
theorem fsm_tick (ticks : trace.Ticks n) :
    (trace.board (n + 1)).fsm =
      (trace.board n).fsm.risingEdge (trace.sw n).pioOutputAnswer := by
  rw [board_succ, ticks]
  rfl

theorem sw_tick (ticks : trace.Ticks n) : trace.sw (n + 1) = trace.sw n := by
  rw [sw, board_succ, ticks]
  rfl

/-- A loop step moves the program only. -/
theorem fsm_loop {input : Input} (event : trace.events n = .loop input) :
    (trace.board (n + 1)).fsm = (trace.board n).fsm := by
  rw [board_succ, event]
  rfl

theorem shown_loop {input : Input} (event : trace.events n = .loop input) :
    trace.shown (n + 1) = trace.shown n := by
  rw [shown, fsm_loop event, shown]

theorem sw_loop {input : Input} (event : trace.events n = .loop input) :
    trace.sw (n + 1) = (trace.sw n).step input (trace.board n).fsm.oCount := by
  rw [sw, board_succ, event]
  rfl

/-- The control of the program before event `n`. -/
theorem control_loop {input : Input} (event : trace.events n = .loop input) :
    (trace.sw (n + 1)).control =
      (trace.sw n).control.step input.key (trace.board n).fsm.oCount
        ((trace.sw n).verdict input.wild) := by
  rw [sw_loop event, Sw.control_step]

/-- The level changes at ticks only. -/
theorem shown_succ_of_not_changes (same : ¬ trace.Changes n) :
    trace.shown (n + 1) = trace.shown n := by
  rcases event : trace.events n with _ | input
  · by_contra different
    exact same ⟨event, different⟩
  · exact shown_loop event

theorem bounded (trace : Trace) (n : Nat) : (trace.board n).fsm.Bounded :=
  (Board.run_inRange trace.junk trace.events n).bounded

theorem shown_eq (trace : Trace) (n : Nat) :
    (trace.shown n : Int) = (trace.board n).fsm.sCnt :=
  (trace.bounded n).oCount_eq

theorem shown_le (trace : Trace) (n : Nat) : trace.shown n ≤ 6 := by
  have upper := (trace.bounded n).range.2
  have count := trace.shown_eq n
  omega

end Trace

end FpgaTrivia.System
