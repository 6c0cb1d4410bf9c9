import FpgaTrivia.Hardware.Fsm
import FpgaTrivia.Software.Control
import FpgaTrivia.Transition.Run

/-!
# The board

The top level wires the level port of the program to `o_count` and the answer
port to `i_answer`.  The program and the divided clock run independently: a
run of the board is an arbitrary interleaving of loop steps and rising edges,
and an edge samples the value that the program wrote last.

`Handshake` is the board restricted to the state machine and the control of
the loop.
-/

namespace FpgaTrivia.System

open FpgaTrivia.Hardware
open FpgaTrivia.Software
open FpgaTrivia.Transition

/-- The state machine and the program. -/
structure Board where
  fsm : Fsm
  sw : Sw

/-- A rising edge of the divided clock, or one step of the loop. -/
inductive Event
  | tick
  | loop (input : Input)

namespace Board

/-- Each event moves one of the two halves. -/
def step (board : Board) : Event → Board
  | .tick => { board with fsm := board.fsm.risingEdge board.sw.pioOutputAnswer }
  | .loop input => { board with sw := board.sw.step input board.fsm.oCount }

/-- The board when the program enters its loop. -/
def powerUp (junk : Sw) : Board :=
  { fsm := .reset, sw := .boot junk }

/-- The board after the first `n` events. -/
def run (junk : Sw) (events : Nat → Event) (n : Nat) : Board :=
  Transition.run step (powerUp junk) events n

@[simp]
theorem run_zero (junk : Sw) (events : Nat → Event) : run junk events 0 = powerUp junk :=
  rfl

theorem run_succ (junk : Sw) (events : Nat → Event) (n : Nat) :
    run junk events (n + 1) = (run junk events n).step (events n) :=
  rfl

end Board

/-- The state machine and the control of the loop. -/
structure Handshake where
  fsm : Fsm
  control : Control
  deriving DecidableEq, Repr

namespace Handshake

/-- A tick, or a loop step with the key port and the outcome of the
comparison. -/
inductive Event
  | tick
  | loop (key : BitVec 4) (verdict : Bool)

def step (h : Handshake) : Event → Handshake
  | .tick => { h with fsm := h.fsm.risingEdge h.control.port }
  | .loop key verdict => { h with control := h.control.step key h.fsm.oCount verdict }

/-- What holds of every power-up state. -/
structure Initial (h : Handshake) : Prop where
  fsm : h.fsm = .reset
  pc : h.control.pc = .readKey
  cnt : h.control.cnt = 0
  timeCnt : h.control.timeCnt = 0
  ready : h.control.ready = 1
  port : h.control.port = 0b00#2

end Handshake

namespace Board

/-- Forget the questions, the answers and the screen. -/
def handshake (board : Board) : Handshake :=
  { fsm := board.fsm, control := board.sw.control }

/-- An event of the board as the handshake sees it. -/
def label (board : Board) : Event → Handshake.Event
  | .tick => .tick
  | .loop input => .loop input.key (board.sw.verdict input.wild)

/-- The handshake simulates the board. -/
theorem handshake_simulates : Simulates step Handshake.step handshake label := by
  intro board event
  cases event with
  | tick => rfl
  | loop input =>
      simp only [handshake, step, label, Handshake.step, Sw.control_step]

theorem handshake_powerUp (junk : Sw) : (powerUp junk).handshake.Initial :=
  ⟨rfl, rfl, rfl, rfl, rfl, rfl⟩

/-- An invariant of the handshake is an invariant of the board. -/
theorem run_handshake_invariant {P : Handshake → Prop}
    (initial : ∀ h, Handshake.Initial h → P h) (preserved : ∀ h event, P h → P (h.step event))
    (junk : Sw) (events : Nat → Event) (n : Nat) : P (run junk events n).handshake := by
  have projected := handshake_simulates.run (powerUp junk) events n
  change P (Transition.run step (powerUp junk) events n).handshake
  rw [projected]
  exact run_invariant (initial _ (handshake_powerUp junk)) preserved _ n

end Board

end FpgaTrivia.System
