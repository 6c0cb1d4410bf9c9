import FpgaTrivia.Hardware.DividedClock
import FpgaTrivia.System.Trace
import FpgaTrivia.Transition.Chunks

/-!
# The top level

At every rising edge of `CLOCK_50` the divider counts, and the processor may
complete a step of the program.  The edges at which the divided clock rises
clock the state machine.  Every run of the top level is thereby an interleaving
of the board, with one tick in 50 million edges.
-/

namespace FpgaTrivia.System

open FpgaTrivia.Hardware
open FpgaTrivia.Software
open FpgaTrivia.Transition

/-- What happens at one rising edge of `CLOCK_50`: the pushbuttons at
`GPIO(4 downto 1)`, which are low while pressed, and the step of the program, if
one is completed. -/
structure Edge where
  gpio : BitVec 4
  works : Bool
  wild : Bool
  rand : Nat → Rand

namespace Edge

/-- `pio_input_key_external_connection_export => not GPIO(4 downto 1)`. -/
def input (edge : Edge) : Input :=
  { key := ~~~edge.gpio, wild := edge.wild, rand := edge.rand }

end Edge

/-- The registers behind the entity `FinalProject_Trivia_DE10`. -/
structure TopLevel where
  divider : ClockDivider
  fsm : Fsm
  sw : Sw

namespace TopLevel

/-- The signal `S_LEVEL`. -/
def sLevel (top : TopLevel) : BitVec 4 :=
  top.fsm.oCount

/-- The signal `S_ANSWER`. -/
def sAnswer (top : TopLevel) : BitVec 2 :=
  top.sw.pioOutputAnswer

/-- The signal `S_SSEG`. -/
def sSseg (top : TopLevel) : BitVec 16 :=
  top.sw.pioSseg

/-- `LEDR(3 downto 0) <= S_LEVEL`. -/
def ledr (top : TopLevel) : BitVec 4 :=
  top.sLevel

/-- `HEX0 <= S_SSEG(7 downto 0)`. -/
def hex0 (top : TopLevel) : BitVec 8 :=
  top.sSseg.extractLsb' 0 8

/-- `HEX1 <= S_SSEG(15 downto 8)`. -/
def hex1 (top : TopLevel) : BitVec 8 :=
  top.sSseg.extractLsb' 8 8

/-- The processor, if it completes a step of the program. -/
def processor (edge : Edge) (top : TopLevel) : TopLevel :=
  if edge.works = true then { top with sw := top.sw.step edge.input top.sLevel } else top

/-- The state machine, if the signal `CLK` rises. -/
def machine (clk clk' : Bool) (top : TopLevel) : TopLevel :=
  if clk = false ∧ clk' = true then { top with fsm := top.fsm.risingEdge top.sAnswer } else top

/-- One rising edge of `CLOCK_50`.  The divider is never reset.  `CLK` rises after
the edge, when the port has already taken over what the program writes at it. -/
def risingEdge (top : TopLevel) (edge : Edge) : TopLevel :=
  let divider := top.divider.risingEdge true
  { (top.processor edge).machine top.divider.oClkXHz divider.oClkXHz with divider := divider }

/-- The power-up state: the divider and the memory start anywhere, the state machine
in the state of its reset. -/
def powerUp (divider : ClockDivider) (junk : Sw) : TopLevel :=
  { divider := divider, fsm := .reset, sw := .boot junk }

/-- The part that the divided clock and the program share. -/
def board (top : TopLevel) : Board :=
  { fsm := top.fsm, sw := top.sw }

/-- What an edge means to the board: a step of the program, and then a tick. -/
def events (divider : ClockDivider) (edge : Edge) : List Event :=
  (if edge.works = true then [.loop edge.input] else []) ++
    if divider.Rises then [.tick] else []

theorem board_risingEdge (top : TopLevel) (edge : Edge) :
    (top.risingEdge edge).board = (events top.divider edge).foldl Board.step top.board := by
  have processed : (top.processor edge).board =
      (if edge.works = true then [Event.loop edge.input] else []).foldl Board.step top.board := by
    by_cases works : edge.works = true
    · rw [processor, if_pos works, if_pos works]
      rfl
    · rw [processor, if_neg works, if_neg works]
      rfl
  rw [events, List.foldl_append, ← processed]
  change ((top.processor edge).machine _ _).board = _
  by_cases rises : top.divider.Rises
  · rw [if_pos rises, machine, if_pos ⟨rises.1, rises.2⟩]
    rfl
  · rw [if_neg rises, machine, if_neg fun both => rises ⟨both.1, both.2⟩]
    rfl

@[simp]
theorem divider_risingEdge (top : TopLevel) (edge : Edge) :
    (top.risingEdge edge).divider = top.divider.risingEdge true :=
  rfl

end TopLevel

/-- The power-up state and the edges of `CLOCK_50`. -/
structure Clocked where
  divider : ClockDivider
  junk : Sw
  edges : Nat → Edge

namespace Clocked

variable {clocked : Clocked} {e n : Nat}

/-- The top level before edge `e`. -/
def top (clocked : Clocked) (e : Nat) : TopLevel :=
  Transition.run TopLevel.risingEdge (.powerUp clocked.divider clocked.junk) clocked.edges e

theorem top_succ (clocked : Clocked) (e : Nat) :
    clocked.top (e + 1) = (clocked.top e).risingEdge (clocked.edges e) :=
  rfl

/-- Nothing but the edges moves the divider. -/
theorem divider_eq (clocked : Clocked) (e : Nat) :
    (clocked.top e).divider = clocked.divider.afterEdges e := by
  induction e with
  | zero => rfl
  | succ e ih => rw [top_succ, TopLevel.divider_risingEdge, ih, ClockDivider.afterEdges_succ]

/-- The state machine ticks at edge `e`. -/
def Ticks (clocked : Clocked) (e : Nat) : Prop :=
  (clocked.divider.afterEdges e).Rises

/-- The events of the board at edge `e`. -/
def chunk (clocked : Clocked) (e : Nat) : List Event :=
  TopLevel.events (clocked.divider.afterEdges e) (clocked.edges e)

/-- The events before edge `e`. -/
def place (clocked : Clocked) (e : Nat) : Nat :=
  position clocked.chunk e

/-- The run as an interleaving of the board. -/
noncomputable def trace (clocked : Clocked) : Trace :=
  ⟨clocked.junk, flatten clocked.chunk .tick⟩

/-- Before each edge the top level holds what the board holds after the events so
far. -/
theorem board_eq (clocked : Clocked) (e : Nat) :
    (clocked.top e).board = clocked.trace.board (clocked.place e) := by
  change _ = Transition.run Board.step _ (flatten clocked.chunk .tick) (position clocked.chunk e)
  rw [run_flatten]
  induction e with
  | zero => rfl
  | succ e ih =>
      rw [top_succ, TopLevel.board_risingEdge, divider_eq, ih]
      rfl

end Clocked

end FpgaTrivia.System
