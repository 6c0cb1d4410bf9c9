import FpgaTrivia.Software.Alike
import FpgaTrivia.System.Judging

/-!
# The board does not give the answer away

Two runs that differ in the outcome of `shuffleAnswers` for one draw cannot be
told apart from outside until an answer is judged or the next question is
drawn.
-/

namespace FpgaTrivia.System

open FpgaTrivia.Hardware
open FpgaTrivia.Software
open FpgaTrivia.Transition

/-- Both are ticks, or both are loop steps with the same key reading. -/
def Event.SameReading : Event → Event → Prop
  | .tick, .tick => True
  | .loop input, .loop input' => input'.key = input.key
  | .tick, .loop _ => False
  | .loop _, .tick => False

namespace Trace

variable {trace trace' : Trace} {d m : Nat} {input input' : Input}

/-- Event `n` draws a question. -/
def Draws (trace : Trace) (n : Nat) : Prop :=
  trace.Steps .redraw n ∧ (trace.sw n).Redraws ∧ Software.Draws (trace.sw n).level

theorem board_congr (junk : trace'.junk = trace.junk)
    (before : ∀ k < d, trace'.events k = trace.events k) : trace'.board d = trace.board d := by
  rw [board, board, junk]
  exact run_congr _ _ before

/-- Two runs at a position where they look alike. -/
def AlikeAt (trace trace' : Trace) (n : Nat) : Prop :=
  (trace'.board n).fsm = (trace.board n).fsm ∧ (trace.sw n).Alike (trace'.sw n)

theorem alikeAt_draw (same : trace'.board d = trace.board d) (draw : trace.events d = .loop input)
    (draw' : trace'.events d = .loop input') (draws : trace.Draws d)
    (question : ∀ k < questionCalls, input'.rand k = input.rand k) :
    AlikeAt trace trace' (d + 1) := by
  have sw : trace'.sw d = trace.sw d := congrArg Board.sw same
  obtain ⟨⟨-, pc⟩, redraws, level⟩ := draws
  refine ⟨by rw [fsm_loop draw, fsm_loop draw', same], ?_⟩
  rw [sw_loop draw, sw_loop draw', sw, Sw.step_redraw pc, Sw.step_redraw pc]
  exact Sw.alike_redraw (by simp [pc]) redraws level (trace.consistent d).questions question

theorem AlikeAt.succ {n : Nat} (alike : AlikeAt trace trace' n)
    (reading : (trace.events n).SameReading (trace'.events n)) (unjudging : ¬ trace.Judges n)
    (undrawn : ¬ trace.Draws n) : AlikeAt trace trace' (n + 1) := by
  obtain ⟨fsm, sw⟩ := alike
  rcases event : trace.events n with _ | input <;>
    rcases event' : trace'.events n with _ | input' <;>
    simp only [event, event', Event.SameReading] at reading
  · refine ⟨?_, by rw [sw_tick event, sw_tick event']; exact sw⟩
    have port : (trace'.sw n).pioOutputAnswer = (trace.sw n).pioOutputAnswer :=
      congrArg Control.port sw.control
    rw [fsm_tick event, fsm_tick event', fsm, port]
  · refine ⟨by rw [fsm_loop event, fsm_loop event', fsm], ?_⟩
    rw [sw_loop event, sw_loop event', fsm]
    apply sw.step reading (trace.consistent n).reading
    · exact fun judges => unjudging ⟨⟨input, event⟩, judges⟩
    · exact fun pc redraws draws => undrawn ⟨⟨⟨input, event⟩, pc⟩, redraws, draws⟩

/-- Take a draw of a question in a run, and a second run that differs in the
calls of `rand` made by `shuffleAnswers` for that draw.  With the same key
readings and the same schedule of ticks afterwards, the two runs make the same
accesses to their ports, show the same level and have the same marks on the
screen, until an answer is judged or the next question is drawn. -/
theorem draw_reveals_nothing (junk : trace'.junk = trace.junk)
    (before : ∀ k < d, trace'.events k = trace.events k) (draw : trace.events d = .loop input)
    (draw' : trace'.events d = .loop input') (draws : trace.Draws d)
    (question : ∀ k < questionCalls, input'.rand k = input.rand k)
    (later : ∀ k, d < k → (trace.events k).SameReading (trace'.events k)) (after : d < m)
    (quiet : ∀ k, d < k → k < m → ¬ trace.Judges k ∧ ¬ trace.Draws k) :
    (trace'.sw m).accesses = (trace.sw m).accesses ∧
      (∀ slot, mark (trace'.sw m).charBuf slot = mark (trace.sw m).charBuf slot) ∧
      trace'.shown m = trace.shown m := by
  have first := alikeAt_draw (board_congr junk before) draw draw' draws question
  have alike : AlikeAt trace trace' m := by
    apply interval_induction (P := AlikeAt trace trace') after first
    intro k lower upper alike
    exact alike.succ (later k lower) (quiet k lower upper).1 (quiet k lower upper).2
  exact ⟨alike.2.accesses, alike.2.marks, by rw [shown, shown, alike.1]⟩

/-- The opening, with the results of `rand` from call 14 on at `shuffled` when the
first question is drawn. -/
def reshuffled (shuffled : Rand) : Trace where
  junk := .zeroed
  events n :=
    if n = 9 then .loop ⟨0b0000, false, fun k => if k < questionCalls then .lowest else shuffled⟩
    else opening n

theorem reshuffled_of_ne (shuffled : Rand) {n : Nat} (other : n ≠ 9) :
    (reshuffled shuffled).events n = opening n :=
  if_neg other

/-- The two runs have drawn different orders, and look alike. -/
theorem reshuffled_alike :
    ((reshuffled 1).sw 16).answers ≠ ((reshuffled 0).sw 16).answers ∧
      ((reshuffled 1).sw 16).accesses = ((reshuffled 0).sw 16).accesses := by
  constructor
  · intro same
    have slots := congrFun same 0
    revert slots
    decide +kernel
  · have same : ∀ k, k ≠ 9 → (reshuffled 1).events k = (reshuffled 0).events k := by
      intro k other
      rw [reshuffled_of_ne 1 other, reshuffled_of_ne 0 other]
    have reading : ∀ event : Event, event.SameReading event := by
      intro event
      cases event with
      | tick => trivial
      | loop input => rfl
    have draws : (reshuffled 0).Draws 9 :=
      ⟨⟨⟨_, rfl⟩, by decide +kernel⟩, by decide +kernel, by decide +kernel, by decide +kernel⟩
    have alike := @draw_reveals_nothing (reshuffled 0) (reshuffled 1) 9 16 _ _ rfl
      (fun k before => same k (Nat.ne_of_lt before)) rfl rfl draws
      (fun k first => (if_pos first).trans (if_pos first).symm)
      (fun k later => same k (Nat.ne_of_gt later) ▸ reading _) (by decide) ?_
    · exact alike.1
    · have quiet : ∀ k < 16, 9 < k → ¬ ((reshuffled 0).sw k).Judges ∧
          ¬ (((reshuffled 0).sw k).pc = .redraw ∧ ((reshuffled 0).sw k).Redraws) := by
        decide +kernel
      intro k lower upper
      obtain ⟨unjudging, undrawn⟩ := quiet k upper lower
      exact ⟨fun judges => unjudging judges.2, fun draws => undrawn ⟨draws.1.2, draws.2.1⟩⟩

end Trace

end FpgaTrivia.System
