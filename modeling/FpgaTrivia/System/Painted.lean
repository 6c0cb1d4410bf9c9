import FpgaTrivia.Hardware.Pins
import FpgaTrivia.Software.Outputs
import FpgaTrivia.Software.Painting
import FpgaTrivia.System.Pacing
import FpgaTrivia.Transition.Log

/-!
# The screen in the character memory and on the display

The program draws by calls of the driver, and takes for granted that a clear
blanks the whole screen.  Its first call is a clear, at level zero.  Therefore
the device, which carries the calls out while its raster goes on, comes by all
the screens of the program, and the pins of the display show the last one.
-/

namespace FpgaTrivia.System

open FpgaTrivia.Hardware
open FpgaTrivia.Software
open FpgaTrivia.Transition

namespace Trace

/-- The driver calls that the program has made before event `n`. -/
def calls (trace : Trace) : Nat → List DriverCall
  | 0 => []
  | n + 1 =>
      trace.calls n ++
        match trace.events n with
        | .tick => []
        | .loop input => (trace.sw n).calls input

variable {trace : Trace} {n : Nat}

theorem calls_tick (ticks : trace.Ticks n) : trace.calls (n + 1) = trace.calls n := by
  rw [calls, ticks]
  exact List.append_nil _

theorem calls_loop {input : Input} (event : trace.events n = .loop input) :
    trace.calls (n + 1) = trace.calls n ++ (trace.sw n).calls input := by
  rw [calls, event]

theorem calls_grows (trace : Trace) : Grows trace.calls :=
  fun _ => List.prefix_append _ _

/-- The screen is what the calls have made of it. -/
theorem performAll_calls (trace : Trace) (n : Nat) :
    performAll trace.junk.charBuf (trace.calls n) = (trace.sw n).charBuf := by
  induction n with
  | zero => rfl
  | succ n ih =>
      rcases event : trace.events n with _ | input
      · rw [calls_tick event, ih, sw_tick event]
      · rw [calls_loop event, performAll_append, ih, sw_loop event, Sw.performAll_calls]

/-! ## The first call -/

/-- The first iteration has not left its redraw block. -/
structure Unpainted (trace : Trace) (n : Nat) : Prop where
  none : ∀ i < n, ¬ trace.Steps .redraw i
  shown : trace.shown n = 0
  port : (trace.sw n).pioOutputAnswer = 0b00#2
  calls : trace.calls n = []
  cnt : (trace.sw n).cnt = 0
  stage : (trace.sw n).pc = .readKey ∨ (trace.sw n).pc = .readLevel ∨
    (((trace.sw n).pc = .judge ∨ (trace.sw n).pc = .redraw) ∧ (trace.sw n).level = 0)

theorem unpainted_zero (trace : Trace) : trace.Unpainted 0 where
  none := fun i before => absurd before (Nat.not_lt_zero i)
  shown := shown_zero trace
  port := rfl
  calls := rfl
  cnt := rfl
  stage := Or.inl rfl

theorem Unpainted.none_succ (unpainted : trace.Unpainted n) (other : ¬ trace.Steps .redraw n) :
    ∀ i < n + 1, ¬ trace.Steps .redraw i := by
  intro i before
  rcases Nat.lt_succ_iff_lt_or_eq.mp before with less | rfl
  · exact unpainted.none i less
  · exact other

/-- At level zero the judging step makes no calls and leaves the port alone. -/
theorem judge_of_idle {s : Sw} (pc : s.pc = .judge) (idle : s.level = 0) (wild : Bool) :
    (s.judge wild).pc = .redraw ∧ (s.judge wild).pioOutputAnswer = s.pioOutputAnswer ∧
      s.judgeCalls = [] := by
  obtain ⟨next, port⟩ := @Sw.judge_of_not_wrong _ pc wild fun judges =>
    absurd idle judges.2.2.2.1
  refine ⟨next, port, ?_⟩
  have level : s.highlight.release.noAnswer.level = 0 := by
    unfold Sw.noAnswer Sw.release Sw.highlight
    split <;> split <;> exact idle
  have highlight : s.highlightCalls = [] := if_neg fun asks => asks.1 idle
  have respond : s.highlight.release.noAnswer.respondCalls = [] := by
    rw [Sw.respondCalls, if_pos level]
    exact ite_self _
  rw [Sw.judgeCalls, highlight, respond]
  rfl

/-- The first call is the clear of the first redraw. -/
theorem Unpainted.succ (unpainted : trace.Unpainted n) :
    trace.Unpainted (n + 1) ∨ ∃ rest, trace.calls (n + 1) = .clear :: rest := by
  rcases event : trace.events n with _ | input
  · have sw := sw_tick event
    refine Or.inl ⟨unpainted.none_succ ?_, ?_, ?_, ?_, ?_, ?_⟩
    · rintro ⟨⟨input, loop⟩, -⟩
      rw [event] at loop
      cases loop
    · exact (shown_of_idle event unpainted.shown unpainted.port).trans unpainted.shown
    · exact sw ▸ unpainted.port
    · exact (calls_tick event).trans unpainted.calls
    · exact sw ▸ unpainted.cnt
    · exact sw ▸ unpainted.stage
  · have sw := sw_loop event
    have shown := (shown_loop event).trans unpainted.shown
    have made : trace.calls (n + 1) = (trace.sw n).calls input := by
      rw [calls_loop event, unpainted.calls]
      rfl
    rw [Sw.calls] at made
    rcases unpainted.stage with pc | pc | ⟨pc | pc, idle⟩
    · rw [Sw.step_readKey pc] at sw
      rw [pc] at made
      refine Or.inl ⟨unpainted.none_succ fun redraws => ?_, shown, sw ▸ unpainted.port, made,
        sw ▸ unpainted.cnt, Or.inr (Or.inl (sw ▸ rfl))⟩
      rw [redraws.2] at pc
      cases pc
    · rw [Sw.step_readLevel pc] at sw
      rw [pc] at made
      refine Or.inl ⟨unpainted.none_succ fun redraws => ?_, shown, sw ▸ unpainted.port, made,
        sw ▸ unpainted.cnt, Or.inr (Or.inr ⟨Or.inl (sw ▸ rfl), ?_⟩)⟩
      · rw [redraws.2] at pc
        cases pc
      · rw [sw]
        exact unpainted.shown
    · rw [Sw.step_judge pc] at sw
      rw [pc] at made
      obtain ⟨next, port, none⟩ := judge_of_idle pc idle input.wild
      refine Or.inl ⟨unpainted.none_succ fun redraws => ?_, shown, ?_, made.trans none, ?_,
        Or.inr (Or.inr ⟨Or.inr ?_, ?_⟩)⟩
      · rw [redraws.2] at pc
        cases pc
      · rw [sw, port, unpainted.port]
      · rw [sw, Sw.judge_cnt, unpainted.cnt]
      · rw [sw, next]
      · rw [sw, Sw.judge_level, idle]
    · rw [pc] at made
      obtain ⟨rest, first⟩ := Sw.redrawCalls_of_redraws (Or.inr unpainted.cnt) input.rand
      exact Or.inr ⟨rest, made.trans first⟩

theorem unpainted_or_clear (trace : Trace) (n : Nat) :
    trace.Unpainted n ∨ ∃ rest, trace.calls n = .clear :: rest := by
  induction n with
  | zero => exact Or.inl trace.unpainted_zero
  | succ n ih =>
      rcases ih with unpainted | ⟨rest, first⟩
      · exact unpainted.succ
      · obtain ⟨more, calls⟩ := trace.calls_grows n
        exact Or.inr ⟨rest ++ more, by rw [← calls, first, List.cons_append]⟩

/-- The screens of the program appear in the device.  Let the driver carry out
what the program has called for before event `N`, while the raster goes its own
way.  Then for each earlier event, from the first redraw on, there is a time at
which exactly the calls up to this event have returned, and whenever this is so
the memory of the device shows the screen that the program has at this event. -/
theorem device_shows_screen {beats : Nat → Beat} (lively : DriverState.Lively beats)
    (memory : Nat → BitVec 8) (trace : Trace) {n N : Nat} (upTo : n ≤ N)
    (drawn : ∃ i < n, trace.Steps .redraw i) :
    ∃ todo, trace.calls N = trace.calls n ++ todo ∧
      (∃ m, (DriverState.run memory (trace.calls N) beats m).pending =
        todo.flatMap DriverCall.transfers) ∧
      ∀ m, (DriverState.run memory (trace.calls N) beats m).pending =
          todo.flatMap DriverCall.transfers →
        (DriverState.run memory (trace.calls N) beats m).device.Shows (trace.sw n).charBuf := by
  obtain ⟨todo, split⟩ := trace.calls_grows.prefix_of_le upTo
  rcases trace.unpainted_or_clear n with unpainted | ⟨rest, first⟩
  · obtain ⟨i, before, redraws⟩ := drawn
    exact absurd redraws (unpainted.none i before)
  · refine ⟨todo, split.symm, ?_, fun m pending => ?_⟩
    · rw [← split]
      exact lively.exists_pending (trace.calls n) todo
    · rw [← trace.performAll_calls n, first]
      rw [← split, first, List.cons_append] at pending ⊢
      exact (DriverState.serves_returned trace.junk.charBuf pending).2

/-- A run without ticks, in which no key is ever pressed. -/
def untouched : Trace :=
  ⟨.zeroed, fun _ => .loop ⟨0, false, fun _ => .lowest⟩⟩

theorem untouched_shows_screen :
    ∃ todo, untouched.calls 9 = untouched.calls 4 ++ todo ∧
      (∃ m, (DriverState.run (fun _ => 0#8) (untouched.calls 9) (fun _ => ⟨true, true, 0#8⟩)
        m).pending = todo.flatMap DriverCall.transfers) ∧
      ∀ m, (DriverState.run (fun _ => 0#8) (untouched.calls 9) (fun _ => ⟨true, true, 0#8⟩)
          m).pending = todo.flatMap DriverCall.transfers →
        (DriverState.run (fun _ => 0#8) (untouched.calls 9) (fun _ => ⟨true, true, 0#8⟩)
          m).device.Shows (untouched.sw 4).charBuf :=
  device_shows_screen DriverState.lively_const (fun _ => 0#8) untouched (by decide)
    ⟨3, by decide, ⟨_, rfl⟩, rfl⟩

/-! ## The display -/

/-- From the program to the display.  Let the driver carry out what the program
has called for up to some event after its first redraw, let the dual clock
buffer hand over what the character buffer has put on its stream, and let it
never run empty from some cycle on.  In the end every pixel of every frame on
the pins is the one of the screen that the program has at this event. -/
theorem pins_show_screen {beats : Nat → Beat} (lively : DriverState.Lively beats) (trace : Trace)
    (drawn : ∃ i < n, trace.Steps .redraw i) (memory : Nat → BitVec 8) (rom : CharacterRom)
    (powerUp : PixelPipe) (mixed : Nat → BitVec 8) {source : Nat → StreamBeat}
    (carries : (DriverState.stream memory rom powerUp mixed (trace.calls n) beats).Carries source)
    (vga : VgaController) {offers : Nat → Offer} {start : Nat} (fed : Display.Fed offers start) :
    ∃ c, ∀ k, c ≤ k →
      (Display.run source vga offers (k + 2)).controller.pins =
        Display.pinsAt (Display.place k)
          (pictureBeat rom (trace.sw n).charBuf
            (640 * (Display.place k / 800) + Display.place k % 800)) := by
  rcases trace.unpainted_or_clear n with unpainted | ⟨rest, first⟩
  · obtain ⟨i, before, redraws⟩ := drawn
    exact absurd redraws (unpainted.none i before)
  · rw [← trace.performAll_calls n, first]
    rw [first] at carries
    exact lively.exists_pins rest trace.junk.charBuf carries vga fed

/-- The stream of the untouched run, which never stalls. -/
def untouchedStream : Streaming :=
  DriverState.stream (fun _ => 0#8) (fun _ => false)
    ⟨0#8, 0#8, 0#6, 0#6, false, false, 0#4, 0#4⟩ (fun _ => 0#8) (untouched.calls 4)
    fun _ => ⟨true, true, 0#8⟩

theorem untouchedStream_carries :
    untouchedStream.Carries fun i => (untouchedStream.pipe i).beat := by
  have all : ∀ n, untouchedStream.taken n = n := by
    intro n
    induction n with
    | zero => rfl
    | succ n ih =>
        rw [Streaming.taken, enabledBefore_succ_of_enabled (DriverState.stream_takes n)]
        exact congrArg (· + 1) ih
  intro n _
  rw [all]

theorem untouched_on_pins :
    ∃ c, ∀ k, c ≤ k →
      (Display.run (fun i => (untouchedStream.pipe i).beat)
          ⟨.syncFrame, .reset, ⟨false, false, false, 0#4, 0#4, 0#4⟩⟩
          (fun _ => ⟨true, ⟨0#30, false, false⟩⟩) (k + 2)).controller.pins =
        Display.pinsAt (Display.place k)
          (pictureBeat (fun _ => false) (untouched.sw 4).charBuf
            (640 * (Display.place k / 800) + Display.place k % 800)) :=
  @pins_show_screen 4 _ DriverState.lively_const untouched ⟨3, by decide, ⟨_, rfl⟩, rfl⟩ _ _ _ _ _
    untouchedStream_carries _ _ 0 fun _ _ => rfl

end Trace

end FpgaTrivia.System
