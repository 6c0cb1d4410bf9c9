import FpgaTrivia.Hardware.DriverRun
import FpgaTrivia.Hardware.PixelStream

/-!
# The frames of the driver

The stream takes the pixels while the driver works.  A pixel is the one of the
screen that the calls up to then have drawn, as long as no store is under way;
when all calls have returned, all frames show the final screen.
-/

namespace FpgaTrivia.Hardware

open CharBuffer
open FpgaTrivia.Transition

/-- The beat of a pixel of the screen. -/
def pictureBeat (rom : CharacterRom) (buf : CharBuffer) (p : Nat) : StreamBeat :=
  pixelBeat rom (code (buf.cell (p % 640 / 8) (p / 640 / 8))) p

/-- A device that is left alone reads what it shows. -/
theorem VideoBuffer.readB_of_shows {device : VideoBuffer} {buf : CharBuffer} {inputs : VideoInputs}
    (settled : device.Settled) (shows : device.Shows buf) (silent : Silent inputs)
    (mixed : BitVec 8) :
    device.readB inputs mixed =
      code (buf.cell (device.pixel % 640 / 8) (device.pixel / 640 / 8)) := by
  have column := settled.inRaster.column
  have line := settled.inRaster.line
  rw [pixels_eq] at column
  rw [lines_eq] at line
  have bus : ¬ (wrenA inputs = true ∧ device.curCharPosition = inputs.bufAddress % 8192) := by
    rintro ⟨writes, -⟩
    rw [show wrenA inputs = false from silent] at writes
    cases writes
  rw [readB, if_neg bus, if_neg (by rw [settled.wrenB]; decide), pixel_mod settled.inRaster,
    pixel_div settled.inRaster, ← shows _ _ (by rw [xResolution]; omega)
      (by rw [yResolution]; omega), curCharPosition_eq settled.inRaster, address_eq]

namespace DriverState

/-- What the bus and the stream do in a cycle. -/
def inputs (state : DriverState) (beat : Beat) : VideoInputs :=
  match state.pending with
  | [] => Transfer.idle beat.streamReady beat.collided
  | transfer :: _ =>
      if beat.access = true then transfer.inputs beat.streamReady beat.collided
      else Transfer.idle beat.streamReady beat.collided

variable {state : DriverState} {beat : Beat} {transfer : Transfer} {rest : List Transfer}

theorem inputs_nil (none : state.pending = []) :
    state.inputs beat = Transfer.idle beat.streamReady beat.collided := by
  rw [inputs, none]

theorem inputs_of_access (next : state.pending = transfer :: rest) (access : beat.access = true) :
    state.inputs beat = transfer.inputs beat.streamReady beat.collided := by
  simp only [inputs, next, if_pos access]

theorem inputs_of_waiting (next : state.pending = transfer :: rest)
    (waiting : ¬ beat.access = true) :
    state.inputs beat = Transfer.idle beat.streamReady beat.collided := by
  simp only [inputs, next, if_neg waiting]

theorem step_device (state : DriverState) (beat : Beat) :
    (state.step beat).device = state.device.cycle (state.inputs beat) := by
  cases next : state.pending with
  | nil => rw [step_nil next, inputs_nil next]
  | cons transfer rest =>
      by_cases access : beat.access = true
      · rw [step_of_access next access, inputs_of_access next access]
      · rw [step_of_waiting next access, inputs_of_waiting next access]

theorem inputs_streamReady (state : DriverState) (beat : Beat) :
    (state.inputs beat).streamReady = beat.streamReady := by
  cases next : state.pending with
  | nil =>
      rw [inputs_nil next]
      rfl
  | cons transfer rest =>
      by_cases access : beat.access = true
      · rw [inputs_of_access next access]
        exact streamReady_inputs transfer beat.streamReady beat.collided
      · rw [inputs_of_waiting next access]
        rfl

/-- A cycle that leaves the accesses to come as they are stores nothing. -/
theorem silent_of_kept (kept : (state.step beat).pending = state.pending) :
    VideoBuffer.Silent (state.inputs beat) := by
  cases next : state.pending with
  | nil =>
      rw [inputs_nil next]
      rfl
  | cons transfer rest =>
      by_cases access : beat.access = true
      · rw [inputs_of_access next access]
        cases transfer with
        | requestClear => rfl
        | pollClear => rfl
        | store addr ch =>
            rw [step_of_access next access, next] at kept
            exact absurd kept.symm (List.cons_ne_self _ _)
      · rw [inputs_of_waiting next access]
        rfl

/-- The stream while the driver makes its calls. -/
def stream (memory : Nat → BitVec 8) (rom : CharacterRom) (powerUp : PixelPipe)
    (mixed : Nat → BitVec 8) (calls : List DriverCall) (beats : Nat → Beat) : Streaming where
  memory := memory
  rom := rom
  powerUp := powerUp
  inputs n := (run memory calls beats n).inputs (beats n)
  mixed := mixed

variable {memory : Nat → BitVec 8} {rom : CharacterRom} {powerUp : PixelPipe}
  {mixed : Nat → BitVec 8} {calls : List DriverCall} {beats : Nat → Beat} {m n t : Nat}

theorem stream_device (n : Nat) :
    (stream memory rom powerUp mixed calls beats).device n = (run memory calls beats n).device := by
  induction n with
  | zero => rfl
  | succ n ih =>
      rw [Streaming.device, ih, run_succ, step_device]
      rfl

theorem stream_takes (n : Nat) :
    (stream memory rom powerUp mixed calls beats).takes n = (beats n).streamReady :=
  inputs_streamReady _ _

theorem Lively.flows (lively : Lively beats) :
    (stream memory rom powerUp mixed calls beats).Flows := by
  intro n
  obtain ⟨m, after, ready⟩ := lively.streamReady n
  exact ⟨m, after, (stream_takes m).trans ready⟩

/-- A pixel that is taken between two calls, or while a call waits, is one of the
screen so far. -/
theorem beat_of_returned {returned todo : List DriverCall} (junk : CharBuffer)
    (before : (run memory (.clear :: (returned ++ todo)) beats t).pending =
      todo.flatMap DriverCall.transfers)
    (after : (run memory (.clear :: (returned ++ todo)) beats (t + 1)).pending =
      todo.flatMap DriverCall.transfers)
    (takes : (beats t).streamReady = true)
    (later : (stream memory rom powerUp mixed (.clear :: (returned ++ todo)) beats).taken m =
      (stream memory rom powerUp mixed (.clear :: (returned ++ todo)) beats).taken t + 4) :
    ((stream memory rom powerUp mixed (.clear :: (returned ++ todo)) beats).pipe m).beat =
      pictureBeat rom ((DriverCall.clear :: returned).foldl DriverCall.perform junk)
        ((stream memory rom powerUp mixed (.clear :: (returned ++ todo)) beats).taken t %
          307200) := by
  obtain ⟨settled, shows⟩ := serves_returned junk before
  have silent : VideoBuffer.Silent
      ((run memory (.clear :: (returned ++ todo)) beats t).inputs (beats t)) :=
    silent_of_kept (after.trans before.symm)
  have char := VideoBuffer.readB_of_shows settled shows silent (mixed t)
  rw [Streaming.beat_of_taken ((stream_takes t).trans takes) later, pictureBeat,
    ← Streaming.pixel_eq, stream_device]
  refine congrArg (fun char => pixelBeat rom char _) ?_
  rw [← char, Streaming.char, stream_device]
  rfl

/-- When all calls have returned, every beat from some cycle on is one of the
screen that they have drawn. -/
theorem Lively.exists_pictured (lively : Lively beats) (memory : Nat → BitVec 8)
    (rom : CharacterRom) (powerUp : PixelPipe) (mixed : Nat → BitVec 8) (calls : List DriverCall)
    (junk : CharBuffer) :
    ∃ n, ∀ m, n ≤ m →
      ((stream memory rom powerUp mixed (.clear :: calls) beats).pipe m).beat =
        pictureBeat rom ((DriverCall.clear :: calls).foldl DriverCall.perform junk)
          (((stream memory rom powerUp mixed (.clear :: calls) beats).taken m - 4) % 307200) := by
  obtain ⟨n, empty⟩ := @Lively.exists_returned memory (.clear :: calls) beats lively
  have flows : (stream memory rom powerUp mixed (.clear :: calls) beats).Flows := lively.flows
  obtain ⟨n', enough⟩ := exists_le_enabledBefore flows
    ((stream memory rom powerUp mixed (.clear :: calls) beats).taken n + 4)
  refine ⟨n', fun m upto => ?_⟩
  have filled : (stream memory rom powerUp mixed (.clear :: calls) beats).taken n + 4 ≤
      (stream memory rom powerUp mixed (.clear :: calls) beats).taken m :=
    Nat.le_trans enough (enabledBefore_mono upto)
  obtain ⟨t, -, takes, later⟩ := Streaming.exists_takes (Nat.le_trans (Nat.le_add_left 4 _) filled)
  have within : n ≤ t := by
    apply le_of_enabledBefore_le takes
    rw [later] at filled
    exact Nat.le_of_add_le_add_right filled
  have before := empty t within
  have after := empty (t + 1) (Nat.le_succ_of_le within)
  rw [later, Nat.add_sub_cancel]
  rw [← List.append_nil calls] at before after later ⊢
  have shown := @beat_of_returned _ rom powerUp mixed beats m t calls [] junk before after
    ((stream_takes t).symm.trans takes) later
  rwa [List.append_nil] at shown ⊢

/-- From the driver to the pixels.  When the calls after a first clear have
returned, all beats of the stream are those of the screen that they have drawn,
frame after frame, however the stream stalls; and before that, every pixel that
is taken between two calls is one of the screen that the calls up to then have
drawn. -/
theorem stream_shows_calls (lively : Lively beats) (memory : Nat → BitVec 8) (rom : CharacterRom)
    (powerUp : PixelPipe) (mixed : Nat → BitVec 8) (calls : List DriverCall) (junk : CharBuffer) :
    (∃ n, ∀ m, n ≤ m →
        ((stream memory rom powerUp mixed (.clear :: calls) beats).pipe m).beat =
          pictureBeat rom ((DriverCall.clear :: calls).foldl DriverCall.perform junk)
            (((stream memory rom powerUp mixed (.clear :: calls) beats).taken m - 4) % 307200)) ∧
      ∀ t m returned todo, calls = returned ++ todo →
        (run memory (.clear :: calls) beats t).pending = todo.flatMap DriverCall.transfers →
        (run memory (.clear :: calls) beats (t + 1)).pending =
          todo.flatMap DriverCall.transfers →
        (beats t).streamReady = true →
        (stream memory rom powerUp mixed (.clear :: calls) beats).taken m =
          (stream memory rom powerUp mixed (.clear :: calls) beats).taken t + 4 →
        ((stream memory rom powerUp mixed (.clear :: calls) beats).pipe m).beat =
          pictureBeat rom ((DriverCall.clear :: returned).foldl DriverCall.perform junk)
            ((stream memory rom powerUp mixed (.clear :: calls) beats).taken t % 307200) := by
  refine ⟨lively.exists_pictured memory rom powerUp mixed calls junk, ?_⟩
  rintro t m returned todo rfl before after takes later
  exact beat_of_returned junk before after takes later

/-- For instance a title, on a stream that never stalls. -/
theorem title_streams :
    ∃ n, ∀ m, n ≤ m →
      ((stream (fun _ => 0#8) (fun _ => false) ⟨0#8, 0#8, 0#6, 0#6, false, false, 0#4, 0#4⟩
        (fun _ => 0#8) [.clear, .string "You win!!!" 27 25] fun _ => ⟨true, true, 0#8⟩).pipe
        m).beat =
        pictureBeat (fun _ => false)
          ([DriverCall.clear, .string "You win!!!" 27 25].foldl DriverCall.perform fun _ => ' ')
          (((stream (fun _ => 0#8) (fun _ => false)
            ⟨0#8, 0#8, 0#6, 0#6, false, false, 0#4, 0#4⟩ (fun _ => 0#8)
            [.clear, .string "You win!!!" 27 25] fun _ => ⟨true, true, 0#8⟩).taken m - 4) %
            307200) :=
  (stream_shows_calls lively_const _ _ _ _ _ _).1

end DriverState

end FpgaTrivia.Hardware
