import FpgaTrivia.Hardware.VideoBuffer
import FpgaTrivia.Transition.Enabled

/-!
# The pixel stream of the character buffer

Between the raster and the stream lie four stages of registers: the memory and
the character ROM register their addresses and their outputs, and the position
inside the character and the marks of the packets are delayed alongside.  All of
them advance only when the stream takes a pixel.
-/

namespace FpgaTrivia.Hardware

open FpgaTrivia.Transition

/-- What the device puts on the stream. -/
structure StreamBeat where
  streamData : BitVec 30
  streamStartofpacket : Bool
  streamEndofpacket : Bool
  deriving DecidableEq

/-- The registers between the raster and the stream.  `charRead` and `romRead`
are what the two memories have read at the addresses that they hold. -/
structure PixelPipe where
  charRead : BitVec 8
  curCharForDisplay : BitVec 8
  delayedXPosition : BitVec 6
  delayedYPosition : BitVec 6
  romRead : Bool
  curCharData : Bool
  delayedStartofpacket : BitVec 4
  delayedEndofpacket : BitVec 4

/-- The contents of `Character_Rom`. -/
abbrev CharacterRom : Type :=
  BitVec 13 → Bool

/-- `character_address`. -/
def characterAddress (character : BitVec 7) (yCoordinate xCoordinate : BitVec 3) : BitVec 13 :=
  character ++ yCoordinate ++ xCoordinate

namespace VideoBuffer

/-- What port b reads at its enabled clock.  It sees the space that it stores
itself; what it sees of a store over the bus is not defined, and `mixed`
supplies it. -/
def readB (device : VideoBuffer) (inputs : VideoInputs) (mixed : BitVec 8) : BitVec 8 :=
  if wrenA inputs = true ∧ device.curCharPosition = inputs.bufAddress % 8192 then mixed
  else if device.wrenB inputs = true then space
  else device.charBufferMemory device.curCharPosition

theorem pixel_mod {device : VideoBuffer} (inRaster : device.InRaster) :
    device.pixel % 640 = device.xPosition := by
  rw [pixel, Nat.mul_add_mod]
  exact Nat.mod_eq_of_lt inRaster.column

theorem pixel_div {device : VideoBuffer} (inRaster : device.InRaster) :
    device.pixel / 640 = device.yPosition := by
  have column : device.xPosition / 640 = 0 := Nat.div_eq_of_lt inRaster.column
  rw [pixel, Nat.mul_add_div (by decide), column, Nat.add_zero]

end VideoBuffer

namespace PixelPipe

/-- The registers after `reset`, which does not reach the memories. -/
def reset (pipe : PixelPipe) : PixelPipe :=
  { pipe with
    delayedXPosition := 0#6
    delayedYPosition := 0#6
    delayedStartofpacket := 0#4
    delayedEndofpacket := 0#4 }

/-- A rising edge of `clk` while the stream takes a pixel; port b reads
`charRead`. -/
def advance (rom : CharacterRom) (charRead : BitVec 8) (device : VideoBuffer)
    (pipe : PixelPipe) : PixelPipe where
  charRead := charRead
  curCharForDisplay := pipe.charRead
  delayedXPosition := pipe.delayedXPosition.setWidth 3 ++ BitVec.ofNat 3 device.xPosition
  delayedYPosition := pipe.delayedYPosition.setWidth 3 ++ BitVec.ofNat 3 device.yPosition
  romRead :=
    rom (characterAddress (pipe.curCharForDisplay.setWidth 7)
      (pipe.delayedYPosition.extractLsb' 3 3) (pipe.delayedXPosition.extractLsb' 3 3))
  curCharData := pipe.romRead
  delayedStartofpacket := (pipe.delayedStartofpacket.setWidth 3).concat device.atFirst
  delayedEndofpacket := (pipe.delayedEndofpacket.setWidth 3).concat device.atLast

/-- One rising edge of `clk`. -/
def cycle (rom : CharacterRom) (mixed : BitVec 8) (inputs : VideoInputs) (device : VideoBuffer)
    (pipe : PixelPipe) : PixelPipe :=
  if inputs.streamReady = true then pipe.advance rom (device.readB inputs mixed) device
  else pipe

/-- `{char_red, char_green, char_blue}`. -/
def color (data : Bool) : BitVec 30 :=
  BitVec.fill 10 data ++ BitVec.fill 10 data ++ BitVec.fill 10 data

/-- The outputs towards the stream; `stream_valid` is always high. -/
def beat (pipe : PixelPipe) : StreamBeat where
  streamData := color pipe.curCharData
  streamStartofpacket := pipe.delayedStartofpacket.getLsbD 3
  streamEndofpacket := pipe.delayedEndofpacket.getLsbD 3

end PixelPipe

/-! ## Four stages -/

/-- The beat of pixel number `p`, which is part of the character `char`: its bit
in the pattern of the character, and whether it is the first or the last one of
the frame. -/
def pixelBeat (rom : CharacterRom) (char : BitVec 8) (p : Nat) : StreamBeat where
  streamData :=
    PixelPipe.color (rom (characterAddress (char.setWidth 7)
      (BitVec.ofNat 3 (p / 640)) (BitVec.ofNat 3 (p % 640))))
  streamStartofpacket := decide (p = 0)
  streamEndofpacket := decide (p + 1 = 307200)

namespace PixelPipe

variable {rom : CharacterRom} {pipe : PixelPipe}

theorem delayed_bits (old : BitVec 6) (first second : BitVec 3) :
    ((old.setWidth 3 ++ first).setWidth 3 ++ second).extractLsb' 3 3 = first := by
  rw [BitVec.extractLsb'_append_eq_left]
  exact BitVec.setWidth_append_eq_right

theorem delayed_mark (old : BitVec 4) (first second third fourth : Bool) :
    ((((((((old.setWidth 3).concat first).setWidth 3).concat second).setWidth 3).concat
      third).setWidth 3).concat fourth).getLsbD 3 = first := by
  rw [BitVec.getLsbD_concat_succ, BitVec.getLsbD_setWidth, BitVec.getLsbD_concat_succ,
    BitVec.getLsbD_setWidth, BitVec.getLsbD_concat_succ, BitVec.getLsbD_setWidth,
    BitVec.getLsbD_concat_zero]
  rfl

/-- The pixel that enters the pipe leaves it after four advances. -/
theorem beat_advance {device : VideoBuffer} (inRaster : device.InRaster)
    (char char₁ char₂ char₃ : BitVec 8) (device₁ device₂ device₃ : VideoBuffer) :
    ((((pipe.advance rom char device).advance rom char₁ device₁).advance rom char₂
      device₂).advance rom char₃ device₃).beat = pixelBeat rom char device.pixel := by
  have first : device.atFirst = decide (device.pixel = 0) :=
    Bool.eq_iff_iff.mpr (VideoBuffer.atFirst_iff.trans decide_eq_true_iff.symm)
  have last : device.atLast = decide (device.pixel + 1 = 307200) :=
    Bool.eq_iff_iff.mpr ((VideoBuffer.atLast_iff inRaster).trans decide_eq_true_iff.symm)
  rw [beat, pixelBeat, VideoBuffer.pixel_mod inRaster, VideoBuffer.pixel_div inRaster]
  congr 1
  · change color (rom (characterAddress _ (BitVec.extractLsb' 3 3 _) (BitVec.extractLsb' 3 3 _))) = _
    rw [advance, advance, delayed_bits, delayed_bits]
  · rw [← first]
    exact delayed_mark _ _ _ _ _
  · rw [← last]
    exact delayed_mark _ _ _ _ _

end PixelPipe

/-! ## Frames -/

/-- The device from its reset on: what its memories hold then, and what the bus
and the stream do in each cycle. -/
structure Streaming where
  memory : Nat → BitVec 8
  rom : CharacterRom
  powerUp : PixelPipe
  inputs : Nat → VideoInputs
  mixed : Nat → BitVec 8

namespace Streaming

/-- The device before cycle `n`. -/
def device (stream : Streaming) : Nat → VideoBuffer
  | 0 => .reset stream.memory
  | n + 1 => (stream.device n).cycle (stream.inputs n)

/-- The pipe before cycle `n`. -/
def pipe (stream : Streaming) : Nat → PixelPipe
  | 0 => stream.powerUp.reset
  | n + 1 => (stream.pipe n).cycle stream.rom (stream.mixed n) (stream.inputs n) (stream.device n)

/-- The stream takes a pixel in cycle `n`. -/
def takes (stream : Streaming) (n : Nat) : Bool :=
  (stream.inputs n).streamReady

/-- The pixels that the stream has taken before cycle `n`. -/
def taken (stream : Streaming) (n : Nat) : Nat :=
  enabledBefore stream.takes n

/-- The character that port b reads in cycle `n`. -/
def char (stream : Streaming) (n : Nat) : BitVec 8 :=
  (stream.device n).readB (stream.inputs n) (stream.mixed n)

variable {stream : Streaming} {m n t : Nat}

theorem inRaster (stream : Streaming) (n : Nat) : (stream.device n).InRaster := by
  induction n with
  | zero => exact ⟨Nat.zero_lt_succ 639, Nat.zero_lt_succ 479⟩
  | succ n ih => exact ih.cycle

/-- The raster moves with the stream. -/
theorem pixel_eq (stream : Streaming) (n : Nat) :
    (stream.device n).pixel = stream.taken n % 307200 := by
  induction n with
  | zero => rfl
  | succ n ih =>
      by_cases taking : stream.takes n = true
      · rw [taken, enabledBefore_succ_of_enabled taking, device,
          VideoBuffer.pixel_cycle_of_ready (stream.inRaster n) taking, ih, taken,
          VideoBuffer.pixelsPerFrame]
        split <;> omega
      · rw [taken, enabledBefore_succ_of_disabled taking, device,
          VideoBuffer.pixel_cycle_of_stalled taking]
        exact ih

/-- The pipe is one register, enabled by the stream. -/
theorem clockEnabled (stream : Streaming) :
    ClockEnabled stream.takes
      (fun n => (stream.pipe n).advance stream.rom (stream.char n) (stream.device n))
      stream.pipe :=
  fun _ => rfl

theorem pipe_of_taken (taking : stream.takes t = true) (next : stream.taken n = stream.taken t + 1) :
    stream.pipe n = (stream.pipe t).advance stream.rom (stream.char t) (stream.device t) :=
  stream.clockEnabled.eq taking next

/-- Four pixels later a pixel is on the stream. -/
theorem beat_of_taken (taking : stream.takes t = true) (later : stream.taken m = stream.taken t + 4) :
    (stream.pipe m).beat = pixelBeat stream.rom (stream.char t) (stream.device t).pixel := by
  have takesThen : ∀ k, k < 4 → ∃ t', stream.takes t' = true ∧
      stream.taken t' = stream.taken t + k := by
    intro k within
    have before : stream.taken t + k < enabledBefore stream.takes m := by
      change _ < stream.taken m
      rw [later]
      exact Nat.add_lt_add_left within _
    obtain ⟨t', -, takes, number⟩ := exists_enabledBefore before
    exact ⟨t', takes, number⟩
  obtain ⟨t₁, takes₁, number₁⟩ := takesThen 1 (by decide)
  obtain ⟨t₂, takes₂, number₂⟩ := takesThen 2 (by decide)
  obtain ⟨t₃, takes₃, number₃⟩ := takesThen 3 (by decide)
  rw [pipe_of_taken takes₃ (by rw [later, number₃]), pipe_of_taken takes₂ (by rw [number₃, number₂]),
    pipe_of_taken takes₁ (by rw [number₂, number₁]), pipe_of_taken taking number₁]
  exact PixelPipe.beat_advance (stream.inRaster t) _ _ _ _ _ _ _

theorem exists_takes (filled : 4 ≤ stream.taken m) :
    ∃ t, t < m ∧ stream.takes t = true ∧ stream.taken m = stream.taken t + 4 := by
  have before : stream.taken m - 4 < enabledBefore stream.takes m :=
    Nat.sub_lt (Nat.lt_of_lt_of_le (by decide) filled) (by decide)
  obtain ⟨t, earlier, takes, number⟩ := exists_enabledBefore before
  refine ⟨t, earlier, takes, ?_⟩
  change _ = enabledBefore stream.takes t + 4
  rw [number, Nat.sub_add_cancel filled]

/-- The memory cell of the character that pixel number `p` is part of. -/
def cellOf (p : Nat) : Nat :=
  128 * (p / 640 / 8) + p % 640 / 8

/-- In cycle `n` the bus stores a character into the cell that the raster reads. -/
def Overwrites (stream : Streaming) (n : Nat) : Prop :=
  VideoBuffer.wrenA (stream.inputs n) = true ∧
    cellOf (stream.taken n % 307200) = (stream.inputs n).bufAddress % 8192

theorem curCharPosition_eq_cellOf (stream : Streaming) (n : Nat) :
    (stream.device n).curCharPosition = cellOf (stream.taken n % 307200) := by
  rw [VideoBuffer.curCharPosition_eq (stream.inRaster n), cellOf, ← stream.pixel_eq,
    VideoBuffer.pixel_div (stream.inRaster n), VideoBuffer.pixel_mod (stream.inRaster n)]

/-- Unless the bus stores into the very cell, a pixel is taken with the character
that the memory holds, or with the space that a clear is just storing. -/
theorem char_of_not_overwrites (taking : stream.takes t = true)
    (undisturbed : ¬ stream.Overwrites t) :
    stream.char t =
      if (stream.device t).clearScreen = true then VideoBuffer.space
      else (stream.device t).charBufferMemory (cellOf (stream.taken t % 307200)) := by
  have clearing : (stream.device t).wrenB (stream.inputs t) = (stream.device t).clearScreen := by
    rw [VideoBuffer.wrenB, show (stream.inputs t).streamReady = true from taking, Bool.true_and]
  rw [Overwrites, ← curCharPosition_eq_cellOf] at undisturbed
  rw [char, VideoBuffer.readB, if_neg undisturbed, clearing, curCharPosition_eq_cellOf]

/-- The stream takes pixels for ever. -/
def Flows (stream : Streaming) : Prop :=
  ∀ n, ∃ m, n ≤ m ∧ stream.takes m = true

theorem Flows.exists_takes (flows : stream.Flows) (i : Nat) :
    ∃ n, stream.takes n = true ∧ stream.taken n = i := by
  obtain ⟨n, upto⟩ := exists_le_enabledBefore flows (i + 1)
  obtain ⟨t, -, takes, number⟩ := exists_enabledBefore (Nat.lt_of_succ_le upto)
  exact ⟨t, takes, number⟩

/-- No mark has got further into the pipe than there were pixels. -/
theorem unmarked (stream : Streaming) (n : Nat) {i : Nat} (beyond : stream.taken n ≤ i) :
    (stream.pipe n).delayedStartofpacket.getLsbD i = false ∧
      (stream.pipe n).delayedEndofpacket.getLsbD i = false := by
  induction n generalizing i with
  | zero => exact ⟨BitVec.getLsbD_zero, BitVec.getLsbD_zero⟩
  | succ n ih =>
      have next := stream.clockEnabled n
      by_cases taking : stream.takes n = true
      · rw [taken, enabledBefore_succ_of_enabled taking] at beyond
        rw [next, if_pos taking]
        cases i with
        | zero => exact absurd beyond (Nat.not_succ_le_zero _)
        | succ i =>
            obtain ⟨start, finish⟩ := ih (Nat.le_of_succ_le_succ beyond)
            constructor
            · change (BitVec.concat (BitVec.setWidth 3 _) _).getLsbD (i + 1) = false
              rw [BitVec.getLsbD_concat_succ, BitVec.getLsbD_setWidth, start, Bool.and_false]
            · change (BitVec.concat (BitVec.setWidth 3 _) _).getLsbD (i + 1) = false
              rw [BitVec.getLsbD_concat_succ, BitVec.getLsbD_setWidth, finish, Bool.and_false]
      · rw [taken, enabledBefore_succ_of_disabled taking] at beyond
        rw [next, if_neg taking]
        exact ih beyond

/-- The stream is a sequence of frames.  Whatever the bus does and whenever the
stream stalls, the first four beats belong to no packet, and from then on the
beats are the pixels of the raster in their order, none lost and none repeated,
and the packets begin and end with the first and the last pixel.  Each beat shows
its bit of one character: the one that the memory held when the raster came by,
or the space that a clear stored then.  Only where the bus stored into the same
cell in the same cycle is it unknown which character that is. -/
theorem stream_beats (stream : Streaming) (m : Nat) :
    (stream.taken m < 4 → (stream.pipe m).beat.streamStartofpacket = false ∧
        (stream.pipe m).beat.streamEndofpacket = false) ∧
      (4 ≤ stream.taken m → ∃ t, t < m ∧ stream.takes t = true ∧
        stream.taken m = stream.taken t + 4 ∧
          (stream.pipe m).beat =
            pixelBeat stream.rom (stream.char t) (stream.taken t % 307200) ∧
          (¬ stream.Overwrites t → stream.char t =
            if (stream.device t).clearScreen = true then VideoBuffer.space
            else (stream.device t).charBufferMemory (cellOf (stream.taken t % 307200)))) := by
  constructor
  · intro few
    exact stream.unmarked m (Nat.le_of_lt_succ few)
  · intro filled
    obtain ⟨t, earlier, takes, later⟩ := exists_takes filled
    refine ⟨t, earlier, takes, later, ?_, char_of_not_overwrites takes⟩
    rw [← stream.pixel_eq t]
    exact beat_of_taken takes later

end Streaming

end FpgaTrivia.Hardware
