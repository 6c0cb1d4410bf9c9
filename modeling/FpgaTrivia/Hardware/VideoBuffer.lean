import Mathlib.Data.BitVec
import Mathlib.Tactic.Common

/-!
# The device behind the character buffer

The raster walks over the 640 times 480 pixels whenever the stream takes one,
and reads the character memory at the cell of the pixel.  A request to clear
waits for the first pixel of a frame; from then on the raster stores a space in
every cell it comes by, and the request is withdrawn at the last pixel.

Words of 32 bits are given by their byte lanes, since the control register is
written by byte enables.
-/

namespace FpgaTrivia.Hardware

/-- What the bus and the stream present to the device in one cycle.  The memory
does not define what a cell holds that both of its ports write at once;
`collided` supplies it. -/
structure VideoInputs where
  ctrlAddress : Bool
  ctrlByteenable : Fin 4 → Bool
  ctrlChipselect : Bool
  ctrlRead : Bool
  ctrlWrite : Bool
  ctrlWritedata : Fin 4 → BitVec 8
  bufAddress : Nat
  bufByteenable : Bool
  bufChipselect : Bool
  bufWrite : Bool
  bufWritedata : BitVec 8
  streamReady : Bool
  collided : BitVec 8

/-- The registers of `video_character_buffer_with_dma_0` and its memory. -/
structure VideoBuffer where
  controlReg : Fin 4 → BitVec 8
  ctrlReaddata : Fin 4 → BitVec 8
  clearScreen : Bool
  xPosition : Nat
  yPosition : Nat
  charBufferMemory : Nat → BitVec 8

namespace VideoBuffer

/-- `PIXELS`. -/
def pixels : Nat := 640

/-- `LINES`. -/
def lines : Nat := 480

/-- The character that clears a cell, `7'h20`. -/
def space : BitVec 8 := 0x20#8

/-- The byte of the control register that the request to clear is in. -/
def clearLane : Fin 4 := 2

/-- `control_reg[16]`. -/
def clearBit (device : VideoBuffer) : Bool :=
  (device.controlReg clearLane).getLsbD 0

/-- `control_reg[0]`, which the memory stores next to a character. -/
def highBit (device : VideoBuffer) : Bool :=
  (device.controlReg 0).getLsbD 0

/-- `cur_char_position`: the upper bits of the two coordinates. -/
def curCharPosition (device : VideoBuffer) : Nat :=
  device.yPosition / 8 % 64 * 128 + device.xPosition / 8 % 128

/-- The raster is at the last pixel. -/
def atLast (device : VideoBuffer) : Bool :=
  device.xPosition == pixels - 1 && device.yPosition == lines - 1

/-- The raster is at the first pixel. -/
def atFirst (device : VideoBuffer) : Bool :=
  device.xPosition == 0 && device.yPosition == 0

/-- `char_data_to_buffer`. -/
def charDataToBuffer (inputs : VideoInputs) (device : VideoBuffer) : BitVec 8 :=
  BitVec.cons device.highBit (inputs.bufWritedata.setWidth 7)

/-- `wren_a`. -/
def wrenA (inputs : VideoInputs) : Bool :=
  inputs.bufByteenable && inputs.bufChipselect && inputs.bufWrite

/-- `wren_b`, while the clock of the port is enabled. -/
def wrenB (inputs : VideoInputs) (device : VideoBuffer) : Bool :=
  inputs.streamReady && device.clearScreen

/-- `control_reg`: a write over the bus comes before the end of a clear. -/
def nextControlReg (inputs : VideoInputs) (device : VideoBuffer) : Fin 4 → BitVec 8 :=
  if inputs.ctrlChipselect && inputs.ctrlWrite && !inputs.ctrlAddress then
    fun lane =>
      if inputs.ctrlByteenable lane = true then inputs.ctrlWritedata lane
      else device.controlReg lane
  else if device.clearScreen && inputs.streamReady && device.atLast then
    fun lane =>
      if lane = clearLane then device.controlReg lane &&& 0xfe#8 else device.controlReg lane
  else device.controlReg

/-- `ctrl_readdata`: the size of the screen, or the control register. -/
def nextCtrlReaddata (inputs : VideoInputs) (device : VideoBuffer) : Fin 4 → BitVec 8 :=
  if inputs.ctrlChipselect && inputs.ctrlRead && inputs.ctrlAddress then
    fun lane => if lane = 0 then 80#8 else if lane = 2 then 60#8 else 0#8
  else if inputs.ctrlChipselect && inputs.ctrlRead then device.controlReg
  else device.ctrlReaddata

/-- `clear_screen`. -/
def nextClearScreen (device : VideoBuffer) : Bool :=
  if device.clearBit = false then false
  else if device.atFirst = true then true
  else device.clearScreen

/-- `x_position`. -/
def nextXPosition (inputs : VideoInputs) (device : VideoBuffer) : Nat :=
  if inputs.streamReady = true then
    if device.xPosition = pixels - 1 then 0 else (device.xPosition + 1) % 1024
  else device.xPosition

/-- `y_position`. -/
def nextYPosition (inputs : VideoInputs) (device : VideoBuffer) : Nat :=
  if inputs.streamReady = true ∧ device.xPosition = pixels - 1 then
    if device.yPosition = lines - 1 then 0 else (device.yPosition + 1) % 512
  else device.yPosition

/-- `Char_Buffer_Memory`: port a is the bus, port b the raster. -/
def nextMemory (inputs : VideoInputs) (device : VideoBuffer) (address : Nat) : BitVec 8 :=
  let byBus := wrenA inputs = true ∧ address = inputs.bufAddress % 8192
  let byRaster := device.wrenB inputs = true ∧ address = device.curCharPosition
  if byBus ∧ byRaster then inputs.collided
  else if byBus then device.charDataToBuffer inputs
  else if byRaster then space
  else device.charBufferMemory address

/-- One rising edge of `clk`. -/
def cycle (inputs : VideoInputs) (device : VideoBuffer) : VideoBuffer where
  controlReg := device.nextControlReg inputs
  ctrlReaddata := device.nextCtrlReaddata inputs
  clearScreen := device.nextClearScreen
  xPosition := device.nextXPosition inputs
  yPosition := device.nextYPosition inputs
  charBufferMemory := device.nextMemory inputs

/-- The registers after `reset`, with whatever the memory holds. -/
def reset (memory : Nat → BitVec 8) : VideoBuffer where
  controlReg lane := if lane = clearLane then 1#8 else 0#8
  ctrlReaddata _ := 0#8
  clearScreen := true
  xPosition := 0
  yPosition := 0
  charBufferMemory := memory

/-! ## The raster -/

section Cycle

variable {inputs : VideoInputs} {device : VideoBuffer}

/-- The raster is at a pixel of the screen. -/
structure InRaster (device : VideoBuffer) : Prop where
  column : device.xPosition < pixels
  line : device.yPosition < lines

theorem pixels_eq : pixels = 640 :=
  rfl

theorem lines_eq : lines = 480 :=
  rfl

/-- The number of the pixel that the raster is at. -/
def pixel (device : VideoBuffer) : Nat :=
  640 * device.yPosition + device.xPosition

/-- The pixels of a frame. -/
def pixelsPerFrame : Nat := 307200

theorem pixel_lt (inRaster : device.InRaster) : device.pixel < 307200 := by
  obtain ⟨column, line⟩ := inRaster
  rw [pixels_eq] at column
  rw [lines_eq] at line
  rw [pixel]
  omega

theorem atLast_iff (inRaster : device.InRaster) :
    device.atLast = true ↔ device.pixel + 1 = pixelsPerFrame := by
  obtain ⟨column, line⟩ := inRaster
  rw [atLast, Bool.and_eq_true, beq_iff_eq, beq_iff_eq, pixel, pixelsPerFrame]
  rw [pixels_eq] at *
  rw [lines_eq] at *
  omega

theorem atFirst_iff : device.atFirst = true ↔ device.pixel = 0 := by
  rw [atFirst, Bool.and_eq_true, beq_iff_eq, beq_iff_eq, pixel]
  omega

theorem InRaster.cycle (inRaster : device.InRaster) : (device.cycle inputs).InRaster := by
  obtain ⟨column, line⟩ := inRaster
  have columns := pixels_eq
  have rows := lines_eq
  constructor
  · change device.nextXPosition inputs < pixels
    unfold nextXPosition
    split
    · split <;> omega
    · exact column
  · change device.nextYPosition inputs < lines
    unfold nextYPosition
    split
    · split <;> omega
    · exact line

/-- The raster takes the next pixel, and starts again after the last one. -/
theorem pixel_cycle_of_ready (inRaster : device.InRaster) (ready : inputs.streamReady = true) :
    (device.cycle inputs).pixel =
      if device.pixel + 1 = pixelsPerFrame then 0 else device.pixel + 1 := by
  obtain ⟨column, line⟩ := inRaster
  have columns := pixels_eq
  have rows := lines_eq
  change 640 * device.nextYPosition inputs + device.nextXPosition inputs = _
  unfold nextXPosition nextYPosition pixel pixelsPerFrame
  rw [if_pos ready]
  by_cases edge : device.xPosition = pixels - 1
  · rw [if_pos edge, if_pos ⟨ready, edge⟩]
    by_cases bottom : device.yPosition = lines - 1
    · rw [if_pos bottom, if_pos (by omega)]
    · rw [if_neg bottom, if_neg (by omega)]
      omega
  · rw [if_neg edge, if_neg fun both => edge both.2, if_neg (by omega)]
    omega

theorem pixel_cycle_of_stalled (stalled : ¬ inputs.streamReady = true) :
    (device.cycle inputs).pixel = device.pixel := by
  change 640 * device.nextYPosition inputs + device.nextXPosition inputs = _
  rw [nextXPosition, nextYPosition, if_neg stalled, if_neg fun both => stalled both.1]
  rfl

/-- The cell that the raster reads is the one of its pixel. -/
theorem curCharPosition_eq (inRaster : device.InRaster) :
    device.curCharPosition = 128 * (device.yPosition / 8) + device.xPosition / 8 := by
  obtain ⟨column, line⟩ := inRaster
  rw [pixels_eq] at column
  rw [lines_eq] at line
  rw [curCharPosition]
  omega

/-! ## Cycles without a write to the memory -/

/-- The bus does not write to the memory. -/
def Silent (inputs : VideoInputs) : Prop :=
  wrenA inputs = false

/-- The bus does not write to the control register. -/
def Uncontrolled (inputs : VideoInputs) : Prop :=
  (inputs.ctrlChipselect && inputs.ctrlWrite && !inputs.ctrlAddress) = false

theorem memory_cycle_of_silent (silent : Silent inputs) (address : Nat) :
    (device.cycle inputs).charBufferMemory address =
      if device.wrenB inputs = true ∧ address = device.curCharPosition then space
      else device.charBufferMemory address := by
  have bus : ¬ (wrenA inputs = true ∧ address = inputs.bufAddress % 8192) := by
    rw [show wrenA inputs = false from silent]
    exact fun both => Bool.false_ne_true both.1
  change device.nextMemory inputs address = _
  unfold nextMemory
  rw [if_neg fun both => bus both.1, if_neg bus]

/-- Without a write over the bus a blank cell stays blank. -/
theorem space_cycle_of_silent (silent : Silent inputs) {address : Nat}
    (blank : device.charBufferMemory address = space) :
    (device.cycle inputs).charBufferMemory address = space := by
  rw [memory_cycle_of_silent silent]
  split
  · rfl
  · exact blank

theorem highBit_cycle_of_uncontrolled (uncontrolled : Uncontrolled inputs) :
    (device.cycle inputs).highBit = device.highBit := by
  change ((device.nextControlReg inputs) 0).getLsbD 0 = _
  rw [nextControlReg, show (_ && _ && _) = false from uncontrolled]
  simp only [Bool.false_eq_true, if_false]
  split
  · rfl
  · rfl

/-- The request is withdrawn at the last pixel of a frame that is cleared. -/
theorem clearBit_cycle_of_uncontrolled (uncontrolled : Uncontrolled inputs) :
    (device.cycle inputs).clearBit =
      if device.clearScreen && inputs.streamReady && device.atLast then false
      else device.clearBit := by
  change ((device.nextControlReg inputs) clearLane).getLsbD 0 = _
  rw [nextControlReg, show (_ && _ && _) = false from uncontrolled]
  simp only [Bool.false_eq_true, if_false]
  split
  · simp
  · rfl

theorem clearScreen_cycle : (device.cycle inputs).clearScreen = device.nextClearScreen :=
  rfl

end Cycle

end VideoBuffer

end FpgaTrivia.Hardware
