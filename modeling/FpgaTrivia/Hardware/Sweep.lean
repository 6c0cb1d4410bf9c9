import FpgaTrivia.Hardware.CharBuffer
import FpgaTrivia.Hardware.VideoBuffer

/-!
# How the device clears the screen

A cell counts as swept once the raster has left its second pixel, because the
very first pixel of the frame only starts the clear.  When the request is
withdrawn, all cells on the screen have been swept.
-/

namespace FpgaTrivia.Hardware

open CharBuffer

namespace VideoBuffer

variable {inputs : VideoInputs} {device : VideoBuffer} {x y : Nat}

/-- The number of the second pixel of the cell in column `x` of row `y`. -/
def secondPixel (x y : Nat) : Nat :=
  640 * (8 * y) + (8 * x + 1)

/-- The cells that the raster has left are blank. -/
def Swept (device : VideoBuffer) : Prop :=
  ∀ x y, x < xResolution → y < yResolution → secondPixel x y < device.pixel →
    device.charBufferMemory (address x y) = space

/-- All cells on the screen are blank. -/
def Blank (device : VideoBuffer) : Prop :=
  ∀ x y, x < xResolution → y < yResolution → device.charBufferMemory (address x y) = space

/-- What holds while no character is written. -/
structure Sweeping (device : VideoBuffer) : Prop where
  inRaster : device.InRaster
  high : device.highBit = false
  swept : device.clearBit = true → device.clearScreen = true → device.Swept

theorem Blank.cycle (blank : device.Blank) (silent : Silent inputs) :
    (device.cycle inputs).Blank :=
  fun x y column row => space_cycle_of_silent silent (blank x y column row)

theorem secondPixel_lt (column : x < xResolution) (row : y < yResolution) :
    secondPixel x y + 1 < pixelsPerFrame := by
  rw [xResolution] at column
  rw [yResolution] at row
  rw [secondPixel, pixelsPerFrame]
  omega

/-- At its second pixel a cell is the one that the raster writes. -/
theorem curCharPosition_of_secondPixel (inRaster : device.InRaster) (column : x < xResolution)
    (at_second : secondPixel x y = device.pixel) : device.curCharPosition = address x y := by
  have position := curCharPosition_eq inRaster
  obtain ⟨left, -⟩ := inRaster
  rw [pixels_eq] at left
  rw [xResolution] at column
  rw [secondPixel, pixel] at at_second
  rw [position, address_eq]
  omega

theorem pixel_cycle_le (inRaster : device.InRaster) :
    (device.cycle inputs).pixel ≤ device.pixel ∨
      (inputs.streamReady = true ∧ (device.cycle inputs).pixel = device.pixel + 1) := by
  by_cases ready : inputs.streamReady = true
  · rw [pixel_cycle_of_ready inRaster ready]
    split
    · exact Or.inl (Nat.zero_le _)
    · exact Or.inr ⟨ready, rfl⟩
  · exact Or.inl (Nat.le_of_eq (pixel_cycle_of_stalled ready))

/-- A sweep that is going on has started before or starts at the first pixel. -/
theorem clearScreen_of_cycle (next : (device.cycle inputs).clearScreen = true) :
    device.clearBit = true ∧ (device.clearScreen = true ∨ device.pixel = 0) := by
  rw [clearScreen_cycle, nextClearScreen] at next
  split at next
  · cases next
  · rename_i requested
    refine ⟨by simpa using requested, ?_⟩
    split at next
    · rename_i first
      exact Or.inr (atFirst_iff.mp first)
    · exact Or.inl next

/-- A sweep goes on, whatever the bus does to the control register. -/
theorem Sweeping.swept_cycle (sweeping : device.Sweeping) (silent : Silent inputs)
    (next : (device.cycle inputs).clearScreen = true) : (device.cycle inputs).Swept := by
  intro x y column row left
  obtain ⟨requested, clearing | first⟩ := clearScreen_of_cycle next
  · rcases Nat.lt_trichotomy (secondPixel x y) device.pixel with before | here | after
    · exact space_cycle_of_silent silent (sweeping.swept requested clearing x y column row before)
    · rcases @pixel_cycle_le inputs device sweeping.inRaster with back | ⟨ready, -⟩
      · omega
      · rw [memory_cycle_of_silent silent, if_pos]
        exact ⟨by rw [wrenB, ready, clearing]; rfl,
          (curCharPosition_of_secondPixel sweeping.inRaster column here).symm⟩
    · rcases @pixel_cycle_le inputs device sweeping.inRaster with back | ⟨-, on⟩ <;> omega
  · rw [secondPixel] at left
    rcases @pixel_cycle_le inputs device sweeping.inRaster with back | ⟨-, on⟩ <;> omega

theorem Sweeping.cycle (sweeping : device.Sweeping) (silent : Silent inputs)
    (uncontrolled : Uncontrolled inputs) : (device.cycle inputs).Sweeping where
  inRaster := sweeping.inRaster.cycle
  high := (highBit_cycle_of_uncontrolled uncontrolled).trans sweeping.high
  swept := fun _ next => sweeping.swept_cycle silent next

/-- The request is withdrawn in the cycle that completes a sweep. -/
theorem ended_of_cycle (uncontrolled : Uncontrolled inputs) (requested : device.clearBit = true)
    (ended : (device.cycle inputs).clearBit = false) :
    device.clearScreen = true ∧ inputs.streamReady = true ∧ device.atLast = true := by
  rw [clearBit_cycle_of_uncontrolled uncontrolled] at ended
  split at ended
  · rename_i last
    simpa [and_assoc] using last
  · rw [requested] at ended
    cases ended

theorem Sweeping.blank_of_ended (sweeping : device.Sweeping) (silent : Silent inputs)
    (uncontrolled : Uncontrolled inputs) (requested : device.clearBit = true)
    (ended : (device.cycle inputs).clearBit = false) : (device.cycle inputs).Blank := by
  obtain ⟨clearing, -, last⟩ := ended_of_cycle uncontrolled requested ended
  have whole := (atLast_iff sweeping.inRaster).mp last
  intro x y column row
  apply space_cycle_of_silent silent
  apply sweeping.swept requested clearing x y column row
  have upper := secondPixel_lt column row
  omega

/-! ## How long it takes -/

/-- The pixels up to the end of the sweep that has been requested: the rest of
the frame, and another frame unless the sweep has already started. -/
def sweepLeft (device : VideoBuffer) : Nat :=
  if device.clearBit = false then 0
  else if device.clearScreen = true then 307200 - device.pixel
  else if device.pixel = 0 then 307201
  else 614401 - device.pixel

theorem sweepLeft_le (device : VideoBuffer) : device.sweepLeft ≤ 614400 := by
  unfold sweepLeft
  repeat' split
  all_goals omega

theorem sweepLeft_eq_zero_iff (inRaster : device.InRaster) :
    device.sweepLeft = 0 ↔ device.clearBit = false := by
  have upper := pixel_lt inRaster
  unfold sweepLeft
  constructor
  · intro none
    by_contra requested
    rw [if_neg requested] at none
    repeat' split at none
    all_goals omega
  · intro idle
    rw [if_pos idle]

theorem sweepLeft_of_clearing (requested : device.clearBit = true)
    (clearing : device.clearScreen = true) : device.sweepLeft = 307200 - device.pixel := by
  rw [sweepLeft, if_neg (by simp [requested]), if_pos clearing]

theorem sweepLeft_of_waiting (requested : device.clearBit = true)
    (waiting : ¬ device.clearScreen = true) :
    device.sweepLeft = if device.pixel = 0 then 307201 else 614401 - device.pixel := by
  rw [sweepLeft, if_neg (by simp [requested]), if_neg waiting]

/-- During the sweep the raster counts up to the end of the frame. -/
theorem sweepLeft_cycle_of_clearing (inRaster : device.InRaster)
    (uncontrolled : Uncontrolled inputs) (requested : device.clearBit = true)
    (clearing : device.clearScreen = true) :
    (device.cycle inputs).sweepLeft =
      if inputs.streamReady = true then device.sweepLeft - 1 else device.sweepLeft := by
  have upper := pixel_lt inRaster
  have bit := @clearBit_cycle_of_uncontrolled inputs device uncontrolled
  have screen : (device.cycle inputs).clearScreen = true := by
    rw [clearScreen_cycle, nextClearScreen, if_neg (by simp [requested]), clearing]
    exact ite_self _
  rw [sweepLeft_of_clearing requested clearing]
  by_cases ready : inputs.streamReady = true
  · have moved := pixel_cycle_of_ready inRaster ready
    rw [clearing, ready] at bit
    rw [if_pos ready]
    by_cases last : device.pixel + 1 = pixelsPerFrame
    · rw [(atLast_iff inRaster).mpr last] at bit
      rw [pixelsPerFrame] at last
      have withdrawn : (device.cycle inputs).clearBit = false := bit
      rw [sweepLeft, if_pos withdrawn]
      omega
    · have inside : device.atLast = false := by
        rw [← Bool.not_eq_true, atLast_iff inRaster]
        exact last
      rw [inside] at bit
      rw [if_neg last] at moved
      rw [sweepLeft_of_clearing (bit.trans requested) screen, moved]
      omega
  · have moved := @pixel_cycle_of_stalled inputs device ready
    rw [Bool.not_eq_true] at ready
    rw [clearing, ready] at bit
    rw [if_neg (by simp [ready]), sweepLeft_of_clearing (bit.trans requested) screen, moved]

/-- Before the sweep it counts up to the start of the next frame. -/
theorem sweepLeft_cycle_of_waiting (inRaster : device.InRaster)
    (uncontrolled : Uncontrolled inputs) (requested : device.clearBit = true)
    (waiting : ¬ device.clearScreen = true) :
    (device.cycle inputs).sweepLeft ≤ device.sweepLeft ∧
      (inputs.streamReady = true → (device.cycle inputs).sweepLeft < device.sweepLeft) := by
  have upper := pixel_lt inRaster
  have bit := @clearBit_cycle_of_uncontrolled inputs device uncontrolled
  rw [show device.clearScreen = false by simpa using waiting] at bit
  have still : (device.cycle inputs).clearBit = true := bit.trans requested
  have screen := @clearScreen_cycle inputs device
  rw [nextClearScreen, if_neg (by simp [requested])] at screen
  rw [sweepLeft_of_waiting requested waiting]
  by_cases first : device.pixel = 0
  · rw [if_pos (atFirst_iff.mpr first)] at screen
    rw [if_pos first, sweepLeft_of_clearing still screen]
    omega
  · rw [if_neg (mt atFirst_iff.mp first)] at screen
    rw [if_neg first, sweepLeft_of_waiting still (screen ▸ waiting)]
    by_cases ready : inputs.streamReady = true
    · rw [pixel_cycle_of_ready inRaster ready, pixelsPerFrame]
      repeat' split
      all_goals omega
    · rw [pixel_cycle_of_stalled ready, if_neg first]
      exact ⟨Nat.le_refl _, fun taken => absurd taken ready⟩

/-- Every pixel that the stream takes brings the end closer. -/
theorem sweepLeft_cycle (inRaster : device.InRaster) (uncontrolled : Uncontrolled inputs) :
    (device.cycle inputs).sweepLeft ≤ device.sweepLeft ∧
      (inputs.streamReady = true → 0 < device.sweepLeft →
        (device.cycle inputs).sweepLeft < device.sweepLeft) := by
  by_cases requested : device.clearBit = true
  · by_cases clearing : device.clearScreen = true
    · rw [sweepLeft_cycle_of_clearing inRaster uncontrolled requested clearing]
      split
      · omega
      · rename_i stalled
        exact ⟨Nat.le_refl _, fun taken => absurd taken stalled⟩
    · obtain ⟨le, less⟩ := sweepLeft_cycle_of_waiting inRaster uncontrolled requested clearing
      exact ⟨le, fun taken _ => less taken⟩
  · rw [Bool.not_eq_true] at requested
    have still : (device.cycle inputs).clearBit = false := by
      rw [clearBit_cycle_of_uncontrolled uncontrolled, requested]
      exact ite_self _
    rw [(sweepLeft_eq_zero_iff inRaster).mpr requested,
      (sweepLeft_eq_zero_iff inRaster.cycle).mpr still]
    exact ⟨Nat.le_refl 0, fun _ positive => absurd positive (Nat.lt_irrefl 0)⟩

end VideoBuffer

end FpgaTrivia.Hardware
