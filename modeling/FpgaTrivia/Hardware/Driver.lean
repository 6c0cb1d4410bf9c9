import FpgaTrivia.Hardware.Sweep
import FpgaTrivia.Transition.Run

/-!
# The driver of the character buffer

The driver turns a call into accesses to the device: a clear into a request and
a poll that is repeated until the request has been withdrawn, a string into one
store for each character.  The accesses happen at arbitrary cycles in their
order, while the raster goes its own way.  Between two calls the memory
nevertheless shows what the calls so far have drawn, one after the other.
-/

namespace FpgaTrivia.Hardware

open CharBuffer
open FpgaTrivia.Transition

/-- An access of the driver to the device. -/
inductive Transfer
  | requestClear
  | pollClear
  | store (address : Nat) (ch : Char)

namespace Transfer

/-- A cycle in which the bus is idle. -/
def idle (streamReady : Bool) (collided : BitVec 8) : VideoInputs where
  ctrlAddress := false
  ctrlByteenable _ := false
  ctrlChipselect := false
  ctrlRead := false
  ctrlWrite := false
  ctrlWritedata _ := 0#8
  bufAddress := 0
  bufByteenable := false
  bufChipselect := false
  bufWrite := false
  bufWritedata := 0#8
  streamReady := streamReady
  collided := collided

/-- The access on the bus.  The clear request is byte 2 of the control
register. -/
def inputs (streamReady : Bool) (collided : BitVec 8) : Transfer → VideoInputs
  | .requestClear =>
      { idle streamReady collided with
        ctrlChipselect := true
        ctrlWrite := true
        ctrlByteenable := fun lane => decide (lane = VideoBuffer.clearLane)
        ctrlWritedata := fun _ => 1#8 }
  | .pollClear =>
      { idle streamReady collided with
        ctrlChipselect := true
        ctrlRead := true
        ctrlByteenable := fun lane => decide (lane = VideoBuffer.clearLane) }
  | .store address ch =>
      { idle streamReady collided with
        bufChipselect := true
        bufWrite := true
        bufByteenable := true
        bufAddress := address
        bufWritedata := BitVec.ofNat 8 ch.toNat }

end Transfer

/-! ## Calls of the driver -/

/-- A call of the driver. -/
inductive DriverCall
  | clear
  | string (ptr : String) (x y : Nat)
  | draw (ch : Char) (x y : Nat)

namespace DriverCall

/-- The loop of `alt_up_char_buffer_string`. -/
def stringTransfers : List Char → Nat → Nat → List Transfer
  | [], _, _ => []
  | c :: rest, x, offset =>
      if c = '\x00' then []
      else
        .store offset c ::
          if xResolution ≤ x + 1 then [] else stringTransfers rest (x + 1) (offset + 1)

/-- The accesses of a call, in order.  `draw` masks its coordinates with `0x7F`
and `0x3F`. -/
def transfers : DriverCall → List Transfer
  | .clear => [.requestClear, .pollClear]
  | .string ptr x y =>
      if xResolution ≤ x ∨ yResolution ≤ y then []
      else stringTransfers ptr.toList x (address x y)
  | .draw ch x y =>
      if xResolution ≤ x ∨ yResolution ≤ y then []
      else [.store ((x &&& 0x7f) ||| ((y &&& 0x3f) <<< yCoordOffset)) ch]

/-- What a call is for. -/
def perform (buf : CharBuffer) : DriverCall → CharBuffer
  | .clear => buf.clear
  | .string ptr x y => CharBuffer.draw buf ptr x y
  | .draw ch x y =>
      if xResolution ≤ x ∨ yResolution ≤ y then buf else Function.update buf (address x y) ch

end DriverCall

/-! ## The picture in the memory -/

/-- What is known about the memory from the accesses so far. -/
inductive Picture
  | unknown
  | clearing
  | drawn (buf : CharBuffer)

namespace Picture

/-- A poll follows a request, and a character is stored on a screen that has been
cleared. -/
def after : Picture → Transfer → Option Picture
  | _, .requestClear => some .clearing
  | .clearing, .pollClear => some (.drawn fun _ => ' ')
  | .drawn buf, .store address ch =>
      if address < 8192 then some (.drawn (Function.update buf address ch)) else none
  | _, _ => none

end Picture

/-- The code of a character in the memory. -/
def code (ch : Char) : BitVec 8 :=
  BitVec.cons false (BitVec.ofNat 7 ch.toNat)

namespace VideoBuffer

/-- The cells on the screen show the characters of `buf`. -/
def Shows (device : VideoBuffer) (buf : CharBuffer) : Prop :=
  ∀ x y, x < xResolution → y < yResolution →
    device.charBufferMemory (address x y) = code (buf.cell x y)

/-- The device is ready to take characters. -/
structure Settled (device : VideoBuffer) : Prop where
  inRaster : device.InRaster
  high : device.highBit = false
  withdrawn : device.clearBit = false
  still : device.clearScreen = false

/-- What the device does about a picture. -/
def Serves (device : VideoBuffer) : Picture → Prop
  | .unknown => device.Sweeping
  | .clearing => device.Sweeping ∧ (device.clearBit = false → device.Blank)
  | .drawn buf => device.Settled ∧ device.Shows buf

variable {inputs : VideoInputs} {device : VideoBuffer} {picture : Picture} {buf : CharBuffer}

theorem Blank.shows (blank : device.Blank) : device.Shows fun _ => ' ' := by
  have stored : code ' ' = space := by decide
  intro x y column row
  rw [cell, stored]
  exact blank x y column row

theorem Settled.sweeping (settled : device.Settled) : device.Sweeping where
  inRaster := settled.inRaster
  high := settled.high
  swept := by
    intro requested
    rw [settled.withdrawn] at requested
    cases requested

theorem Serves.sweeping (serves : device.Serves picture) : device.Sweeping := by
  cases picture with
  | unknown => exact serves
  | clearing => exact serves.1
  | drawn buf => exact serves.1.sweeping

theorem Settled.cycle (settled : device.Settled) (uncontrolled : Uncontrolled inputs) :
    (device.cycle inputs).Settled where
  inRaster := settled.inRaster.cycle
  high := (highBit_cycle_of_uncontrolled uncontrolled).trans settled.high
  withdrawn := by
    rw [clearBit_cycle_of_uncontrolled uncontrolled, settled.withdrawn]
    exact ite_self _
  still := by
    rw [clearScreen_cycle, nextClearScreen, if_pos settled.withdrawn]

/-- The raster writes nothing. -/
theorem Settled.wrenB (settled : device.Settled) : device.wrenB inputs = false := by
  rw [VideoBuffer.wrenB, settled.still, Bool.and_false]

/-- A cycle without a write changes nothing that is known. -/
theorem Serves.cycle (serves : device.Serves picture) (silent : Silent inputs)
    (uncontrolled : Uncontrolled inputs) : (device.cycle inputs).Serves picture := by
  cases picture with
  | unknown => exact Sweeping.cycle serves silent uncontrolled
  | clearing =>
      obtain ⟨sweeping, done⟩ := serves
      refine ⟨sweeping.cycle silent uncontrolled, fun ended => ?_⟩
      by_cases requested : device.clearBit = true
      · exact sweeping.blank_of_ended silent uncontrolled requested ended
      · exact (done (by simpa using requested)).cycle silent
  | drawn buf =>
      obtain ⟨settled, shows⟩ := serves
      refine ⟨settled.cycle uncontrolled, fun x y column row => ?_⟩
      rw [memory_cycle_of_silent silent, if_neg (by simp [settled.wrenB])]
      exact shows x y column row

section Accesses

variable {streamReady : Bool} {collided : BitVec 8}

theorem uncontrolled_idle : Uncontrolled (Transfer.idle streamReady collided) :=
  rfl

/-- A request starts a clear from whatever there is. -/
theorem Serves.requestClear (serves : device.Serves picture) :
    (device.cycle (Transfer.requestClear.inputs streamReady collided)).Serves .clearing := by
  have silent : Silent (Transfer.requestClear.inputs streamReady collided) := rfl
  have requested :
      (device.cycle (Transfer.requestClear.inputs streamReady collided)).clearBit = true := by
    change (1#8).getLsbD 0 = true
    decide
  constructor
  · exact
      { inRaster := serves.sweeping.inRaster.cycle
        high := serves.sweeping.high
        swept := fun _ next => serves.sweeping.swept_cycle silent next }
  · intro withdrawn
    rw [requested] at withdrawn
    cases withdrawn

/-- A poll that finds the request withdrawn ends the clear. -/
theorem Serves.pollClear (serves : device.Serves .clearing) (ended : device.clearBit = false) :
    (device.cycle (Transfer.pollClear.inputs streamReady collided)).Serves
      (.drawn fun _ => ' ') := by
  have silent : Silent (Transfer.pollClear.inputs streamReady collided) := rfl
  have uncontrolled : Uncontrolled (Transfer.pollClear.inputs streamReady collided) := rfl
  have sweeping := serves.1.cycle silent uncontrolled
  constructor
  · exact
      { inRaster := sweeping.inRaster
        high := sweeping.high
        withdrawn := by
          rw [clearBit_cycle_of_uncontrolled uncontrolled, ended]
          exact ite_self _
        still := by rw [clearScreen_cycle, nextClearScreen, if_pos ended] }
  · exact ((serves.2 ended).cycle silent).shows

theorem charDataToBuffer_store (settled : device.Settled) (address : Nat) (ch : Char) :
    device.charDataToBuffer ((Transfer.store address ch).inputs streamReady collided) =
      code ch := by
  rw [charDataToBuffer, settled.high, code]
  congr 1
  exact BitVec.setWidth_ofNat_of_le (by decide) _

/-- A store changes the cell that it is meant for. -/
theorem Serves.store (serves : device.Serves (.drawn buf)) {addr : Nat} (inside : addr < 8192)
    (ch : Char) : (device.cycle ((Transfer.store addr ch).inputs streamReady collided)).Serves
      (.drawn (Function.update buf addr ch)) := by
  obtain ⟨settled, shows⟩ := serves
  refine ⟨settled.cycle rfl, fun x y column row => ?_⟩
  change device.nextMemory _ (address x y) = _
  unfold nextMemory
  rw [settled.wrenB, cell]
  by_cases here : address x y = addr
  · subst here
    rw [if_neg (by simp), if_pos ⟨rfl, (Nat.mod_eq_of_lt inside).symm⟩, Function.update_self]
    exact charDataToBuffer_store settled _ ch
  · have other : ¬ address x y = addr % 8192 := by
      rw [Nat.mod_eq_of_lt inside]
      exact here
    rw [if_neg (by simp), if_neg fun both => other both.2, if_neg (by simp),
      Function.update_of_ne here]
    exact shows x y column row

end Accesses

end VideoBuffer

end FpgaTrivia.Hardware
