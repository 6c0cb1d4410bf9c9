import FpgaTrivia.Transition.Run
import Mathlib.Data.BitVec
import Mathlib.Tactic.Common

/-!
# The timing of the display

The timing generator counts the pixels of 525 lines of 800, of which 480 lines
of 640 are shown.  Its pulses are set and cleared one or two clocks ahead of
the edge that they stand for, and so the outputs have the standard timing.
-/

namespace FpgaTrivia.Hardware

open FpgaTrivia.Transition

/-- The registers of `altera_up_avalon_video_vga_timing`. -/
structure VgaTiming where
  pixelCounter : Nat
  lineCounter : Nat
  endOfActiveFrame : Bool
  earlyHsyncPulse : Bool
  earlyVsyncPulse : Bool
  hsyncPulse : Bool
  vsyncPulse : Bool
  hblankingPulse : Bool
  vblankingPulse : Bool
  blankingPulse : Bool
  vgaBlank : Bool
  vgaHSync : Bool
  vgaVSync : Bool
  vgaRed : BitVec 4
  vgaGreen : BitVec 4
  vgaBlue : BitVec 4

namespace VgaTiming

/-- `H_ACTIVE`. -/
def hActive : Nat := 640

/-- `H_FRONT_PORCH`. -/
def hFrontPorch : Nat := 16

/-- `H_BACK_PORCH`. -/
def hBackPorch : Nat := 48

/-- `H_TOTAL`. -/
def hTotal : Nat := 800

/-- `V_ACTIVE`. -/
def vActive : Nat := 480

/-- `V_FRONT_PORCH`. -/
def vFrontPorch : Nat := 10

/-- `V_BACK_PORCH`. -/
def vBackPorch : Nat := 33

/-- `V_TOTAL`. -/
def vTotal : Nat := 525

/-- The registers after `reset`. -/
def reset : VgaTiming where
  pixelCounter := hTotal - 3
  lineCounter := vTotal - 1
  endOfActiveFrame := false
  earlyHsyncPulse := false
  earlyVsyncPulse := false
  hsyncPulse := false
  vsyncPulse := false
  hblankingPulse := true
  vblankingPulse := true
  blankingPulse := true
  vgaBlank := true
  vgaHSync := true
  vgaVSync := true
  vgaRed := 0#4
  vgaGreen := 0#4
  vgaBlue := 0#4

/-- A pulse that is set and cleared under two conditions. -/
def pulse (set clear : Bool) (held : Bool) : Bool :=
  if set = true then true else if clear = true then false else held

/-- One rising edge of `clk`. -/
def cycle (red green blue : BitVec 4) (timing : VgaTiming) : VgaTiming where
  pixelCounter :=
    if timing.pixelCounter = hTotal - 1 then 0 else (timing.pixelCounter + 1) % 1024
  lineCounter :=
    if timing.pixelCounter = hTotal - 1 then
      if timing.lineCounter = vTotal - 1 then 0 else (timing.lineCounter + 1) % 1024
    else timing.lineCounter
  endOfActiveFrame :=
    timing.lineCounter == vActive - 1 && timing.pixelCounter == hActive - 2
  earlyHsyncPulse :=
    pulse (timing.pixelCounter == hActive + hFrontPorch - 2)
      (timing.pixelCounter == hTotal - hBackPorch - 2) timing.earlyHsyncPulse
  earlyVsyncPulse :=
    pulse (timing.lineCounter == vActive + vFrontPorch - 1 && timing.pixelCounter == hTotal - 2)
      (timing.lineCounter == vTotal - vBackPorch - 1 && timing.pixelCounter == hTotal - 2)
      timing.earlyVsyncPulse
  hsyncPulse := timing.earlyHsyncPulse
  vsyncPulse := timing.earlyVsyncPulse
  hblankingPulse :=
    pulse (timing.pixelCounter == hActive - 2) (timing.pixelCounter == hTotal - 2)
      timing.hblankingPulse
  vblankingPulse :=
    pulse (timing.lineCounter == vActive - 1 && timing.pixelCounter == hTotal - 2)
      (timing.lineCounter == vTotal - 1 && timing.pixelCounter == hTotal - 2)
      timing.vblankingPulse
  blankingPulse := timing.hblankingPulse || timing.vblankingPulse
  vgaBlank := !timing.blankingPulse
  vgaHSync := !timing.hsyncPulse
  vgaVSync := !timing.vsyncPulse
  vgaRed := if timing.blankingPulse = true then 0#4 else red
  vgaGreen := if timing.blankingPulse = true then 0#4 else green
  vgaBlue := if timing.blankingPulse = true then 0#4 else blue

/-- `read_enable`. -/
def readEnable (timing : VgaTiming) : Bool :=
  !timing.blankingPulse

/-! ## Places of the beam

A frame has 420000 places, 800 in each line. -/

/-- The place is in the part of the frame that is shown. -/
def Active (c : Nat) : Prop :=
  c % 800 < 640 ∧ c / 800 < 480

instance (c : Nat) : Decidable (Active c) :=
  inferInstanceAs (Decidable (c % 800 < 640 ∧ c / 800 < 480))

/-- The place at which the horizontal synchronisation is low. -/
def HSync (c : Nat) : Prop :=
  656 ≤ c % 800 ∧ c % 800 < 752

instance (c : Nat) : Decidable (HSync c) :=
  inferInstanceAs (Decidable (656 ≤ c % 800 ∧ c % 800 < 752))

/-- The place at which the vertical synchronisation is low. -/
def VSync (c : Nat) : Prop :=
  490 ≤ c / 800 ∧ c / 800 < 492

instance (c : Nat) : Decidable (VSync c) :=
  inferInstanceAs (Decidable (490 ≤ c / 800 ∧ c / 800 < 492))

/-- The place after `c`. -/
def nextPlace (c : Nat) : Nat :=
  if c = 419999 then 0 else c + 1

/-- The generator is at place `c`: each pulse is what it has to be there. -/
structure At (c : Nat) (timing : VgaTiming) : Prop where
  within : c < 420000
  pixel : timing.pixelCounter = c % 800
  line : timing.lineCounter = c / 800
  endOfActive : timing.endOfActiveFrame = true ↔ c = 383839
  earlyH : timing.earlyHsyncPulse = true ↔ 655 ≤ c % 800 ∧ c % 800 < 751
  earlyV : timing.earlyVsyncPulse = true ↔ 391999 ≤ c ∧ c < 393599
  h : timing.hsyncPulse = true ↔ HSync c
  v : timing.vsyncPulse = true ↔ VSync c
  hblanking : timing.hblankingPulse = true ↔ 639 ≤ c % 800 ∧ c % 800 < 799
  vblanking : timing.vblankingPulse = true ↔ 383999 ≤ c ∧ c < 419999
  blanking : timing.blankingPulse = true ↔ ¬ Active c

theorem at_reset : reset.At 419997 where
  within := by decide
  pixel := rfl
  line := rfl
  endOfActive := by decide
  earlyH := by decide
  earlyV := by decide
  h := by decide
  v := by decide
  hblanking := by decide
  vblanking := by decide
  blanking := by decide

theorem pulse_iff {set clear held : Bool} :
    pulse set clear held = true ↔ set = true ∨ (¬ clear = true ∧ held = true) := by
  cases set <;> cases clear <;> cases held <;> decide

theorem nextPlace_cases {c : Nat} (within : c < 420000) :
    (c = 419999 ∧ nextPlace c = 0) ∨ (c < 419999 ∧ nextPlace c = c + 1) := by
  rw [nextPlace]
  split <;> omega

/-- The generator moves on to the next place. -/
theorem At.cycle {c : Nat} {timing : VgaTiming} (place : timing.At c) (red green blue : BitVec 4) :
    (timing.cycle red green blue).At (nextPlace c) := by
  obtain ⟨within, pixel, line, -, earlyH, earlyV, -, -, hblanking, vblanking, -⟩ := place
  have next := nextPlace_cases within
  constructor
  case within => omega
  case pixel =>
    change (if timing.pixelCounter = 799 then 0 else (timing.pixelCounter + 1) % 1024) = _
    rw [pixel]
    split <;> omega
  case line =>
    change (if timing.pixelCounter = 799 then
      if timing.lineCounter = 524 then 0 else (timing.lineCounter + 1) % 1024
      else timing.lineCounter) = _
    rw [pixel, line]
    split
    · split <;> omega
    · omega
  case endOfActive =>
    change (timing.lineCounter == 479 && timing.pixelCounter == 638) = true ↔ _
    rw [Bool.and_eq_true, beq_iff_eq, beq_iff_eq, pixel, line]
    omega
  case earlyH =>
    change pulse (timing.pixelCounter == 654) (timing.pixelCounter == 750) _ = true ↔ _
    rw [pulse_iff, beq_iff_eq, beq_iff_eq, earlyH, pixel]
    omega
  case earlyV =>
    change pulse (timing.lineCounter == 489 && timing.pixelCounter == 798)
      (timing.lineCounter == 491 && timing.pixelCounter == 798) _ = true ↔ _
    rw [pulse_iff, Bool.and_eq_true, Bool.and_eq_true, beq_iff_eq, beq_iff_eq, beq_iff_eq,
      earlyV, pixel, line]
    omega
  case h =>
    change timing.earlyHsyncPulse = true ↔ _
    rw [earlyH, HSync]
    omega
  case v =>
    change timing.earlyVsyncPulse = true ↔ _
    rw [earlyV, VSync]
    omega
  case hblanking =>
    change pulse (timing.pixelCounter == 638) (timing.pixelCounter == 798) _ = true ↔ _
    rw [pulse_iff, beq_iff_eq, beq_iff_eq, hblanking, pixel]
    omega
  case vblanking =>
    change pulse (timing.lineCounter == 479 && timing.pixelCounter == 798)
      (timing.lineCounter == 524 && timing.pixelCounter == 798) _ = true ↔ _
    rw [pulse_iff, Bool.and_eq_true, Bool.and_eq_true, beq_iff_eq, beq_iff_eq, beq_iff_eq,
      vblanking, pixel, line]
    omega
  case blanking =>
    change (timing.hblankingPulse || timing.vblankingPulse) = true ↔ _
    rw [Bool.or_eq_true, hblanking, vblanking, Active]
    omega

theorem At.readEnable_iff {c : Nat} {timing : VgaTiming} (place : timing.At c) :
    timing.readEnable = true ↔ Active c := by
  rw [readEnable, Bool.not_eq_true', ← Bool.not_eq_true, place.blanking, Classical.not_not]

end VgaTiming

end FpgaTrivia.Hardware
