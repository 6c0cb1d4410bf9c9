import FpgaTrivia.Hardware.Frames
import FpgaTrivia.Hardware.VgaController

/-!
# From the driver to the pins

The beats that the character buffer puts on the stream pass through the dual
clock buffer to the display controller, which comes in step with their packets.
In the end the pins show the screen that the calls of the driver have drawn.
-/

namespace FpgaTrivia.Hardware

open FpgaTrivia.Transition

namespace Streaming

/-- The dual clock buffer hands over what the stream has taken, in its order. -/
def Carries (stream : Streaming) (source : Nat → StreamBeat) : Prop :=
  ∀ n, stream.takes n = true → source (stream.taken n) = (stream.pipe n).beat

variable {stream : Streaming} {source : Nat → StreamBeat} {n : Nat}

/-- The packets of the character buffer begin where the controller expects them. -/
theorem Carries.framed (carries : stream.Carries source) (flows : stream.Flows) :
    Display.Framed source := by
  intro i
  obtain ⟨n, takes, rfl⟩ := flows.exists_takes i
  rw [carries n takes]
  by_cases few : stream.taken n < 4
  · have unmarked : (stream.pipe n).beat.streamStartofpacket = false :=
      (stream.unmarked n (Nat.le_of_lt_succ few)).1
    rw [unmarked, Display.packetPlace]
    constructor
    · intro marked
      cases marked
    · intro first
      omega
  · obtain ⟨t, -, taking, later⟩ := exists_takes (Nat.le_of_not_lt few)
    rw [beat_of_taken taking later, later, pixel_eq, Display.packetPlace]
    change decide (stream.taken t % 307200 = 0) = true ↔ _
    rw [decide_eq_true_iff]
    omega

/-- What holds of all beats from some cycle on holds of all that the buffer hands
over from some number on. -/
theorem Carries.eventually (carries : stream.Carries source) (flows : stream.Flows)
    {shape : Nat → StreamBeat} (shaped : ∀ m, n ≤ m → (stream.pipe m).beat = shape (stream.taken m))
    {i : Nat} (beyond : stream.taken n ≤ i) : source i = shape i := by
  obtain ⟨m, takes, rfl⟩ := flows.exists_takes i
  rw [carries m takes, shaped m (le_of_enabledBefore_le takes beyond)]

end Streaming

namespace Display

variable {source : Nat → StreamBeat} {vga : VgaController} {offers : Nat → Offer}
  {n start : Nat}

theorem pinsAt_of_dark {c : Nat} (dark : ¬ VgaTiming.Active c) (beat beat' : StreamBeat) :
    pinsAt c beat = pinsAt c beat' := by
  unfold pinsAt
  rw [if_neg dark, if_neg dark, if_neg dark, if_neg dark, if_neg dark, if_neg dark]

theorem head_mono {m : Nat} (upto : n ≤ m) :
    (run source vga offers n).head ≤ (run source vga offers m).head := by
  induction m, upto using Nat.le_induction with
  | base => exact Nat.le_refl _
  | succ m _ ih => exact Nat.le_trans ih (Nat.le_add_right _ _)

/-- Every frame takes beats. -/
theorem exists_head (framed : Framed source) (fed : Fed offers start) (k : Nat) :
    ∃ n, start + 4200000 ≤ n ∧ k ≤ (run source vga offers n).head := by
  induction k with
  | zero => exact ⟨start + 4200000, Nat.le_refl _, Nat.zero_le _⟩
  | succ k ih =>
      obtain ⟨n, later, upto⟩ := ih
      obtain ⟨m, after, top⟩ : ∃ m, n ≤ m ∧ place m = 0 := by
        refine ⟨n + (420000 - place n), Nat.le_add_right _ _, ?_⟩
        rw [place, place]
        omega
      have locked := @locked_of_fed source vga offers m start framed fed (by omega)
      have at_ := @run_at source vga offers m
      rw [top] at locked at_
      have taken := @head_step_of_display source (offers m) _ _ at_ (locked.shown (by decide)).1
        (fed m (by omega))
      refine ⟨m + 1, by omega, ?_⟩
      have mono := @head_mono source vga offers n m after
      rw [run_succ, taken]
      exact Nat.succ_le_succ (Nat.le_trans upto mono)

/-- If the buffer hands over the pixels of a picture from some number on, the
pins show it. -/
theorem exists_pins (framed : Framed source) (fed : Fed offers start)
    {picture : Nat → StreamBeat} {first : Nat}
    (shows : ∀ i, first ≤ i → source i = picture (packetPlace i)) :
    ∃ N, ∀ n, N ≤ n →
      (run source vga offers (n + 2)).controller.pins =
        pinsAt (place n) (picture (640 * (place n / 800) + place n % 800)) := by
  obtain ⟨N, later, enough⟩ := @exists_head source vga offers start framed fed first
  refine ⟨N, fun n upto => ?_⟩
  have locked := @locked_of_fed source vga offers n start framed fed (by omega)
  rw [run_succ, run_succ, pins_step_step _ _ (run_at n), beat, if_pos (fed n (by omega)),
    shows _ (Nat.le_trans enough (head_mono upto))]
  by_cases active : VgaTiming.Active (place n)
  · rw [locked.packetPlace_of_active active]
  · exact pinsAt_of_dark active _ _

end Display

namespace DriverState

variable {beats : Nat → Beat} {memory : Nat → BitVec 8} {rom : CharacterRom}
  {powerUp : PixelPipe} {mixed : Nat → BitVec 8}

/-- When all calls have returned, the pins show what they have drawn. -/
theorem Lively.exists_pins (lively : Lively beats) (calls : List DriverCall) (junk : CharBuffer)
    {source : Nat → StreamBeat}
    (carries : (stream memory rom powerUp mixed (.clear :: calls) beats).Carries source)
    (vga : VgaController) {offers : Nat → Offer} {start : Nat} (fed : Display.Fed offers start) :
    ∃ N, ∀ n, N ≤ n →
      (Display.run source vga offers (n + 2)).controller.pins =
        Display.pinsAt (Display.place n)
          (pictureBeat rom ((DriverCall.clear :: calls).foldl DriverCall.perform junk)
            (640 * (Display.place n / 800) + Display.place n % 800)) := by
  obtain ⟨m, shows⟩ := lively.exists_pictured memory rom powerUp mixed calls junk
  have flows : (stream memory rom powerUp mixed (.clear :: calls) beats).Flows := lively.flows
  have pictured : ∀ i, (stream memory rom powerUp mixed (.clear :: calls) beats).taken m + 4 ≤ i →
      source i = pictureBeat rom ((DriverCall.clear :: calls).foldl DriverCall.perform junk)
        (Display.packetPlace i) := by
    intro i beyond
    have number : Display.packetPlace i = (i - 4) % 307200 := by
      rw [Display.packetPlace]
      omega
    rw [number]
    exact @Streaming.Carries.eventually _ source m carries flows
      (fun k => pictureBeat rom _ ((k - 4) % 307200)) shows i
      (Nat.le_trans (Nat.le_add_right _ 4) beyond)
  exact Display.exists_pins (carries.framed flows) fed pictured

end DriverState

end FpgaTrivia.Hardware
