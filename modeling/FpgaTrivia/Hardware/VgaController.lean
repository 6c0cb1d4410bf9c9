import FpgaTrivia.Hardware.PixelStream
import FpgaTrivia.Hardware.VgaTiming

/-!
# The display controller

The controller throws beats away until one starts a packet, and then shows one
beat at every active place up to the end of the frame.  Wherever in the stream
and in the frame it begins, it comes to show the first pixel of a packet at the
first place of the frame, and keeps to it.
-/

namespace FpgaTrivia.Hardware

open FpgaTrivia.Transition

/-- `s_mode`. -/
inductive VgaMode
  | syncFrame
  | display
  deriving DecidableEq

/-- The outputs to the display; `VGA_SYNC` is always low. -/
structure VgaPins where
  vgaBlank : Bool
  vgaHs : Bool
  vgaVs : Bool
  vgaR : BitVec 4
  vgaG : BitVec 4
  vgaB : BitVec 4

/-- The registers of `video_vga_controller_0`. -/
structure VgaController where
  sMode : VgaMode
  timing : VgaTiming
  pins : VgaPins

namespace VgaController

/-- The registers after `reset`, which does not reach the outputs. -/
def reset (controller : VgaController) : VgaController :=
  { controller with sMode := .syncFrame, timing := .reset }

/-- `ns_mode`. -/
def nsMode (valid : Bool) (beat : StreamBeat) (controller : VgaController) : VgaMode :=
  match controller.sMode with
  | .syncFrame => if valid && beat.streamStartofpacket then .display else .syncFrame
  | .display => if controller.timing.endOfActiveFrame then .syncFrame else .display

/-- `ready`. -/
def ready (valid : Bool) (beat : StreamBeat) (controller : VgaController) : Bool :=
  match controller.sMode with
  | .syncFrame => valid && !beat.streamStartofpacket
  | .display => controller.timing.readEnable

/-- One rising edge of `clk`. -/
def cycle (valid : Bool) (beat : StreamBeat) (controller : VgaController) : VgaController where
  sMode := controller.nsMode valid beat
  timing :=
    controller.timing.cycle (beat.streamData.extractLsb' 26 4) (beat.streamData.extractLsb' 16 4)
      (beat.streamData.extractLsb' 6 4)
  pins :=
    { vgaBlank := controller.timing.vgaBlank
      vgaHs := controller.timing.vgaHSync
      vgaVs := controller.timing.vgaVSync
      vgaR := controller.timing.vgaRed
      vgaG := controller.timing.vgaGreen
      vgaB := controller.timing.vgaBlue }

end VgaController

/-- What the dual clock buffer has to offer in a cycle: its next beat, or
nothing, and then its output does not matter. -/
structure Offer where
  valid : Bool
  stale : StreamBeat

/-- The controller behind the dual clock buffer.  The buffer hands over the beats
of the stream in their order; `head` of them have been taken. -/
structure Display where
  controller : VgaController
  head : Nat

namespace Display

/-- The output of the buffer. -/
def beat (source : Nat → StreamBeat) (offer : Offer) (display : Display) : StreamBeat :=
  if offer.valid = true then source display.head else offer.stale

/-- `rdreq`: the buffer hands a beat over if it has one and the controller is
ready. -/
def takes (source : Nat → StreamBeat) (offer : Offer) (display : Display) : Bool :=
  display.controller.ready offer.valid (display.beat source offer) && offer.valid

/-- One rising edge of the clock of the display. -/
def step (source : Nat → StreamBeat) (display : Display) (offer : Offer) : Display where
  controller := display.controller.cycle offer.valid (display.beat source offer)
  head := display.head + (display.takes source offer).toNat

/-- The display before cycle `n`. -/
def run (source : Nat → StreamBeat) (powerUp : VgaController) (offers : Nat → Offer) (n : Nat) :
    Display :=
  Transition.run (step source) ⟨powerUp.reset, 0⟩ offers n

/-! ## Places in the frame and in the packet -/

/-- The place of the beam before cycle `n`. -/
def place (n : Nat) : Nat :=
  (419997 + n) % 420000

/-- The number of a beat in its packet.  The first four beats are as good as the
end of one. -/
def packetPlace (head : Nat) : Nat :=
  (head + 307196) % 307200

/-- The beats before the next one that starts a packet. -/
def toSkip (head : Nat) : Nat :=
  (307200 - packetPlace head) % 307200

/-- The active places before place `c`. -/
def activeBefore (c : Nat) : Nat :=
  640 * (c / 800) + min (c % 800) 640

/-- The packets of the stream begin where those of the character buffer do. -/
def Framed (source : Nat → StreamBeat) : Prop :=
  ∀ i, (source i).streamStartofpacket = true ↔ packetPlace i = 0

theorem place_succ (n : Nat) : place (n + 1) = VgaTiming.nextPlace (place n) := by
  rw [place, place, VgaTiming.nextPlace]
  split <;> omega

theorem packetPlace_lt (head : Nat) : packetPlace head < 307200 :=
  Nat.mod_lt _ (by decide)

theorem toSkip_lt (head : Nat) : toSkip head < 307200 :=
  Nat.mod_lt _ (by decide)

theorem toSkip_eq_zero_iff (head : Nat) : toSkip head = 0 ↔ packetPlace head = 0 := by
  have upper := packetPlace_lt head
  rw [toSkip]
  omega

theorem toSkip_succ {head : Nat} (inside : toSkip head ≠ 0) :
    toSkip (head + 1) + 1 = toSkip head := by
  unfold toSkip packetPlace at *
  omega

theorem activeBefore_succ {c : Nat} (shown : c < 383840) :
    activeBefore (c + 1) = activeBefore c + (decide (VgaTiming.Active c)).toNat := by
  by_cases active : VgaTiming.Active c
  · rw [decide_eq_true active]
    obtain ⟨column, line⟩ := active
    change _ = _ + 1
    rw [activeBefore, activeBefore]
    omega
  · rw [decide_eq_false active]
    rw [VgaTiming.Active] at active
    change _ = _ + 0
    rw [activeBefore, activeBefore]
    omega

/-! ## One cycle -/

section Step

variable {source : Nat → StreamBeat} {offer : Offer} {display : Display} {c : Nat}

theorem step_timing (place : display.controller.timing.At c) :
    (display.step source offer).controller.timing.At (VgaTiming.nextPlace c) :=
  place.cycle _ _ _

/-- A beat inside a packet is thrown away. -/
theorem step_of_skipping (framed : Framed source) (mode : display.controller.sMode = .syncFrame)
    (valid : offer.valid = true) (inside : packetPlace display.head ≠ 0) :
    (display.step source offer).controller.sMode = .syncFrame ∧
      (display.step source offer).head = display.head + 1 := by
  have unmarked : (display.beat source offer).streamStartofpacket = false := by
    rw [beat, if_pos valid]
    exact Bool.eq_false_iff.mpr (mt (framed display.head).mp inside)
  constructor
  · change display.controller.nsMode _ _ = _
    rw [VgaController.nsMode, mode, unmarked, Bool.and_false]
    rfl
  · change _ + (display.controller.ready _ _ && _).toNat = _
    rw [VgaController.ready, mode, unmarked, valid]
    rfl

/-- The beat that starts a packet waits. -/
theorem step_of_found (framed : Framed source) (mode : display.controller.sMode = .syncFrame)
    (valid : offer.valid = true) (first : packetPlace display.head = 0) :
    (display.step source offer).controller.sMode = .display ∧
      (display.step source offer).head = display.head := by
  have marked : (display.beat source offer).streamStartofpacket = true := by
    rw [beat, if_pos valid]
    exact (framed display.head).mpr first
  constructor
  · change display.controller.nsMode _ _ = _
    rw [VgaController.nsMode, mode, marked, valid]
    rfl
  · change _ + (display.controller.ready _ _ && _).toNat = _
    rw [VgaController.ready, mode, marked, valid]
    rfl

/-- While it displays, the controller takes a beat at every active place. -/
theorem head_step_of_display (place : display.controller.timing.At c)
    (mode : display.controller.sMode = .display) (valid : offer.valid = true) :
    (display.step source offer).head =
      display.head + (decide (VgaTiming.Active c)).toNat := by
  have enabled : display.controller.timing.readEnable = decide (VgaTiming.Active c) :=
    Bool.eq_iff_iff.mpr (place.readEnable_iff.trans decide_eq_true_iff.symm)
  change _ + (display.controller.ready _ _ && _).toNat = _
  rw [VgaController.ready, mode, valid, Bool.and_true, enabled]

theorem mode_step_of_display (place : display.controller.timing.At c)
    (mode : display.controller.sMode = .display) :
    (display.step source offer).controller.sMode =
      if c = 383839 then .syncFrame else .display := by
  change display.controller.nsMode _ _ = _
  rw [VgaController.nsMode, mode]
  by_cases last : c = 383839
  · rw [if_pos last, place.endOfActive.mpr last]
    rfl
  · rw [if_neg last, Bool.eq_false_iff.mpr (mt place.endOfActive.mp last)]
    rfl

/-- Right after the last active place the controller looks for a packet, unless
it has just found one. -/
theorem mode_step_of_last (framed : Framed source) (place : display.controller.timing.At 383839) :
    (display.step source offer).controller.sMode = .syncFrame ∨
      packetPlace (display.step source offer).head = 0 := by
  cases mode : display.controller.sMode with
  | display =>
      rw [mode_step_of_display place mode]
      exact Or.inl rfl
  | syncFrame =>
      cases valid : offer.valid with
      | false =>
          left
          change display.controller.nsMode _ _ = _
          rw [VgaController.nsMode, mode, valid]
          rfl
      | true =>
          by_cases first : packetPlace display.head = 0
          · right
            rw [(step_of_found framed mode valid first).2]
            exact first
          · left
            exact (step_of_skipping framed mode valid first).1

/-! ## In step with the packets -/

/-- The controller shows each beat at its place. -/
structure Locked (c : Nat) (display : Display) : Prop where
  shown : c < 383840 →
    display.controller.sMode = .display ∧ packetPlace display.head = activeBefore c
  hidden : 383840 ≤ c →
    packetPlace display.head = 0 ∧ (display.controller.sMode = .display ∨ c = 383840)

theorem Locked.packetPlace_of_active (locked : display.Locked c) (active : VgaTiming.Active c) :
    packetPlace display.head = 640 * (c / 800) + c % 800 := by
  obtain ⟨column, line⟩ := active
  rw [(locked.shown (by omega)).2, activeBefore, Nat.min_eq_left (Nat.le_of_lt column)]

theorem packetPlace_succ {head : Nat} (inside : packetPlace head < 307199) :
    packetPlace (head + 1) = packetPlace head + 1 := by
  unfold packetPlace at *
  omega

theorem packetPlace_succ_of_last {head : Nat} (last : packetPlace head = 307199) :
    packetPlace (head + 1) = 0 := by
  unfold packetPlace at *
  omega

theorem activeBefore_lt {c : Nat} (shown : c < 383839) : activeBefore c < 307199 := by
  rw [activeBefore]
  omega

/-- The first beat of a packet may wait for the next frame. -/
theorem locked_of_waiting (mode : display.controller.sMode = .display)
    (first : packetPlace display.head = 0) (between : c = 0 ∨ 383840 ≤ c) :
    display.Locked c where
  shown := by
    intro shown
    rcases between with rfl | hidden
    · exact ⟨mode, first⟩
    · exact absurd shown (Nat.not_lt.mpr hidden)
  hidden _ := ⟨first, Or.inl mode⟩

/-- Between the frames the controller finds the first beat or keeps it. -/
theorem step_of_waiting (framed : Framed source) (place : display.controller.timing.At c)
    (valid : offer.valid = true) (first : packetPlace display.head = 0) (hidden : 383840 ≤ c) :
    (display.step source offer).controller.sMode = .display ∧
      packetPlace (display.step source offer).head = 0 := by
  cases mode : display.controller.sMode with
  | syncFrame =>
      obtain ⟨found, kept⟩ := step_of_found framed mode valid first
      exact ⟨found, kept ▸ first⟩
  | display =>
      have dark : ¬ VgaTiming.Active c := by
        rw [VgaTiming.Active]
        omega
      have kept := @head_step_of_display source offer _ c place mode valid
      rw [decide_eq_false dark] at kept
      refine ⟨?_, kept ▸ first⟩
      rw [mode_step_of_display place mode, if_neg (by omega)]

/-- Once in step it stays in step. -/
theorem Locked.step (locked : display.Locked c) (framed : Framed source)
    (place : display.controller.timing.At c) (valid : offer.valid = true) :
    (display.step source offer).Locked (VgaTiming.nextPlace c) := by
  have next := VgaTiming.nextPlace_cases place.within
  rcases Nat.lt_or_ge c 383840 with shown | hidden
  · obtain ⟨mode, inStep⟩ := locked.shown shown
    have head := @head_step_of_display source offer _ c place mode valid
    rcases Nat.lt_succ_iff_lt_or_eq.mp shown with less | rfl
    · rcases next with ⟨rfl, -⟩ | ⟨-, next⟩
      · exact absurd less (by decide)
      rw [next]
      refine ⟨fun _ => ⟨?_, ?_⟩, fun hidden => absurd less (by omega)⟩
      · rw [mode_step_of_display place mode, if_neg (Nat.ne_of_lt less)]
      · rw [head, activeBefore_succ shown]
        by_cases active : VgaTiming.Active c
        · rw [decide_eq_true active, ← inStep]
          exact packetPlace_succ (inStep ▸ activeBefore_lt less)
        · rw [decide_eq_false active]
          exact inStep
    · have last : packetPlace (display.head + 1) = 0 := packetPlace_succ_of_last inStep
      exact ⟨fun shown => absurd shown (by decide), fun _ => ⟨head ▸ last, Or.inr rfl⟩⟩
  · have first := (locked.hidden hidden).1
    obtain ⟨mode, kept⟩ := step_of_waiting framed place valid first hidden
    apply locked_of_waiting mode kept
    omega

end Step

/-! ## Getting in step -/

section Run

variable {source : Nat → StreamBeat} {powerUp : VgaController} {offers : Nat → Offer}
  {m n start : Nat}

theorem run_succ (source : Nat → StreamBeat) (powerUp : VgaController) (offers : Nat → Offer)
    (n : Nat) :
    run source powerUp offers (n + 1) = (run source powerUp offers n).step source (offers n) :=
  rfl

/-- The timing does not depend on the stream. -/
theorem run_at (n : Nat) : (run source powerUp offers n).controller.timing.At (place n) := by
  induction n with
  | zero => exact VgaTiming.at_reset
  | succ n ih =>
      rw [place_succ]
      exact step_timing ih

/-- From cycle `start` on the buffer is never empty. -/
def Fed (offers : Nat → Offer) (start : Nat) : Prop :=
  ∀ n, start ≤ n → (offers n).valid = true

theorem Locked.run (locked : (run source powerUp offers n).Locked (place n))
    (framed : Framed source) (fed : Fed offers start) (later : start ≤ n) (upto : n ≤ m) :
    (run source powerUp offers m).Locked (place m) := by
  induction m, upto using Nat.le_induction with
  | base => exact locked
  | succ m upto ih =>
      rw [place_succ]
      exact ih.step framed (run_at m) (fed m (Nat.le_trans later upto))

/-- The controller throws away what is left of a packet. -/
theorem run_of_skipping (framed : Framed source) (fed : Fed offers start) (later : start ≤ n)
    (mode : (run source powerUp offers n).controller.sMode = .syncFrame) (j : Nat)
    (inside : j ≤ toSkip (run source powerUp offers n).head) :
    (run source powerUp offers (n + j)).controller.sMode = .syncFrame ∧
      toSkip (run source powerUp offers (n + j)).head + j =
        toSkip (run source powerUp offers n).head := by
  induction j with
  | zero => exact ⟨mode, Nat.add_zero _⟩
  | succ j ih =>
      obtain ⟨skipping, left⟩ := ih (Nat.le_of_succ_le inside)
      have more : toSkip (run source powerUp offers (n + j)).head ≠ 0 := by omega
      obtain ⟨still, head⟩ := step_of_skipping framed skipping
        (fed (n + j) (Nat.le_add_right_of_le later)) (mt (toSkip_eq_zero_iff _).mpr more)
      refine ⟨still, ?_⟩
      have less := toSkip_succ more
      rw [← Nat.add_assoc n j 1, run_succ, head]
      omega

/-- Then it finds the next one. -/
theorem run_of_found (framed : Framed source) (fed : Fed offers start) (later : start ≤ n)
    (mode : (run source powerUp offers n).controller.sMode = .syncFrame) :
    (run source powerUp offers
        (n + toSkip (run source powerUp offers n).head + 1)).controller.sMode = .display ∧
      packetPlace (run source powerUp offers
        (n + toSkip (run source powerUp offers n).head + 1)).head = 0 := by
  obtain ⟨skipping, left⟩ := run_of_skipping framed fed later mode _ (Nat.le_refl _)
  have first := (toSkip_eq_zero_iff _).mp (Nat.add_eq_right.mp left)
  obtain ⟨found, head⟩ := step_of_found framed skipping
    (fed _ (Nat.le_add_right_of_le later)) first
  rw [run_succ, head]
  exact ⟨found, first⟩

/-- It shows a beat at each active place, down to the last line. -/
theorem run_of_display (fed : Fed offers start) (later : start ≤ n)
    (mode : (run source powerUp offers n).controller.sMode = .display) (j : Nat)
    (shown : place n + j ≤ 383839) :
    (run source powerUp offers (n + j)).controller.sMode = .display ∧
      (run source powerUp offers (n + j)).head + activeBefore (place n) =
        (run source powerUp offers n).head + activeBefore (place n + j) := by
  induction j with
  | zero => exact ⟨mode, rfl⟩
  | succ j ih =>
      obtain ⟨still, head⟩ := ih (Nat.le_of_succ_le shown)
      have here : place (n + j) = place n + j := by
        rw [place, place] at *
        omega
      have at_ := @run_at source powerUp offers (n + j)
      rw [here] at at_
      have head' := @head_step_of_display source (offers (n + j)) _ _ at_ still
        (fed (n + j) (Nat.le_add_right_of_le later))
      constructor
      · rw [← Nat.add_assoc n j 1, run_succ, mode_step_of_display at_ still, if_neg (by omega)]
      · rw [← Nat.add_assoc n j 1, run_succ, head', ← Nat.add_assoc _ j 1,
          activeBefore_succ (by omega)]
        omega

theorem activeBefore_le (c : Nat) : activeBefore c ≤ c := by
  rw [activeBefore]
  omega

/-- What is thrown away in one frame leaves less to throw away in the next. -/
theorem run_of_late (framed : Framed source) (fed : Fed offers start) (later : start ≤ n)
    (bottom : place n = 383840) (mode : (run source powerUp offers n).controller.sMode = .syncFrame)
    (late : 36160 ≤ toSkip (run source powerUp offers n).head) :
    (run source powerUp offers (n + 420000)).controller.sMode = .syncFrame ∧
      toSkip (run source powerUp offers (n + 420000)).head + 36159 ≤
        toSkip (run source powerUp offers n).head := by
  have upper := toSkip_lt (run source powerUp offers n).head
  obtain ⟨displaying, first⟩ := run_of_found framed fed later mode
  generalize skipped : toSkip (run source powerUp offers n).head = k at *
  have begun : place (n + k + 1) = k - 36159 := by
    rw [place] at *
    omega
  -- from there the frame is shown for the rest of its active lines
  obtain ⟨j, rest⟩ : ∃ j, 383839 = k - 36159 + j :=
    Nat.exists_eq_add_of_le (by omega)
  obtain ⟨still, head⟩ := run_of_display fed (by omega) displaying j (by rw [begun, rest])
  have last : place (n + k + 1 + j) = 383839 := by
    rw [place] at *
    omega
  have at_ := @run_at source powerUp offers (n + k + 1 + j)
  rw [last] at at_
  have head' := @head_step_of_display source (offers (n + k + 1 + j)) _ _ at_ still
    (fed _ (by omega))
  have mode' := @mode_step_of_display source (offers (n + k + 1 + j)) _ _ at_ still
  rw [← run_succ, show n + k + 1 + j + 1 = n + 420000 by omega] at head' mode'
  refine ⟨mode', ?_⟩
  have shown : activeBefore 383839 = 307199 := rfl
  have few := activeBefore_le (k - 36159)
  rw [begun, ← rest, shown] at head
  change _ = _ + 1 at head'
  unfold toSkip packetPlace at *
  omega

/-- From the bottom of the screen it takes at most nine frames. -/
theorem exists_locked_of_bottom (framed : Framed source) (fed : Fed offers start)
    (later : start ≤ n) (bottom : place n = 383840)
    (searching : (run source powerUp offers n).controller.sMode = .syncFrame ∨
      packetPlace (run source powerUp offers n).head = 0) :
    ∃ m, n ≤ m ∧
      m ≤ n + 36160 + 420000 * (toSkip (run source powerUp offers n).head / 36159) ∧
      (run source powerUp offers m).Locked (place m) := by
  generalize bound : toSkip (run source powerUp offers n).head = k
  induction k using Nat.strongRecOn generalizing n with
  | ind k ih =>
      by_cases first : packetPlace (run source powerUp offers n).head = 0
      · refine ⟨n, Nat.le_refl n, by omega, ?_⟩
        exact ⟨fun shown => absurd shown (by omega), fun _ => ⟨first, Or.inr bottom⟩⟩
      · have mode := searching.resolve_right first
        by_cases late : 36160 ≤ k
        · obtain ⟨mode', less⟩ := run_of_late framed fed later bottom mode (bound ▸ late)
          have bottom' : place (n + 420000) = 383840 := by
            rw [place] at *
            omega
          obtain ⟨m, after, soon, locked⟩ := ih _ (by omega) (by omega) bottom' (Or.inl mode') rfl
          exact ⟨m, by omega, by omega, locked⟩
        · obtain ⟨displaying, found⟩ := run_of_found framed fed later mode
          rw [bound] at displaying found
          refine ⟨n + k + 1, by omega, by omega, locked_of_waiting displaying found ?_⟩
          rw [place] at *
          omega

/-- Wherever the controller is when the stream begins to flow, after ten frames
it is in step with the packets, and it stays so. -/
theorem locked_of_fed (framed : Framed source) (fed : Fed offers start)
    (later : start + 4200000 ≤ n) : (run source powerUp offers n).Locked (place n) := by
  obtain ⟨b, after, soon, bottom⟩ : ∃ b, start ≤ b ∧ b < start + 420000 ∧ place b = 383839 := by
    refine ⟨start + (803839 - place start) % 420000, by omega, by omega, ?_⟩
    rw [place, place]
    omega
  have at_ := @run_at source powerUp offers b
  rw [bottom] at at_
  have searching := @mode_step_of_last source (offers b) _ framed at_
  rw [← run_succ] at searching
  have bottom' : place (b + 1) = 383840 := by
    rw [place] at *
    omega
  obtain ⟨m, beyond, reached, locked⟩ :=
    exists_locked_of_bottom framed fed (by omega) bottom' searching
  have few := toSkip_lt (run source powerUp offers (b + 1)).head
  exact locked.run framed fed (by omega) (by omega)

/-! ## What is on the pins -/

/-- The standard outputs at a place that shows a beat. -/
def pinsAt (c : Nat) (beat : StreamBeat) : VgaPins where
  vgaBlank := decide (VgaTiming.Active c)
  vgaHs := decide (¬ VgaTiming.HSync c)
  vgaVs := decide (¬ VgaTiming.VSync c)
  vgaR := if VgaTiming.Active c then beat.streamData.extractLsb' 26 4 else 0#4
  vgaG := if VgaTiming.Active c then beat.streamData.extractLsb' 16 4 else 0#4
  vgaB := if VgaTiming.Active c then beat.streamData.extractLsb' 6 4 else 0#4

/-- The outputs are two cycles behind the place. -/
theorem pins_step_step {display : Display} {c : Nat} (offer offer' : Offer)
    (at_ : display.controller.timing.At c) :
    ((display.step source offer).step source offer').controller.pins =
      pinsAt c (display.beat source offer) := by
  have dark : display.controller.timing.blankingPulse = !decide (VgaTiming.Active c) := by
    rw [Bool.eq_iff_iff, at_.blanking, Bool.not_eq_true', decide_eq_false_iff_not]
  have h : display.controller.timing.hsyncPulse = decide (VgaTiming.HSync c) :=
    Bool.eq_iff_iff.mpr (at_.h.trans decide_eq_true_iff.symm)
  have v : display.controller.timing.vsyncPulse = decide (VgaTiming.VSync c) :=
    Bool.eq_iff_iff.mpr (at_.v.trans decide_eq_true_iff.symm)
  change VgaPins.mk (!display.controller.timing.blankingPulse)
    (!display.controller.timing.hsyncPulse) (!display.controller.timing.vsyncPulse)
    (if display.controller.timing.blankingPulse = true then _ else _)
    (if display.controller.timing.blankingPulse = true then _ else _)
    (if display.controller.timing.blankingPulse = true then _ else _) = _
  rw [dark, h, v, pinsAt]
  by_cases active : VgaTiming.Active c
  · simp only [active, decide_true, decide_not, Bool.not_true, Bool.not_false, if_true]
    rfl
  · simp only [active, decide_false, decide_not, Bool.not_false, if_true, if_false]
    rfl

/-- The display shows the packets.  Let the beats of the stream begin a packet
every 307200 beats, from the fifth one on, and let the dual clock buffer never
run empty from some cycle on.  Then ten frames later, wherever the controller
was in the frame and in the packet, every place of the beam has the standard
synchronisation and blanking, and pixel `x` of line `y` shows the beat with the
number `640 * y + x` of a packet. -/
theorem pins_show_packets (framed : Framed source) (fed : Fed offers start)
    (later : start + 4200000 ≤ n) :
    (run source powerUp offers (n + 2)).controller.pins =
        pinsAt (place n) (source (run source powerUp offers n).head) ∧
      (VgaTiming.Active (place n) →
        packetPlace (run source powerUp offers n).head =
          640 * (place n / 800) + place n % 800) := by
  have locked := @locked_of_fed source powerUp offers n start framed fed later
  constructor
  · rw [run_succ, run_succ, pins_step_step _ _ (run_at n), beat, if_pos (fed n (by omega))]
  · exact locked.packetPlace_of_active

/-- Black packets, from the first cycle on. -/
def blackPacket (i : Nat) : StreamBeat :=
  ⟨0#30, decide (packetPlace i = 0), false⟩

/-- A run that shows them. -/
def blackRun (n : Nat) : Display :=
  run blackPacket ⟨.syncFrame, .reset, ⟨false, false, false, 0#4, 0#4, 0#4⟩⟩
    (fun _ => ⟨true, blackPacket 0⟩) n

theorem framed_blackPacket : Framed blackPacket := by
  intro i
  simp [blackPacket]

theorem black_packets_shown :
    ∃ start, ∀ n, start ≤ n →
      (blackRun (n + 2)).controller.pins = pinsAt (place n) (blackPacket (blackRun n).head) ∧
        (VgaTiming.Active (place n) →
          packetPlace (blackRun n).head = 640 * (place n / 800) + place n % 800) :=
  ⟨0 + 4200000, fun _ later => pins_show_packets framed_blackPacket (fun _ _ => rfl) later⟩

end Run

end Display

end FpgaTrivia.Hardware
