import FpgaTrivia.Transition.Timer

/-!
# The clock divider

The divider halves a period of 50 million edges of the board clock with a
26-bit counter.  The top level holds its reset input at `'1'`, so the counter
may power up with any value.  Seen from outside the divider is a timer that is
loaded with 25 million edges whenever it toggles its output.
-/

namespace FpgaTrivia.Hardware

open FpgaTrivia.Transition

/-- The registers of `clock_divider`: `cnt` is a `signed(25 downto 0)`. -/
structure ClockDivider where
  cnt : BitVec 26
  clkSig : Bool
  deriving DecidableEq, Repr

namespace ClockDivider

/-- `CLOCKS_PER_HALF_PERIOD`. -/
def clocksPerHalfPeriod : BitVec 26 :=
  BitVec.ofInt 26 (50000000 / 2 / 1 - 2)

/-- The registers after `i_rstb = '0'`. -/
def reset : ClockDivider where
  cnt := clocksPerHalfPeriod
  clkSig := false

/-- The process of the divider at a rising edge of `i_clk_50MHz`.  In the
branch `cnt < 0` the later assignment to `cnt` overrides the decrement. -/
def risingEdge (iRstb : Bool) (divider : ClockDivider) : ClockDivider :=
  if iRstb = false then reset
  else if divider.cnt.slt 0 = true then
    { cnt := clocksPerHalfPeriod, clkSig := !divider.clkSig }
  else { divider with cnt := divider.cnt - 1 }

/-- `o_clk_XHz`. -/
def oClkXHz (divider : ClockDivider) : Bool :=
  divider.clkSig

/-- The registers after `n` rising edges with `i_rstb` held at `'1'`. -/
def afterEdges (divider : ClockDivider) (n : Nat) : ClockDivider :=
  Transition.run (fun divider (_ : Unit) => divider.risingEdge true) divider (fun _ => ()) n

/-- Edge number `e` toggles the output; the first edge has the number 1. -/
def Toggles (divider : ClockDivider) (e : Nat) : Prop :=
  0 < e ∧ (divider.afterEdges e).oClkXHz ≠ (divider.afterEdges (e - 1)).oClkXHz

/-! ## One edge -/

theorem clocksPerHalfPeriod_toInt : clocksPerHalfPeriod.toInt = 24999998 := by
  decide

theorem risingEdge_of_neg {divider : ClockDivider} (expired : divider.cnt.toInt < 0) :
    divider.risingEdge true = { cnt := clocksPerHalfPeriod, clkSig := !divider.clkSig } := by
  have test : divider.cnt.slt 0 = true := BitVec.slt_iff_toInt_lt.mpr expired
  rw [risingEdge, if_neg (by decide), if_pos test]

theorem risingEdge_of_nonneg {divider : ClockDivider} (running : 0 ≤ divider.cnt.toInt) :
    divider.risingEdge true = { divider with cnt := divider.cnt - 1 } := by
  have test : ¬ divider.cnt.slt 0 = true :=
    fun expired => absurd (BitVec.slt_iff_toInt_lt.mp expired) (Int.not_lt.mpr running)
  rw [risingEdge, if_neg (by decide), if_neg test]

/-- The decrement stays in the 26-bit range, because a negative counter is not
decremented. -/
theorem toInt_sub_one {cnt : BitVec 26} (running : 0 ≤ cnt.toInt) :
    (cnt - 1).toInt = cnt.toInt - 1 := by
  have upper := @BitVec.toInt_lt 26 cnt
  rw [BitVec.toInt_sub, show (1 : BitVec 26).toInt = 1 from rfl]
  apply Int.bmod_eq_of_le_mul_two
  · omega
  · omega

/-- The value stored in the counter at an edge is the one that is meant. -/
theorem risingEdge_cnt (divider : ClockDivider) :
    (divider.risingEdge true).cnt.toInt =
      if divider.cnt.toInt < 0 then clocksPerHalfPeriod.toInt else divider.cnt.toInt - 1 := by
  by_cases expired : divider.cnt.toInt < 0
  · rw [if_pos expired, risingEdge_of_neg expired]
  · have running := Int.not_lt.mp expired
    rw [if_neg expired, risingEdge_of_nonneg running]
    exact toInt_sub_one running

/-- The output changes exactly when the counter has run below zero. -/
theorem risingEdge_oClkXHz_ne_iff (divider : ClockDivider) :
    (divider.risingEdge true).oClkXHz ≠ divider.oClkXHz ↔ divider.cnt.toInt < 0 := by
  by_cases expired : divider.cnt.toInt < 0
  · rw [risingEdge_of_neg expired]
    simp [oClkXHz, expired]
  · rw [risingEdge_of_nonneg (Int.not_lt.mp expired)]
    simp [oClkXHz, expired]

/-! ## The divider as a timer -/

/-- The number of edges up to the next toggle, that one included. -/
def edgesLeft (divider : ClockDivider) : Nat :=
  (max divider.cnt.toInt (-1) + 2).toNat

theorem edgesLeft_eq (divider : ClockDivider) :
    (divider.edgesLeft : Int) = max divider.cnt.toInt (-1) + 2 := by
  rw [edgesLeft]
  omega

theorem edgesLeft_pos (divider : ClockDivider) : 0 < divider.edgesLeft := by
  have left := divider.edgesLeft_eq
  omega

theorem edgesLeft_eq_one_iff (divider : ClockDivider) :
    divider.edgesLeft = 1 ↔ divider.cnt.toInt < 0 := by
  have left := divider.edgesLeft_eq
  omega

/-- The edges between two toggles. -/
def edgesPerToggle : Nat := 25000000

/-- At every edge the divider does what the timer does. -/
theorem edgesLeft_risingEdge (divider : ClockDivider) :
    (divider.risingEdge true).edgesLeft = reload edgesPerToggle divider.edgesLeft := by
  have after := (divider.risingEdge true).edgesLeft_eq
  have before := divider.edgesLeft_eq
  rw [risingEdge_cnt, clocksPerHalfPeriod_toInt] at after
  by_cases expired : divider.cnt.toInt < 0
  · rw [if_pos expired] at after
    rw [divider.edgesLeft_eq_one_iff.mpr expired, reload_of_expiring]
    have loaded : (edgesPerToggle : Int) = 25000000 := rfl
    omega
  · rw [if_neg expired] at after
    rw [reload_of_pending (mt divider.edgesLeft_eq_one_iff.mp expired)]
    omega

theorem edgesLeft_simulates :
    Simulates (fun divider (_ : Unit) => risingEdge true divider)
      (fun left (_ : Unit) => reload edgesPerToggle left) edgesLeft (fun _ _ => ()) :=
  fun divider _ => divider.edgesLeft_risingEdge

theorem edgesLeft_afterEdges (divider : ClockDivider) (n : Nat) :
    (divider.afterEdges n).edgesLeft = stepsLeft edgesPerToggle divider.edgesLeft n :=
  edgesLeft_simulates.run divider (fun _ => ()) n

theorem afterEdges_succ (divider : ClockDivider) (n : Nat) :
    divider.afterEdges (n + 1) = (divider.afterEdges n).risingEdge true :=
  rfl

/-- An edge toggles the output when the counter has been below zero before. -/
theorem toggles_succ_iff (divider : ClockDivider) (n : Nat) :
    divider.Toggles (n + 1) ↔ (divider.afterEdges n).cnt.toInt < 0 := by
  rw [Toggles, Nat.add_sub_cancel, afterEdges_succ, risingEdge_oClkXHz_ne_iff]
  exact and_iff_right (Nat.succ_pos n)

/-- The toggles follow one another in the period of the timer. -/
theorem toggles_iff (divider : ClockDivider) (e : Nat) :
    divider.Toggles e ↔ ∃ k : Nat, (e : Int) = max divider.cnt.toInt (-1) + 2 + 25000000 * k := by
  have left := divider.edgesLeft_eq
  cases e with
  | zero =>
      constructor
      · rintro ⟨positive, -⟩
        exact absurd positive (Nat.lt_irrefl 0)
      · rintro ⟨k, first⟩
        omega
  | succ n =>
      rw [toggles_succ_iff, ← edgesLeft_eq_one_iff, edgesLeft_afterEdges,
        stepsLeft_eq_one_iff (by decide) divider.edgesLeft_pos]
      unfold edgesPerToggle
      constructor
      · rintro ⟨k, edge⟩
        exact ⟨k, by omega⟩
      · rintro ⟨k, edge⟩
        exact ⟨k, by omega⟩

/-! ## The range of the counter -/

/-- The counter lies between the value it expires with and the one it is
loaded with. -/
def InRange (divider : ClockDivider) : Prop :=
  -1 ≤ divider.cnt.toInt ∧ divider.cnt.toInt ≤ clocksPerHalfPeriod.toInt

theorem InRange.risingEdge {divider : ClockDivider} (inRange : divider.InRange) :
    (divider.risingEdge true).InRange := by
  obtain ⟨lower, upper⟩ := inRange
  rw [clocksPerHalfPeriod_toInt] at upper
  rw [InRange, risingEdge_cnt, clocksPerHalfPeriod_toInt]
  by_cases expired : divider.cnt.toInt < 0
  · rw [if_pos expired]
    omega
  · rw [if_neg expired]
    omega

/-- A toggle loads the counter. -/
theorem inRange_of_toggles {divider : ClockDivider} {e : Nat} (toggles : divider.Toggles e) :
    (divider.afterEdges e).InRange := by
  cases e with
  | zero => exact absurd toggles.1 (Nat.lt_irrefl 0)
  | succ n =>
      have expired := (divider.toggles_succ_iff n).mp toggles
      rw [afterEdges_succ, risingEdge_of_neg expired, InRange, clocksPerHalfPeriod_toInt]
      exact ⟨by decide, Int.le_refl _⟩

/-- From the first toggle on the counter stays in range. -/
theorem inRange_of_le {divider : ClockDivider} {first e : Nat} (toggles : divider.Toggles first)
    (later : first ≤ e) : (divider.afterEdges e).InRange := by
  apply interval_induction (P := fun e => (divider.afterEdges e).InRange) later
    (inRange_of_toggles toggles)
  intro n _ _ inRange
  exact inRange.risingEdge

/-- From every power-up state the divider is an exact clock.  Its output
toggles first at edge `max cnt (-1) + 2` and from then on at every edge number
25000000 after the toggle before; from the first toggle on every value of the
counter lies between -1 and the constant; and no value stored in the counter
wraps around. -/
theorem exact_clock (divider : ClockDivider) :
    (∀ e : Nat, divider.Toggles e ↔
        ∃ k : Nat, (e : Int) = max divider.cnt.toInt (-1) + 2 + 25000000 * k) ∧
      (∀ e : Nat, max divider.cnt.toInt (-1) + 2 ≤ e →
        -1 ≤ (divider.afterEdges e).cnt.toInt ∧
          (divider.afterEdges e).cnt.toInt ≤ clocksPerHalfPeriod.toInt) ∧
      ∀ n, (divider.afterEdges (n + 1)).cnt.toInt =
        if (divider.afterEdges n).cnt.toInt < 0 then clocksPerHalfPeriod.toInt
        else (divider.afterEdges n).cnt.toInt - 1 := by
  refine ⟨divider.toggles_iff, ?_, fun n => (divider.afterEdges n).risingEdge_cnt⟩
  intro e later
  have left := divider.edgesLeft_eq
  have first : divider.Toggles divider.edgesLeft := by
    apply (divider.toggles_iff _).mpr
    exact ⟨0, by omega⟩
  exact inRange_of_le first (by omega)

end ClockDivider

end FpgaTrivia.Hardware
