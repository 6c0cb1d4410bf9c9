import FpgaTrivia.Hardware.ClockDivider

/-!
# The divided clock

The state machine is clocked by the rising edges of the divider's output.  The
divider is a timer for them as well: it is loaded with 50 million edges
whenever its output rises.
-/

namespace FpgaTrivia.Hardware

open FpgaTrivia.Transition

namespace ClockDivider

/-- The output rises at the next edge. -/
def Rises (divider : ClockDivider) : Prop :=
  divider.oClkXHz = false ∧ (divider.risingEdge true).oClkXHz = true

instance (divider : ClockDivider) : Decidable divider.Rises :=
  inferInstanceAs (Decidable (_ = false ∧ _ = true))

/-- The edges up to the next rising one of the output, that one included. -/
def edgesToRise (divider : ClockDivider) : Nat :=
  divider.edgesLeft + if divider.clkSig = true then edgesPerToggle else 0

/-- The edges between two rising ones. -/
def edgesPerTick : Nat := 50000000

theorem edgesToRise_pos (divider : ClockDivider) : 0 < divider.edgesToRise :=
  Nat.lt_of_lt_of_le divider.edgesLeft_pos (Nat.le_add_right _ _)

theorem edgesToRise_le (divider : ClockDivider) : divider.edgesToRise ≤ 58554433 := by
  have left := divider.edgesLeft_eq
  have upper := @BitVec.toInt_lt 26 divider.cnt
  unfold edgesToRise edgesPerToggle
  split <;> omega

theorem rises_iff_edgesToRise (divider : ClockDivider) :
    divider.Rises ↔ divider.edgesToRise = 1 := by
  have positive := divider.edgesLeft_pos
  have expires := divider.risingEdge_oClkXHz_ne_iff
  rw [← edgesLeft_eq_one_iff] at expires
  rw [Rises, edgesToRise]
  cases level : divider.clkSig with
  | true =>
      constructor
      · rintro ⟨low, -⟩
        exact absurd (level.symm.trans low) (by decide)
      · intro one
        rw [if_pos rfl, edgesPerToggle] at one
        omega
  | false =>
      have low : divider.oClkXHz = false := level
      rw [low, Bool.ne_false_iff] at expires
      rw [low, expires]
      simp

/-- At every edge the divider does what this timer does. -/
theorem edgesToRise_risingEdge (divider : ClockDivider) :
    (divider.risingEdge true).edgesToRise = reload edgesPerTick divider.edgesToRise := by
  have positive := divider.edgesLeft_pos
  rw [edgesToRise, edgesToRise, edgesLeft_risingEdge]
  by_cases expired : divider.edgesLeft = 1
  · rw [expired, reload_of_expiring,
      risingEdge_of_neg (divider.edgesLeft_eq_one_iff.mp expired)]
    cases divider.clkSig with
    | true => rfl
    | false => rfl
  · have running := Int.not_lt.mp (mt divider.edgesLeft_eq_one_iff.mpr expired)
    rw [reload_of_pending expired, risingEdge_of_nonneg running,
      reload_of_pending (by omega)]
    change divider.edgesLeft - 1 + (if divider.clkSig = true then edgesPerToggle else 0) = _
    omega

theorem edgesToRise_afterEdges (divider : ClockDivider) (n : Nat) :
    (divider.afterEdges n).edgesToRise = stepsLeft edgesPerTick divider.edgesToRise n := by
  have simulates : Simulates (fun divider (_ : Unit) => risingEdge true divider)
      (fun left (_ : Unit) => reload edgesPerTick left) edgesToRise (fun _ _ => ()) :=
    fun divider _ => divider.edgesToRise_risingEdge
  exact simulates.run divider (fun _ => ()) n

/-- From every power-up state the output rises at one edge in 50 million. -/
theorem rises_iff (divider : ClockDivider) (n : Nat) :
    (divider.afterEdges n).Rises ↔ ∃ k, n + 1 = divider.edgesToRise + edgesPerTick * k := by
  rw [rises_iff_edgesToRise, edgesToRise_afterEdges,
    stepsLeft_eq_one_iff (by decide) divider.edgesToRise_pos]

end ClockDivider

end FpgaTrivia.Hardware
