import Mathlib.Data.BitVec
import Mathlib.Tactic.Common

/-!
# The busy sleep

`usleep` counts a register down in a loop of two instructions.  Long sleeps are
cut into pieces of `INT_MAX` passes, and the last piece is what remains.  The
loops test after the first pass, and so a piece of nothing is not skipped: the
register wraps around.
-/

namespace FpgaTrivia.Software

/-- The branch of a delay loop: the register has not reached zero. -/
def bne (r : BitVec 32) : Bool :=
  r != 0#32

/-- The other one: the register is positive as a signed number. -/
def bgt (r : BitVec 32) : Bool :=
  (0#32).slt r

/-- The loop `0: addi r, r, -1` with a branch back; the number of its passes.
Fuel that runs out gives none. -/
def delayLoop (branch : BitVec 32 → Bool) : Nat → BitVec 32 → Option Nat
  | 0, _ => none
  | fuel + 1, r =>
      if branch (r - 1#32) = true then (delayLoop branch fuel (r - 1#32)).map (· + 1)
      else some 1

/-- `cycles_per_loop` of the implementation `tiny`. -/
def cyclesPerLoop : Nat := 9

/-- `ALT_CPU_FREQ / (cycles_per_loop * 1000000)`. -/
def loopsPerUs : Nat :=
  50000000 / (cyclesPerLoop * 1000000)

/-- `INT_MAX`. -/
def intMax : Nat := 2147483647

/-- The loop over `big_loops`: the passes of its delays, and what remains of
`us`. -/
def bigLoop (fuel : Nat) : Nat → BitVec 32 → Option (Nat × BitVec 32)
  | 0, us => some (0, us)
  | bigLoops + 1, us => do
      let passes ← delayLoop bne fuel (BitVec.ofNat 32 intMax)
      let rest ← bigLoop fuel bigLoops (us - BitVec.ofNat 32 (intMax / loopsPerUs))
      return (passes + rest.1, rest.2)

/-- `alt_busy_sleep`: the passes of all its delay loops. -/
def altBusySleep (fuel : Nat) (us : BitVec 32) : Option Nat :=
  let bigLoops := us.toNat / (intMax / loopsPerUs)
  if bigLoops ≠ 0 then do
    let big ← bigLoop fuel bigLoops us
    let last ← delayLoop bne fuel (big.2 * BitVec.ofNat 32 loopsPerUs)
    return big.1 + last
  else delayLoop bgt fuel (us * BitVec.ofNat 32 loopsPerUs)

/-! ## One loop -/

theorem toNat_pred {r : BitVec 32} (positive : 0 < r.toNat) :
    (r - 1#32).toNat = r.toNat - 1 := by
  have upper := r.isLt
  rw [BitVec.toNat_sub]
  change (2 ^ 32 - 1 + r.toNat) % 2 ^ 32 = _
  omega

theorem bne_iff (r : BitVec 32) : bne r = true ↔ 0 < r.toNat := by
  rw [bne, bne_iff_ne, ne_eq, ← BitVec.toNat_inj, Nat.pos_iff_ne_zero]
  rfl

theorem bgt_iff {r : BitVec 32} (positive : r.toNat < 2 ^ 31) : bgt r = true ↔ 0 < r.toNat := by
  rw [bgt, BitVec.slt_iff_toInt_lt, BitVec.toInt_zero, BitVec.toInt_eq_toNat_of_lt (by omega)]
  omega

/-- A loop whose branch is taken down to zero makes as many passes as its
register says. -/
theorem delayLoop_eq {branch : BitVec 32 → Bool} {bound : Nat}
    (taken : ∀ r : BitVec 32, r.toNat < bound → (branch r = true ↔ 0 < r.toNat)) {fuel : Nat}
    {r : BitVec 32} (positive : 0 < r.toNat) (within : r.toNat ≤ bound) (enough : r.toNat ≤ fuel) :
    delayLoop branch fuel r = some r.toNat := by
  induction fuel generalizing r with
  | zero => exact absurd positive (Nat.not_lt.mpr enough)
  | succ fuel ih =>
      have pred := toNat_pred positive
      have again := taken (r - 1#32) (by omega)
      rw [delayLoop]
      by_cases last : r.toNat = 1
      · rw [if_neg (by rw [again]; omega), last]
      · rw [if_pos (by rw [again]; omega), ih (by omega) (by omega) (by omega), pred]
        exact congrArg some (Nat.sub_add_cancel positive)

theorem delayLoop_bne {fuel : Nat} {r : BitVec 32} (positive : 0 < r.toNat)
    (enough : 4294967296 ≤ fuel) : delayLoop bne fuel r = some r.toNat := by
  have upper := r.isLt
  exact delayLoop_eq (fun r _ => bne_iff r) positive (Nat.le_of_lt upper)
    (Nat.le_trans (Nat.le_of_lt upper) enough)

/-- A register of zero wraps around. -/
theorem delayLoop_bne_zero {fuel : Nat} (enough : 4294967296 ≤ fuel) :
    delayLoop bne fuel 0#32 = some 4294967296 := by
  obtain ⟨fuel, rfl⟩ : ∃ k, fuel = k + 1 := ⟨fuel - 1, by omega⟩
  have wrapped : (0#32 - 1#32).toNat = 4294967295 := by decide
  have rest : delayLoop bne fuel (0#32 - 1#32) = some 4294967295 := by
    rw [← wrapped]
    apply delayLoop_eq (fun r _ => bne_iff r)
    · rw [wrapped]
      decide
    · exact Nat.le_refl _
    · rw [wrapped]
      omega
  rw [delayLoop, if_pos (by decide), rest]
  rfl

theorem delayLoop_bgt {fuel : Nat} {r : BitVec 32} (low : r.toNat < 2147483648)
    (enough : 4294967296 ≤ fuel) : delayLoop bgt fuel r = some (max 1 r.toNat) := by
  rcases Nat.eq_zero_or_pos r.toNat with zero | positive
  · obtain rfl : r = 0#32 := BitVec.eq_of_toNat_eq zero
    obtain ⟨fuel, rfl⟩ : ∃ k, fuel = k + 1 := ⟨fuel - 1, by omega⟩
    rw [delayLoop, if_neg (by decide)]
    rfl
  · rw [Nat.max_eq_right positive]
    exact delayLoop_eq (fun r within => bgt_iff within) positive (Nat.le_of_lt low) (by omega)

/-! ## The whole sleep -/

theorem toNat_mul_loops {us : BitVec 32} (small : us.toNat < 429496729) :
    (us * BitVec.ofNat 32 loopsPerUs).toNat = 5 * us.toNat := by
  rw [BitVec.toNat_mul]
  change us.toNat * 5 % 4294967296 = _
  omega

theorem bigLoop_eq {fuel : Nat} (enough : 4294967296 ≤ fuel) {bigLoops : Nat} {us : BitVec 32}
    (long : 429496729 * bigLoops ≤ us.toNat) :
    ∃ rest, bigLoop fuel bigLoops us = some (bigLoops * intMax, rest) ∧
      rest.toNat + 429496729 * bigLoops = us.toNat := by
  induction bigLoops generalizing us with
  | zero => exact ⟨us, by rw [Nat.zero_mul]; rfl, rfl⟩
  | succ bigLoops ih =>
      have upper := us.isLt
      have shorter : (us - BitVec.ofNat 32 (intMax / loopsPerUs)).toNat =
          us.toNat - 429496729 := by
        rw [BitVec.toNat_sub]
        change (4294967296 - 429496729 + us.toNat) % 4294967296 = _
        omega
      obtain ⟨rest, passes, left⟩ := ih (by rw [shorter]; omega)
      refine ⟨rest, ?_, by omega⟩
      have first : delayLoop bne fuel (BitVec.ofNat 32 intMax) = some intMax :=
        delayLoop_bne (by decide) enough
      rw [bigLoop, first, passes]
      exact congrArg (fun passes => some (passes, rest)) (by rw [Nat.succ_mul, Nat.add_comm])

/-- The passes of a sleep. -/
def passes (us : Nat) : Nat :=
  if us < 429496729 then max 1 (5 * us)
  else us / 429496729 * intMax +
    if us % 429496729 = 0 then 4294967296 else 5 * (us % 429496729)

/-- Every sleep ends.  A sleep of up to seven minutes makes five passes for each
microsecond, and at least one; a longer one makes two more for every
429496729 microseconds, and `2 ^ 32` more if nothing remains of it. -/
theorem altBusySleep_eq {fuel : Nat} (enough : 4294967296 ≤ fuel) (us : BitVec 32) :
    altBusySleep fuel us = some (passes us.toNat) := by
  have upper := us.isLt
  unfold altBusySleep passes
  rw [show intMax / loopsPerUs = 429496729 from rfl]
  by_cases short : us.toNat < 429496729
  · rw [if_pos short, if_neg (by omega), delayLoop_bgt _ enough, toNat_mul_loops short]
    rw [toNat_mul_loops short]
    omega
  · obtain ⟨rest, big, left⟩ :=
      @bigLoop_eq fuel enough (us.toNat / 429496729) us (Nat.mul_div_le _ _)
    have remains : rest.toNat = us.toNat % 429496729 := by omega
    rw [if_neg short, if_pos (by omega), big]
    change (delayLoop bne fuel _).bind _ = _
    by_cases none : us.toNat % 429496729 = 0
    · obtain rfl : rest = 0#32 := BitVec.eq_of_toNat_eq (remains.trans none)
      rw [if_pos none, show 0#32 * BitVec.ofNat 32 loopsPerUs = 0#32 from rfl,
        delayLoop_bne_zero enough]
      rfl
    · have small : rest.toNat < 429496729 := by omega
      rw [if_neg none, delayLoop_bne _ enough, toNat_mul_loops small, remains]
      · rfl
      · rw [toNat_mul_loops small]
        omega

/-- For instance the second that a wrong answer is shown for. -/
theorem altBusySleep_second : altBusySleep 4294967296 1000000#32 = some (passes 1000000) :=
  altBusySleep_eq (Nat.le_refl _) 1000000#32

end FpgaTrivia.Software
