import FpgaTrivia.System.Pacing

/-!
# Schedules that leave the program enough time

An iteration takes six steps at most.  Eighteen steps between two ticks are
therefore enough for two whole iterations, wherever in the loop the first tick
finds the program.
-/

namespace FpgaTrivia.Software

/-- The steps of an iteration that are left, at most. -/
def Pc.stepsLeft : Pc → Nat
  | .readKey => 6
  | .readLevel => 5
  | .judge => 4
  | .wrong => 3
  | .redraw => 2
  | .writeAnswer => 1

theorem Pc.stepsLeft_pos (pc : Pc) : 0 < pc.stepsLeft := by
  cases pc <;> decide

theorem Pc.stepsLeft_le (pc : Pc) : pc.stepsLeft ≤ 6 := by
  cases pc <;> decide

/-- Each step but the last one comes closer to the end of the iteration. -/
theorem Sw.stepsLeft_step {s : Sw} (inside : s.pc ≠ .writeAnswer) (input : Input)
    (level : BitVec 4) : (s.step input level).pc.stepsLeft < s.pc.stepsLeft := by
  rcases pc : s.pc with _ | _ | _ | _ | _ | _
  · rw [step_readKey pc]
    exact Nat.lt_add_one 5
  · rw [step_readLevel pc]
    exact Nat.lt_add_one 4
  · rw [step_judge pc]
    rcases judge_pc input.wild s with next | next <;> rw [next] <;> decide
  · rw [step_wrong pc]
    exact Nat.lt_add_one 2
  · rw [step_redraw pc, redraw_pc]
    exact Nat.lt_add_one 1
  · exact absurd pc inside

end FpgaTrivia.Software

namespace FpgaTrivia.System

open FpgaTrivia.Software

namespace Trace

variable {trace : Trace} {m n k : Nat}

/-- The program takes a step at each of the events from `n` up to `m`. -/
def Busy (trace : Trace) (n m : Nat) : Prop :=
  ∀ i, n ≤ i → i < m → ¬ trace.Ticks i

theorem Busy.mono {n' m' : Nat} (busy : trace.Busy n m) (lower : n ≤ n') (upper : m' ≤ m) :
    trace.Busy n' m' :=
  fun i first last => busy i (Nat.le_trans lower first) (Nat.lt_of_lt_of_le last upper)

theorem Busy.loop (busy : trace.Busy n m) (less : n < m) :
    ∃ input, trace.events n = .loop input := by
  rcases event : trace.events n with _ | input
  · exact absurd event (busy n (Nat.le_refl n) less)
  · exact ⟨input, rfl⟩

theorem Busy.exists_finishes_of_stepsLeft_le (busy : trace.Busy n (n + k))
    (left : (trace.sw n).pc.stepsLeft ≤ k) : ∃ f, n ≤ f ∧ f < n + k ∧ trace.Finishes f := by
  induction k generalizing n with
  | zero => exact absurd left (Nat.not_le_of_lt (Pc.stepsLeft_pos _))
  | succ k ih =>
      obtain ⟨input, event⟩ := busy.loop (Nat.lt_add_of_pos_right (Nat.succ_pos k))
      by_cases last : (trace.sw n).pc = .writeAnswer
      · exact ⟨n, Nat.le_refl n, Nat.lt_add_of_pos_right (Nat.succ_pos k), ⟨input, event⟩, last⟩
      · have closer := Sw.stepsLeft_step last input (trace.board n).fsm.oCount
        rw [← sw_loop event] at closer
        obtain ⟨f, lower, upper, finishes⟩ :=
          @ih (n + 1) (busy.mono (Nat.le_succ n) (by omega)) (by omega)
        exact ⟨f, Nat.le_of_succ_le lower, by omega, finishes⟩

/-- Six steps in a row finish the iteration that is under way. -/
theorem Busy.exists_finishes (busy : trace.Busy n (n + 6)) :
    ∃ f, n ≤ f ∧ f < n + 6 ∧ trace.Finishes f :=
  busy.exists_finishes_of_stepsLeft_le (Pc.stepsLeft_le _)

/-- Where an iteration finishes, the next step starts another one. -/
theorem Finishes.starts_succ (finishes : trace.Finishes n) (steps : ¬ trace.Ticks (n + 1)) :
    trace.Starts (n + 1) := by
  obtain ⟨⟨input, event⟩, pc⟩ := finishes
  constructor
  · rcases next : trace.events (n + 1) with _ | input
    · exact absurd next steps
    · exact ⟨input, rfl⟩
  · rw [sw_loop event, Sw.step_writeAnswer pc]
    rfl

/-- Eighteen steps in a row hold two whole iterations. -/
theorem Busy.twoIterations (busy : trace.Busy (m + 1) (m + 19)) (upto : m + 19 ≤ n) :
    trace.TwoIterations m n := by
  obtain ⟨f, lower, upper, finishes⟩ :=
    @Busy.exists_finishes trace (m + 1) (busy.mono (Nat.le_refl _) (by omega))
  obtain ⟨f₁, lower₁, upper₁, finishes₁⟩ :=
    @Busy.exists_finishes trace (f + 1) (busy.mono (by omega) (by omega))
  obtain ⟨f₂, lower₂, upper₂, finishes₂⟩ :=
    @Busy.exists_finishes trace (f₁ + 1) (busy.mono (by omega) (by omega))
  have starts₁ := finishes.starts_succ (busy (f + 1) (by omega) (by omega))
  have starts₂ := finishes₁.starts_succ (busy (f₁ + 1) (by omega) (by omega))
  have apart₁ : f₁ ≠ f + 1 := by
    rintro rfl
    have pc := starts₁.2.symm.trans finishes₁.2
    cases pc
  have apart₂ : f₂ ≠ f₁ + 1 := by
    rintro rfl
    have pc := starts₂.2.symm.trans finishes₂.2
    cases pc
  exact ⟨f + 1, f₁, f₁ + 1, f₂, ⟨by omega, by omega, by omega, by omega, by omega⟩, starts₁,
    finishes₁, starts₂, finishes₂⟩

/-- Ticks that are nineteen events apart leave two iterations between them. -/
theorem twoPerTick_of_apart
    (apart : ∀ m n, trace.Ticks m → trace.Ticks n → m < n → m + 19 ≤ n) : trace.TwoPerTick := by
  intro m n first second before none _
  have far := apart m n first second before
  apply Busy.twoIterations _ far
  intro i lower upper
  exact none i lower (Nat.lt_of_lt_of_le upper far)

end Trace

end FpgaTrivia.System
