import FpgaTrivia.Software.Control
import FpgaTrivia.Transition.Run

/-!
# Whole iterations

An iteration reads the key and the level once.  What it does to the program is
a function of these two readings, whatever happens to the ports in between.
The file composes the steps of an iteration, and describes the state that a
sequence of iterations leads to by the sequence of readings alone: how often
the screen has been redrawn, and since when the program has been waiting for
the delay to pass.
-/

namespace FpgaTrivia.Software

open FpgaTrivia.Arith
open FpgaTrivia.Transition

/-- The levels at which a question is asked. -/
def Asks (level : BitVec 4) : Prop :=
  level.toNat ≠ 0 ∧ level.toNat ≠ 6

instance (level : BitVec 4) : Decidable (Asks level) :=
  inferInstanceAs (Decidable (level.toNat ≠ 0 ∧ level.toNat ≠ 6))

namespace Control

/-- A wrong verdict inserts a step. -/
def settle (c : Control) : Control :=
  if c.pc = .wrong then c.wrong else c

/-- The state in which the judging step is taken. -/
def entered (key level : BitVec 4) (c : Control) : Control :=
  (c.readKey key).readLevel level

/-- One iteration. -/
def iteration (key level : BitVec 4) (verdict : Bool) (c : Control) : Control :=
  ((c.entered key level).judge verdict).settle.redraw.writeAnswer

section Settle

variable (c : Control)

@[simp]
theorem settle_level : c.settle.level = c.level := by
  unfold settle
  split <;> rfl

@[simp]
theorem settle_oldLevel : c.settle.oldLevel = c.oldLevel := by
  unfold settle
  split <;> rfl

@[simp]
theorem settle_cnt : c.settle.cnt = c.cnt := by
  unfold settle
  split <;> rfl

@[simp]
theorem settle_answer : c.settle.answer = c.answer := by
  unfold settle
  split <;> rfl

@[simp]
theorem settle_ready : c.settle.ready = c.ready := by
  unfold settle
  split <;> rfl

@[simp]
theorem settle_timeCnt : c.settle.timeCnt = c.timeCnt := by
  unfold settle
  split <;> rfl

end Settle

/-- Whether an iteration that reads the level `level` redraws. -/
def RedrawsAt (level : BitVec 4) (c : Control) : Prop :=
  level.toNat ≠ c.oldLevel ∨ c.cnt = 0

section Fields

variable (key level : BitVec 4) (verdict : Bool) (c : Control)

theorem redraws_settle :
    ((c.entered key level).judge verdict).settle.Redraws ↔ c.RedrawsAt level := by
  simp [Redraws, RedrawsAt, entered, readKey, readLevel]

/-- The answer is published at the end. -/
theorem iteration_port :
    (c.iteration key level verdict).port = ((c.entered key level).judge verdict).answer := by
  simp [iteration, writeAnswer]

@[simp]
theorem iteration_oldLevel : (c.iteration key level verdict).oldLevel = level.toNat := by
  simp [iteration, writeAnswer, entered, readLevel]

theorem iteration_cnt (c : Control) [Decidable (c.RedrawsAt level)] :
    (c.iteration key level verdict).cnt =
      if c.RedrawsAt level then (c.cnt + 1) % 256 else c.cnt := by
  have test := redraws_settle key level verdict c
  by_cases redraws : c.RedrawsAt level
  · rw [if_pos redraws, iteration, redraw_of_redraws (test.mpr redraws)]
    simp [writeAnswer, entered, readKey, readLevel]
  · rw [if_neg redraws, iteration, redraw_of_not_redraws (mt test.mp redraws)]
    simp [writeAnswer, entered, readKey, readLevel]

/-- An iteration that redraws is not ready afterwards, and the delay starts
anew. -/
theorem iteration_of_redraws {c : Control} (redraws : c.RedrawsAt level) :
    (c.iteration key level verdict).ready = 0 ∧ (c.iteration key level verdict).timeCnt = 0 := by
  rw [iteration, redraw_of_redraws ((redraws_settle key level verdict c).mpr redraws)]
  exact ⟨rfl, rfl⟩

/-- An iteration that does not redraw keeps what the judging step has left: a
released key makes the program ready and starts the delay. -/
theorem iteration_of_released {c : Control} (quiet : ¬ c.RedrawsAt level) (released : key = 0) :
    (c.iteration key level verdict).ready = 1 ∧ (c.iteration key level verdict).timeCnt = 0 := by
  have zero : (c.entered key level).key = 0 := by
    simp [entered, readKey, readLevel, released]
  rw [iteration, redraw_of_not_redraws (mt (redraws_settle key level verdict c).mp quiet)]
  simp [writeAnswer, judge_ready, judge_timeCnt, zero]

/-- A pressed key lets the delay go on while the program is ready and asks. -/
theorem iteration_of_pressed {c : Control} (quiet : ¬ c.RedrawsAt level) (pressed : key ≠ 0) :
    (c.iteration key level verdict).ready = c.ready ∧
      (c.iteration key level verdict).timeCnt =
        if c.ready = 1 ∧ Asks level then wrap 32 (c.timeCnt + 1) else c.timeCnt := by
  have nonzero : key.toNat ≠ 0 := fun zero => pressed (BitVec.eq_of_toNat_eq zero)
  rw [iteration, redraw_of_not_redraws (mt (redraws_settle key level verdict c).mp quiet)]
  by_cases counts : c.ready = 1 ∧ Asks level
  · have test : c.ready = 1 ∧ level.toNat ≠ 0 ∧ level.toNat ≠ 6 := counts
    rw [if_pos counts]
    simp [writeAnswer, judge_ready, judge_timeCnt, nonzero, test, entered, readKey, readLevel]
  · have test : ¬ (c.ready = 1 ∧ level.toNat ≠ 0 ∧ level.toNat ≠ 6) := counts
    rw [if_neg counts]
    simp only [entered, readKey, readLevel, settle_ready, settle_timeCnt, judge_ready,
      judge_timeCnt, writeAnswer, if_neg nonzero, if_neg test, and_self]

end Fields

end Control

/-- What one iteration gets from its surroundings. -/
structure Reading where
  input : Input
  level : BitVec 4

namespace Sw

/-- A wrong verdict inserts a step. -/
def settle (s : Sw) : Sw :=
  if s.pc = .wrong then s.wrong else s

/-- The state in which the judging step is taken. -/
def entered (reading : Reading) (s : Sw) : Sw :=
  (s.readKey reading.input.key).readLevel reading.level

@[simp]
theorem entered_q (reading : Reading) (s : Sw) : (s.entered reading).q = s.q :=
  rfl

@[simp]
theorem entered_answers (reading : Reading) (s : Sw) :
    (s.entered reading).answers = s.answers :=
  rfl

@[simp]
theorem entered_level (reading : Reading) (s : Sw) :
    (s.entered reading).level = reading.level.toNat :=
  rfl

@[simp]
theorem entered_key (reading : Reading) (s : Sw) :
    (s.entered reading).key = reading.input.key.toNat :=
  rfl

@[simp]
theorem entered_timeCnt (reading : Reading) (s : Sw) :
    (s.entered reading).timeCnt = s.control.timeCnt :=
  rfl

theorem entered_redraws (reading : Reading) (s : Sw) :
    (s.entered reading).Redraws ↔ s.control.RedrawsAt reading.level :=
  Iff.rfl

/-- The state in which the redraw block is tested. -/
def decided (reading : Reading) (s : Sw) : Sw :=
  ((s.entered reading).judge reading.input.wild).settle

/-- One iteration. -/
def iteration (reading : Reading) (s : Sw) : Sw :=
  ((s.decided reading).redraw reading.input.rand).writeAnswer

/-- With one key down the answer of its slot is compared. -/
theorem verdict_entered {s : Sw} {input : Input} {level : BitVec 4} {slot : Fin 4}
    (key : input.key.toNat = keyOf slot) {wild : Bool} :
    (s.entered ⟨input, level⟩).verdict wild = (s.answers slot == s.q.answerCorrect) := by
  rw [verdict, show (s.entered ⟨input, level⟩).key = keyOf slot from key,
    answerAt_key2index_keyOf]
  rfl

theorem control_settle (s : Sw) : s.settle.control = s.control.settle := by
  unfold settle Control.settle
  by_cases wrong : s.pc = .wrong
  · rw [if_pos wrong, if_pos (show s.control.pc = .wrong from wrong)]
    rfl
  · rw [if_neg wrong, if_neg (show ¬ s.control.pc = .wrong from wrong)]

theorem control_decided (reading : Reading) (s : Sw) :
    (s.decided reading).control =
      ((s.control.entered reading.input.key reading.level).judge
        ((s.entered reading).verdict reading.input.wild)).settle := by
  rw [decided, control_settle, control_judge]
  rfl

theorem control_writeAnswer (s : Sw) : s.writeAnswer.control = s.control.writeAnswer :=
  rfl

theorem control_iteration (reading : Reading) (s : Sw) :
    (s.iteration reading).control =
      s.control.iteration reading.input.key reading.level
        ((s.entered reading).verdict reading.input.wild) := by
  rw [iteration, control_writeAnswer, control_redraw, control_decided, Control.iteration]

section Composition

variable {reading : Reading} {s : Sw}

theorem step_step_entered (pc : s.pc = .readKey) :
    (s.step reading.input reading.level).step reading.input reading.level = s.entered reading := by
  rw [step_readKey pc, step_readLevel rfl, entered]

theorem step_entered : (s.entered reading).step reading.input reading.level =
    (s.entered reading).judge reading.input.wild :=
  step_judge rfl

theorem step_step_redraw (pc : s.pc = .redraw) :
    (s.step reading.input reading.level).step reading.input reading.level =
      (s.redraw reading.input.rand).writeAnswer := by
  rw [step_redraw pc, step_writeAnswer (redraw_pc reading.input.rand s)]

/-- Without a wrong verdict an iteration takes five steps. -/
theorem run_iteration_of_redraw (pc : s.pc = .readKey)
    (next : ((s.entered reading).judge reading.input.wild).pc = .redraw) :
    Transition.run (fun s (r : Reading) => s.step r.input r.level) s (fun _ => reading) 5 =
      s.iteration reading := by
  have settled : s.decided reading = (s.entered reading).judge reading.input.wild :=
    if_neg (by rw [next]; decide)
  simp only [run_succ, run_zero]
  rw [step_step_entered pc, step_entered, step_step_redraw next, iteration, settled]

/-- With a wrong verdict it takes six. -/
theorem run_iteration_of_wrong (pc : s.pc = .readKey)
    (next : ((s.entered reading).judge reading.input.wild).pc = .wrong) :
    Transition.run (fun s (r : Reading) => s.step r.input r.level) s (fun _ => reading) 6 =
      s.iteration reading := by
  have settled : s.decided reading = ((s.entered reading).judge reading.input.wild).wrong :=
    if_pos next
  simp only [run_succ, run_zero]
  rw [step_step_entered pc, step_entered, step_wrong next, step_step_redraw rfl, iteration,
    settled]

/-- An iteration is what the loop does in five or six steps. -/
theorem run_iteration (reading : Reading) {s : Sw} (pc : s.pc = .readKey) :
    ∃ steps, (steps = 5 ∨ steps = 6) ∧
      Transition.run (fun s (r : Reading) => s.step r.input r.level) s (fun _ => reading) steps =
        s.iteration reading := by
  rcases judge_pc reading.input.wild (s.entered reading) with next | next
  · exact ⟨5, Or.inl rfl, run_iteration_of_redraw pc next⟩
  · exact ⟨6, Or.inr rfl, run_iteration_of_wrong pc next⟩

end Composition

/-- Up to the redraw block an iteration leaves the question alone. -/
theorem sameQuestion_decided (reading : Reading) (s : Sw) :
    SameQuestion (s.decided reading) s := by
  have judged : SameQuestion ((s.entered reading).judge reading.input.wild) s :=
    (sameQuestion_judge reading.input.wild (s.entered reading)).trans ⟨rfl, rfl, rfl⟩
  unfold decided settle
  split
  · exact (sameQuestion_wrong _).trans judged
  · exact judged

theorem decided_redraws (reading : Reading) (s : Sw) :
    (s.decided reading).Redraws ↔ s.control.RedrawsAt reading.level := by
  change (s.decided reading).control.Redraws ↔ _
  rw [control_decided, Control.redraws_settle]

/-- An iteration that does not redraw leaves the question alone. -/
theorem sameQuestion_iteration (reading : Reading) {s : Sw}
    (quiet : ¬ s.control.RedrawsAt reading.level) : SameQuestion (s.iteration reading) s := by
  have test := mt (decided_redraws reading s).mp quiet
  exact ((sameQuestion_writeAnswer _).trans (sameQuestion_redraw reading.input.rand test)).trans
    (sameQuestion_decided reading s)

end Sw

end FpgaTrivia.Software
