import FpgaTrivia.System.Judging
import FpgaTrivia.System.Publishing

/-!
# Playing well

A player who never has a wrong key down when the program compares it is never
found wrong, so the answer port changes at the end of iterations only.  To get
on, such a player has to release the keys after each new screen and to hold one
of them afterwards.  The perfect player does so at once.
-/

namespace FpgaTrivia.Software

/-- The key that is down is the one of a slot with the correct answer. -/
def Sw.RightKey (s : Sw) : Prop :=
  ∃ slot, s.key = keyOf slot ∧ s.answers slot = s.q.answerCorrect

/-- With such a key down the comparison comes out right. -/
theorem Sw.RightKey.verdict {s : Sw} (right : s.RightKey) (consistent : s.Consistent)
    (judges : s.Judges) (wild : Bool) : s.verdict wild = true := by
  obtain ⟨slot, key, shows⟩ := right
  obtain ⟨correct, only⟩ := (consistent.shows_of_judges judges).exists_unique
  exact (Sw.verdict_iff key only wild).mpr ((only slot).mp shows)

end FpgaTrivia.Software

namespace FpgaTrivia.System

open FpgaTrivia.Arith
open FpgaTrivia.Hardware
open FpgaTrivia.Software
open FpgaTrivia.Transition

namespace Trace

variable {trace : Trace} {n t : Nat}

/-- Every key that the program compares is the right one. -/
def Careful (trace : Trace) : Prop :=
  ∀ n, (trace.sw n).Judges → (trace.sw n).RightKey

/-- Playing well.  Every key that is compared is the right one.  After each new
screen all keys are released at some time.  Once they have been released, and
unless a new screen is drawn, some key is held from some iteration on.  Which keys
are down before the delay has passed, how often they are released and how long
all this takes is left open, and so is everything after the win. -/
structure Plays (trace : Trace) : Prop where
  careful : trace.Careful
  releases : ∀ t, Redrawn trace.session.level t → (trace.session.level t).toNat ≠ 6 →
    ∃ u, t < u ∧ trace.session.key u = 0
  presses : ∀ t, trace.session.key t = 0 → (trace.session.level t).toNat ≠ 6 →
    (∀ i, t < i → ¬ Redrawn trace.session.level i) → ∃ u, ∀ v, u ≤ v → trace.session.key v ≠ 0

/-! ## Careful players -/

theorem Careful.pc_ne_wrong (careful : trace.Careful) (n : Nat) : (trace.sw n).pc ≠ .wrong := by
  induction n with
  | zero => simp [sw, board, Board.powerUp, Sw.boot]
  | succ n ih =>
      rcases event : trace.events n with _ | input
      · rw [sw_tick event]
        exact ih
      · rw [sw_loop event]
        rcases pc : (trace.sw n).pc with _ | _ | _ | _ | _ | _
        · simp [Sw.step_readKey pc, Sw.readKey]
        · simp [Sw.step_readLevel pc, Sw.readLevel]
        · have right := Sw.judge_of_not_wrong pc fun judges =>
            (careful n judges).verdict (trace.consistent n) judges input.wild
          simp [Sw.step_judge pc, right.1]
        · exact absurd pc ih
        · simp [Sw.step_redraw pc]
        · simp [Sw.step_writeAnswer pc, Sw.writeAnswer]

/-- Between two iterations the answer port does not change. -/
theorem Careful.port (careful : trace.Careful) (n : Nat) :
    (trace.sw n).pioOutputAnswer = (trace.session.after (trace.iterations n)).pioOutputAnswer := by
  apply (trace.publishes n).settled
  rintro ⟨j, -, -, -, wrong⟩
  exact careful.pc_ne_wrong (j + 1) wrong

/-- An iteration that judges in the session judges in the run. -/
theorem Careful.verdict (careful : trace.Careful) (within : t < trace.iterations n)
    (judges : trace.session.Judges t) : trace.session.verdict t = true := by
  obtain ⟨written, -⟩ := entry_written within
  have here := written.sw_entered
  have consistent := trace.consistent ((trace.entry t).levelAt + 1)
  have right := careful ((trace.entry t).levelAt + 1)
  rw [here] at consistent right
  exact (right judges).verdict consistent judges _

end Trace

/-! ## The perfect player -/

/-- The key of the slot with the correct answer, and some key where there is
none. -/
def correctKey (s : Sw) : BitVec 4 :=
  if s.answers 0 = s.q.answerCorrect then 0b0001#4
  else if s.answers 1 = s.q.answerCorrect then 0b0010#4
  else if s.answers 2 = s.q.answerCorrect then 0b0100#4
  else if s.answers 3 = s.q.answerCorrect then 0b1000#4
  else 0b0001#4

/-- The perfect player holds the key of the correct answer down whenever an
iteration starts ready, and no key otherwise. -/
def perfectKey (s : Sw) : BitVec 4 :=
  if s.ready = 1 then correctKey s else 0

theorem correctKey_ne_zero (s : Sw) : correctKey s ≠ 0 := by
  unfold correctKey
  repeat' split
  all_goals decide

theorem correctKey_of_unique {s : Sw} {slot : Fin 4}
    (unique : ∀ i, s.answers i = s.q.answerCorrect ↔ i = slot) :
    (correctKey s).toNat = keyOf slot := by
  simp only [correctKey, unique]
  clear unique
  revert slot
  decide

namespace Trace

variable {trace : Trace} {n t : Nat}

/-- The keys are those of the perfect player, whatever else happens. -/
def Perfect (trace : Trace) : Prop :=
  ∀ n input, trace.events n = .loop input → (trace.sw n).pc = .readKey →
    input.key = perfectKey (trace.sw n)

theorem Perfect.key (perfect : trace.Perfect) (within : t < trace.iterations n) :
    trace.session.key t = perfectKey (trace.session.after t) := by
  obtain ⟨written, -⟩ := entry_written within
  obtain ⟨input, event, key⟩ := written.reads
  rw [show trace.session.key t = (trace.entry t).input.key from rfl, ← key,
    perfect _ input event written.starts.2, sw_eq_after written.starts.2, written.number]

theorem Perfect.careful (perfect : trace.Perfect) : trace.Careful := by
  intro n judges
  have pc : (trace.sw n).pc = .judge := judges.1
  have started := (trace.faithful n).started (by simp [pc])
  obtain ⟨input, event, key⟩ := started.reads
  have state := trace.sw_eq_state n
  rw [pc, Log.state, replay_eq_after, ← started.number, ← sw_eq_after started.starts.2] at state
  obtain ⟨correct, only⟩ := ((trace.consistent n).shows_of_judges judges).exists_unique
  rw [state] at judges only ⊢
  have ready : (trace.sw (trace.log n).current.keyAt).ready = 1 := judges.2.2.1
  refine ⟨correct, ?_, (only correct).mpr rfl⟩
  rw [Sw.entered_key, ← correctKey_of_unique only]
  change (trace.log n).current.input.key.toNat = _
  rw [← key, perfect _ input event started.starts.2, perfectKey, if_pos ready]
  rfl

end Trace

end FpgaTrivia.System
