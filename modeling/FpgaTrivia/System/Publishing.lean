import FpgaTrivia.Hardware.Game
import FpgaTrivia.Software.Outputs
import FpgaTrivia.System.Pacing
import FpgaTrivia.System.Recording

/-!
# What a tick samples

The port shows what the last finished iteration has published, and a wrong
verdict from the moment it has been found.  The state machine samples exactly
that, and plays the reference game with it as soon as no tick finds a correct
answer at level six: one iteration since the last tick is enough, or a wrong
verdict, which keeps the program from its next iteration for a second.
-/

namespace FpgaTrivia.System

open FpgaTrivia.Hardware
open FpgaTrivia.Software
open FpgaTrivia.Transition

namespace Trace

open Handshake

variable {trace : Trace} {m n : Nat}

/-- The iteration under way has found an answer wrong. -/
def WrongUnderWay (trace : Trace) (n : Nat) : Prop :=
  ∃ j < n, trace.Steps .judge j ∧ trace.iterations j = trace.iterations n ∧
    (trace.sw (j + 1)).pc = .wrong

/-- Only a judging step can find an answer wrong, and the end of the iteration
makes it a thing of the past. -/
theorem wrongUnderWay_succ (unjudged : ¬ trace.Steps .judge n) (unfinished : ¬ trace.Finishes n) :
    trace.WrongUnderWay (n + 1) ↔ trace.WrongUnderWay n := by
  unfold WrongUnderWay
  rw [iterations_succ_of_not_finishes unfinished]
  constructor
  · rintro ⟨j, before, judging, same, wrong⟩
    rcases Nat.lt_succ_iff_lt_or_eq.mp before with less | rfl
    · exact ⟨j, less, judging, same, wrong⟩
    · exact absurd judging unjudged
  · rintro ⟨j, before, judging, same, wrong⟩
    exact ⟨j, Nat.lt_succ_of_lt before, judging, same, wrong⟩

/-- The answer port against the iterations that have finished. -/
structure Publishes (trace : Trace) (n : Nat) : Prop where
  wrong : trace.WrongUnderWay n →
    (trace.sw n).pioOutputAnswer = 0b10#2 ∧
      ((trace.sw n).pc = .wrong ∨ (trace.sw n).pc = .redraw ∨ (trace.sw n).pc = .writeAnswer)
  settled : ¬ trace.WrongUnderWay n →
    (trace.sw n).pioOutputAnswer = (trace.session.after (trace.iterations n)).pioOutputAnswer

/-- An event that neither judges nor finishes. -/
theorem Publishes.keep (publishes : trace.Publishes n) (unjudged : ¬ trace.Steps .judge n)
    (unfinished : ¬ trace.Finishes n)
    (port : (trace.sw (n + 1)).pioOutputAnswer = (trace.sw n).pioOutputAnswer)
    (later : (trace.sw n).pc = .wrong ∨ (trace.sw n).pc = .redraw ∨
        (trace.sw n).pc = .writeAnswer →
      (trace.sw (n + 1)).pc = .wrong ∨ (trace.sw (n + 1)).pc = .redraw ∨
        (trace.sw (n + 1)).pc = .writeAnswer) : trace.Publishes (n + 1) := by
  have under := wrongUnderWay_succ unjudged unfinished
  constructor
  · intro wrong
    obtain ⟨shows, stage⟩ := publishes.wrong (under.mp wrong)
    exact ⟨port.trans shows, later stage⟩
  · intro settled
    rw [port, iterations_succ_of_not_finishes unfinished]
    exact publishes.settled (mt under.mpr settled)

/-- The judging step publishes a wrong verdict at once, and nothing else. -/
theorem Publishes.judge {input : Input} (publishes : trace.Publishes n)
    (event : trace.events n = .loop input) (pc : (trace.sw n).pc = .judge) :
    trace.Publishes (n + 1) := by
  have sw := sw_loop event
  rw [Sw.step_judge pc] at sw
  have unfinished : ¬ trace.Finishes n := fun finishes => by
    rw [finishes.2] at pc
    cases pc
  have count := iterations_succ_of_not_finishes unfinished
  have settled := publishes.settled fun wrong => by
    have stage := (publishes.wrong wrong).2
    rw [pc] at stage
    exact absurd stage (by decide)
  by_cases incorrect : (trace.sw n).Judges ∧ ¬ (trace.sw n).verdict input.wild = true
  · have published := Sw.judge_of_judges incorrect.1 input.wild
    rw [if_neg incorrect.2] at published
    rw [published] at sw
    constructor
    · intro _
      rw [sw]
      exact ⟨rfl, Or.inl rfl⟩
    · intro none
      exact absurd ⟨n, Nat.lt_succ_self n, ⟨⟨input, event⟩, pc⟩, count.symm, by rw [sw]; rfl⟩ none
  · obtain ⟨next, port⟩ := @Sw.judge_of_not_wrong _ pc input.wild fun judges => by
      by_contra wrong
      exact incorrect ⟨judges, wrong⟩
    constructor
    · rintro ⟨j, before, judging, same, wrong⟩
      rcases Nat.lt_succ_iff_lt_or_eq.mp before with less | rfl
      · have stage := (publishes.wrong ⟨j, less, judging, same.trans count, wrong⟩).2
        rw [pc] at stage
        exact absurd stage (by decide)
      · rw [sw, next] at wrong
        cases wrong
    · intro _
      rw [sw, port, count]
      exact settled

/-- The end of the iteration. -/
theorem publishes_of_finishes (finishes : trace.Finishes n) : trace.Publishes (n + 1) := by
  constructor
  · rintro ⟨j, before, judging, same, -⟩
    have upto := @iterations_mono trace j n (Nat.le_of_lt_succ before)
    rw [finishes.iterations_succ] at same
    omega
  · intro _
    rw [finishes.sw_succ, finishes.iterations_succ]

theorem publishes (trace : Trace) (n : Nat) : trace.Publishes n := by
  induction n with
  | zero => exact ⟨fun ⟨j, before, _⟩ => absurd before (Nat.not_lt_zero j), fun _ => rfl⟩
  | succ n ih =>
      by_cases finishes : trace.Finishes n
      · exact publishes_of_finishes finishes
      · rcases event : trace.events n with _ | input
        · have sw := sw_tick event
          apply ih.keep _ finishes (by rw [sw]) (by rw [sw]; exact id)
          rintro ⟨⟨input, loop⟩, -⟩
          rw [event] at loop
          cases loop
        · rcases pc : (trace.sw n).pc with _ | _ | _ | _ | _ | _
          case judge => exact ih.judge event pc
          case writeAnswer => exact absurd ⟨⟨input, event⟩, pc⟩ finishes
          all_goals
            apply ih.keep (fun judging => by rw [judging.2] at pc; cases pc) finishes
            · rw [sw_loop event, Sw.step, pc]
              first | rfl | exact Sw.redraw_pioOutputAnswer _ _
            · rw [sw_loop event, Sw.step, pc]
              simp [Sw.wrong]

/-- What the history of the readings puts on the port. -/
noncomputable def offered (trace : Trace) (n : Nat) : BitVec 2 := by
  classical
  exact if trace.WrongUnderWay n then 0b10#2
    else match trace.iterations n with
      | 0 => 0b00#2
      | t + 1 => trace.session.published t

theorem port_eq_offered (trace : Trace) (n : Nat) :
    (trace.sw n).pioOutputAnswer = trace.offered n := by
  unfold offered
  split
  · rename_i wrong
    exact ((trace.publishes n).wrong wrong).1
  · rename_i settled
    rw [(trace.publishes n).settled settled]
    cases trace.iterations n with
    | zero => rfl
    | succ t => exact trace.session.after_port t

/-- The answers at the ticks before event `n`. -/
noncomputable def offers (trace : Trace) : Nat → List (BitVec 2)
  | 0 => []
  | n + 1 =>
      match trace.events n with
      | .tick => offers trace n ++ [trace.offered n]
      | .loop _ => offers trace n

theorem offers_tick (ticks : trace.Ticks n) :
    trace.offers (n + 1) = trace.offers n ++ [trace.offered n] := by
  rw [offers, show trace.events n = .tick from ticks]

theorem offers_loop {input : Input} (event : trace.events n = .loop input) :
    trace.offers (n + 1) = trace.offers n := by
  rw [offers, event]

/-- In every interleaving the port shows what the last whole iteration makes of
its readings, or the wrong verdict of the iteration under way, and the state
machine has sampled exactly that. -/
theorem fsm_samples_history (trace : Trace) (n : Nat) :
    (trace.sw n).pioOutputAnswer = trace.offered n ∧
      (trace.board n).fsm = Fsm.sample (trace.offers n) := by
  refine ⟨trace.port_eq_offered n, ?_⟩
  induction n with
  | zero => rfl
  | succ n ih =>
      rcases event : trace.events n with _ | input
      · rw [fsm_tick event, offers_tick event, Fsm.sample_append_singleton, ih, port_eq_offered]
      · rw [fsm_loop event, offers_loop event]
        exact ih

/-! ## One iteration for each tick -/

/-- From each tick to a later one the program runs through a whole iteration, or is
in the branch of a wrong verdict at some time. -/
def Attends (trace : Trace) : Prop :=
  ∀ m n, trace.Ticks m → trace.Ticks n → m < n →
    (∃ s f, (m < s ∧ s < f ∧ f < n) ∧ trace.Starts s ∧ trace.Finishes f) ∨
      ∃ k, m < k ∧ k ≤ n ∧ (trace.sw k).pc = .wrong

/-- In the branch of a wrong verdict no correct answer is in flight. -/
theorem noCorrectInFlight_of_wrong (pc : (trace.sw n).pc = .wrong) :
    NoCorrectInFlight (trace.sw n).control := by
  induction n with
  | zero => exact absurd pc (by simp [sw, board, Board.powerUp, Sw.boot])
  | succ n ih =>
      rcases event : trace.events n with _ | input
      · rw [sw_tick event] at pc ⊢
        exact ih pc
      · change (trace.sw (n + 1)).control.pc = .wrong at pc
        rw [control_loop event] at pc ⊢
        exact noCorrectInFlight_of_step_wrong pc

section Interval

variable (none : ∀ i, m < i → i < n → ¬ trace.Changes i) (six : trace.shown n = 6)

include none six

/-- While level six is shown a correct answer does not get into flight again. -/
theorem noCorrectInFlight_interval {k : Nat} (after : m < k) (upto : k ≤ n)
    (quiet : NoCorrectInFlight (trace.sw k).control) :
    NoCorrectInFlight (trace.sw n).control := by
  have shown : trace.shown (m + 1) = 6 :=
    (shown_const none (Nat.lt_of_lt_of_le after upto) (Nat.le_refl n)).symm.trans six
  exact control_interval none (False.elim : False → _) after upto (Nat.le_refl n) quiet
    fun _ key level verdict _ _ _ reading _ quiet => quiet.step (reading.trans shown) key verdict

/-- A whole iteration that reads level six leaves no correct answer in flight. -/
theorem noCorrectInFlight_of_iteration {s f : Nat} (order : m < s ∧ s < f ∧ f < n)
    (starts : trace.Starts s) (finishes : trace.Finishes f) :
    NoCorrectInFlight (trace.sw n).control := by
  obtain ⟨after, later, before⟩ := order
  have shown : trace.shown (m + 1) = 6 := by
    rw [← shown_const none (Nat.lt_trans after (Nat.lt_trans later before)) (Nat.le_refl n)]
    exact six
  have zeroFree : False → ∀ i, m < i → i < n → ¬ trace.ReadsZero i := False.elim
  have whole : Whole (trace.shown (m + 1)) False (trace.sw (s + 1)).control := by
    obtain ⟨⟨input, event⟩, pc⟩ := starts
    rw [control_loop event, Control.step_readKey pc]
    exact whole_readKey input.key False.elim _
  have whole := control_interval (P := Whole (trace.shown (m + 1)) False) none zeroFree
    (Nat.lt_succ_of_lt after) later (Nat.le_of_lt before) whole
    fun _ key level verdict _ _ _ reading pressed whole => whole.step reading pressed
  obtain ⟨⟨input, event⟩, pc⟩ := finishes
  have quiet := whole.quiet shown (Or.inr (Or.inr pc))
  apply noCorrectInFlight_interval none six (Nat.lt_succ_of_lt (Nat.lt_trans after later)) before
  rw [control_loop event, Control.step_writeAnswer pc]
  exact ⟨quiet, by simp [Control.Pending, Control.writeAnswer], by simp [Control.writeAnswer]⟩

end Interval

/-- So no tick samples a correct answer at level six. -/
theorem Attends.quiet (attends : trace.Attends) (ticks : trace.Ticks n)
    (six : trace.shown n = 6) : (trace.sw n).pioOutputAnswer ≠ 0b11#2 := by
  have ticked : ∃ i < n, trace.Ticks i := by
    by_contra never
    push Not at never
    have zero := (fresh_of_unchanged fun i before changes => never i before changes.1).1
    omega
  obtain ⟨i, before, earlier⟩ := ticked
  obtain ⟨m, -, last, ticked, none⟩ := exists_last earlier before
  have unchanged : ∀ i, m < i → i < n → ¬ trace.Changes i :=
    fun i after upto changes => none i after upto changes.1
  apply NoCorrectInFlight.port (c := (trace.sw n).control)
  rcases attends m n ticked ticks last with ⟨s, f, order, starts, finishes⟩ | ⟨k, after, upto, pc⟩
  · exact noCorrectInFlight_of_iteration unchanged six order starts finishes
  · exact noCorrectInFlight_interval unchanged six after upto (noCorrectInFlight_of_wrong pc)

/-- With a whole iteration or a wrong verdict between the ticks the board plays
the reference game. -/
theorem Attends.stands_for_play (attends : trace.Attends) (n : Nat) :
    (trace.board n).fsm.StandsFor (Game.play (trace.offers n)) := by
  have notWin : ∀ n, (trace.board n).fsm.state ≠ .win :=
    not_win_of_quiet fun n ticks => attends.quiet ticks
  induction n with
  | zero => exact .zero
  | succ n ih =>
      rcases event : trace.events n with _ | input
      · rw [fsm_tick event, offers_tick event, Game.play_append_singleton, ← port_eq_offered]
        apply ih.step
        rintro (⟨won, -⟩ | ⟨six, correct⟩)
        · exact notWin n (congrArg Fsm.state won)
        · apply attends.quiet event _ correct
          have count := trace.shown_eq n
          rw [six] at count
          exact Int.ofNat_inj.mp count
      · rw [fsm_loop event, offers_loop event]
        exact ih

end Trace

end FpgaTrivia.System
