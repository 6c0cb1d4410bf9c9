import FpgaTrivia.System.Hold
import FpgaTrivia.System.Stages

/-!
# Two iterations for each tick

The answer port is sampled without an acknowledgement, so the `ready` flag has
to be cleared before the next tick.  Two whole iterations after a change of the
level do that: a key that is held all the time then leaves `00` on the port.
-/

namespace FpgaTrivia.System

open FpgaTrivia.Hardware
open FpgaTrivia.Software
open FpgaTrivia.Transition

namespace Trace

open Handshake

variable {trace : Trace} {m n : Nat} {held : Prop}

/-! ## From one change of the level to the next tick -/

theorem shown_const (none : ∀ i, m < i → i < n → ¬ trace.Changes i) {k : Nat}
    (after : m < k) (upto : k ≤ n) : trace.shown k = trace.shown (m + 1) := by
  apply interval_induction (P := fun k => trace.shown k = trace.shown (m + 1)) after rfl
  intro i lower upper ih
  rw [shown_succ_of_not_changes (none i lower (Nat.lt_of_lt_of_le upper upto)), ih]

/-- The interval rule for the control between `m` and `n`, where the level is
not changed: ticks do not touch the control, and every loop step can only read
the level of the interval. -/
theorem control_interval {P : Control → Prop}
    (none : ∀ i, m < i → i < n → ¬ trace.Changes i)
    (zeroFree : held → ∀ i, m < i → i < n → ¬ trace.ReadsZero i) {a b : Nat}
    (after : m < a) (le : a ≤ b) (upto : b ≤ n) (first : P (trace.sw a).control)
    (preserved : ∀ k key (level : BitVec 4) verdict, a ≤ k → k < b →
      (∃ input, trace.events k = .loop input) →
      level.toNat = trace.shown (m + 1) →
      (held → (trace.sw k).control.pc = .readKey → key ≠ 0) →
      P (trace.sw k).control → P ((trace.sw k).control.step key level verdict)) :
    P (trace.sw b).control := by
  apply interval_induction (P := fun k => P (trace.sw k).control) le first
  intro k lower upper ih
  rcases event : trace.events k with _ | input
  · rw [sw_tick event]
    exact ih
  · rw [control_loop event]
    apply preserved k input.key _ _ lower upper ⟨input, event⟩
    · exact shown_const none (Nat.lt_of_lt_of_le after lower) (by omega)
    · intro holds pc zero
      exact zeroFree holds k (by omega) (by omega) ⟨input, event, pc, zero⟩
    · exact ih

section Interval

variable (none : ∀ i, m < i → i < n → ¬ trace.Changes i)
  (zeroFree : held → ∀ i, m < i → i < n → ¬ trace.ReadsZero i)

include none zeroFree

/-- Up to the first start the straddling iteration may still be under way. -/
theorem notices_of_starts
    (straddles : Straddles (trace.shown (m + 1)) (trace.sw (m + 1)).control) {s : Nat}
    (after : m < s) (before : s < n) (starts : trace.Starts s) :
    Notices (trace.shown (m + 1)) held (trace.sw (s + 1)).control ∨
      Adopts (trace.shown (m + 1)) held (trace.sw (s + 1)).control := by
  have stage := control_interval
    (P := fun c => Straddles (trace.shown (m + 1)) c ∨
      Notices (trace.shown (m + 1)) held c ∨ Adopts (trace.shown (m + 1)) held c)
    none zeroFree (Nat.lt_succ_self m) after (Nat.le_of_lt before) (Or.inl straddles) ?_
  · obtain ⟨⟨input, event⟩, pc⟩ := starts
    rw [control_loop event]
    have reading := shown_const none after (Nat.le_of_lt before)
    have pressed : held → input.key ≠ 0 := by
      intro holds zero
      exact zeroFree holds s after before ⟨input, event, pc, zero⟩
    rcases stage with straddles | notices | adopts
    · exact Or.inl (straddles.start pc pressed)
    · exact absurd pc notices.inside
    · exact Or.inr (adopts.step reading (fun holds _ => pressed holds)).1
  · intro k key level verdict _ _ _ reading pressed stage
    rcases stage with straddles | notices | adopts
    · by_cases pc : (trace.sw k).control.pc = .readKey
      · exact Or.inr (Or.inl (straddles.start pc fun holds => pressed holds pc))
      · exact Or.inl (straddles.step pc)
    · by_cases pc : (trace.sw k).control.pc = .writeAnswer
      · exact Or.inr (Or.inr (notices.finish pc))
      · exact Or.inr (Or.inl (notices.step reading pc))
    · exact Or.inr (Or.inr (adopts.step reading pressed).1)

/-- The first whole iteration adopts the new level. -/
theorem adopts_of_finishes {s f : Nat} (after : m < s)
    (stage : Notices (trace.shown (m + 1)) held (trace.sw (s + 1)).control ∨
      Adopts (trace.shown (m + 1)) held (trace.sw (s + 1)).control)
    (later : s < f) (before : f < n) (finishes : trace.Finishes f) :
    Adopts (trace.shown (m + 1)) held (trace.sw (f + 1)).control := by
  have stage := control_interval
    (P := fun c => Notices (trace.shown (m + 1)) held c ∨ Adopts (trace.shown (m + 1)) held c)
    none zeroFree (Nat.lt_succ_of_lt after) later (Nat.le_of_lt before) stage ?_
  · obtain ⟨⟨input, event⟩, pc⟩ := finishes
    rw [control_loop event]
    have reading := shown_const none (Nat.lt_trans after later) (Nat.le_of_lt before)
    rcases stage with notices | adopts
    · exact notices.finish pc
    · exact (adopts.step reading (by simp [show (trace.sw f).control.pc = _ from pc])).1
  · intro k key level verdict _ _ _ reading pressed stage
    rcases stage with notices | adopts
    · by_cases pc : (trace.sw k).control.pc = .writeAnswer
      · exact Or.inr (notices.finish pc)
      · exact Or.inl (notices.step reading pc)
    · exact Or.inr (adopts.step reading pressed).1

/-- The second whole iteration closes the handshake, whatever the keys have
done. -/
theorem caught_of_twoIterations
    (straddles : Straddles (trace.shown (m + 1)) (trace.sw (m + 1)).control)
    (two : trace.TwoIterations m n) :
    Caught (trace.shown (m + 1)) held (trace.sw n).control := by
  obtain ⟨s₁, f₁, s₂, f₂, ⟨start₁, finish₁, start₂, finish₂, last⟩, starts₁, finishes₁, -,
    finishes₂⟩ := two
  have noticing := notices_of_starts none zeroFree straddles start₁ (by omega) starts₁
  have adopting := adopts_of_finishes none zeroFree start₁ noticing finish₁ (by omega) finishes₁
  have caught : Caught (trace.shown (m + 1)) held (trace.sw (f₂ + 1)).control := by
    have before := control_interval (P := Adopts (trace.shown (m + 1)) held)
      none zeroFree (by omega) (show f₁ + 1 ≤ f₂ by omega) (by omega) adopting
      fun k key level verdict _ _ _ reading pressed adopts => (adopts.step reading pressed).1
    obtain ⟨⟨input, event⟩, pc⟩ := finishes₂
    rw [control_loop event]
    exact before.finish (shown_const none (by omega) (by omega)) pc
  exact control_interval none zeroFree (by omega) last (Nat.le_refl n) caught
    fun k key level verdict _ _ _ reading pressed caught => caught.step reading pressed

end Interval

/-! ## Before the level changes for the first time -/

/-- Until the first change of the level the program has nothing to catch up
with: it draws the title in its first iteration and publishes nothing else than
`00` before that. -/
structure Fresh (c : Control) : Prop where
  level : c.pc = .judge ∨ c.Pending → c.level = 0
  adopted : c.oldLevel = 0 ∨ (c.cnt = 0 ∧ c.port = 0b00#2 ∧ c.pc ≠ .writeAnswer)

theorem Fresh.step {c : Control} {key level : BitVec 4} {verdict : Bool} (fresh : Fresh c)
    (reading : level.toNat = 0) : Fresh (c.step key level verdict) := by
  rcases pc : c.pc with _ | _ | _ | _ | _ | _
  · rw [Control.step_readKey pc]
    exact ⟨by simp [Control.readKey, Control.Pending],
      fresh.adopted.imp_right fun first => ⟨first.1, first.2.1, by simp [Control.readKey]⟩⟩
  · rw [Control.step_readLevel pc]
    exact ⟨fun _ => reading,
      fresh.adopted.imp_right fun first => ⟨first.1, first.2.1, by simp [Control.readLevel]⟩⟩
  · have atLevel := fresh.level (Or.inl pc)
    rw [Control.step_judge pc]
    refine ⟨fun _ => by simpa using atLevel, ?_⟩
    rcases fresh.adopted with adopted | ⟨first, silent, _⟩
    · exact Or.inl (by simpa using adopted)
    · right
      have spec := Control.judge_spec verdict c
      generalize c.judge verdict = judged at spec ⊢
      cases spec with
      | silent => exact ⟨by simpa using first, by simpa using silent, by simp⟩
      | start => exact ⟨first, silent, by simp⟩
      | leave => exact ⟨by simpa using first, by simpa using silent, by simp⟩
      | delay _ asked => exact absurd atLevel asked.1
      | right _ asked => exact absurd atLevel asked.1
      | wrong _ asked => exact absurd atLevel asked.1
  · rw [Control.step_wrong pc]
    exact ⟨fun _ => fresh.level (Or.inr (Or.inl pc)),
      fresh.adopted.imp_right fun first => ⟨first.1, first.2.1, by simp [Control.wrong]⟩⟩
  · have atLevel := fresh.level (Or.inr (Or.inr (Or.inl pc)))
    rw [Control.step_redraw pc]
    exact ⟨fun _ => by simpa using atLevel, Or.inl (by simpa using atLevel)⟩
  · rw [Control.step_writeAnswer pc]
    refine ⟨by simp [Control.writeAnswer, Control.Pending], ?_⟩
    rcases fresh.adopted with adopted | ⟨_, _, unfinished⟩
    · exact Or.inl adopted
    · exact absurd pc unfinished

theorem shown_zero (trace : Trace) : trace.shown 0 = 0 :=
  rfl

theorem fresh_of_unchanged (none : ∀ i < n, ¬ trace.Changes i) :
    trace.shown n = 0 ∧ Fresh (trace.sw n).control := by
  induction n with
  | zero => exact ⟨shown_zero trace, by simp [Sw.control, sw, board, Board.powerUp, Sw.boot,
      Control.Pending], Or.inr ⟨rfl, rfl, by simp [Sw.control, sw, board, Board.powerUp, Sw.boot]⟩⟩
  | succ n ih =>
      obtain ⟨shown, fresh⟩ := ih fun i before => none i (Nat.lt_succ_of_lt before)
      refine ⟨(shown_succ_of_not_changes (none n (Nat.lt_succ_self n))).trans shown, ?_⟩
      rcases event : trace.events n with _ | input
      · rw [sw_tick event]
        exact fresh
      · rw [control_loop event]
        exact fresh.step shown

/-! ## Paced runs -/

/-- After each change of the level two whole iterations start and finish before
the next event of the given kind. -/
def Paced (trace : Trace) (kind : Nat → Prop) : Prop :=
  ∀ m n, trace.Changes m → kind n → m < n → trace.TwoIterations m n

/-- What a tick finds when the handshake works. -/
structure Prepared (trace : Trace) (n : Nat) : Prop where
  adopted : (trace.sw n).oldLevel = trace.shown n ∨
    (trace.shown n = 0 ∧ (trace.sw n).pioOutputAnswer = 0b00#2)
  quiet : trace.shown n = 6 → (trace.sw n).pioOutputAnswer ≠ 0b11#2

/-- An unanswered sample changes the level in the win state only. -/
theorem shown_of_unanswered (ticks : trace.Ticks n)
    (lowered : Fsm.questionAnswered (trace.sw n).pioOutputAnswer = false)
    (notWin : (trace.board n).fsm.state ≠ .win) : trace.shown (n + 1) = trace.shown n := by
  have before := trace.shown_eq n
  have after := trace.shown_eq (n + 1)
  rw [fsm_tick ticks, Fsm.risingEdge_unanswered _ lowered,
    (trace.bounded n).unanswered_sCnt notWin] at after
  omega

/-- Nor does it at level zero, where the machine is idle. -/
theorem shown_of_idle (ticks : trace.Ticks n) (zero : trace.shown n = 0)
    (silent : (trace.sw n).pioOutputAnswer = 0b00#2) : trace.shown (n + 1) = trace.shown n := by
  apply shown_of_unanswered ticks (by rw [silent]; rfl)
  intro win
  have six := trace.bounded n
  simp only [Fsm.Bounded, win] at six
  have count := trace.shown_eq n
  omega

/-- An unanswered sample never raises the level. -/
theorem Raises.answered (raises : trace.Raises n) :
    Fsm.questionAnswered (trace.sw n).pioOutputAnswer ≠ false := by
  intro lowered
  by_cases win : (trace.board n).fsm.state = .win
  · have after := trace.shown_eq (n + 1)
    rw [fsm_tick raises.1, Fsm.risingEdge_unanswered _ lowered, Fsm.unanswered_win win] at after
    have zero : trace.shown (n + 1) = 0 := by
      simpa [Fsm.reset] using after
    have higher := raises.2
    omega
  · have same := shown_of_unanswered raises.1 lowered win
    exact absurd raises.2 (by omega)

/-- After a change that found the program prepared, the iteration under way
straddles it. -/
theorem Prepared.straddles (prepared : trace.Prepared m) (changes : trace.Changes m) :
    Straddles (trace.shown (m + 1)) (trace.sw (m + 1)).control := by
  rw [sw_tick changes.1]
  left
  intro adopted
  change (trace.sw m).oldLevel = trace.shown (m + 1) at adopted
  rcases prepared.adopted with same | ⟨zero, silent⟩
  · exact changes.2 (adopted.symm.trans same)
  · exact changes.2 (shown_of_idle changes.1 zero silent)

/-- In a paced run every event of the kind finds the program prepared. -/
theorem prepared {kind : Nat → Prop} (changing : ∀ n, trace.Changes n → kind n)
    (paced : trace.Paced kind) (here : kind n) : trace.Prepared n := by
  induction n using Nat.strong_induction_on with
  | _ n ih =>
      by_cases earlier : ∃ i < n, trace.Changes i
      · obtain ⟨i, before, changes⟩ := earlier
        obtain ⟨m, -, last, changes, none⟩ := exists_last changes before
        have straddles := (ih m last (changing m changes)).straddles changes
        have caught := @caught_of_twoIterations trace m n False none False.elim straddles
          (paced m n changes here last)
        have same := shown_const none last (Nat.le_refl n)
        exact ⟨Or.inl (caught.adopted.trans same.symm), fun six => caught.quiet (same ▸ six)⟩
      · have unchanged : ∀ i < n, ¬ trace.Changes i :=
          fun i before changes => earlier ⟨i, before, changes⟩
        obtain ⟨zero, fresh⟩ := fresh_of_unchanged unchanged
        refine ⟨?_, by omega⟩
        rcases fresh.adopted with adopted | ⟨_, silent, _⟩
        · exact Or.inl (adopted.trans zero.symm)
        · exact Or.inr ⟨zero, silent⟩

/-- Between a change and a later event of the kind, keys that are held all the
time leave `00` on the port. -/
theorem silent_of_held {kind : Nat → Prop} (changing : ∀ n, trace.Changes n → kind n)
    (paced : trace.Paced kind) (changes : trace.Changes m) (here : kind n) (before : m < n)
    (zeroFree : ∀ i, m < i → i < n → ¬ trace.ReadsZero i) :
    (trace.sw n).pioOutputAnswer = 0b00#2 := by
  obtain ⟨i, later, last, changesLast, none⟩ := exists_last changes before
  have straddles := (prepared changing paced (changing i changesLast)).straddles changesLast
  have caught := @caught_of_twoIterations trace i n True none
    (fun _ k after upto => zeroFree k (Nat.lt_of_le_of_lt later after) upto) straddles
    (paced i n changesLast here last)
  exact caught.cleared trivial

/-- One key press raises the level at most once, provided that two whole
iterations start and finish between any two changes of the level: between two
raises some iteration finds all keys released. -/
theorem exists_readsZero_of_raises (paced : trace.Paced trace.Changes)
    (first : trace.Raises m) (second : trace.Raises n) (before : m < n) :
    ∃ k, m < k ∧ k < n ∧ trace.ReadsZero k := by
  by_contra held
  push Not at held
  have silent := silent_of_held (fun _ => id) paced first.changes second.changes before held
  apply second.answered
  rw [silent]
  rfl

/-- The key that starts the game is held while two ticks follow each other. -/
def hasty : Trace where
  junk := .zeroed
  events n := if n = 5 ∨ n = 6 then .tick else .loop (press 0b0001)

/-- Without time for an iteration one key press raises the level twice. -/
theorem hasty_raises_twice :
    hasty.Raises 5 ∧ hasty.Raises 6 ∧ ∀ k, ¬ hasty.ReadsZero k := by
  refine ⟨⟨rfl, by decide +kernel⟩, ⟨rfl, by decide +kernel⟩, ?_⟩
  rintro k ⟨input, event, -, zero⟩
  by_cases tick : k = 5 ∨ k = 6
  · simp [hasty, tick] at event
  · simp only [hasty, if_neg tick, Event.loop.injEq] at event
    subst event
    exact absurd zero (by decide)

/-- The iterations that start with events 6 and 11 pass between the ticks. -/
theorem promoted_twoIterations : promoted.TwoIterations 5 150016 := by
  refine ⟨6, 10, 11, 15, by decide, ?_, ?_, ?_, ?_⟩
  · exact ⟨⟨press 0b0000, rfl⟩, by rw [promoted, answering_sw _ (by decide)]; decide +kernel⟩
  · exact ⟨⟨press 0b0000, rfl⟩, by rw [promoted, answering_sw _ (by decide)]; decide +kernel⟩
  · exact ⟨⟨press 0b0000, rfl⟩, by rw [promoted, answering_sw _ (by decide)]; decide +kernel⟩
  · exact ⟨⟨press 0b0000, rfl⟩, by rw [promoted, answering_sw _ (by decide)]; decide +kernel⟩

theorem promoted_raises : promoted.Raises 5 ∧ promoted.Raises 150016 := by
  constructor
  · refine ⟨rfl, ?_⟩
    rw [shown, shown, promoted, answering_board _ (by decide), answering_board _ (by decide)]
    decide +kernel
  · have ticks : promoted.Ticks 150016 := answering_rest _ 0
    obtain ⟨fsm, -⟩ := answering_answered fun n => if n = 0 then .tick else .loop (press 0b1000)
    refine ⟨ticks, ?_⟩
    rw [shown, shown, promoted_fsm, promoted, fsm]
    decide

/-- Both raises are found with a released key in between. -/
theorem promoted_readsZero : ∃ k, 5 < k ∧ k < 150016 ∧ promoted.ReadsZero k := by
  apply exists_readsZero_of_raises _ promoted_raises.1 promoted_raises.2 (by decide)
  intro m n first second before
  rcases promoted_ticks first.1 with rfl | rfl
  · rcases promoted_ticks second.1 with rfl | rfl
    · exact absurd before (Nat.lt_irrefl 5)
    · exact promoted_twoIterations
  · rcases promoted_ticks second.1 with rfl | rfl <;> omega

/-! ## Two iterations between all ticks -/

/-- From the first iteration on, two whole iterations start and finish between
every two consecutive ticks. -/
def TwoPerTick (trace : Trace) : Prop :=
  ∀ m n, trace.Ticks m → trace.Ticks n → m < n → (∀ i, m < i → i < n → ¬ trace.Ticks i) →
    (∃ s < m, trace.Starts s) → trace.TwoIterations m n

/-- Before the first iteration nothing happens. -/
theorem idle_of_not_starts (none : ∀ i < n, ¬ trace.Starts i) :
    trace.sw n = trace.sw 0 ∧ trace.shown n = 0 := by
  induction n with
  | zero => exact ⟨rfl, shown_zero trace⟩
  | succ n ih =>
      obtain ⟨sw, shown⟩ := ih fun i before => none i (Nat.lt_succ_of_lt before)
      rcases event : trace.events n with _ | input
      · refine ⟨(sw_tick event).trans sw, (shown_of_idle event shown ?_).trans shown⟩
        rw [sw]
        rfl
      · exact absurd ⟨⟨input, event⟩, by rw [sw]; rfl⟩ (none n (Nat.lt_succ_self n))

/-- So a change of the level comes after the start of some iteration. -/
theorem Changes.exists_starts (changes : trace.Changes n) : ∃ s < n, trace.Starts s := by
  by_contra none
  push Not at none
  obtain ⟨sw, shown⟩ := idle_of_not_starts none
  apply changes.2
  apply shown_of_idle changes.1 shown
  rw [sw]
  rfl

theorem TwoPerTick.paced (two : trace.TwoPerTick) : trace.Paced trace.Ticks := by
  intro m n changes ticks before
  obtain ⟨next, after, upto, ticksNext, none⟩ := exists_first ticks before
  obtain ⟨s₁, f₁, s₂, f₂, ⟨start, finish, start', finish', last⟩, steps⟩ :=
    two m next changes.1 ticksNext after none changes.exists_starts
  exact ⟨s₁, f₁, s₂, f₂, ⟨start, finish, start', finish', Nat.lt_of_lt_of_le last upto⟩, steps⟩

/-- The only way into the win state is a correct answer at level six. -/
theorem not_win_of_quiet
    (quiet : ∀ n, trace.Ticks n → trace.shown n = 6 → (trace.sw n).pioOutputAnswer ≠ 0b11#2)
    (n : Nat) : (trace.board n).fsm.state ≠ .win := by
  induction n with
  | zero => simp [board, Board.powerUp, Fsm.reset]
  | succ n ih =>
      rcases event : trace.events n with _ | input
      · rw [fsm_tick event]
        intro win
        obtain ⟨correct, six⟩ := Fsm.correct_six_of_risingEdge_win ih win
        have count := trace.shown_eq n
        exact quiet n event (by omega) correct
      · rw [fsm_loop event]
        exact ih

/-- Level six is left by a wrong answer only, from the question or the wait
state. -/
theorem leaves_six_of_prepared (prepared : trace.Prepared n)
    (notWin : (trace.board n).fsm.state ≠ .win) (changes : trace.Changes n)
    (six : trace.shown n = 6) :
    (trace.sw n).pioOutputAnswer = 0b10#2 ∧
      ((trace.board n).fsm.state = .question ∨ (trace.board n).fsm.state = .wait) := by
  constructor
  · rcases Fsm.answer_cases (trace.sw n).pioOutputAnswer with port | port | port | port
    · exact absurd port (prepared.quiet six)
    · exact port
    · exact absurd (shown_of_unanswered changes.1 (by rw [port]; rfl) notWin) changes.2
    · exact absurd (shown_of_unanswered changes.1 (by rw [port]; rfl) notWin) changes.2
  · have bounded := trace.bounded n
    have count := trace.shown_eq n
    rcases state : (trace.board n).fsm.state with _ | _ | _ | _
    · simp only [Fsm.Bounded, state] at bounded
      omega
    · exact Or.inl rfl
    · exact Or.inr rfl
    · exact absurd state notWin

/-- Two iterations for each tick are enough.  Between any two changes of the
level, in either direction, some iteration that starts after the first one
finds all keys released; and the state machine never enters the win state, so
that level six is always left by a sampled `10` from the question or the wait
state. -/
theorem handshake_of_twoPerTick (two : trace.TwoPerTick) :
    (∀ m n, trace.Changes m → trace.Changes n → m < n →
        ∃ k, m < k ∧ k < n ∧ trace.ReadsZero k) ∧
      (∀ n, (trace.board n).fsm.state ≠ .win) ∧
      ∀ n, trace.Ticks n → trace.shown n = 6 → trace.shown (n + 1) ≠ 6 →
        (trace.sw n).pioOutputAnswer = 0b10#2 ∧
          ((trace.board n).fsm.state = .question ∨ (trace.board n).fsm.state = .wait) := by
  have changing : ∀ n, trace.Changes n → trace.Ticks n := fun _ changes => changes.1
  have all : ∀ n, trace.Ticks n → trace.Prepared n :=
    fun n ticks => prepared changing two.paced ticks
  have notWin := not_win_of_quiet fun n ticks => (all n ticks).quiet
  refine ⟨?_, notWin, ?_⟩
  · intro m n first second before
    by_contra held
    push Not at held
    have silent := silent_of_held changing two.paced first second.1 before held
    exact second.2 (shown_of_unanswered second.1 (by rw [silent]; rfl) (notWin n))
  · intro n ticks six left
    exact leaves_six_of_prepared (all n ticks) (notWin n)
      ⟨ticks, fun same => left (same.trans six)⟩ six

/-- In the run that answers the first question both ticks change the level. -/
theorem promoted_handshake :
    promoted.TwoPerTick ∧ promoted.Changes 5 ∧ promoted.Changes 150016 ∧
      ∃ k, 5 < k ∧ k < 150016 ∧ promoted.ReadsZero k := by
  have two : promoted.TwoPerTick := by
    intro m n first second before _ _
    rcases promoted_ticks first with rfl | rfl
    · rcases promoted_ticks second with rfl | rfl
      · exact absurd before (Nat.lt_irrefl 5)
      · exact promoted_twoIterations
    · rcases promoted_ticks second with rfl | rfl <;> omega
  refine ⟨two, promoted_raises.1.changes, promoted_raises.2.changes, ?_⟩
  exact (handshake_of_twoPerTick two).1 5 150016 promoted_raises.1.changes
    promoted_raises.2.changes (by decide)

end Trace

end FpgaTrivia.System
