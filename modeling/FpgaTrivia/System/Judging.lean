import FpgaTrivia.Software.Verdict
import FpgaTrivia.System.Hold

/-!
# What is judged

An answer is judged against the question that is on the screen.  That question
belongs to the level read by the previous iteration, so the first iteration
that reads a new level may still judge an answer to the old question.
-/

namespace FpgaTrivia.System

open FpgaTrivia.Arith
open FpgaTrivia.Hardware
open FpgaTrivia.Shuffle
open FpgaTrivia.Software
open FpgaTrivia.Transition

namespace Trace

variable {trace : Trace} {n : Nat}

/-- Event `n` judges an answer. -/
def Judges (trace : Trace) (n : Nat) : Prop :=
  (∃ input, trace.events n = .loop input) ∧ (trace.sw n).Judges

theorem consistent (trace : Trace) (n : Nat) : (trace.sw n).Consistent := by
  induction n with
  | zero => exact Sw.consistent_boot trace.junk
  | succ n ih =>
      rcases event : trace.events n with _ | input
      · rw [sw_tick event]
        exact ih
      · rw [sw_loop event]
        exact ih.step (trace.shown_le n)

/-! ## The levels that have been read -/

/-- Event `r` is the last one before `n` to read the level. -/
structure LastReads (trace : Trace) (r n : Nat) : Prop where
  reads : trace.Steps .readLevel r
  before : r < n
  last : ∀ i, r < i → i < n → ¬ trace.Steps .readLevel i

theorem LastReads.succ {r : Nat} (last : trace.LastReads r n) (other : ¬ trace.Steps .readLevel n) :
    trace.LastReads r (n + 1) where
  reads := last.reads
  before := Nat.lt_succ_of_lt last.before
  last := by
    intro i lower upper
    rcases Nat.lt_succ_iff_lt_or_eq.mp upper with less | rfl
    · exact last.last i lower less
    · exact other

theorem lastReads_self (reads : trace.Steps .readLevel n) : trace.LastReads n (n + 1) where
  reads := reads
  before := Nat.lt_succ_self n
  last := by
    intro i lower upper
    omega

theorem LastReads.unique {r r' : Nat} (last : trace.LastReads r n) (last' : trace.LastReads r' n) :
    r = r' := by
  rcases Nat.lt_trichotomy r r' with less | same | less
  · exact absurd last'.reads (last.last r' less last'.before)
  · exact same
  · exact absurd last.reads (last'.last r less last.before)

/-- The old level is the level that the last reading before `n` has shown,
unless the redraw block has never been entered. -/
def Recalls (trace : Trace) (s : Sw) (n : Nat) : Prop :=
  s.First ∨ ∃ p, trace.LastReads p n ∧ s.oldLevel = trace.shown p

/-- What the program remembers of its readings, step by step. -/
def Remembers (trace : Trace) (s : Sw) (n : Nat) : Prop :=
  match s.pc with
  | .readKey | .readLevel => trace.Recalls s n
  | .judge | .wrong | .redraw =>
      ∃ r, trace.LastReads r n ∧ s.level = trace.shown r ∧ trace.Recalls s r
  | .writeAnswer => ∃ p, trace.LastReads p n ∧ s.oldLevel = trace.shown p

section Memory

variable {input : Input} {r : Nat}

theorem oldLevel_loop (event : trace.events n = .loop input) (undrawn : (trace.sw n).pc ≠ .redraw) :
    (trace.sw (n + 1)).oldLevel = (trace.sw n).oldLevel := by
  change (trace.sw (n + 1)).control.oldLevel = (trace.sw n).control.oldLevel
  rw [control_loop event]
  exact Control.step_oldLevel undrawn _ _ _

theorem level_loop (event : trace.events n = .loop input) (unread : (trace.sw n).pc ≠ .readLevel) :
    (trace.sw (n + 1)).level = (trace.sw n).level := by
  change (trace.sw (n + 1)).control.level = (trace.sw n).control.level
  rw [control_loop event]
  exact Control.step_level unread _ _ _

theorem Recalls.succ {s : Sw} (recalls : trace.Recalls s n) (other : ¬ trace.Steps .readLevel n) :
    trace.Recalls s (n + 1) := by
  apply recalls.imp_right
  rintro ⟨p, last, same⟩
  exact ⟨p, last.succ other, same⟩

theorem Recalls.loop (recalls : trace.Recalls (trace.sw n) r)
    (event : trace.events n = .loop input) (undrawn : (trace.sw n).pc ≠ .redraw) :
    trace.Recalls (trace.sw (n + 1)) r := by
  rcases recalls with first | ⟨p, last, same⟩
  · left
    rw [sw_loop event]
    exact first.step undrawn
  · exact Or.inr ⟨p, last, (oldLevel_loop event undrawn).trans same⟩

/-- A tick makes nothing be forgotten. -/
theorem Remembers.succ {s : Sw} (remembers : trace.Remembers s n)
    (other : ¬ trace.Steps .readLevel n) : trace.Remembers s (n + 1) := by
  rcases pc : s.pc with _ | _ | _ | _ | _ | _ <;> simp only [Remembers, pc] at remembers ⊢
  · exact remembers.succ other
  · exact remembers.succ other
  · obtain ⟨r, last, level, recalls⟩ := remembers
    exact ⟨r, last.succ other, level, recalls⟩
  · obtain ⟨r, last, level, recalls⟩ := remembers
    exact ⟨r, last.succ other, level, recalls⟩
  · obtain ⟨r, last, level, recalls⟩ := remembers
    exact ⟨r, last.succ other, level, recalls⟩
  · obtain ⟨p, last, same⟩ := remembers
    exact ⟨p, last.succ other, same⟩

/-- The level that has been read stays in `level`, and the one before it is
recalled. -/
theorem reading_loop
    (reading : ∃ r, trace.LastReads r n ∧ (trace.sw n).level = trace.shown r ∧
      trace.Recalls (trace.sw n) r)
    (event : trace.events n = .loop input) (unread : (trace.sw n).pc ≠ .readLevel)
    (undrawn : (trace.sw n).pc ≠ .redraw) :
    ∃ r, trace.LastReads r (n + 1) ∧ (trace.sw (n + 1)).level = trace.shown r ∧
      trace.Recalls (trace.sw (n + 1)) r := by
  obtain ⟨r, last, level, recalls⟩ := reading
  exact ⟨r, last.succ fun reads => unread reads.2, (level_loop event unread).trans level,
    recalls.loop event undrawn⟩

theorem Remembers.loop (remembers : trace.Remembers (trace.sw n) n)
    (event : trace.events n = .loop input) : trace.Remembers (trace.sw (n + 1)) (n + 1) := by
  have step := sw_loop event
  have other (unread : (trace.sw n).pc ≠ .readLevel) : ¬ trace.Steps .readLevel n :=
    fun reads => unread reads.2
  rcases pc : (trace.sw n).pc with _ | _ | _ | _ | _ | _ <;>
    simp only [Remembers, pc] at remembers
  · have recalls := (remembers.loop event (by simp [pc])).succ (other (by simp [pc]))
    rw [Sw.step_readKey pc] at step
    have next : (trace.sw (n + 1)).pc = .readLevel := by rw [step]; rfl
    simp only [Remembers, next]
    exact recalls
  · have recalls := remembers.loop event (by simp [pc])
    rw [Sw.step_readLevel pc] at step
    have next : (trace.sw (n + 1)).pc = .judge := by rw [step]; rfl
    simp only [Remembers, next]
    exact ⟨n, lastReads_self ⟨⟨input, event⟩, pc⟩, by rw [step]; rfl, recalls⟩
  · have kept := reading_loop remembers event (by simp [pc]) (by simp [pc])
    rw [Sw.step_judge pc] at step
    have next : (trace.sw (n + 1)).pc = .redraw ∨ (trace.sw (n + 1)).pc = .wrong := by
      rw [step]
      exact Sw.judge_pc input.wild _
    rcases next with next | next
    · simp only [Remembers, next]
      exact kept
    · simp only [Remembers, next]
      exact kept
  · have kept := reading_loop remembers event (by simp [pc]) (by simp [pc])
    rw [Sw.step_wrong pc] at step
    have next : (trace.sw (n + 1)).pc = .redraw := by rw [step]; rfl
    simp only [Remembers, next]
    exact kept
  -- the redraw block adopts the level of this iteration, whether or not it is entered
  · obtain ⟨r, last, level, -⟩ := remembers
    rw [Sw.step_redraw pc] at step
    have next : (trace.sw (n + 1)).pc = .writeAnswer := by rw [step, Sw.redraw_pc]
    have drawn : (trace.sw (n + 1)).oldLevel = trace.shown r := by
      rw [step, Sw.redraw_oldLevel]
      exact level
    simp only [Remembers, next]
    exact ⟨r, last.succ (other (by simp [pc])), drawn⟩
  · obtain ⟨p, last, same⟩ := remembers
    have kept := oldLevel_loop event (by simp [pc])
    rw [Sw.step_writeAnswer pc] at step
    have next : (trace.sw (n + 1)).pc = .readKey := by rw [step]; rfl
    simp only [Remembers, next]
    exact Or.inr ⟨p, last.succ (other (by simp [pc])), kept.trans same⟩

end Memory

theorem remembers (trace : Trace) (n : Nat) : trace.Remembers (trace.sw n) n := by
  induction n with
  | zero => exact Or.inl ⟨rfl, ⟨by simp [sw, board, Board.powerUp, Sw.boot],
      by simp [sw, board, Board.powerUp, Sw.boot]⟩, fun _ => rfl⟩
  | succ n ih =>
      rcases event : trace.events n with _ | input
      · rw [sw_tick event]
        apply ih.succ
        rintro ⟨⟨input, loop⟩, -⟩
        simp [event] at loop
      · exact ih.loop event

/-- When an answer is judged, two levels have been read: the one of this
iteration and the one of the iteration before, which is the level of the
question. -/
theorem Judges.readings (judges : trace.Judges n) :
    ∃ r p, trace.LastReads r n ∧ trace.LastReads p r ∧ (trace.sw n).level = trace.shown r ∧
      (trace.sw n).q.level = trace.shown p := by
  have memory := trace.remembers n
  have shows := (trace.consistent n).shows_of_judges judges.2
  obtain ⟨pc, -, -, -, -, passed⟩ := judges.2
  simp only [Remembers, pc] at memory
  obtain ⟨r, lastRead, level, recalls⟩ := memory
  rcases recalls with first | ⟨p, last, same⟩
  · rw [first.timeCnt (by simp [pc])] at passed
    exact absurd passed (by decide)
  · exact ⟨r, p, lastRead, last, level, shows.level_eq.trans same⟩

/-- Every answer is judged against a question of the level that its iteration
has read, exactly as long as every such iteration has read the level of the
iteration before. -/
theorem judged_level_iff (trace : Trace) (n : Nat) :
    (∀ k < n, trace.Judges k → (trace.sw k).q.level = (trace.sw k).level) ↔
      ∀ k < n, trace.Judges k → ∀ r p, trace.LastReads r k → trace.LastReads p r →
        trace.shown r = trace.shown p := by
  constructor
  · intro sameLevel k before judges r p lastRead last
    obtain ⟨r', p', lastRead', last', level, question⟩ := judges.readings
    obtain rfl := lastRead.unique lastRead'
    obtain rfl := last.unique last'
    exact level.symm.trans ((sameLevel k before judges).symm.trans question)
  · intro unchanged k before judges
    obtain ⟨r, p, lastRead, last, level, question⟩ := judges.readings
    exact question.trans ((unchanged k before judges r p lastRead last).symm.trans level.symm)

/-- The key of the first answer is still held when level 2 is read, and is judged
against the question of level 1. -/
theorem promoted_judges_old_question :
    ¬ ∀ k, promoted.Judges k → (promoted.sw k).q.level = (promoted.sw k).level := by
  intro sameLevel
  obtain ⟨-, awaits, question, -⟩ := answering_answered
    fun n => if n = 0 then .tick else .loop (press 0b1000)
  have ticks : promoted.Ticks 150016 := answering_rest _ 0
  have same : promoted.sw 150017 = promoted.sw 150016 := sw_tick ticks
  rw [← promoted, ← same] at awaits question
  have loops : ∀ i < 2, promoted.events (150017 + i) = .loop (press 0b1000) := by
    intro i _
    exact promoted_loop (Nat.lt_add_right i (Nat.lt_succ_self 150016))
  have entered := entered_of_loops loops awaits.readKey
  rw [promoted_fsm, show 150017 + 2 = 150019 from rfl] at entered
  have judges : promoted.Judges 150019 := by
    refine ⟨⟨press 0b1000, promoted_loop (by decide)⟩, ?_⟩
    rw [entered]
    exact awaits.judges (by decide) (by decide) (by decide)
  have claimed := sameLevel 150019 judges
  rw [entered, Sw.entered_q, Sw.entered_level, question] at claimed
  exact absurd claimed (by decide)

/-! ## The outcome of a judgement -/

/-- The next reading of the keys has not been reached between `n` and `m`. -/
def SameIteration (trace : Trace) (n m : Nat) : Prop :=
  n < m ∧ ∀ k, n < k → k < m → (trace.sw k).pc ≠ .readKey

theorem sameIteration_succ (trace : Trace) (n : Nat) : trace.SameIteration n (n + 1) :=
  ⟨Nat.lt_succ_self n, fun k lower upper => absurd upper (by omega)⟩

/-- The judging step does not finish the iteration. -/
theorem Judges.undecided (judges : trace.Judges n) : (trace.sw (n + 1)).pc ≠ .readKey := by
  obtain ⟨⟨input, event⟩, judging⟩ := judges
  rw [sw_loop event, Sw.step_judge judging.1]
  rcases Sw.judge_pc input.wild (trace.sw n) with pc | pc <;> simp [pc]

/-- From the judging step to the end of the iteration the outcome persists. -/
theorem Judges.judged_and_inside {pressed correct : Fin 4} (judges : trace.Judges n)
    (key : (trace.sw n).key = keyOf pressed) (only : (trace.sw n).OnlyCorrect correct) {m : Nat}
    (same : trace.SameIteration n m) :
    Sw.Judged pressed correct (trace.sw n).Redraws (trace.sw m) ∧
      ((trace.sw m).pc = .readKey ∨ (trace.sw m).Deciding) := by
  obtain ⟨⟨input, event⟩, judging⟩ := judges
  apply interval_induction (P := fun k =>
    Sw.Judged pressed correct (trace.sw n).Redraws (trace.sw k) ∧
      ((trace.sw k).pc = .readKey ∨ (trace.sw k).Deciding)) same.1
  · rw [sw_loop event, Sw.step_judge judging.1]
    refine ⟨.of_judges judging key only input.wild, Or.inr ?_⟩
    exact (Sw.judge_pc input.wild _).elim (fun pc => Or.inr (Or.inl pc)) Or.inl
  · intro k lower upper ih
    obtain ⟨judged, stage⟩ := ih
    have inside := stage.resolve_left (same.2 k lower upper)
    rcases here : trace.events k with _ | input
    · rw [sw_tick here]
      exact ⟨judged, stage⟩
    · rw [sw_loop here]
      exact judged.step inside input _

theorem Judges.judged {pressed correct : Fin 4} (judges : trace.Judges n)
    (key : (trace.sw n).key = keyOf pressed) (only : (trace.sw n).OnlyCorrect correct) {m : Nat}
    (same : trace.SameIteration n m) :
    Sw.Judged pressed correct (trace.sw n).Redraws (trace.sw m) :=
  (judges.judged_and_inside key only same).1

/-- Verdict, display and screen agree.  When an answer is judged with one key
down, the slots hold the four answers of the question and exactly one of them
is correct; the verdict is `11` exactly if its key is down; the display shows
the letters of the pressed and of the correct slot as soon as the branch of
the verdict has been left; and a wrong verdict has marked the two slots then.
The marks stay until the end of the iteration unless it draws a new screen. -/
theorem judged_agrees {pressed : Fin 4} (judges : trace.Judges n)
    (key : (trace.sw n).key = keyOf pressed) :
    Rearranges (trace.sw n).answers (trace.sw n).q.options ∧
      ∃ correct, (∀ i, (trace.sw n).answers i = (trace.sw n).q.answerCorrect ↔ i = correct) ∧
        ((trace.sw (n + 1)).answer = 0b11#2 ∨ (trace.sw (n + 1)).answer = 0b10#2) ∧
        ((trace.sw (n + 1)).answer = 0b11#2 ↔ (trace.sw n).key = keyOf correct) ∧
        ∀ m, trace.SameIteration n m →
          ((trace.sw m).pc = .readKey →
            (trace.sw m).pioOutputAnswer = (trace.sw (n + 1)).answer) ∧
          ((trace.sw m).pc ≠ .wrong →
            (trace.sw m).pioSseg.toNat % 256 = segmentLetter pressed ∧
              (trace.sw m).pioSseg.toNat / 256 = segmentLetter correct ∧
              ((trace.sw m).pioSseg.toNat % 256 = (trace.sw m).pioSseg.toNat / 256 ↔
                (trace.sw (n + 1)).answer = 0b11#2)) ∧
          ((trace.sw (n + 1)).answer = 0b10#2 →
            ((trace.sw m).pc = .redraw ∨
              ((trace.sw m).pc ≠ .wrong ∧ ¬ (trace.sw n).Redraws)) →
            mark (trace.sw m).charBuf correct = 'O' ∧
              mark (trace.sw m).charBuf pressed = 'X') := by
  have shows := (trace.consistent n).shows_of_judges judges.2
  obtain ⟨correct, only⟩ := shows.exists_unique
  have decided : (trace.sw (n + 1)).answer = verdictOf pressed correct :=
    (judges.judged key only (sameIteration_succ trace n)).decided judges.undecided
  have rightIff : (trace.sw (n + 1)).answer = 0b11#2 ↔ pressed = correct := by
    rw [decided, verdictOf_eq_right_iff]
  refine ⟨shows.answers, correct, only, ?_, ?_, ?_⟩
  · rw [decided, verdictOf]
    split
    · exact Or.inl rfl
    · exact Or.inr rfl
  · rw [rightIff, key]
    exact keyOf_injective.eq_iff.symm
  · intro m same
    have judged := judges.judged key only same
    refine ⟨fun pc => (judged.published pc).trans decided.symm, ?_, ?_⟩
    · intro pc
      rw [rightIff, judged.display pc, letters_low, letters_high]
      exact ⟨rfl, rfl, segmentLetter_injective.eq_iff⟩
    · intro wrong shown
      rw [decided, verdictOf_eq_wrong_iff] at wrong
      exact judged.marks shown wrong

theorem answering_entered (rest : Nat → Event) :
    (answering rest).sw 150013 = ((answering rest).sw 150011).entered ⟨press 0b1000, 1⟩ := by
  obtain ⟨fsm, waiting, -, -⟩ := answering_waits rest
  have loops : ∀ i < 2, (answering rest).events (150011 + i) = .loop (press 0b1000) := by
    intro i upper
    exact answering_loop rest (by omega) (by omega)
  have entered := entered_of_loops loops waiting.readKey
  rw [fsm] at entered
  exact entered

/-- After 29999 iterations the next one with the correct key down judges it. -/
theorem answering_judges (rest : Nat → Event) :
    (answering rest).Judges 150013 ∧ ((answering rest).sw 150013).key = keyOf 3 := by
  obtain ⟨-, waiting, -, -⟩ := answering_waits rest
  rw [Judges, answering_entered]
  exact ⟨⟨⟨press 0b1000, answering_loop rest (by decide) (by decide)⟩,
    waiting.judges (by decide) (by decide) (by decide)⟩, rfl⟩

/-- The first key is down instead in the iteration that judges. -/
def mistaken : Trace where
  junk := .zeroed
  events n := if n < 150011 then promoted.events n else .loop (press 0b0001)

theorem mistaken_board {n : Nat} (within : n ≤ 150011) :
    mistaken.board n = promoted.board n := by
  apply Transition.run_congr
  intro k before
  exact if_pos (Nat.lt_of_lt_of_le before within)

theorem mistaken_loop {n : Nat} (late : 150011 ≤ n) : mistaken.events n = .loop (press 0b0001) :=
  if_neg (Nat.not_lt.mpr late)

/-- The key of slot 0 is judged, the correct answer is in slot 3. -/
theorem mistaken_judges : mistaken.Judges 150013 ∧ (mistaken.sw 150013).key = keyOf 0 ∧
    (mistaken.sw 150013).answers 3 = (mistaken.sw 150013).q.answerCorrect := by
  have same := mistaken_board (Nat.le_refl 150011)
  have same' : mistaken.sw 150011 = promoted.sw 150011 := congrArg Board.sw same
  obtain ⟨fsm, waiting, question, correct⟩ :=
    answering_waits fun n => if n = 0 then .tick else .loop (press 0b1000)
  rw [← promoted, ← same'] at waiting question correct
  rw [← promoted, ← same] at fsm
  have entered := @entered_of_loops mistaken 150011 (press 0b0001)
    (fun i _ => mistaken_loop (Nat.le_add_right _ i)) waiting.readKey
  rw [fsm] at entered
  rw [Judges, show (150013 : Nat) = 150011 + 2 from rfl, entered]
  refine ⟨⟨⟨_, mistaken_loop (by decide)⟩, ?_⟩, rfl, ?_⟩
  · exact waiting.judges (by decide) (by decide) (by decide)
  · rw [Sw.entered_answers, Sw.entered_q, question, correct]

/-- The iteration comes to its redraw block, through the branch of a wrong verdict or
not. -/
theorem mistaken_redraws :
    ∃ m, mistaken.SameIteration 150013 m ∧ (mistaken.sw m).pc = .redraw := by
  have judges := mistaken_judges.1
  have judged := sw_loop (@mistaken_loop 150013 (by decide))
  rw [Sw.step_judge judges.2.1] at judged
  rcases Sw.judge_pc (press 0b0001).wild (mistaken.sw 150013) with pc | pc
  · rw [← judged] at pc
    exact ⟨150014, sameIteration_succ _ _, pc⟩
  · rw [← judged] at pc
    refine ⟨150015, ⟨by decide, fun k lower upper => ?_⟩, ?_⟩
    · obtain rfl : k = 150014 := by omega
      rw [pc]
      decide
    · rw [sw_loop (@mistaken_loop 150014 (by decide)), Sw.step_wrong pc]
      rfl

/-- In the first run the verdict is `11`.  In the second one it is `10`, the correct
slot is marked with an O and the pressed one with an X. -/
theorem promoted_judged_agrees :
    (∃ correct : Fin 4,
      ((promoted.sw 150013).answers 3 = (promoted.sw 150013).q.answerCorrect ↔ 3 = correct) ∧
        ((promoted.sw 150014).answer = 0b11#2 ↔ (promoted.sw 150013).key = keyOf correct)) ∧
      (mistaken.sw 150014).answer = 0b10#2 ∧
        ∃ m, mistaken.SameIteration 150013 m ∧ mark (mistaken.sw m).charBuf 3 = 'O' ∧
          mark (mistaken.sw m).charBuf 0 = 'X' := by
  constructor
  · have judging : promoted.Judges 150013 ∧ (promoted.sw 150013).key = keyOf 3 := by
      rw [promoted]
      exact answering_judges _
    obtain ⟨-, correct, only, -, verdict, -⟩ := judged_agrees judging.1 judging.2
    exact ⟨correct, only 3, verdict⟩
  · obtain ⟨judges, key, third⟩ := mistaken_judges
    obtain ⟨-, correct, only, answered, verdict, outcome⟩ := judged_agrees judges key
    obtain rfl : 3 = correct := (only 3).mp third
    have wrong : (mistaken.sw 150014).answer = 0b10#2 := by
      apply answered.resolve_left
      rw [verdict, key]
      decide
    refine ⟨wrong, ?_⟩
    obtain ⟨m, same, drawn⟩ := mistaken_redraws
    exact ⟨m, same, (outcome m same).2.2 wrong (Or.inl drawn)⟩

end Trace

end FpgaTrivia.System
