import FpgaTrivia.System.Judging

/-!
# What the next tick samples

The answer port is written anew at the end of every iteration, and at once when
a verdict is wrong.  A verdict survives until the next tick if every iteration
that comes to its judging step before the tick decides the same again, or
writes nothing before the tick.
-/

namespace FpgaTrivia.System

open FpgaTrivia.Arith
open FpgaTrivia.Hardware
open FpgaTrivia.Software
open FpgaTrivia.Transition

/-- The state of the program while a verdict waits to be sampled: `answer` is
the verdict, `s₀` the state in which it has been decided. -/
structure Repeats (s₀ : Sw) (answer : BitVec 2) (s : Sw) : Prop where
  pending : s.Deciding → s.answer = answer ∧ s.level = s₀.level
  ready : ¬ s₀.Redraws → s.ready = 1
  drawn : ¬ s₀.Redraws → s.oldLevel = s₀.level ∧ s.cnt ≠ 0
  passed : ¬ s₀.Redraws → 30000 ≤ s.timeCnt
  same : ¬ s₀.Redraws → s.SameQuestion s₀

/-- A judging step that decides again what has been decided in `s₀`: the
judging iteration has not drawn a new screen, the level is the same, one key is
down that is right or wrong like the first one, and the delay counter does not
overflow. -/
structure Renews (s₀ : Sw) (pressed : Fin 4) (s : Sw) : Prop where
  undrawn : ¬ s₀.Redraws
  level : s.level = s₀.level
  key : ∃ again, s.key = keyOf again ∧
    (s₀.answers again = s₀.q.answerCorrect ↔ s₀.answers pressed = s₀.q.answerCorrect)
  count : s.timeCnt < 2 ^ 31 - 1

section Repeats

variable {s₀ s : Sw} {answer : BitVec 2} {pressed correct : Fin 4} {input : Input}
  {level : BitVec 4}

theorem Renews.judges (renews : Renews s₀ pressed s) (repeats : Repeats s₀ answer s)
    (asked : s₀.level ≠ 0 ∧ s₀.level ≠ 6) (pc : s.pc = .judge) : s.Judges := by
  obtain ⟨again, key, -⟩ := renews.key
  have passed := repeats.passed renews.undrawn
  have count := renews.count
  refine ⟨pc, ?_, repeats.ready renews.undrawn, ?_, ?_, ?_⟩
  · rw [key]
    exact keyOf_ne_zero again
  · rw [renews.level]
    exact asked.1
  · rw [renews.level]
    exact asked.2
  · rw [wrap_eq_self (by omega) (by omega)]
    omega

/-- A judging step that renews the verdict writes nothing else to the port. -/
theorem Repeats.judge (repeats : Repeats s₀ (verdictOf pressed correct) s)
    (renews : Renews s₀ pressed s) (asked : s₀.level ≠ 0 ∧ s₀.level ≠ 6)
    (only : s₀.OnlyCorrect correct) (pc : s.pc = .judge) (wild : Bool) :
    Repeats s₀ (verdictOf pressed correct) (s.judge wild) ∧
      ((s.judge wild).pioOutputAnswer = s.pioOutputAnswer ∨
        (s.judge wild).pioOutputAnswer = verdictOf pressed correct) := by
  have judges := renews.judges repeats asked pc
  have same := repeats.same renews.undrawn
  have ready := repeats.ready renews.undrawn
  have drawn := repeats.drawn renews.undrawn
  have counted : 30000 ≤ wrap 32 (s.timeCnt + 1) := judges.2.2.2.2.2
  have later := (Sw.sameQuestion_judge wild s).trans same
  obtain ⟨again, key, alike⟩ := renews.key
  have right : again = correct ↔ pressed = correct :=
    (only again).symm.trans (alike.trans (only pressed))
  have verdict : s.verdict wild = true ↔ again = correct := by
    apply Sw.verdict_iff key
    unfold Sw.OnlyCorrect
    rw [same.answers, same.q]
    exact only
  rw [Sw.judge_of_judges judges] at later ⊢
  by_cases correctKey : again = correct
  · have answer := (verdictOf_eq_right_iff _ _).mpr (right.mp correctKey)
    rw [if_pos (verdict.mpr correctKey)] at later ⊢
    exact ⟨⟨fun _ => ⟨answer.symm, renews.level⟩, fun _ => ready, fun _ => drawn,
      fun _ => counted, fun _ => later⟩, Or.inl rfl⟩
  · have answer := (verdictOf_eq_wrong_iff _ _).mpr (mt right.mpr correctKey)
    rw [if_neg (mt verdict.mp correctKey)] at later ⊢
    exact ⟨⟨fun _ => ⟨answer.symm, renews.level⟩, fun _ => ready, fun _ => drawn,
      fun _ => counted, fun _ => later⟩, Or.inr answer.symm⟩

/-- No later iteration draws before the judging one has drawn. -/
theorem Repeats.not_redraws (repeats : Repeats s₀ answer s) (pc : s.pc = .redraw)
    (undrawn : ¬ s₀.Redraws) : ¬ s.Redraws := by
  rintro (changed | first)
  · have pending := repeats.pending (Or.inr (Or.inl pc))
    exact changed (pending.2.trans (repeats.drawn undrawn).1.symm)
  · exact (repeats.drawn undrawn).2 first

theorem Repeats.redraw (repeats : Repeats s₀ answer s) (pc : s.pc = .redraw)
    (rand : Nat → Rand) : Repeats s₀ answer (s.redraw rand) := by
  have pending := repeats.pending (Or.inr (Or.inl pc))
  have unchanged (undrawn : ¬ s₀.Redraws) : s.redraw rand = { s with pc := .writeAnswer } := by
    rw [Sw.redraw, if_neg (repeats.not_redraws pc undrawn)]
  constructor
  · intro _
    simpa using pending
  · intro undrawn
    rw [unchanged undrawn]
    exact repeats.ready undrawn
  · intro undrawn
    rw [unchanged undrawn]
    exact repeats.drawn undrawn
  · intro undrawn
    rw [unchanged undrawn]
    exact repeats.passed undrawn
  · intro undrawn
    exact (Sw.sameQuestion_redraw rand (repeats.not_redraws pc undrawn)).trans
      (repeats.same undrawn)

/-- The verdict is still the same after every other step, too. -/
theorem Repeats.step (repeats : Repeats s₀ (verdictOf pressed correct) s)
    (renews : s.pc = .judge → Renews s₀ pressed s) (asked : s₀.level ≠ 0 ∧ s₀.level ≠ 6)
    (only : s₀.OnlyCorrect correct) :
    Repeats s₀ (verdictOf pressed correct) (s.step input level) ∧
      ((s.step input level).pioOutputAnswer = verdictOf pressed correct ∨
        (s.pc ≠ .writeAnswer ∧ (s.step input level).pioOutputAnswer = s.pioOutputAnswer)) := by
  have same : ¬ s₀.Redraws → (s.step input level).SameQuestion s₀ := by
    intro undrawn
    have kept := Sw.sameQuestion_step input level fun pc => repeats.not_redraws pc undrawn
    exact kept.trans (repeats.same undrawn)
  rcases pc : s.pc with _ | _ | _ | _ | _ | _
  · rw [Sw.step_readKey pc] at same ⊢
    have idle : ¬ (s.readKey input.key).Deciding := by simp [Sw.Deciding, Sw.readKey]
    exact ⟨⟨fun inside => absurd inside idle, repeats.ready, repeats.drawn, repeats.passed, same⟩,
      Or.inr ⟨by simp, rfl⟩⟩
  · rw [Sw.step_readLevel pc] at same ⊢
    have idle : ¬ (s.readLevel level).Deciding := by simp [Sw.Deciding, Sw.readLevel]
    exact ⟨⟨fun inside => absurd inside idle, repeats.ready, repeats.drawn, repeats.passed, same⟩,
      Or.inr ⟨by simp, rfl⟩⟩
  · rw [Sw.step_judge pc]
    obtain ⟨again, port⟩ := repeats.judge (renews pc) asked only pc input.wild
    exact ⟨again, port.symm.imp_right fun same => ⟨by simp, same⟩⟩
  · rw [Sw.step_wrong pc] at same ⊢
    exact ⟨⟨fun _ => repeats.pending (Or.inl pc), repeats.ready, repeats.drawn, repeats.passed,
      same⟩, Or.inr ⟨by simp, rfl⟩⟩
  · rw [Sw.step_redraw pc]
    exact ⟨repeats.redraw pc input.rand, Or.inr ⟨by simp, by simp⟩⟩
  · have pending := repeats.pending (Or.inr (Or.inr pc))
    rw [Sw.step_writeAnswer pc] at same ⊢
    have idle : ¬ s.writeAnswer.Deciding := by simp [Sw.Deciding, Sw.writeAnswer]
    exact ⟨⟨fun inside => absurd inside idle, repeats.ready, repeats.drawn, repeats.passed, same⟩,
      Or.inl pending.1⟩

/-- The judging step itself. -/
theorem repeats_judge (judges : s₀.Judges) (key : s₀.key = keyOf pressed)
    (only : s₀.OnlyCorrect correct) (wild : Bool) :
    Repeats s₀ (verdictOf pressed correct) (s₀.judge wild) := by
  have judged := Sw.Judged.of_judges judges key only wild
  have question := Sw.sameQuestion_judge wild s₀
  have undecided : (s₀.judge wild).pc ≠ .readKey := by
    rcases Sw.judge_pc wild s₀ with pc | pc <;> simp [pc]
  have answer := judged.decided undecided
  have fresh : ¬ s₀.Redraws → s₀.oldLevel = s₀.level ∧ s₀.cnt ≠ 0 := by
    intro undrawn
    simp only [Sw.Redraws, not_or, ne_eq, not_not] at undrawn
    exact ⟨undrawn.1.symm, undrawn.2⟩
  rw [Sw.judge_of_judges judges] at question answer ⊢
  obtain ⟨-, -, ready, -, -, counted⟩ := judges
  by_cases right : s₀.verdict wild = true
  · rw [if_pos right] at question answer ⊢
    exact ⟨fun _ => ⟨answer, rfl⟩, fun _ => ready, fresh, fun _ => counted, fun _ => question⟩
  · rw [if_neg right] at question answer ⊢
    exact ⟨fun _ => ⟨answer, rfl⟩, fun _ => ready, fresh, fun _ => counted, fun _ => question⟩

end Repeats

namespace Trace

variable {trace : Trace} {n w t k : Nat}

/-- Event `w` is the first one to write the verdict that event `n` decides: a
wrong verdict is written at once, a right one when the iteration finishes. -/
def WritesVerdict (trace : Trace) (n w : Nat) : Prop :=
  ((trace.sw (n + 1)).answer = 0b10#2 ∧ w = n) ∨
    ((trace.sw (n + 1)).answer = 0b11#2 ∧ n < w ∧ trace.Finishes w ∧
      ∀ k, n < k → k < w → ¬ trace.Finishes k)

/-- Event `t` is the first tick after event `w`. -/
def FirstTick (trace : Trace) (w t : Nat) : Prop :=
  w < t ∧ trace.Ticks t ∧ ∀ k, w < k → k < t → ¬ trace.Ticks k

/-- The iteration that judges with event `k` writes nothing before event `t`: it
does not decide that an answer is wrong, and it does not finish. -/
structure Withholds (trace : Trace) (k t : Nat) : Prop where
  right : ∀ input, trace.events k = .loop input → (trace.sw k).Judges →
    (trace.sw k).verdict input.wild = true
  unfinished : ∀ j, k < j → j < t → ¬ trace.Finishes j

/-- Every iteration that comes to its judging step between events `n` and `t`
decides again what event `n` has decided, unless it writes nothing before
event `t`. -/
def Held (trace : Trace) (n t : Nat) (pressed : Fin 4) : Prop :=
  ∀ k, n < k → k < t → trace.Steps .judge k →
    Renews (trace.sw n) pressed (trace.sw k) ∨ trace.Withholds k t

/-- A wrong verdict is on the port after the judging step. -/
theorem Judges.port_of_wrong (judges : trace.Judges n)
    (wrong : (trace.sw (n + 1)).answer = 0b10#2) :
    (trace.sw (n + 1)).pioOutputAnswer = 0b10#2 := by
  obtain ⟨⟨input, event⟩, judging⟩ := judges
  rw [sw_loop event, Sw.step_judge judging.1, Sw.judge_of_judges judging] at wrong ⊢
  by_cases right : (trace.sw n).verdict input.wild = true
  · rw [if_pos right] at wrong
    exact absurd wrong (by simp [Sw.right, Sw.writeSseg])
  · rw [if_neg right]
    rfl

/-- The first tick after the verdict of event `n` has been written samples it,
and nothing else is written before. -/
def SamplesVerdict (trace : Trace) (n : Nat) : Prop :=
  ∀ w t, trace.WritesVerdict n w → trace.FirstTick w t →
    ∀ k, w < k → k ≤ t → (trace.sw k).pioOutputAnswer = (trace.sw (n + 1)).answer

/-- At position `k` the program still repeats the verdict of event `n`, and from
event `w` on the verdict is on the port. -/
def Keeps (trace : Trace) (n w : Nat) (answer : BitVec 2) (k : Nat) : Prop :=
  Repeats (trace.sw n) answer (trace.sw k) ∧ (w < k → (trace.sw k).pioOutputAnswer = answer)

section Keeps

variable {pressed correct : Fin 4}

/-- Only a judging step or the end of an iteration writes the verdict. -/
theorem WritesVerdict.stage (writes : trace.WritesVerdict n w) (later : n < w) :
    trace.Finishes w := by
  rcases writes with ⟨_, same⟩ | ⟨_, _, finishes, _⟩
  · exact absurd same (Nat.ne_of_gt later)
  · exact finishes

theorem Judges.keeps (judges : trace.Judges n) (key : (trace.sw n).key = keyOf pressed)
    (only : (trace.sw n).OnlyCorrect correct) (writes : trace.WritesVerdict n w) :
    trace.Keeps n w (verdictOf pressed correct) (n + 1) := by
  have decided : (trace.sw (n + 1)).answer = verdictOf pressed correct :=
    (judges.judged key only (sameIteration_succ trace n)).decided judges.undecided
  constructor
  · obtain ⟨input, event⟩ := judges.1
    rw [sw_loop event, Sw.step_judge judges.2.1]
    exact repeats_judge judges.2 key only input.wild
  · intro early
    rcases writes with ⟨wrong, _⟩ | ⟨_, later, _⟩
    · exact (judges.port_of_wrong wrong).trans (wrong.symm.trans decided)
    · exact absurd later (Nat.not_lt_of_le (Nat.lt_succ_iff.mp early))

theorem Keeps.succ (keeps : trace.Keeps n w (verdictOf pressed correct) k) (after : n < k)
    (renews : trace.Steps .judge k → Renews (trace.sw n) pressed (trace.sw k))
    (asked : (trace.sw n).level ≠ 0 ∧ (trace.sw n).level ≠ 6)
    (only : (trace.sw n).OnlyCorrect correct) (writes : trace.WritesVerdict n w) :
    trace.Keeps n w (verdictOf pressed correct) (k + 1) := by
  obtain ⟨repeats, port⟩ := keeps
  -- an event that does not finish an iteration is not the one that writes first
  have earlier (unfinished : ¬ trace.Finishes k) (before : w < k + 1) : w < k := by
    rcases Nat.lt_succ_iff_lt_or_eq.mp before with less | rfl
    · exact less
    · exact absurd (writes.stage after) unfinished
  rcases event : trace.events k with _ | input
  · have unfinished : ¬ trace.Finishes k := by
      rintro ⟨⟨input, loop⟩, _⟩
      simp [event] at loop
    rw [Keeps, sw_tick event]
    exact ⟨repeats, fun before => port (earlier unfinished before)⟩
  · obtain ⟨again, next⟩ := @Repeats.step _ _ _ _ input (trace.board k).fsm.oCount repeats
      (fun pc => renews ⟨⟨input, event⟩, pc⟩) asked only
    rw [Keeps, sw_loop event]
    refine ⟨again, fun before => ?_⟩
    rcases next with written | ⟨other, same⟩
    · exact written
    · exact same.trans (port (earlier (fun finishes => other finishes.2) before))

end Keeps

/-- An iteration that withholds its answer leaves the port alone. -/
theorem Withholds.port (withholds : trace.Withholds k t) (judging : trace.Steps .judge k) {m : Nat}
    (after : k < m) (upto : m ≤ t) :
    (trace.sw m).pioOutputAnswer = (trace.sw k).pioOutputAnswer := by
  obtain ⟨⟨input, event⟩, pc⟩ := judging
  have stage : ((trace.sw m).pc = .redraw ∨ (trace.sw m).pc = .writeAnswer) ∧
      (trace.sw m).pioOutputAnswer = (trace.sw k).pioOutputAnswer := by
    apply interval_induction (P := fun m =>
      ((trace.sw m).pc = .redraw ∨ (trace.sw m).pc = .writeAnswer) ∧
        (trace.sw m).pioOutputAnswer = (trace.sw k).pioOutputAnswer) after
    · obtain ⟨next, same⟩ := Sw.judge_of_not_wrong pc (withholds.right input event)
      rw [sw_loop event, Sw.step_judge pc]
      exact ⟨Or.inl next, same⟩
    · rintro j lower upper ⟨stage, same⟩
      rcases here : trace.events j with _ | input
      · rw [sw_tick here]
        exact ⟨stage, same⟩
      · have redraws : (trace.sw j).pc = .redraw := by
          apply stage.resolve_right
          intro finishes
          exact withholds.unfinished j lower (Nat.lt_of_lt_of_le upper upto)
            ⟨⟨input, here⟩, finishes⟩
        rw [sw_loop here, Sw.step_redraw redraws, Sw.redraw_pioOutputAnswer]
        exact ⟨Or.inr (Sw.redraw_pc input.rand _), same⟩
  exact stage.2

section Held

variable {pressed correct : Fin 4}

/-- As long as every iteration decides the same again, the verdict is kept. -/
theorem Judges.keeps_of_renews (judges : trace.Judges n) (key : (trace.sw n).key = keyOf pressed)
    (only : (trace.sw n).OnlyCorrect correct) (writes : trace.WritesVerdict n w)
    (renews : ∀ j, n < j → j < k → trace.Steps .judge j →
      Renews (trace.sw n) pressed (trace.sw j)) (after : n < k) :
    trace.Keeps n w (verdictOf pressed correct) k := by
  apply interval_induction (P := trace.Keeps n w (verdictOf pressed correct)) after
    (judges.keeps key only writes)
  intro j lower upper keeps
  exact keeps.succ lower (renews j lower upper)
    ⟨judges.2.2.2.2.1, judges.2.2.2.2.2.1⟩ only writes

theorem port_of_held (judges : trace.Judges n)
    (key : (trace.sw n).key = keyOf pressed) (writes : trace.WritesVerdict n w)
    (held : trace.Held n t pressed) (written : w < k) (upto : k ≤ t) :
    (trace.sw k).pioOutputAnswer = (trace.sw (n + 1)).answer := by
  obtain ⟨correct, only⟩ := ((trace.consistent n).shows_of_judges judges.2).exists_unique
  rw [(judges.judged key only (sameIteration_succ trace n)).decided judges.undecided]
  have start : n ≤ w := by
    rcases writes with ⟨_, rfl⟩ | ⟨_, later, _⟩
    · exact Nat.le_refl _
    · exact Nat.le_of_lt later
  by_cases other : ∃ j, n < j ∧ j < k ∧ trace.Steps .judge j ∧
      ¬ Renews (trace.sw n) pressed (trace.sw j)
  -- the first iteration that decides anew withholds its answer
  · obtain ⟨j, after, before, deviates⟩ := other
    obtain ⟨i, first, last, ⟨judging, anew⟩, none⟩ := exists_first
      (P := fun i => trace.Steps .judge i ∧ ¬ Renews (trace.sw n) pressed (trace.sw i))
      deviates after
    have early : i < k := Nat.lt_of_le_of_lt last before
    have withholds := (held i first (Nat.lt_of_lt_of_le early upto) judging).resolve_left anew
    have renews : ∀ j, n < j → j < i → trace.Steps .judge j →
        Renews (trace.sw n) pressed (trace.sw j) := by
      intro j lower upper steps
      by_contra different
      exact none j lower upper ⟨steps, different⟩
    have keeps := judges.keeps_of_renews key only writes renews first
    have published : w < i := by
      rcases Nat.lt_trichotomy w i with less | rfl | greater
      · exact less
      · exact absurd (judging.2.symm.trans (writes.stage first).2) (by decide)
      · exact absurd (writes.stage (Nat.lt_trans first greater))
          (withholds.unfinished w greater (Nat.lt_of_lt_of_le written upto))
    exact (withholds.port judging early upto).trans (keeps.2 published)
  · have renews : ∀ j, n < j → j < k → trace.Steps .judge j →
        Renews (trace.sw n) pressed (trace.sw j) := by
      intro j lower upper steps
      by_contra different
      exact other ⟨j, lower, upper, steps, different⟩
    exact (judges.keeps_of_renews key only writes renews (Nat.lt_of_le_of_lt start written)).2
      written

end Held

/-- No verdict is lost while the key is held: if, for the event that writes the
verdict and the first tick after it, every iteration that comes to its judging
step before the tick decides the same again or writes nothing before the tick,
then the tick samples the verdict. -/
theorem samplesVerdict_of_held {pressed : Fin 4} (judges : trace.Judges n)
    (key : (trace.sw n).key = keyOf pressed)
    (held : ∀ w t, trace.WritesVerdict n w → trace.FirstTick w t → trace.Held n t pressed) :
    trace.SamplesVerdict n := by
  intro w t writes tick k written upto
  exact port_of_held judges key writes (held w t writes tick) written upto

/-! ## One more iteration before the tick -/

/-- One more iteration reads `key`; then the state machine ticks. -/
def oneMore (key : BitVec 4) (n : Nat) : Event :=
  if n < 5 then .loop (press key) else .tick

theorem oneMore_loop (key : BitVec 4) {i : Nat} (within : i < 5) :
    (answering (oneMore key)).events (150016 + i) = .loop (press key) := by
  rw [answering_rest, oneMore, if_pos within]

theorem oneMore_tick (key : BitVec 4) : (answering (oneMore key)).Ticks 150021 :=
  answering_rest _ 5

/-- The key of slot 3 is right, and the iteration goes on to the redraw block. -/
theorem answering_decides (rest : Nat → Event) :
    ((answering rest).sw 150014).answer = 0b11#2 ∧ ((answering rest).sw 150014).pc = .redraw := by
  obtain ⟨judges, key⟩ := answering_judges rest
  obtain ⟨-, -, question, slot⟩ := answering_waits rest
  obtain ⟨correct, only⟩ :=
    (((answering rest).consistent 150013).shows_of_judges judges.2).exists_unique
  have right : 3 = correct := by
    apply (only 3).mp
    rw [answering_entered, Sw.entered_answers, Sw.entered_q, slot, question]
  have judged := judges.judged key only (sameIteration_succ _ 150013)
  constructor
  · rw [judged.decided judges.undecided]
    exact (verdictOf_eq_right_iff 3 correct).mpr right
  · obtain ⟨input, event⟩ := judges.1
    have step := sw_loop event
    rw [Sw.step_judge judges.2.1] at step
    rcases Sw.judge_pc input.wild ((answering rest).sw 150013) with pc | pc
    · exact (congrArg Sw.pc step).trans pc
    · exact absurd right (judged.marking ((congrArg Sw.pc step).trans pc)).1

/-- The verdict is written two events after it has been decided. -/
theorem answering_writes (rest : Nat → Event) : (answering rest).WritesVerdict 150013 150015 := by
  obtain ⟨answer, pc⟩ := answering_decides rest
  have drawing : (answering rest).events 150014 = .loop (press 0b1000) :=
    answering_loop rest (by decide) (by decide)
  right
  refine ⟨answer, by decide, ⟨⟨press 0b1000, answering_loop rest (by decide) (by decide)⟩, ?_⟩, ?_⟩
  · rw [sw_loop drawing, Sw.step_redraw pc]
    exact Sw.redraw_pc _ _
  · intro k lower upper finishes
    obtain rfl : k = 150014 := by omega
    rw [finishes.2] at pc
    simp at pc

theorem oneMore_firstTick (key : BitVec 4) :
    (answering (oneMore key)).FirstTick 150015 150021 := by
  refine ⟨by decide, oneMore_tick key, ?_⟩
  intro k lower upper ticks
  obtain ⟨i, rfl⟩ := Nat.exists_eq_add_of_le lower
  rw [Ticks, oneMore_loop key (by omega)] at ticks
  simp at ticks

theorem WritesVerdict.unique {w' : Nat} (writes : trace.WritesVerdict n w)
    (writes' : trace.WritesVerdict n w') : w = w' := by
  rcases writes with ⟨wrong, rfl⟩ | ⟨right, after, finishes, first⟩ <;>
    rcases writes' with ⟨wrong', rfl⟩ | ⟨right', after', finishes', first'⟩
  · rfl
  · simp [wrong] at right'
  · simp [wrong'] at right
  · rcases Nat.lt_trichotomy w w' with less | same | less
    · exact absurd finishes (first' w after less)
    · exact same
    · exact absurd finishes' (first w' after' less)

theorem FirstTick.unique {t' : Nat} (tick : trace.FirstTick w t) (tick' : trace.FirstTick w t') :
    t = t' := by
  rcases Nat.lt_trichotomy t t' with less | same | less
  · exact absurd tick.2.1 (tick'.2.2 t tick.1 less)
  · exact same
  · exact absurd tick'.2.1 (tick.2.2 t' tick'.1 less)

/-- The two events after a judging step do not judge. -/
theorem Steps.judge_apart (judging : trace.Steps .judge n) :
    (trace.sw (n + 1)).pc ≠ .judge ∧ (trace.sw (n + 2)).pc ≠ .judge := by
  obtain ⟨⟨input, event⟩, pc⟩ := judging
  have next : (trace.sw (n + 1)).pc = .redraw ∨ (trace.sw (n + 1)).pc = .wrong := by
    rw [sw_loop event, Sw.step_judge pc]
    exact Sw.judge_pc input.wild _
  have apart : (trace.sw (n + 1)).pc ≠ .judge := by
    rcases next with next | next <;> simp [next]
  refine ⟨apart, ?_⟩
  rcases later : trace.events (n + 1) with _ | input'
  · rw [sw_tick later]
    exact apart
  · rw [sw_loop later]
    rcases next with next | next
    · rw [Sw.step_redraw next, Sw.redraw_pc]
      simp
    · rw [Sw.step_wrong next]
      simp [Sw.wrong]

/-- The held key is judged once more before the tick, and is right again. -/
theorem oneMore_held : (answering (oneMore 0b1000)).Held 150013 150021 3 := by
  obtain ⟨-, waiting, -, -⟩ := answering_waits (oneMore 0b1000)
  obtain ⟨fsm, awaits, -, -⟩ := answering_answered (oneMore 0b1000)
  obtain ⟨judges, -⟩ := answering_judges (oneMore 0b1000)
  have first := answering_entered (oneMore 0b1000)
  have loops : ∀ i < 2, (answering (oneMore 0b1000)).events (150016 + i) = .loop (press 0b1000) :=
    fun i within => oneMore_loop 0b1000 (Nat.lt_add_right 3 within)
  have second := entered_of_loops loops awaits.readKey
  rw [fsm, show Fsm.oCount { state := .question, sCnt := 1 } = 1 from rfl,
    show 150016 + 2 = 150018 from rfl] at second
  have reading : ((answering (oneMore 0b1000)).sw 150017).pc = .readLevel := by
    rw [sw_loop (loops 0 (by decide)), Sw.step_readKey awaits.readKey]
    rfl
  have again : (answering (oneMore 0b1000)).Steps .judge 150018 := by
    refine ⟨⟨press 0b1000, oneMore_loop 0b1000 (show 2 < 5 by decide)⟩, ?_⟩
    rw [second]
    rfl
  have renews : Renews ((answering (oneMore 0b1000)).sw 150013) 3
      ((answering (oneMore 0b1000)).sw 150018) := by
    rw [first, second]
    constructor
    · rw [Sw.entered_redraws]
      exact waiting.not_redrawsAt
    · rw [Sw.entered_level, Sw.entered_level]
    · exact ⟨3, Sw.entered_key _ _, Iff.rfl⟩
    · rw [Sw.entered_timeCnt, awaits.timeCnt]
      decide
  intro k lower upper judging
  have cases : k = 150013 + 1 ∨ k = 150013 + 2 ∨ k = 150016 ∨ k = 150017 ∨ k = 150018 ∨
      k = 150018 + 1 ∨ k = 150018 + 2 := by
    omega
  rcases cases with rfl | rfl | rfl | rfl | rfl | rfl | rfl
  · exact absurd judging.2 (Steps.judge_apart ⟨judges.1, judges.2.1⟩).1
  · exact absurd judging.2 (Steps.judge_apart ⟨judges.1, judges.2.1⟩).2
  · exact absurd (awaits.readKey.symm.trans judging.2) (by decide)
  · exact absurd (reading.symm.trans judging.2) (by decide)
  · exact Or.inl renews
  · exact absurd judging.2 again.judge_apart.1
  · exact absurd judging.2 again.judge_apart.2

/-- A key that is held until the tick has its verdict sampled. -/
theorem oneMore_samplesVerdict : (answering (oneMore 0b1000)).SamplesVerdict 150013 := by
  obtain ⟨judges, key⟩ := answering_judges (oneMore 0b1000)
  apply samplesVerdict_of_held judges key
  intro w t writes tick
  obtain rfl := writes.unique (answering_writes (oneMore 0b1000))
  obtain rfl := tick.unique (oneMore_firstTick 0b1000)
  exact oneMore_held

/-- The keys are released for one iteration before the tick: `11` is replaced by
`00`. -/
theorem released_loses_verdict :
    (answering (oneMore 0b0000)).Judges 150013 ∧
      ((answering (oneMore 0b0000)).sw 150013).key = keyOf 3 ∧
      ¬ (answering (oneMore 0b0000)).SamplesVerdict 150013 := by
  obtain ⟨judges, key⟩ := answering_judges (oneMore 0b0000)
  obtain ⟨fsm, awaits, -, -⟩ := answering_answered (oneMore 0b0000)
  refine ⟨judges, key, ?_⟩
  intro samples
  have verdict := samples 150015 150021 (answering_writes _) (oneMore_firstTick _) 150021
    (by decide) (Nat.le_refl _)
  have port := @port_of_released (answering (oneMore 0b0000)) 150016 (press 0b0000)
    (fun i within => oneMore_loop 0b0000 within) awaits.readKey rfl
    (by rw [fsm]; decide)
  rw [show 150016 + 5 = 150021 from rfl, verdict, (answering_decides _).1] at port
  exact absurd port (by decide)

end Trace

end FpgaTrivia.System
