import FpgaTrivia.Software.Loop

/-!
# The control of the loop

What the program publishes on the answer port and when it redraws depends on a
few small variables only.  `Control` is the loop restricted to them; the
questions, the answers and the screen enter through one bit, the outcome of
comparing the chosen answer with the correct one.  `control_step` states that
the restriction is exact.
-/

namespace FpgaTrivia.Software

open FpgaTrivia.Arith

/-- The variables that steer the loop, and the answer port. -/
structure Control where
  pc : Pc
  key : Nat
  level : Nat
  oldLevel : Nat
  answer : BitVec 2
  cnt : Nat
  timeCnt : Int
  ready : Nat
  port : BitVec 2
  deriving DecidableEq, Repr

namespace Control

def readKey (reading : BitVec 4) (c : Control) : Control :=
  { c with key := reading.toNat, pc := .readLevel }

def readLevel (reading : BitVec 4) (c : Control) : Control :=
  { c with level := reading.toNat, pc := .judge }

def release (c : Control) : Control :=
  if c.key = 0 then { c with ready := 1, timeCnt := 0 } else c

/-- Count the delay and, once it has passed, publish the verdict. -/
def confirm (verdict : Bool) (c : Control) : Control :=
  let c := { c with timeCnt := wrap 32 (c.timeCnt + 1) }
  if 30000 ≤ c.timeCnt then
    if verdict = true then { c with answer := 0b11#2, pc := .redraw }
    else { c with answer := 0b10#2, port := 0b10#2, pc := .wrong }
  else { c with pc := .redraw }

def noAnswer (c : Control) : Control :=
  { c with answer := 0b00#2 }

def respond (verdict : Bool) (c : Control) : Control :=
  if c.ready = 1 then
    if c.level = 0 then
      if c.key ≠ 0 then { c with answer := 0b11#2, pc := .redraw } else { c with pc := .redraw }
    else if c.level = 6 then { c with answer := 0b10#2, pc := .redraw }
    else if c.key ≠ 0 then c.confirm verdict
    else { c with pc := .redraw }
  else { c with pc := .redraw }

def judge (verdict : Bool) (c : Control) : Control :=
  c.release.noAnswer.respond verdict

def wrong (c : Control) : Control :=
  { c with pc := .redraw }

def Redraws (c : Control) : Prop :=
  c.level ≠ c.oldLevel ∨ c.cnt = 0

instance (c : Control) : Decidable c.Redraws :=
  inferInstanceAs (Decidable (c.level ≠ c.oldLevel ∨ c.cnt = 0))

def redraw (c : Control) : Control :=
  if c.Redraws then
    { c with
      oldLevel := c.level
      ready := 0
      timeCnt := 0
      cnt := (c.cnt + 1) % 256
      pc := .writeAnswer }
  else { c with pc := .writeAnswer }

def writeAnswer (c : Control) : Control :=
  { c with port := c.answer, pc := .readKey }

/-- One step, given the key port, the level port and the comparison. -/
def step (key level : BitVec 4) (verdict : Bool) (c : Control) : Control :=
  match c.pc with
  | .readKey => c.readKey key
  | .readLevel => c.readLevel level
  | .judge => c.judge verdict
  | .wrong => c.wrong
  | .redraw => c.redraw
  | .writeAnswer => c.writeAnswer

/-- The step that comes next judges an answer. -/
def Judges (c : Control) : Prop :=
  c.pc = .judge ∧ c.key ≠ 0 ∧ c.ready = 1 ∧ c.level ≠ 0 ∧ c.level ≠ 6 ∧
    30000 ≤ wrap 32 (c.timeCnt + 1)

/-- The iteration has decided its answer and not yet published it. -/
def Pending (c : Control) : Prop :=
  c.pc = .wrong ∨ c.pc = .redraw ∨ c.pc = .writeAnswer

section Steps

variable {c : Control} {key level : BitVec 4} {verdict : Bool}

theorem step_readKey (pc : c.pc = .readKey) : c.step key level verdict = c.readKey key := by
  rw [step, pc]

theorem step_readLevel (pc : c.pc = .readLevel) :
    c.step key level verdict = c.readLevel level := by
  rw [step, pc]

theorem step_judge (pc : c.pc = .judge) : c.step key level verdict = c.judge verdict := by
  rw [step, pc]

theorem step_wrong (pc : c.pc = .wrong) : c.step key level verdict = c.wrong := by
  rw [step, pc]

theorem step_redraw (pc : c.pc = .redraw) : c.step key level verdict = c.redraw := by
  rw [step, pc]

theorem step_writeAnswer (pc : c.pc = .writeAnswer) :
    c.step key level verdict = c.writeAnswer := by
  rw [step, pc]

end Steps

@[simp]
theorem release_level (c : Control) : c.release.level = c.level := by
  unfold release
  split <;> rfl

@[simp]
theorem release_key (c : Control) : c.release.key = c.key := by
  unfold release
  split <;> rfl

@[simp]
theorem release_oldLevel (c : Control) : c.release.oldLevel = c.oldLevel := by
  unfold release
  split <;> rfl

@[simp]
theorem release_cnt (c : Control) : c.release.cnt = c.cnt := by
  unfold release
  split <;> rfl

@[simp]
theorem release_port (c : Control) : c.release.port = c.port := by
  unfold release
  split <;> rfl

theorem release_of_pressed {c : Control} (pressed : c.key ≠ 0) : c.release = c :=
  if_neg pressed

theorem release_of_released {c : Control} (released : c.key = 0) :
    c.release = { c with ready := 1, timeCnt := 0 } :=
  if_pos released

/-- Everything that the judging step can do. -/
inductive Judged (verdict : Bool) (c : Control) : Control → Prop
  | silent (idle : c.release.ready ≠ 1 ∨ (c.level ≠ 6 ∧ c.key = 0)) :
      Judged verdict c { c.release with answer := 0b00#2, pc := .redraw }
  | start (ready : c.ready = 1) (level : c.level = 0) (pressed : c.key ≠ 0) :
      Judged verdict c { c with answer := 0b11#2, pc := .redraw }
  | leave (ready : c.release.ready = 1) (level : c.level = 6) :
      Judged verdict c { c.release with answer := 0b10#2, pc := .redraw }
  | delay (ready : c.ready = 1) (asked : c.level ≠ 0 ∧ c.level ≠ 6) (pressed : c.key ≠ 0)
      (early : wrap 32 (c.timeCnt + 1) < 30000) :
      Judged verdict c
        { c with answer := 0b00#2, timeCnt := wrap 32 (c.timeCnt + 1), pc := .redraw }
  | right (ready : c.ready = 1) (asked : c.level ≠ 0 ∧ c.level ≠ 6) (pressed : c.key ≠ 0)
      (passed : 30000 ≤ wrap 32 (c.timeCnt + 1)) (correct : verdict = true) :
      Judged verdict c
        { c with answer := 0b11#2, timeCnt := wrap 32 (c.timeCnt + 1), pc := .redraw }
  | wrong (ready : c.ready = 1) (asked : c.level ≠ 0 ∧ c.level ≠ 6) (pressed : c.key ≠ 0)
      (passed : 30000 ≤ wrap 32 (c.timeCnt + 1)) (incorrect : verdict = false) :
      Judged verdict c
        { c with
          answer := 0b10#2
          timeCnt := wrap 32 (c.timeCnt + 1)
          port := 0b10#2
          pc := .wrong }

theorem judge_spec (verdict : Bool) (c : Control) : Judged verdict c (c.judge verdict) := by
  by_cases ready : c.release.ready = 1
  · by_cases pressed : c.key = 0
    · by_cases won : c.level = 6
      · have leave : Judged verdict c _ := .leave ready won
        simpa [judge, respond, noAnswer, ready, won] using leave
      · have silent : Judged verdict c _ := .silent (Or.inr ⟨won, pressed⟩)
        simpa [judge, respond, noAnswer, ready, won, pressed] using silent
    · rw [release_of_pressed pressed] at ready
      by_cases idle : c.level = 0
      · have start : Judged verdict c _ := .start ready idle pressed
        simpa [judge, respond, noAnswer, release_of_pressed, ready, idle, pressed] using start
      · by_cases won : c.level = 6
        · have leave : Judged verdict c _ :=
            .leave (by rw [release_of_pressed pressed]; exact ready) won
          simpa [judge, respond, noAnswer, release_of_pressed, ready, won, pressed] using leave
        · by_cases passed : 30000 ≤ wrap 32 (c.timeCnt + 1)
          · cases verdict with
            | true =>
                have right := Judged.right ready ⟨idle, won⟩ pressed passed rfl
                simpa [judge, respond, noAnswer, confirm, release_of_pressed, ready, idle, won,
                  pressed, passed] using right
            | false =>
                have wrong := Judged.wrong ready ⟨idle, won⟩ pressed passed rfl
                simpa [judge, respond, noAnswer, confirm, release_of_pressed, ready, idle, won,
                  pressed, passed] using wrong
          · have delay : Judged verdict c _ :=
              .delay ready ⟨idle, won⟩ pressed (Int.not_le.mp passed)
            simpa [judge, respond, noAnswer, confirm, release_of_pressed, ready, idle, won,
              pressed, passed] using delay
  · have silent : Judged verdict c _ := .silent (Or.inl ready)
    simpa [judge, respond, noAnswer, ready] using silent

/-! ### The judging step, field by field -/

section JudgeFields

variable (verdict : Bool) (c : Control)

theorem judge_pc : (c.judge verdict).pc = .redraw ∨ (c.judge verdict).pc = .wrong := by
  have spec := judge_spec verdict c
  generalize c.judge verdict = judged at spec ⊢
  cases spec <;> simp

@[simp]
theorem judge_key : (c.judge verdict).key = c.key := by
  have spec := judge_spec verdict c
  generalize c.judge verdict = judged at spec ⊢
  cases spec <;> simp

@[simp]
theorem judge_level : (c.judge verdict).level = c.level := by
  have spec := judge_spec verdict c
  generalize c.judge verdict = judged at spec ⊢
  cases spec <;> simp

@[simp]
theorem judge_oldLevel : (c.judge verdict).oldLevel = c.oldLevel := by
  have spec := judge_spec verdict c
  generalize c.judge verdict = judged at spec ⊢
  cases spec <;> simp

@[simp]
theorem judge_cnt : (c.judge verdict).cnt = c.cnt := by
  have spec := judge_spec verdict c
  generalize c.judge verdict = judged at spec ⊢
  cases spec <;> simp

/-- The judging step sets `ready` when no key is pushed. -/
theorem judge_ready :
    (c.judge verdict).ready = if c.key = 0 then 1 else c.ready := by
  have spec := judge_spec verdict c
  generalize c.judge verdict = judged at spec ⊢
  by_cases released : c.key = 0
  · rw [if_pos released]
    cases spec with
    | silent => simp [release_of_released released]
    | start _ _ pressed => exact absurd released pressed
    | leave => simp [release_of_released released]
    | delay _ _ pressed => exact absurd released pressed
    | right _ _ pressed => exact absurd released pressed
    | wrong _ _ pressed => exact absurd released pressed
  · rw [if_neg released]
    cases spec <;> simp [release_of_pressed released]

/-- The judging step counts while a key is down at a question level and the
program is ready. -/
theorem judge_timeCnt :
    (c.judge verdict).timeCnt =
      if c.key = 0 then 0
      else if c.ready = 1 ∧ c.level ≠ 0 ∧ c.level ≠ 6 then wrap 32 (c.timeCnt + 1)
      else c.timeCnt := by
  have spec := judge_spec verdict c
  generalize c.judge verdict = judged at spec ⊢
  by_cases released : c.key = 0
  · rw [if_pos released]
    cases spec with
    | silent => simp [release_of_released released]
    | start _ _ pressed => exact absurd released pressed
    | leave => simp [release_of_released released]
    | delay _ _ pressed => exact absurd released pressed
    | right _ _ pressed => exact absurd released pressed
    | wrong _ _ pressed => exact absurd released pressed
  · rw [if_neg released]
    cases spec with
    | silent idle =>
        rw [release_of_pressed released] at idle ⊢
        simp [idle.resolve_right fun both => released both.2]
    | start _ level => simp [level]
    | leave _ level => simp [release_of_pressed released, level]
    | delay ready asked => simp [ready, asked]
    | right ready asked => simp [ready, asked]
    | wrong ready asked => simp [ready, asked]

/-- A counter above zero has been so before, or counts at a question level. -/
theorem judge_counted {verdict : Bool} {c : Control} (counted : (c.judge verdict).timeCnt ≠ 0) :
    c.timeCnt ≠ 0 ∨ (c.level ≠ 0 ∧ c.level ≠ 6) := by
  rw [judge_timeCnt] at counted
  split at counted
  · exact absurd rfl counted
  · split at counted
    · rename_i asked
      exact Or.inr asked.2
    · exact Or.inl counted

/-- Level six is never answered with a correct answer. -/
theorem judge_answer_six {c : Control} (won : c.level = 6) :
    (c.judge verdict).answer ≠ 0b11#2 := by
  have spec := judge_spec verdict c
  generalize c.judge verdict = judged at spec ⊢
  cases spec with
  | silent => simp
  | start _ level => omega
  | leave => simp
  | delay _ asked => omega
  | right _ asked => omega
  | wrong _ asked => omega

/-- While the program is not ready and a key is down, nothing is decided. -/
theorem judge_of_blocked {c : Control} (blocked : c.ready = 0) (pressed : c.key ≠ 0) :
    c.judge verdict = { c with answer := 0b00#2, pc := .redraw } := by
  simp [judge, respond, noAnswer, release_of_pressed pressed, blocked]

end JudgeFields

/-- Only a wrong verdict leaves the straight path. -/
theorem judge_pc_of_not_wrong {verdict : Bool} {c : Control}
    (right : c.key = 0 ∨ wrap 32 (c.timeCnt + 1) < 30000 ∨ verdict = true) :
    (c.judge verdict).pc = .redraw := by
  have spec := judge_spec verdict c
  generalize c.judge verdict = judged at spec ⊢
  cases spec with
  | silent => rfl
  | start => rfl
  | leave => rfl
  | delay => rfl
  | right => rfl
  | wrong _ _ pressed passed incorrect =>
      rcases right with released | early | correct
      · exact absurd released pressed
      · omega
      · exact absurd (correct.symm.trans incorrect) (by decide)

/-- What a pressed key is answered with while the program is ready and
asks. -/
theorem judge_answer_of_ready {verdict : Bool} {c : Control} (ready : c.ready = 1)
    (asked : c.level ≠ 0 ∧ c.level ≠ 6) (pressed : c.key ≠ 0) :
    (c.judge verdict).answer =
      if wrap 32 (c.timeCnt + 1) < 30000 then 0b00#2
      else if verdict = true then 0b11#2 else 0b10#2 := by
  have spec := judge_spec verdict c
  generalize c.judge verdict = judged at spec ⊢
  cases spec with
  | silent idle =>
      rw [release_of_pressed pressed] at idle
      rcases idle with blocked | ⟨_, released⟩
      · exact absurd ready blocked
      · exact absurd released pressed
  | start _ level => exact absurd level asked.1
  | leave _ level => exact absurd level asked.2
  | delay _ _ _ early => rw [if_pos early]
  | right _ _ _ passed correct => rw [if_neg (Int.not_lt.mpr passed), if_pos correct]
  | wrong _ _ _ passed incorrect =>
      rw [if_neg (Int.not_lt.mpr passed), if_neg (by simp [incorrect])]

/-- A released key is answered with `00`, unless the game is won. -/
theorem judge_answer_of_released {verdict : Bool} {c : Control} (released : c.key = 0)
    (notWon : c.level ≠ 6) : (c.judge verdict).answer = 0b00#2 := by
  simp [judge, respond, noAnswer, release_of_released released, released, notWon]

/-! ### The redraw, field by field -/

@[simp]
theorem redraw_pc (c : Control) : c.redraw.pc = .writeAnswer := by
  unfold redraw
  split <;> rfl

@[simp]
theorem redraw_key (c : Control) : c.redraw.key = c.key := by
  unfold redraw
  split <;> rfl

@[simp]
theorem redraw_level (c : Control) : c.redraw.level = c.level := by
  unfold redraw
  split <;> rfl

@[simp]
theorem redraw_answer (c : Control) : c.redraw.answer = c.answer := by
  unfold redraw
  split <;> rfl

@[simp]
theorem redraw_port (c : Control) : c.redraw.port = c.port := by
  unfold redraw
  split <;> rfl

/-- After the redraw block the level is the old level, whether or not the
block has been entered. -/
@[simp]
theorem redraw_oldLevel (c : Control) : c.redraw.oldLevel = c.level := by
  unfold redraw
  split
  · rfl
  · rename_i quiet
    simp only [Redraws, not_or, ne_eq, not_not] at quiet
    exact quiet.1.symm

theorem redraw_of_redraws {c : Control} (redraws : c.Redraws) :
    c.redraw =
      { c with
        oldLevel := c.level
        ready := 0
        timeCnt := 0
        cnt := (c.cnt + 1) % 256
        pc := .writeAnswer } :=
  if_pos redraws

theorem redraw_of_not_redraws {c : Control} (quiet : ¬ c.Redraws) :
    c.redraw = { c with pc := .writeAnswer } :=
  if_neg quiet

/-- The redraw never makes the program ready. -/
theorem redraw_ready_of_blocked {c : Control} (blocked : c.ready = 0) : c.redraw.ready = 0 := by
  unfold redraw
  split
  · rfl
  · exact blocked

/-! ### What the other steps keep -/

/-- Only the redraw block sets the old level. -/
theorem step_oldLevel {c : Control} (undrawn : c.pc ≠ .redraw) (key level : BitVec 4)
    (verdict : Bool) : (c.step key level verdict).oldLevel = c.oldLevel := by
  rcases pc : c.pc with _ | _ | _ | _ | _ | _
  · rw [step_readKey pc, readKey]
  · rw [step_readLevel pc, readLevel]
  · rw [step_judge pc, judge_oldLevel]
  · rw [step_wrong pc, wrong]
  · exact absurd pc undrawn
  · rw [step_writeAnswer pc, writeAnswer]

/-- Only a level reading sets the level. -/
theorem step_level {c : Control} (unread : c.pc ≠ .readLevel) (key level : BitVec 4)
    (verdict : Bool) : (c.step key level verdict).level = c.level := by
  rcases pc : c.pc with _ | _ | _ | _ | _ | _
  · rw [step_readKey pc, readKey]
  · exact absurd pc unread
  · rw [step_judge pc, judge_level]
  · rw [step_wrong pc, wrong]
  · rw [step_redraw pc, redraw_level]
  · rw [step_writeAnswer pc, writeAnswer]

/-- What a step writes to the answer port. -/
theorem step_port (c : Control) (key level : BitVec 4) (verdict : Bool) :
    (c.step key level verdict).port = c.port ∨
      (c.step key level verdict).port = 0b10#2 ∨
      c.step key level verdict = c.writeAnswer := by
  rcases pc : c.pc with _ | _ | _ | _ | _ | _
  · exact Or.inl (by rw [step_readKey pc, readKey])
  · exact Or.inl (by rw [step_readLevel pc, readLevel])
  · rw [step_judge pc]
    have spec := judge_spec verdict c
    generalize c.judge verdict = judged at spec ⊢
    cases spec with
    | silent => exact Or.inl (release_port c)
    | start => exact Or.inl rfl
    | leave => exact Or.inl (release_port c)
    | delay => exact Or.inl rfl
    | right => exact Or.inl rfl
    | wrong => exact Or.inr (Or.inl rfl)
  · exact Or.inl (by rw [step_wrong pc, wrong])
  · left
    rw [step_redraw pc, redraw]
    split <;> rfl
  · exact Or.inr (Or.inr (step_writeAnswer pc))

end Control

namespace Sw

/-- The control of a program state. -/
def control (s : Sw) : Control where
  pc := s.pc
  key := s.key
  level := s.level
  oldLevel := s.oldLevel
  answer := s.answer
  cnt := s.cnt
  timeCnt := s.timeCnt
  ready := s.ready
  port := s.pioOutputAnswer

theorem control_confirm (wild : Bool) (s : Sw) :
    (s.confirm wild).control = s.control.confirm (s.verdict wild) := by
  have same : s.press.clearLetter.verdict wild = s.verdict wild := rfl
  rw [confirm, same]
  simp only [Control.confirm]
  split
  · rename_i passed
    rw [if_pos (show 30000 ≤ wrap 32 (s.control.timeCnt + 1) from passed)]
    split <;> rfl
  · rename_i early
    rw [if_neg (show ¬ 30000 ≤ wrap 32 (s.control.timeCnt + 1) from early)]
    rfl

/-- Highlighting is invisible to the control. -/
theorem control_highlight (s : Sw) : s.highlight.control = s.control := by
  unfold highlight
  split <;> rfl

theorem control_release (s : Sw) : s.release.control = s.control.release := by
  unfold release Control.release
  by_cases released : s.key = 0
  · rw [if_pos released, if_pos (show s.control.key = 0 from released)]
    rfl
  · rw [if_neg released, if_neg (show ¬ s.control.key = 0 from released)]

theorem control_respond (wild : Bool) (s : Sw) :
    (s.respond wild).control = s.control.respond (s.verdict wild) := by
  unfold respond Control.respond
  by_cases ready : s.ready = 1
  · rw [if_pos ready, if_pos (show s.control.ready = 1 from ready)]
    by_cases idle : s.level = 0
    · rw [if_pos idle, if_pos (show s.control.level = 0 from idle)]
      by_cases pressed : s.key ≠ 0
      · rw [if_pos pressed, if_pos (show s.control.key ≠ 0 from pressed)]
        rfl
      · rw [if_neg pressed, if_neg (show ¬ s.control.key ≠ 0 from pressed)]
        rfl
    · rw [if_neg idle, if_neg (show ¬ s.control.level = 0 from idle)]
      by_cases won : s.level = 6
      · rw [if_pos won, if_pos (show s.control.level = 6 from won)]
        rfl
      · rw [if_neg won, if_neg (show ¬ s.control.level = 6 from won)]
        by_cases pressed : s.key ≠ 0
        · rw [if_pos pressed, if_pos (show s.control.key ≠ 0 from pressed), control_confirm]
        · rw [if_neg pressed, if_neg (show ¬ s.control.key ≠ 0 from pressed)]
          rfl
  · rw [if_neg ready, if_neg (show ¬ s.control.ready = 1 from ready)]
    rfl

/-- Preparing the response does not touch what the verdict compares. -/
theorem verdict_prepared (wild : Bool) (s : Sw) :
    s.highlight.release.noAnswer.verdict wild = s.verdict wild := by
  unfold highlight release noAnswer
  split <;> split <;> rfl

theorem control_judge (wild : Bool) (s : Sw) :
    (s.judge wild).control = s.control.judge (s.verdict wild) := by
  have prepared : s.highlight.release.noAnswer.control = s.control.release.noAnswer := by
    rw [← control_highlight s, ← control_release]
    rfl
  rw [judge, control_respond, prepared, verdict_prepared, Control.judge]

theorem control_drawQuestion (rand : Nat → Rand) (s : Sw) :
    (s.drawQuestion rand).control = s.control := by
  unfold drawQuestion
  split
  · split <;> rfl
  · rfl

theorem control_showScreen (rand : Nat → Rand) (s : Sw) :
    (s.showScreen rand).control = s.control := by
  unfold showScreen
  split
  · rfl
  · split <;> rfl

theorem control_redraw (rand : Nat → Rand) (s : Sw) :
    (s.redraw rand).control = s.control.redraw := by
  unfold redraw Control.redraw
  by_cases redraws : s.Redraws
  · rw [if_pos redraws, if_pos (show s.control.Redraws from redraws)]
    have shown := (control_showScreen (fun k => rand (k + s.drawCalls)) (s.drawQuestion rand)).trans
      (control_drawQuestion rand s)
    rw [← shown]
    rfl
  · rw [if_neg redraws, if_neg (show ¬ s.control.Redraws from redraws)]
    rfl

/-- The control of a step is the step of the control. -/
theorem control_step (input : Input) (level : BitVec 4) (s : Sw) :
    (s.step input level).control = s.control.step input.key level (s.verdict input.wild) := by
  rcases pc : s.pc with _ | _ | _ | _ | _ | _
  · simp only [step, Control.step, pc, show s.control.pc = s.pc from rfl]
    rfl
  · simp only [step, Control.step, pc, show s.control.pc = s.pc from rfl]
    rfl
  · simp only [step, Control.step, pc, show s.control.pc = s.pc from rfl]
    exact control_judge input.wild s
  · simp only [step, Control.step, pc, show s.control.pc = s.pc from rfl]
    rfl
  · simp only [step, Control.step, pc, show s.control.pc = s.pc from rfl]
    exact control_redraw input.rand s
  · simp only [step, Control.step, pc, show s.control.pc = s.pc from rfl]
    rfl

section Fields

variable (wild : Bool) (rand : Nat → Rand) (s : Sw)

theorem judge_pc : (s.judge wild).pc = .redraw ∨ (s.judge wild).pc = .wrong := by
  change (s.judge wild).control.pc = .redraw ∨ (s.judge wild).control.pc = .wrong
  rw [control_judge]
  exact Control.judge_pc _ _

@[simp]
theorem judge_level : (s.judge wild).level = s.level := by
  change (s.judge wild).control.level = s.control.level
  rw [control_judge, Control.judge_level]

@[simp]
theorem judge_oldLevel : (s.judge wild).oldLevel = s.oldLevel := by
  change (s.judge wild).control.oldLevel = s.control.oldLevel
  rw [control_judge, Control.judge_oldLevel]

@[simp]
theorem judge_cnt : (s.judge wild).cnt = s.cnt := by
  change (s.judge wild).control.cnt = s.control.cnt
  rw [control_judge, Control.judge_cnt]

@[simp]
theorem redraw_pc : (s.redraw rand).pc = .writeAnswer := by
  change (s.redraw rand).control.pc = .writeAnswer
  rw [control_redraw, Control.redraw_pc]

@[simp]
theorem redraw_level : (s.redraw rand).level = s.level := by
  change (s.redraw rand).control.level = s.control.level
  rw [control_redraw, Control.redraw_level]

@[simp]
theorem redraw_answer : (s.redraw rand).answer = s.answer := by
  change (s.redraw rand).control.answer = s.control.answer
  rw [control_redraw, Control.redraw_answer]

@[simp]
theorem redraw_pioOutputAnswer : (s.redraw rand).pioOutputAnswer = s.pioOutputAnswer := by
  change (s.redraw rand).control.port = s.control.port
  rw [control_redraw, Control.redraw_port]

/-- After the redraw block the level is the old level. -/
@[simp]
theorem redraw_oldLevel : (s.redraw rand).oldLevel = s.level := by
  change (s.redraw rand).control.oldLevel = s.control.level
  rw [control_redraw, Control.redraw_oldLevel]

end Fields

end Sw

end FpgaTrivia.Software
