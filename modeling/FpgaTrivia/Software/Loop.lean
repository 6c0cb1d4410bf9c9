import FpgaTrivia.Arith.SignedWord
import FpgaTrivia.Software.Display

/-!
# The endless loop of `main`

The state holds the locals of `main`, the globals of `sw.c` and the ports that
the program drives.  One iteration of the loop is cut into steps at its
accesses to the ports that the state machine shares: reading the key, reading
the level, publishing an answer in the middle of a wrong verdict, and
publishing the answer at the end.  Everything between two such accesses is one
step, since nothing outside the program can see or change what it touches.
-/

namespace FpgaTrivia.Software

open FpgaTrivia.Arith
open FpgaTrivia.Hardware
open FpgaTrivia.Shuffle

/-- The next step of the loop.  `wrong` is the rest of the branch that has just
published a wrong verdict: marking the answers and sleeping. -/
inductive Pc
  | readKey
  | readLevel
  | judge
  | wrong
  | redraw
  | writeAnswer
  deriving DecidableEq, Repr

/-- An access of the program to one of its four ports. -/
inductive Access
  | key (reading : BitVec 4)
  | level (reading : BitVec 4)
  | answer (value : BitVec 2)
  | sseg (value : BitVec 16)
  deriving DecidableEq, Repr

/-- The state of the program.  An `alt_u8` is a natural number, reduced modulo
256 where it is incremented; `time_cnt` is a 32-bit `int`.  `accesses` lists
what the program has done on its ports, latest first. -/
structure Sw where
  pc : Pc
  key : Nat
  keyMem : Nat
  level : Nat
  oldLevel : Nat
  answer : BitVec 2
  cnt : Nat
  timeCnt : Int
  ssegValue1 : Nat
  ssegValue2 : Nat
  ready : Nat
  questions : Fin 15 → Question
  q : Question
  answers : Fin 4 → String
  pioOutputAnswer : BitVec 2
  pioSseg : BitVec 16
  charBuf : CharBuffer
  accesses : List Access

/-- What the surroundings contribute to a step: the key port, the outcome of
comparing the correct answer with whatever a bad index reads, and the results
of `rand`. -/
structure Input where
  key : BitVec 4
  wild : Bool
  rand : Nat → Rand

namespace Sw

/-- The state in which `main` enters the loop.  `junk` supplies the locals that
`main` leaves uninitialised and the contents of the screen; `fillQuestions`
leaves its last record in `q`. -/
def boot (junk : Sw) : Sw :=
  { junk with
    pc := .readKey
    cnt := 0
    timeCnt := 0
    ssegValue1 := 0b00000000
    ssegValue2 := 0b0000000000000000
    ready := 1
    questions := fillQuestions
    q := fillQuestions 14
    answers := fun _ => ""
    pioOutputAnswer := 0b00#2
    pioSseg := 0b0000000000000000#16
    accesses := [] }

/-- A memory of zeros. -/
def zeroed : Sw where
  pc := .readKey
  key := 0
  keyMem := 0
  level := 0
  oldLevel := 0
  answer := 0b00#2
  cnt := 0
  timeCnt := 0
  ssegValue1 := 0
  ssegValue2 := 0
  ready := 0
  questions := fun _ => ⟨"", 0, "", "", "", ""⟩
  q := ⟨"", 0, "", "", "", ""⟩
  answers := fun _ => ""
  pioOutputAnswer := 0b00#2
  pioSseg := 0b0000000000000000#16
  charBuf := fun _ => '\x00'
  accesses := []

/-! ## Port writes -/

/-- `IOWR_ALTERA_AVALON_PIO_DATA(PIO_OUTPUT_ANSWER_BASE, answer)`. -/
def writePort (s : Sw) : Sw :=
  { s with
    pioOutputAnswer := s.answer
    accesses := .answer s.answer :: s.accesses }

/-- `IOWR_ALTERA_AVALON_PIO_DATA(PIO_SSEG_BASE, SSEGvalue1 + SSEGvalue2)`. -/
def writeSseg (s : Sw) : Sw :=
  let value := BitVec.ofNat 16 (s.ssegValue1 + s.ssegValue2)
  { s with
    pioSseg := value
    accesses := .sseg value :: s.accesses }

/-! ## The steps of one iteration -/

/-- `key = IORD_ALTERA_AVALON_PIO_DATA(PIO_INPUT_KEY_BASE)`. -/
def readKey (reading : BitVec 4) (s : Sw) : Sw :=
  { s with
    key := reading.toNat
    accesses := .key reading :: s.accesses
    pc := .readLevel }

/-- `level = IORD_ALTERA_AVALON_PIO_DATA(PIO_INPUT_LEVEL_BASE)`. -/
def readLevel (reading : BitVec 4) (s : Sw) : Sw :=
  { s with
    level := reading.toNat
    accesses := .level reading :: s.accesses
    pc := .judge }

/-- At a question level: highlight the chosen answer and reset its letter. -/
def highlight (s : Sw) : Sw :=
  if s.level ≠ 0 ∧ s.level ≠ 6 then
    { s with
      charBuf := highlightAnswer s.key s.charBuf
      ssegValue1 := 0b00000000 }
  else s

/-- If no key is pushed: ready for the next answer, and the delay starts
anew. -/
def release (s : Sw) : Sw :=
  if s.key = 0b0000 then { s with ready := 1, timeCnt := 0 } else s

/-- The test `answers[key2index(key)] == q.answerCorrect`. -/
def verdict (wild : Bool) (s : Sw) : Bool :=
  match answerAt s.answers (key2index s.key) with
  | some answer => answer == s.q.answerCorrect
  | none => wild

/-- Remember and show the pressed key, and count the delay. -/
def press (s : Sw) : Sw :=
  { s with
    keyMem := s.key
    charBuf := highlightAnswer s.key s.charBuf
    ssegValue1 := getSSEG1value s.q s.key
    timeCnt := wrap 32 (s.timeCnt + 1) }

/-- `SSEGvalue2 = 0`, before the verdict. -/
def clearLetter (s : Sw) : Sw :=
  { s with ssegValue2 := 0b0000000000000000 }

/-- The answer is right: show the letter of the correct slot. -/
def right (s : Sw) : Sw :=
  { ({ s with
        answer := 0b11#2
        ssegValue2 := getSSEG2value s.q s.answers }).writeSseg with pc := .redraw }

/-- The answer is wrong: publish that at once. -/
def publishWrong (s : Sw) : Sw :=
  { ({ s with answer := 0b10#2 }).writePort with pc := .wrong }

/-- A key is down at a question level and the program is ready.  Once the
delay has passed the answer is judged. -/
def confirm (wild : Bool) (s : Sw) : Sw :=
  if 30000 ≤ s.press.timeCnt then
    if s.press.clearLetter.verdict wild = true then s.press.clearLetter.right
    else s.press.clearLetter.publishWrong
  else { s.press.writeSseg with pc := .redraw }

/-- Default answer: that way the state machine does not change the level. -/
def noAnswer (s : Sw) : Sw :=
  { s with answer := 0b00#2 }

/-- The block `if (ready == 1)`, up to the answer that a wrong verdict
publishes. -/
def respond (wild : Bool) (s : Sw) : Sw :=
  if s.ready = 1 then
    if s.level = 0b0000 then
      if s.key ≠ 0b0000 then { s with answer := 0b11#2, pc := .redraw }
      else { s with pc := .redraw }
    else if s.level = 0b0110 then { s with answer := 0b10#2, pc := .redraw }
    else if s.key ≠ 0b0000 then s.confirm wild
    else { s with pc := .redraw }
  else { s with pc := .redraw }

/-- From the level reading to the end of the block `if (ready == 1)`. -/
def judge (wild : Bool) (s : Sw) : Sw :=
  s.highlight.release.noAnswer.respond wild

/-- The rest of a wrong verdict: mark the answers, sleep, and show the letter
of the correct slot. -/
def wrong (s : Sw) : Sw :=
  let s := { s with charBuf := highlighCorrecttAnswer s.key s.q s.answers s.charBuf }
  { ({ s with ssegValue2 := getSSEG2value s.q s.answers }).writeSseg with pc := .redraw }

/-- `level != old_level || cnt == 0`. -/
def Redraws (s : Sw) : Prop :=
  s.level ≠ s.oldLevel ∨ s.cnt = 0

instance (s : Sw) : Decidable s.Redraws :=
  inferInstanceAs (Decidable (s.level ≠ s.oldLevel ∨ s.cnt = 0))

/-- Levels 1 to 5 draw a question of the level; the five branches differ in the
constant only.  Without a result `q` would be undefined. -/
def drawQuestion (rand : Nat → Rand) (s : Sw) : Sw :=
  if 1 ≤ s.level ∧ s.level ≤ 5 then
    match getRandomQuestionByLevel rand s.level s.questions with
    | some (q, questions) => { s with q := q, questions := questions }
    | none => s
  else s

/-- The calls of `rand` made by `drawQuestion`. -/
def drawCalls (s : Sw) : Nat :=
  if 1 ≤ s.level ∧ s.level ≤ 5 then questionCalls else 0

/-- The title of the idle and of the winning state, or the question screen. -/
def showScreen (rand : Nat → Rand) (s : Sw) : Sw :=
  if s.level = 0 then
    { s with charBuf := displayTitle "Press any key to start the game." s.charBuf }
  else if s.level = 6 then
    { s with charBuf := displayTitle "You win!!!" s.charBuf }
  else
    let shown := displayQuestion s.q rand true s.charBuf
    { s with
      answers := shown.1
      charBuf := displayBoxes (displayLevel s.level shown.2) }

/-- The block `if (level != old_level || cnt == 0)`. -/
def redraw (rand : Nat → Rand) (s : Sw) : Sw :=
  if s.Redraws then
    let s := (s.drawQuestion rand).showScreen fun k => rand (k + s.drawCalls)
    { s with
      oldLevel := s.level
      ready := 0
      timeCnt := 0
      cnt := (s.cnt + 1) % 256
      pc := .writeAnswer }
  else { s with pc := .writeAnswer }

/-- The answer is published at the end of every iteration. -/
def writeAnswer (s : Sw) : Sw :=
  { s.writePort with pc := .readKey }

/-- One step of the loop; `level` is what the level port shows. -/
def step (input : Input) (level : BitVec 4) (s : Sw) : Sw :=
  match s.pc with
  | .readKey => s.readKey input.key
  | .readLevel => s.readLevel level
  | .judge => s.judge input.wild
  | .wrong => s.wrong
  | .redraw => s.redraw input.rand
  | .writeAnswer => s.writeAnswer

section Steps

variable {s : Sw} {input : Input} {level : BitVec 4}

theorem step_readKey (pc : s.pc = .readKey) : s.step input level = s.readKey input.key := by
  rw [step, pc]

theorem step_readLevel (pc : s.pc = .readLevel) : s.step input level = s.readLevel level := by
  rw [step, pc]

theorem step_judge (pc : s.pc = .judge) : s.step input level = s.judge input.wild := by
  rw [step, pc]

theorem step_wrong (pc : s.pc = .wrong) : s.step input level = s.wrong := by
  rw [step, pc]

theorem step_redraw (pc : s.pc = .redraw) : s.step input level = s.redraw input.rand := by
  rw [step, pc]

theorem step_writeAnswer (pc : s.pc = .writeAnswer) : s.step input level = s.writeAnswer := by
  rw [step, pc]

end Steps

/-- The step that comes next judges an answer: it evaluates
`answers[key2index(key)]`. -/
def Judges (s : Sw) : Prop :=
  s.pc = .judge ∧ s.key ≠ 0 ∧ s.ready = 1 ∧ s.level ≠ 0 ∧ s.level ≠ 6 ∧
    30000 ≤ wrap 32 (s.timeCnt + 1)

instance (s : Sw) : Decidable s.Judges :=
  inferInstanceAs (Decidable (s.pc = .judge ∧ s.key ≠ 0 ∧ s.ready = 1 ∧ s.level ≠ 0 ∧
    s.level ≠ 6 ∧ 30000 ≤ wrap 32 (s.timeCnt + 1)))

/-! ## The question of the loop

Outside the redraw block nothing changes the questions, the current one or its
answers. -/

/-- Two states agree on the questions, the current one and its answers. -/
structure SameQuestion (s t : Sw) : Prop where
  questions : s.questions = t.questions
  q : s.q = t.q
  answers : s.answers = t.answers

theorem SameQuestion.trans {s t u : Sw} (first : SameQuestion s t) (second : SameQuestion t u) :
    SameQuestion s u where
  questions := first.questions.trans second.questions
  q := first.q.trans second.q
  answers := first.answers.trans second.answers

theorem sameQuestion_confirm (wild : Bool) (s : Sw) : SameQuestion (s.confirm wild) s := by
  unfold confirm
  split
  · split <;> exact ⟨rfl, rfl, rfl⟩
  · exact ⟨rfl, rfl, rfl⟩

theorem sameQuestion_respond (wild : Bool) (s : Sw) : SameQuestion (s.respond wild) s := by
  unfold respond
  split
  · split
    · split <;> exact ⟨rfl, rfl, rfl⟩
    · split
      · exact ⟨rfl, rfl, rfl⟩
      · split
        · exact sameQuestion_confirm wild s
        · exact ⟨rfl, rfl, rfl⟩
  · exact ⟨rfl, rfl, rfl⟩

theorem sameQuestion_prepared (s : Sw) : SameQuestion s.highlight.release.noAnswer s := by
  unfold noAnswer release highlight
  split <;> split <;> exact ⟨rfl, rfl, rfl⟩

theorem sameQuestion_judge (wild : Bool) (s : Sw) : SameQuestion (s.judge wild) s :=
  (sameQuestion_respond wild _).trans (sameQuestion_prepared s)

theorem sameQuestion_redraw {s : Sw} (rand : Nat → Rand) (quiet : ¬ s.Redraws) :
    SameQuestion (s.redraw rand) s := by
  rw [redraw, if_neg quiet]
  exact ⟨rfl, rfl, rfl⟩

theorem sameQuestion_readKey (reading : BitVec 4) (s : Sw) : SameQuestion (s.readKey reading) s :=
  ⟨rfl, rfl, rfl⟩

theorem sameQuestion_readLevel (reading : BitVec 4) (s : Sw) :
    SameQuestion (s.readLevel reading) s :=
  ⟨rfl, rfl, rfl⟩

theorem sameQuestion_wrong (s : Sw) : SameQuestion s.wrong s :=
  ⟨rfl, rfl, rfl⟩

theorem sameQuestion_writeAnswer (s : Sw) : SameQuestion s.writeAnswer s :=
  ⟨rfl, rfl, rfl⟩

/-- A step that does not redraw leaves the question alone. -/
theorem sameQuestion_step (input : Input) (level : BitVec 4) {s : Sw}
    (quiet : s.pc = .redraw → ¬ s.Redraws) : SameQuestion (s.step input level) s := by
  rcases pc : s.pc with _ | _ | _ | _ | _ | _
  · rw [step_readKey pc]
    exact sameQuestion_readKey input.key s
  · rw [step_readLevel pc]
    exact sameQuestion_readLevel level s
  · rw [step_judge pc]
    exact sameQuestion_judge input.wild s
  · rw [step_wrong pc]
    exact sameQuestion_wrong s
  · rw [step_redraw pc]
    exact sameQuestion_redraw input.rand (quiet pc)
  · rw [step_writeAnswer pc]
    exact sameQuestion_writeAnswer s

end Sw

end FpgaTrivia.Software
