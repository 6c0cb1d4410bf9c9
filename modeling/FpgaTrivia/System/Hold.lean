import FpgaTrivia.Software.Iteration
import FpgaTrivia.System.Trace

/-!
# Holding a key

What a run does while the state machine does not tick: whole iterations follow
one another, and a key that is held is judged after 30000 of them.
-/

namespace FpgaTrivia.System

open FpgaTrivia.Arith
open FpgaTrivia.Hardware
open FpgaTrivia.Software

/-- At the start of an iteration: the question of the level is on the screen,
the program is ready, and the delay has been counted up to `count`. -/
structure Awaits (level : BitVec 4) (count : Int) (c : Control) : Prop where
  pc : c.pc = .readKey
  ready : c.ready = 1
  drawn : c.oldLevel = level.toNat ∧ c.cnt ≠ 0
  timeCnt : c.timeCnt = count

section Awaits

variable {level : BitVec 4} {count : Int} {c : Control}

theorem Awaits.not_redrawsAt (awaits : Awaits level count c) : ¬ c.RedrawsAt level := by
  rintro (changed | first)
  · exact changed awaits.drawn.1.symm
  · exact awaits.drawn.2 first

/-- A pressed key is counted. -/
theorem Awaits.iteration (awaits : Awaits level count c) (asks : Asks level)
    (range : 0 ≤ count ∧ count < 30000) {key : BitVec 4} (pressed : key ≠ 0) (verdict : Bool) :
    Awaits level (count + 1) (c.iteration key level verdict) := by
  have quiet := awaits.not_redrawsAt
  obtain ⟨ready, timeCnt⟩ := Control.iteration_of_pressed key level verdict quiet pressed
  classical
  refine ⟨rfl, ready.trans awaits.ready, ⟨Control.iteration_oldLevel key level verdict c, ?_⟩, ?_⟩
  · rw [Control.iteration_cnt, if_neg quiet]
    exact awaits.drawn.2
  · rw [timeCnt, if_pos ⟨awaits.ready, asks⟩, awaits.timeCnt]
    exact wrap_eq_self (by omega) (by omega)

/-- It is answered when the delay has passed. -/
theorem Awaits.port (awaits : Awaits level count c) (asks : Asks level)
    (range : 0 ≤ count ∧ count < 30000) {key : BitVec 4} (pressed : key ≠ 0) (verdict : Bool) :
    (c.iteration key level verdict).port =
      if count + 1 < 30000 then 0b00#2 else if verdict = true then 0b11#2 else 0b10#2 := by
  have counted : wrap 32 ((c.entered key level).timeCnt + 1) = count + 1 := by
    rw [show (c.entered key level).timeCnt = count from awaits.timeCnt]
    exact wrap_eq_self (by omega) (by omega)
  have nonzero : (c.entered key level).key ≠ 0 := fun zero => pressed (BitVec.eq_of_toNat_eq zero)
  rw [Control.iteration_port,
    Control.judge_answer_of_ready (show (c.entered key level).ready = 1 from awaits.ready) asks
      nonzero, counted]

/-- The next iteration with a key down judges it when the delay has passed,
whatever question level it reads. -/
theorem Awaits.judges {s : Sw} (awaits : Awaits level count s.control)
    (passed : 30000 ≤ wrap 32 (count + 1)) {reading : Reading} (pressed : reading.input.key ≠ 0)
    (asks : Asks reading.level) : (s.entered reading).Judges := by
  refine ⟨rfl, fun zero => pressed (BitVec.eq_of_toNat_eq zero), awaits.ready, asks.1, asks.2, ?_⟩
  rw [show (s.entered reading).timeCnt = count from awaits.timeCnt]
  exact passed

theorem Awaits.readKey {s : Sw} (awaits : Awaits level count s.control) : s.pc = .readKey :=
  awaits.pc

end Awaits

namespace Trace

variable {trace : Trace} {n : Nat} {input : Input}

/-- Two loop steps in a row take both readings of an iteration. -/
theorem entered_of_loops (loops : ∀ i < 2, trace.events (n + i) = .loop input)
    (pc : (trace.sw n).pc = .readKey) :
    trace.sw (n + 2) = (trace.sw n).entered ⟨input, (trace.board n).fsm.oCount⟩ := by
  have first : trace.events n = .loop input := loops 0 (by decide)
  have second : trace.events (n + 1) = .loop input := loops 1 (by decide)
  rw [sw_loop second, fsm_loop first, sw_loop first, Sw.step_readKey pc, Sw.step_readLevel rfl]
  rfl

/-- Five loop steps in a row are one iteration, unless the verdict is wrong. -/
theorem iteration_of_loops (loops : ∀ i < 5, trace.events (n + i) = .loop input)
    (pc : (trace.sw n).pc = .readKey)
    (next : (((trace.sw n).entered ⟨input, (trace.board n).fsm.oCount⟩).judge input.wild).pc =
      .redraw) :
    (trace.board (n + 5)).fsm = (trace.board n).fsm ∧
      trace.sw (n + 5) = (trace.sw n).iteration ⟨input, (trace.board n).fsm.oCount⟩ := by
  have run (k : Nat) (within : k ≤ 5) :
      (trace.board (n + k)).fsm = (trace.board n).fsm ∧
        trace.sw (n + k) =
          Transition.run (fun s (r : Reading) => s.step r.input r.level) (trace.sw n)
            (fun _ => ⟨input, (trace.board n).fsm.oCount⟩) k := by
    induction k with
    | zero => exact ⟨rfl, rfl⟩
    | succ k ih =>
        obtain ⟨fsm, sw⟩ := ih (Nat.le_of_succ_le within)
        have event := loops k within
        refine ⟨(fsm_loop event).trans fsm, ?_⟩
        rw [← Nat.add_assoc, sw_loop event, fsm, sw, Transition.run_succ]
  rw [← Sw.run_iteration_of_redraw pc next]
  exact run 5 (Nat.le_refl 5)

/-- An iteration that finds the keys released publishes `00`, unless the game
is won. -/
theorem port_of_released (loops : ∀ i < 5, trace.events (n + i) = .loop input)
    (pc : (trace.sw n).pc = .readKey) (released : input.key = 0)
    (notWon : (trace.board n).fsm.oCount.toNat ≠ 6) :
    (trace.sw (n + 5)).pioOutputAnswer = 0b00#2 := by
  have zero : ((trace.sw n).entered ⟨input, (trace.board n).fsm.oCount⟩).control.key = 0 :=
    congrArg BitVec.toNat released
  have next : (((trace.sw n).entered ⟨input, (trace.board n).fsm.oCount⟩).judge
      input.wild).control.pc = .redraw := by
    rw [Sw.control_judge]
    exact Control.judge_pc_of_not_wrong (Or.inl zero)
  have iteration := (iteration_of_loops loops pc next).2
  change (trace.sw (n + 5)).control.port = 0b00#2
  rw [iteration, Sw.control_iteration, Control.iteration_port]
  exact Control.judge_answer_of_released zero notWon

/-- A key that is held is counted in every iteration, and a right one is
answered when the delay has passed. -/
theorem awaits_succ {level : BitVec 4} {count : Int}
    (shows : (trace.board n).fsm.oCount = level) (asks : Asks level)
    (awaits : Awaits level count (trace.sw n).control)
    (range : 0 ≤ count ∧ count < 30000) (pressed : input.key ≠ 0)
    (right : count + 1 < 30000 ∨
      ((trace.sw n).entered ⟨input, level⟩).verdict input.wild = true)
    (loops : ∀ i < 5, trace.events (n + i) = .loop input) :
    (trace.board (n + 5)).fsm = (trace.board n).fsm ∧
      Awaits level (count + 1) (trace.sw (n + 5)).control ∧
      (trace.sw (n + 5)).SameQuestion (trace.sw n) ∧
      (trace.sw (n + 5)).pioOutputAnswer = if count + 1 < 30000 then 0b00#2 else 0b11#2 := by
  subst shows
  have next : (((trace.sw n).entered ⟨input, (trace.board n).fsm.oCount⟩).judge
      input.wild).control.pc = .redraw := by
    rw [Sw.control_judge]
    apply Control.judge_pc_of_not_wrong
    right
    apply right.imp_left
    intro early
    change wrap 32 ((trace.sw n).control.timeCnt + 1) < 30000
    rw [awaits.timeCnt, wrap_eq_self (by omega) (by omega)]
    exact early
  obtain ⟨fsm, sw⟩ := iteration_of_loops loops awaits.pc next
  refine ⟨fsm, ?_, ?_, ?_⟩
  · rw [sw, Sw.control_iteration]
    exact awaits.iteration asks range pressed _
  · rw [sw]
    exact Sw.sameQuestion_iteration _ awaits.not_redrawsAt
  · change (trace.sw (n + 5)).control.port = _
    rw [sw, Sw.control_iteration, awaits.port asks range pressed]
    rcases right with early | correct
    · rw [if_pos early, if_pos early]
    · rw [if_pos correct]

/-- While the delay has not passed, a held key changes nothing but the
counter. -/
theorem awaits_add {level : BitVec 4} {count : Int}
    (shows : (trace.board n).fsm.oCount = level) (asks : Asks level)
    (awaits : Awaits level count (trace.sw n).control) (positive : 0 ≤ count)
    (pressed : input.key ≠ 0) {j : Nat} (early : count + j < 30000)
    (loops : ∀ i < 5 * j, trace.events (n + i) = .loop input) :
    (trace.board (n + 5 * j)).fsm = (trace.board n).fsm ∧
      Awaits level (count + j) (trace.sw (n + 5 * j)).control ∧
      (trace.sw (n + 5 * j)).SameQuestion (trace.sw n) := by
  induction j with
  | zero => exact ⟨rfl, by simpa using awaits, ⟨rfl, rfl, rfl⟩⟩
  | succ j ih =>
      push_cast at early
      obtain ⟨fsm, before, same⟩ := ih (by omega) fun i upper => loops i (by omega)
      have here : ∀ i < 5, trace.events (n + 5 * j + i) = .loop input := by
        intro i upper
        rw [Nat.add_assoc]
        exact loops (5 * j + i) (by omega)
      obtain ⟨fsm', after, same', -⟩ := awaits_succ (by rw [fsm, shows]) asks before
        ⟨by omega, by omega⟩ pressed (Or.inl (by omega)) here
      rw [show n + 5 * (j + 1) = n + 5 * j + 5 by omega]
      refine ⟨fsm'.trans fsm, ?_, same'.trans same⟩
      rw [show count + ((j + 1 : Nat) : Int) = count + j + 1 by push_cast; ring]
      exact after

end Trace

/-! ## A game up to its first answer -/

/-- A reading of the keys, with `rand` at its lowest. -/
def press (key : BitVec 4) : Input :=
  ⟨key, false, fun _ => .lowest⟩

namespace Trace

/-- A key starts the game, and is released until the first question is
ready. -/
def opening (n : Nat) : Event :=
  if n < 5 then .loop (press 0b0001)
  else if n = 5 then .tick
  else .loop (press 0b0000)

/-- After the opening the key of slot 3 is held until its verdict has been
published; `rest` goes on from there. -/
def answering (rest : Nat → Event) : Trace where
  junk := .zeroed
  events n :=
    if n < 16 then opening n
    else if n < 150016 then .loop (press 0b1000)
    else rest (n - 150016)

theorem answering_board (rest : Nat → Event) {n : Nat} (within : n ≤ 16) :
    (answering rest).board n = Board.run .zeroed opening n := by
  apply Transition.run_congr
  intro k before
  exact if_pos (Nat.lt_of_lt_of_le before within)

theorem answering_sw (rest : Nat → Event) {n : Nat} (within : n ≤ 16) :
    (answering rest).sw n = (Board.run .zeroed opening n).sw :=
  congrArg Board.sw (answering_board rest within)

theorem answering_loop (rest : Nat → Event) {n : Nat} (lower : 16 ≤ n) (upper : n < 150016) :
    (answering rest).events n = .loop (press 0b1000) := by
  simp only [answering]
  rw [if_neg (by omega), if_pos upper]

theorem answering_rest (rest : Nat → Event) (n : Nat) :
    (answering rest).events (150016 + n) = rest n := by
  simp only [answering]
  rw [if_neg (by omega), if_neg (by omega), Nat.add_sub_cancel_left]

/-- The first question of level 1 is on the screen, its correct answer in slot
3. -/
theorem opening_run :
    (Board.run .zeroed opening 16).fsm = { state := .question, sCnt := 1 } ∧
      (Board.run .zeroed opening 16).sw.q = fillQuestions 0 ∧
      (Board.run .zeroed opening 16).sw.answers 3 = (fillQuestions 0).answerCorrect := by
  decide +kernel

theorem opening_awaits : Awaits 1 0 (Board.run .zeroed opening 16).sw.control := by
  constructor <;> decide +kernel

/-- The key has been held for 29999 iterations. -/
theorem answering_waits (rest : Nat → Event) :
    ((answering rest).board 150011).fsm = { state := .question, sCnt := 1 } ∧
      Awaits 1 29999 ((answering rest).sw 150011).control ∧
      ((answering rest).sw 150011).q = fillQuestions 0 ∧
      ((answering rest).sw 150011).answers 3 = (fillQuestions 0).answerCorrect := by
  obtain ⟨fsm, question, correct⟩ := opening_run
  have awaits := opening_awaits
  rw [← answering_board rest (Nat.le_refl 16)] at fsm
  rw [← answering_sw rest (Nat.le_refl 16)] at question correct awaits
  have shows : ((answering rest).board 16).fsm.oCount = 1 := by
    rw [fsm]
    decide
  obtain ⟨fsm', waiting, same⟩ := @awaits_add (answering rest) 16 (press 0b1000) 1 0 shows
    (by decide) awaits (by decide) (by decide) 29999 (by decide)
    fun i upper => answering_loop rest (by omega) (by omega)
  rw [show 16 + 5 * 29999 = 150011 from rfl] at fsm' waiting same
  rw [show (0 : Int) + (29999 : Nat) = 29999 from rfl] at waiting
  refine ⟨fsm'.trans fsm, waiting, same.q.trans question, ?_⟩
  rw [same.answers]
  exact correct

/-- The next iteration publishes the verdict. -/
theorem answering_answered (rest : Nat → Event) :
    ((answering rest).board 150016).fsm = { state := .question, sCnt := 1 } ∧
      Awaits 1 30000 ((answering rest).sw 150016).control ∧
      ((answering rest).sw 150016).q = fillQuestions 0 ∧
      ((answering rest).sw 150016).pioOutputAnswer = 0b11#2 := by
  obtain ⟨fsm, waiting, question, correct⟩ := answering_waits rest
  have shows : ((answering rest).board 150011).fsm.oCount = 1 := by
    rw [fsm]
    decide
  have right : (((answering rest).sw 150011).entered ⟨press 0b1000, 1⟩).verdict
      (press 0b1000).wild = true := by
    have slot : (press 0b1000).key.toNat = keyOf 3 := by decide
    rw [Sw.verdict_entered slot, question, correct]
    exact beq_self_eq_true _
  have held : ∀ i < 5, (answering rest).events (150011 + i) = .loop (press 0b1000) := by
    intro i upper
    exact answering_loop rest (by omega) (by omega)
  obtain ⟨fsm', answered, same, port⟩ := awaits_succ shows (by decide) waiting (by decide)
    (by decide) (Or.inr right) held
  exact ⟨fsm'.trans fsm, answered, same.q.trans question, port⟩

/-- The verdict is sampled at once, and the key is still held. -/
def promoted : Trace :=
  answering fun n => if n = 0 then .tick else .loop (press 0b1000)

theorem promoted_loop {n : Nat} (after : 150016 < n) :
    promoted.events n = .loop (press 0b1000) := by
  obtain ⟨k, rfl⟩ := Nat.exists_eq_add_of_lt after
  rw [promoted, Nat.add_assoc, answering_rest, if_neg (Nat.succ_ne_zero k)]

theorem promoted_ticks {n : Nat} (ticks : promoted.Ticks n) : n = 5 ∨ n = 150016 := by
  by_contra other
  rw [not_or] at other
  rcases Nat.lt_or_ge n 16 with early | late
  · have event : promoted.events n = opening n := if_pos early
    rw [Ticks, event, opening, if_neg other.1] at ticks
    split at ticks <;> simp at ticks
  · rcases Nat.lt_or_ge n 150016 with before | after
    · rw [Ticks, promoted, answering_loop _ late before] at ticks
      simp at ticks
    · rw [Ticks, promoted_loop (by omega)] at ticks
      simp at ticks

theorem promoted_fsm : (promoted.board 150017).fsm = { state := .question, sCnt := 2 } := by
  have ticks : promoted.Ticks 150016 := answering_rest _ 0
  obtain ⟨fsm, -, -, port⟩ := answering_answered
    fun n => if n = 0 then .tick else .loop (press 0b1000)
  rw [fsm_tick ticks, promoted, fsm, port]
  decide

end Trace

end FpgaTrivia.System
