import FpgaTrivia.Software.Session
import FpgaTrivia.System.Trace
import FpgaTrivia.Transition.Log

/-!
# What the program reads along a run

A run interleaves single steps of the loop with ticks.  The recorder notes what
each iteration reads, and at which events.  For the program the run is then
nothing but a session of whole iterations: every interleaving is one.
-/

namespace FpgaTrivia.System

open FpgaTrivia.Hardware
open FpgaTrivia.Software
open FpgaTrivia.Transition

/-- What an iteration reads, and the events at which it reads the key, reads the
level and publishes its answer. -/
structure Entry where
  reading : Reading
  keyAt : Nat
  levelAt : Nat
  writtenAt : Nat

namespace Entry

/-- Nothing has been read yet. -/
def blank : Entry :=
  ⟨⟨⟨0, false, fun _ => .lowest⟩, 0⟩, 0, 0, 0⟩

def input (entry : Entry) : Input :=
  entry.reading.input

end Entry

/-- The finished iterations, and the one under way. -/
structure Log where
  finished : List Entry
  current : Entry

namespace Log

def empty : Log :=
  ⟨[], .blank⟩

/-- Note what the step `pc` takes from its surroundings at event `n`. -/
def record (n : Nat) (pc : Pc) (input : Input) (level : BitVec 4) (log : Log) : Log :=
  let entry := log.current
  match pc with
  | .readKey =>
      { log with
        current :=
          { entry with
            reading := { entry.reading with input := { entry.input with key := input.key } }
            keyAt := n } }
  | .readLevel =>
      { log with
        current := { entry with reading := { entry.reading with level := level }, levelAt := n } }
  | .judge =>
      { log with
        current :=
          { entry with
            reading := { entry.reading with input := { entry.input with wild := input.wild } } } }
  | .wrong => log
  | .redraw =>
      { log with
        current :=
          { entry with
            reading := { entry.reading with input := { entry.input with rand := input.rand } } } }
  | .writeAnswer => { log with finished := log.finished ++ [{ entry with writtenAt := n }] }

end Log

namespace Trace

variable {trace : Trace} {n t : Nat} {input : Input}

/-- The log before event `n`. -/
def log (trace : Trace) : Nat → Log
  | 0 => .empty
  | n + 1 =>
      match trace.events n with
      | .tick => log trace n
      | .loop input =>
          (log trace n).record n (trace.sw n).pc input (trace.board n).fsm.oCount

theorem log_tick (ticks : trace.Ticks n) : trace.log (n + 1) = trace.log n := by
  rw [log, show trace.events n = .tick from ticks]

theorem log_loop (event : trace.events n = .loop input) :
    trace.log (n + 1) =
      (trace.log n).record n (trace.sw n).pc input (trace.board n).fsm.oCount := by
  rw [log, event]

/-- The number of iterations finished before event `n`. -/
def iterations (trace : Trace) (n : Nat) : Nat :=
  (trace.log n).finished.length

/-- Iteration `t` of the run. -/
noncomputable def entry (trace : Trace) (t : Nat) : Entry :=
  Transition.entry (fun n => (trace.log n).finished) .blank t

/-- The run as the program sees it. -/
noncomputable def session (trace : Trace) : Session where
  junk := trace.junk
  readings t := (trace.entry t).reading

theorem log_grows (trace : Trace) : Grows fun n => (trace.log n).finished := by
  intro n
  change (trace.log n).finished <+: (trace.log (n + 1)).finished
  rcases event : trace.events n with _ | input
  · rw [log_tick event]
  · rw [log_loop event]
    rcases (trace.sw n).pc with _ | _ | _ | _ | _ | _
    case writeAnswer => exact List.prefix_append _ _
    all_goals exact List.prefix_refl _

/-- The iterations are counted when they finish. -/
theorem iterations_succ (trace : Trace) (n : Nat) :
    trace.iterations (n + 1) = trace.iterations n ∨
      (trace.iterations (n + 1) = trace.iterations n + 1 ∧ trace.Finishes n) := by
  unfold iterations
  rcases event : trace.events n with _ | input
  · left
    rw [log_tick event]
  · rw [log_loop event]
    rcases pc : (trace.sw n).pc with _ | _ | _ | _ | _ | _
    case writeAnswer => exact Or.inr ⟨List.length_append, ⟨input, event⟩, pc⟩
    all_goals exact Or.inl rfl

/-! ## The program after the recorded iterations -/

end Trace

namespace Log

variable {log : Log} {junk s : Sw} {input : Input} {level : BitVec 4} {n : Nat}

/-- What the finished iterations make of the program. -/
def replay (junk : Sw) (log : Log) : Sw :=
  log.finished.foldl (fun s entry => s.iteration entry.reading) (.boot junk)

/-- The program at the step `pc` of the iteration under way. -/
def state (junk : Sw) (log : Log) : Pc → Sw
  | .readKey => log.replay junk
  | .readLevel => (log.replay junk).readKey log.current.input.key
  | .judge => (log.replay junk).entered log.current.reading
  | .wrong => ((log.replay junk).entered log.current.reading).judge log.current.input.wild
  | .redraw => (log.replay junk).decided log.current.reading
  | .writeAnswer =>
      ((log.replay junk).decided log.current.reading).redraw log.current.input.rand

theorem replay_finish (junk : Sw) (log : Log) (entry : Entry) :
    replay junk { log with finished := log.finished ++ [entry] } =
      (log.replay junk).iteration entry.reading := by
  simp only [replay, List.foldl_append, List.foldl_cons, List.foldl_nil]

/-- A session with the same readings gets to the same state. -/
theorem after_eq_replay {session : Session}
    (same : ∀ t entry, log.finished[t]? = some entry → session.readings t = entry.reading) :
    session.after log.finished.length = log.replay session.junk := by
  have agree : ∀ t < (log.finished.map Entry.reading).length,
      (log.finished.map Entry.reading)[t]? = some (session.readings t) := by
    intro t within
    rw [List.length_map] at within
    have noted := List.getElem?_eq_getElem within
    rw [List.getElem?_map, same t _ noted, noted]
    rfl
  have folded := foldl_eq_run (fun (s : Sw) (reading : Reading) => s.iteration reading)
    (Sw.boot session.junk) session.readings _ agree
  rw [List.foldl_map, List.length_map] at folded
  exact folded.symm

/-- Recording a step keeps up with it. -/
theorem state_record (reached : s = log.state junk s.pc) :
    s.step input level = (log.record n s.pc input level).state junk (s.step input level).pc := by
  rcases pc : s.pc with _ | _ | _ | _ | _ | _
  · rw [pc] at reached
    rw [Sw.step_readKey pc, reached]
    rfl
  · rw [pc] at reached
    rw [Sw.step_readLevel pc, reached]
    rfl
  · rw [pc] at reached
    have judged : ((log.record n .judge input level).replay junk).entered
        (log.record n .judge input level).current.reading = s := reached.symm
    have wild : (log.record n .judge input level).current.reading.input.wild = input.wild := rfl
    rw [Sw.step_judge pc]
    rcases Sw.judge_pc input.wild s with next | next
    · rw [next, state, Sw.decided, judged, wild]
      exact (if_neg (by rw [next]; decide)).symm
    · rw [next, state, judged]
      rfl
  · rw [pc] at reached
    have settled : s.settle = s.wrong := if_pos pc
    rw [Sw.step_wrong pc, show s.wrong.pc = .redraw from rfl, ← settled, reached]
    rfl
  · rw [pc] at reached
    rw [Sw.step_redraw pc, Sw.redraw_pc, reached]
    rfl
  · rw [pc] at reached
    rw [Sw.step_writeAnswer pc, show s.writeAnswer.pc = .readKey from rfl, state, record,
      replay_finish, reached]
    rfl

end Log

namespace Trace

variable {trace : Trace} {m n t : Nat}

/-- At every event the program is where the log says. -/
theorem sw_eq_state (trace : Trace) (n : Nat) :
    trace.sw n = (trace.log n).state trace.junk (trace.sw n).pc := by
  induction n with
  | zero => rfl
  | succ n ih =>
      rcases event : trace.events n with _ | input
      · rw [sw_tick event, log_tick event]
        exact ih
      · rw [sw_loop event, log_loop event]
        exact Log.state_record ih

/-- The finished iterations are those of the session. -/
theorem replay_eq_after (trace : Trace) (n : Nat) :
    (trace.log n).replay trace.junk = trace.session.after (trace.iterations n) := by
  refine (@Log.after_eq_replay _ trace.session fun t entry noted => ?_).symm
  have within := (List.getElem?_eq_some_iff.mp noted).1
  rw [trace.log_grows.getElem?_eq within] at noted
  exact congrArg Entry.reading (Option.some.inj noted)

/-! ## The events of an iteration -/

/-- Iteration `t` has started before event `n`: event `first` reads the key. -/
structure Started (trace : Trace) (t first : Nat) (key : BitVec 4) (n : Nat) : Prop where
  before : first < n
  starts : trace.Starts first
  number : trace.iterations first = t
  reads : ∃ input, trace.events first = .loop input ∧ input.key = key
  inside : ∀ p, first < p → p ≤ n → (trace.sw p).pc ≠ .readKey

/-- Iteration `t` has read the level before event `n`. -/
structure Entered (trace : Trace) (t : Nat) (entry : Entry) (n : Nat) : Prop
    extends Started trace t entry.keyAt entry.input.key n where
  between : entry.keyAt < entry.levelAt ∧ entry.levelAt < n
  loads : trace.Steps .readLevel entry.levelAt
  level : (trace.board entry.levelAt).fsm.oCount = entry.reading.level

/-- Iteration `t` has published its answer. -/
structure Written (trace : Trace) (t : Nat) (entry : Entry) : Prop
    extends Entered trace t entry entry.writtenAt where
  finishes : trace.Finishes entry.writtenAt
  counted : trace.iterations entry.writtenAt = t ∧ trace.iterations (entry.writtenAt + 1) = t + 1

theorem Started.later {first : Nat} {key : BitVec 4} (started : Started trace t first key n)
    (next : (trace.sw (n + 1)).pc ≠ .readKey) : Started trace t first key (n + 1) where
  before := Nat.lt_succ_of_lt started.before
  starts := started.starts
  number := started.number
  reads := started.reads
  inside := by
    intro p lower upper
    rcases Nat.lt_succ_iff_lt_or_eq.mp (Nat.lt_succ_of_le upper) with less | rfl
    · exact started.inside p lower (Nat.lt_succ_iff.mp less)
    · exact next

theorem Entered.later {entry : Entry} (entered : Entered trace t entry n)
    (next : (trace.sw (n + 1)).pc ≠ .readKey) : Entered trace t entry (n + 1) where
  toStarted := entered.toStarted.later next
  between := ⟨entered.between.1, Nat.lt_succ_of_lt entered.between.2⟩
  loads := entered.loads
  level := entered.level

/-- What the log says is true. -/
structure Faithful (trace : Trace) (n : Nat) : Prop where
  started : (trace.sw n).pc ≠ .readKey →
    Started trace (trace.iterations n) (trace.log n).current.keyAt
      (trace.log n).current.input.key n
  entered : (trace.sw n).pc ≠ .readKey → (trace.sw n).pc ≠ .readLevel →
    Entered trace (trace.iterations n) (trace.log n).current n
  written : ∀ t entry, (trace.log n).finished[t]? = some entry →
    Written trace t entry ∧ entry.writtenAt < n

theorem Faithful.earlier (faithful : Faithful trace n) {entry : Entry}
    (noted : (trace.log n).finished[t]? = some entry) :
    Written trace t entry ∧ entry.writtenAt < n + 1 := by
  obtain ⟨written, before⟩ := faithful.written t entry noted
  exact ⟨written, Nat.lt_succ_of_lt before⟩

/-- A tick, or a step that reads neither the key nor the level. -/
theorem Faithful.keep (faithful : Faithful trace n)
    (finished : (trace.log (n + 1)).finished = (trace.log n).finished)
    (current : (trace.log (n + 1)).current =
      { (trace.log n).current with reading := (trace.log (n + 1)).current.reading })
    (key : (trace.log (n + 1)).current.input.key = (trace.log n).current.input.key)
    (level : (trace.log (n + 1)).current.reading.level = (trace.log n).current.reading.level)
    (readKey : (trace.sw n).pc = .readKey → (trace.sw (n + 1)).pc = .readKey)
    (readLevel : (trace.sw n).pc = .readLevel → (trace.sw (n + 1)).pc = .readLevel) :
    Faithful trace (n + 1) := by
  have count : trace.iterations (n + 1) = trace.iterations n := congrArg List.length finished
  have keyAt := congrArg Entry.keyAt current
  have levelAt := congrArg Entry.levelAt current
  constructor
  · intro inside
    rw [count, keyAt, key]
    exact (faithful.started (mt readKey inside)).later inside
  · intro inside unread
    have entered := (faithful.entered (mt readKey inside) (mt readLevel unread)).later inside
    rw [count]
    constructor
    · rw [keyAt, key]
      exact entered.toStarted
    · rw [keyAt, levelAt]
      exact entered.between
    · rw [levelAt]
      exact entered.loads
    · rw [levelAt, level]
      exact entered.level
  · intro t entry noted
    exact faithful.earlier (finished ▸ noted)

/-- An iteration starts. -/
theorem Faithful.readKey (faithful : Faithful trace n) (event : trace.events n = .loop input)
    (pc : (trace.sw n).pc = .readKey) : Faithful trace (n + 1) := by
  have log := log_loop event
  have sw := sw_loop event
  rw [Sw.step_readKey pc] at sw
  rw [pc] at log
  have finished : (trace.log (n + 1)).finished = (trace.log n).finished := by rw [log]; rfl
  have count : trace.iterations (n + 1) = trace.iterations n := congrArg List.length finished
  refine ⟨fun _ => ?_, fun _ unread => absurd (congrArg Sw.pc sw) unread,
    fun t entry noted => faithful.earlier (finished ▸ noted)⟩
  rw [log, count]
  refine ⟨Nat.lt_succ_self n, ⟨⟨input, event⟩, pc⟩, rfl, ⟨input, event, rfl⟩, ?_⟩
  intro p lower upper
  rw [show p = n + 1 from Nat.le_antisymm upper lower, sw]
  simp [Sw.readKey]

theorem Faithful.readLevel (faithful : Faithful trace n) (event : trace.events n = .loop input)
    (pc : (trace.sw n).pc = .readLevel) : Faithful trace (n + 1) := by
  have log := log_loop event
  have sw := sw_loop event
  rw [Sw.step_readLevel pc] at sw
  rw [pc] at log
  have finished : (trace.log (n + 1)).finished = (trace.log n).finished := by rw [log]; rfl
  have count : trace.iterations (n + 1) = trace.iterations n := congrArg List.length finished
  have started := faithful.started (by simp [pc])
  have later := started.later (by simp [sw, Sw.readLevel])
  refine ⟨fun _ => ?_, fun _ _ => ?_, fun t entry noted => faithful.earlier (finished ▸ noted)⟩
  · rw [log, count]
    exact later
  · rw [log, count]
    exact ⟨later, ⟨started.before, Nat.lt_succ_self n⟩, ⟨⟨input, event⟩, pc⟩, rfl⟩

/-- An iteration finishes. -/
theorem Faithful.writeAnswer (faithful : Faithful trace n) (event : trace.events n = .loop input)
    (pc : (trace.sw n).pc = .writeAnswer) : Faithful trace (n + 1) := by
  have log := log_loop event
  have sw := sw_loop event
  rw [Sw.step_writeAnswer pc] at sw
  rw [pc] at log
  have entered := faithful.entered (by simp [pc]) (by simp [pc])
  have count : trace.iterations (n + 1) = trace.iterations n + 1 := by
    rw [iterations, log]
    exact List.length_append
  refine ⟨fun inside => absurd (congrArg Sw.pc sw) inside,
    fun inside => absurd (congrArg Sw.pc sw) inside, ?_⟩
  intro t entry noted
  rw [log] at noted
  change ((trace.log n).finished ++ [{ (trace.log n).current with writtenAt := n }])[t]? =
    some entry at noted
  rcases Nat.lt_or_ge t (trace.iterations n) with old | new
  · rw [List.getElem?_append_left old] at noted
    exact faithful.earlier noted
  · rw [List.getElem?_append_right new, List.getElem?_singleton] at noted
    split at noted
    · rename_i last
      obtain rfl : t = trace.iterations n :=
        Nat.le_antisymm (Nat.le_of_sub_eq_zero last) new
      obtain rfl := Option.some.inj noted
      have whole : Entered trace (trace.iterations n)
          { (trace.log n).current with writtenAt := n } n :=
        ⟨entered.toStarted, entered.between, entered.loads, entered.level⟩
      exact ⟨⟨whole, ⟨⟨input, event⟩, pc⟩, ⟨rfl, count⟩⟩, Nat.lt_succ_self n⟩
    · cases noted

theorem Faithful.step (faithful : Faithful trace n) : Faithful trace (n + 1) := by
  rcases event : trace.events n with _ | input
  · have log := log_tick event
    have sw := sw_tick event
    apply faithful.keep <;> simp [log, sw]
  · have log := log_loop event
    rcases pc : (trace.sw n).pc with _ | _ | _ | _ | _ | _
    case readKey => exact faithful.readKey event pc
    case readLevel => exact faithful.readLevel event pc
    case writeAnswer => exact faithful.writeAnswer event pc
    all_goals
      rw [pc] at log
      apply faithful.keep <;> simp [log, pc, Log.record, Entry.input]

theorem faithful (trace : Trace) (n : Nat) : Faithful trace n := by
  induction n with
  | zero => exact ⟨fun inside => absurd rfl inside, fun inside => absurd rfl inside, by simp [log,
      Log.empty]⟩
  | succ n ih => exact ih.step

/-- A finished iteration has been recorded truthfully. -/
theorem entry_written (within : t < trace.iterations n) :
    Written trace t (trace.entry t) ∧ (trace.entry t).writtenAt < n :=
  (trace.faithful n).written t _ (trace.log_grows.getElem?_eq within)

/-- At the start of an iteration the program is where whole iterations have
taken it. -/
theorem sw_eq_after (pc : (trace.sw n).pc = .readKey) :
    trace.sw n = trace.session.after (trace.iterations n) := by
  rw [sw_eq_state, pc]
  exact trace.replay_eq_after n

/-- Before an event at most one iteration is under way. -/
theorem Started.unique {t' first first' : Nat} {key key' : BitVec 4}
    (started : Started trace t first key n) (started' : Started trace t' first' key' n) :
    t = t' ∧ key = key' := by
  obtain rfl : first = first' := by
    rcases Nat.lt_trichotomy first first' with less | same | less
    · exact absurd started'.starts.2 (started.inside first' less (Nat.le_of_lt started'.before))
    · exact same
    · exact absurd started.starts.2 (started'.inside first less (Nat.le_of_lt started.before))
  obtain ⟨input, event, rfl⟩ := started.reads
  obtain ⟨input', event', rfl⟩ := started'.reads
  cases Event.loop.inj (event.symm.trans event')
  exact ⟨started.number.symm.trans started'.number, rfl⟩

/-- Where iteration `t` has read the level, it enters its judging step with what it
has read. -/
theorem Written.sw_entered {entry : Entry} (written : Written trace t entry) :
    trace.sw (entry.levelAt + 1) = (trace.session.after t).entered entry.reading := by
  obtain ⟨⟨input, event⟩, pc⟩ := written.loads
  have started : Started trace t entry.keyAt entry.input.key entry.levelAt :=
    { written.toStarted with
      before := written.between.1
      inside := fun p lower upper =>
        written.inside p lower (Nat.le_trans upper (Nat.le_of_lt written.between.2)) }
  obtain ⟨rfl, key⟩ := started.unique ((trace.faithful entry.levelAt).started (by simp [pc]))
  have state := trace.sw_eq_state entry.levelAt
  rw [pc, Log.state, replay_eq_after, ← key] at state
  rw [sw_loop event, Sw.step_readLevel pc, state, written.level]
  rfl

/-- Every interleaving is a session: whenever an iteration is about to start,
the program is where whole iterations have taken it, each with the key and the
level that it has read at its own events. -/
theorem run_is_session (trace : Trace) :
    (∀ n, (trace.sw n).pc = .readKey →
        trace.sw n = trace.session.after (trace.iterations n)) ∧
      ∀ n t, t < trace.iterations n →
        Written trace t (trace.entry t) ∧ (trace.entry t).writtenAt < n := by
  exact ⟨fun n pc => sw_eq_after pc, fun n t within => entry_written within⟩

/-! ## Counting iterations -/

theorem iterations_mono (le : m ≤ n) : trace.iterations m ≤ trace.iterations n :=
  trace.log_grows.length_le le

theorem Finishes.iterations_succ (finishes : trace.Finishes n) :
    trace.iterations (n + 1) = trace.iterations n + 1 := by
  obtain ⟨⟨input, event⟩, pc⟩ := finishes
  rw [iterations, log_loop event, pc]
  exact List.length_append

theorem Finishes.sw_succ (finishes : trace.Finishes n) :
    trace.sw (n + 1) = trace.session.after (trace.iterations n + 1) := by
  rw [← finishes.iterations_succ]
  obtain ⟨⟨input, event⟩, pc⟩ := finishes
  apply sw_eq_after
  rw [sw_loop event, Sw.step_writeAnswer pc]
  rfl

theorem iterations_succ_of_not_finishes (unfinished : ¬ trace.Finishes n) :
    trace.iterations (n + 1) = trace.iterations n :=
  (trace.iterations_succ n).resolve_right fun both => unfinished both.2

theorem iterations_succ_le (trace : Trace) (n : Nat) :
    trace.iterations (n + 1) ≤ trace.iterations n + 1 := by
  rcases trace.iterations_succ n with same | ⟨more, -⟩
  · omega
  · omega

/-- In `k` events at most `k` iterations finish. -/
theorem iterations_add_le (trace : Trace) (n k : Nat) :
    trace.iterations (n + k) ≤ trace.iterations n + k := by
  induction k with
  | zero => exact Nat.le_refl _
  | succ k ih =>
      have last := trace.iterations_succ_le (n + k)
      rw [← Nat.add_assoc]
      omega

section Written

variable {entry : Entry}

/-- Iteration `t` starts no earlier than where `t` iterations have finished. -/
theorem Written.start_le (written : Written trace t entry) (starts : trace.Starts n)
    (number : trace.iterations n = t) : n ≤ entry.keyAt := by
  by_contra later
  apply written.inside n (Nat.lt_of_not_le later) _ starts.2
  by_contra past
  have counted := trace.iterations_mono (Nat.succ_le_of_lt (Nat.lt_of_not_le past))
  rw [Nat.succ_eq_add_one, written.counted.2, number] at counted
  omega

/-- It has finished when more iterations have. -/
theorem Written.lt_iff (written : Written trace t entry) :
    t < trace.iterations n ↔ entry.writtenAt < n := by
  constructor
  · intro more
    by_contra early
    have counted := trace.iterations_mono (Nat.le_of_not_lt early)
    rw [written.counted.1] at counted
    omega
  · intro past
    have counted := trace.iterations_mono (Nat.succ_le_of_lt past)
    rw [Nat.succ_eq_add_one, written.counted.2] at counted
    omega

end Written

/-- Two iterations between two events are counted. -/
theorem TwoIterations.iterations_add_two (two : trace.TwoIterations m n) :
    trace.iterations m + 2 ≤ trace.iterations n := by
  obtain ⟨s₁, f₁, s₂, f₂, ⟨start₁, finish₁, start₂, finish₂, last⟩, -, finishes₁, -, finishes₂⟩ :=
    two
  have first := finishes₁.iterations_succ
  have second := finishes₂.iterations_succ
  have before := @iterations_mono trace m f₁ (by omega)
  have between := @iterations_mono trace (f₁ + 1) f₂ (by omega)
  have after := @iterations_mono trace (f₂ + 1) n (by omega)
  omega

end Trace

end FpgaTrivia.System
