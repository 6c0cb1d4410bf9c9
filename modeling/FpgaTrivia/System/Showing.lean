import FpgaTrivia.Software.Outputs
import FpgaTrivia.System.Clocked

/-!
# The two displays

`HEX0` and `HEX1` show the two bytes of the display port at every edge of
`CLOCK_50`, also in the middle of an iteration.  An iteration has written the
port when it gets to the redraw block, and a wrong verdict is published before
that.
-/

namespace FpgaTrivia.System

open FpgaTrivia.Hardware
open FpgaTrivia.Software
open FpgaTrivia.Transition

namespace Log

variable {log : Log} {junk s : Sw}

/-- The readings of the finished iterations and of the one under way. -/
def readings (log : Log) : List Reading :=
  (log.finished ++ [log.current]).map Entry.reading

/-- The session that begins with these readings. -/
def session (junk : Sw) (log : Log) : Session where
  junk := junk
  readings t := log.readings.getD t Entry.blank.reading

/-- The iterations that are through with the display port. -/
def displayed (log : Log) : Pc → Nat
  | .readKey | .readLevel | .judge | .wrong => log.finished.length
  | .redraw | .writeAnswer => log.finished.length + 1

theorem session_finished {t : Nat} {entry : Entry} (noted : log.finished[t]? = some entry) :
    (log.session junk).readings t = entry.reading := by
  have within := (List.getElem?_eq_some_iff.mp noted).1
  change log.readings.getD t _ = _
  rw [List.getD_eq_getElem?_getD, readings, List.getElem?_map, List.getElem?_append_left within,
    noted]
  rfl

theorem session_current (junk : Sw) (log : Log) :
    (log.session junk).readings log.finished.length = log.current.reading := by
  change log.readings.getD _ _ = _
  rw [List.getD_eq_getElem?_getD, readings, List.getElem?_map, List.getElem?_concat_length]
  rfl

theorem session_after (junk : Sw) (log : Log) :
    (log.session junk).after log.finished.length = log.replay junk :=
  after_eq_replay fun _ _ => session_finished

theorem session_after_succ (junk : Sw) (log : Log) :
    (log.session junk).after (log.finished.length + 1) =
      (log.replay junk).iteration log.current.reading := by
  rw [Session.after_succ, session_after, session_current]

/-- A wrong verdict is published first and shown later. -/
theorem judge_pioSseg_of_wrong {wild : Bool} (judging : s.pc = .judge)
    (wrong : (s.judge wild).pc = .wrong) : (s.judge wild).pioSseg = s.pioSseg := by
  by_cases right : s.Judges → s.verdict wild = true
  · have next := (Sw.judge_of_not_wrong judging right).1
    rw [next] at wrong
    cases wrong
  · obtain ⟨judges, incorrect⟩ := Classical.not_imp.mp right
    rw [Sw.judge_of_judges judges, if_neg incorrect]
    rfl

/-- At every step the port holds what whole iterations put there. -/
theorem state_pioSseg (reached : s = log.state junk s.pc) :
    s.pioSseg = ((log.session junk).after (log.displayed s.pc)).pioSseg := by
  rcases pc : s.pc with _ | _ | _ | _ | _ | _
  all_goals rw [pc] at reached
  case readKey =>
    rw [displayed, session_after, reached]
    rfl
  case readLevel =>
    rw [displayed, session_after, reached]
    rfl
  case judge =>
    rw [displayed, session_after, reached]
    rfl
  case wrong =>
    rw [displayed, session_after, reached]
    apply judge_pioSseg_of_wrong rfl
    rw [reached] at pc
    exact pc
  case redraw =>
    rw [displayed, session_after_succ, Sw.iteration_pioSseg, reached]
    rfl
  case writeAnswer =>
    rw [displayed, session_after_succ, Sw.iteration_pioSseg, reached]
    exact Sw.redraw_pioSseg _ _

end Log

namespace Trace

variable {trace : Trace} {n t : Nat}

/-- The session that the run has been up to event `n`. -/
def sofar (trace : Trace) (n : Nat) : Session :=
  (trace.log n).session trace.junk

/-- The iterations that are through with the display port before event `n`. -/
def displayed (trace : Trace) (n : Nat) : Nat :=
  (trace.log n).displayed (trace.sw n).pc

theorem pioSseg_eq (trace : Trace) (n : Nat) :
    (trace.sw n).pioSseg = ((trace.sofar n).after (trace.displayed n)).pioSseg :=
  Log.state_pioSseg (trace.sw_eq_state n)

/-- Iteration `t` has read its key and its level at two events before `n`. -/
def ReadBefore (trace : Trace) (t : Nat) (reading : Reading) (n : Nat) : Prop :=
  ∃ entry m, m ≤ n ∧ Entered trace t entry m ∧ reading = entry.reading

/-- These iterations have read what the session says. -/
theorem sofar_read (within : t < trace.displayed n) :
    trace.ReadBefore t ((trace.sofar n).readings t) n := by
  have faithful := trace.faithful n
  rcases Nat.lt_or_ge t (trace.log n).finished.length with old | new
  · have noted := List.getElem?_eq_getElem old
    obtain ⟨written, before⟩ := faithful.written t _ noted
    exact ⟨_, _, Nat.le_of_lt before, written.toEntered, Log.session_finished noted⟩
  · have both : t = (trace.log n).finished.length ∧ (trace.sw n).pc ≠ .readKey ∧
        (trace.sw n).pc ≠ .readLevel := by
      unfold displayed at within
      rcases pc : (trace.sw n).pc with _ | _ | _ | _ | _ | _
      case redraw =>
        rw [pc] at within
        exact ⟨Nat.le_antisymm (Nat.lt_succ_iff.mp within) new, by decide, by decide⟩
      case writeAnswer =>
        rw [pc] at within
        exact ⟨Nat.le_antisymm (Nat.lt_succ_iff.mp within) new, by decide, by decide⟩
      all_goals
        rw [pc] at within
        exact absurd within (Nat.not_lt.mpr new)
    obtain ⟨rfl, read, loaded⟩ := both
    exact ⟨_, n, Nat.le_refl n, faithful.entered read loaded, Log.session_current _ _⟩

end Trace

namespace Clocked

theorem hex_bytes (clocked : Clocked) (e : Nat) :
    (clocked.top e).hex0.toNat = (clocked.top e).sSseg.toNat % 256 ∧
      (clocked.top e).hex1.toNat = (clocked.top e).sSseg.toNat / 256 := by
  have bound := (clocked.top e).sSseg.isLt
  rw [TopLevel.hex0, TopLevel.hex1, BitVec.extractLsb'_toNat, BitVec.extractLsb'_toNat]
  omega

/-- At every edge both displays hold the zeros of the start and no key has been
counted, or `HEX0` shows the letter of the key that was counted last and `HEX1`
that of the slot which was right at the last verdict up to then, by the keys
and levels that the program has read at its own events. -/
theorem displays_history (clocked : Clocked) (e : Nat) :
    let n := clocked.place e
    let session := clocked.trace.sofar n
    let t := clocked.trace.displayed n
    (∀ i < t, clocked.trace.ReadBefore i (session.readings i) n) ∧
      (((clocked.top e).hex0 = 0 ∧ (clocked.top e).hex1 = 0 ∧
          ∀ i < t, ¬ Counted session.key session.level i) ∨
        ∃ s, Latest (Counted session.key session.level) s t ∧
          (clocked.top e).hex0.toNat =
            getSSEG1value (session.after s).q (session.key s).toNat ∧
          session.UpperLetter (s + 1) (clocked.top e).hex1.toNat) := by
  intro n session t
  obtain ⟨lower, upper⟩ := clocked.hex_bytes e
  have port : (clocked.top e).sSseg = (session.after t).pioSseg := by
    rw [TopLevel.sSseg, top_sw]
    exact clocked.trace.pioSseg_eq n
  refine ⟨fun i => Trace.sofar_read, ?_⟩
  rw [port] at lower upper
  rcases session.letters_cases t with ⟨first, none⟩ | ⟨s, letter, latest, shown, history⟩
  · rw [first] at lower upper
    exact Or.inl ⟨BitVec.eq_of_toNat_eq lower, BitVec.eq_of_toNat_eq upper, none⟩
  · have bytes := bytes_of_letters shown
    rw [bytes.1] at lower
    rw [bytes.2] at upper
    exact Or.inr ⟨s, latest, lower, upper ▸ history⟩

end Clocked

end FpgaTrivia.System
