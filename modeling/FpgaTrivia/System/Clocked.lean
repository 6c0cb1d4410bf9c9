import FpgaTrivia.System.Schedule
import FpgaTrivia.System.TopLevel
import FpgaTrivia.System.Winning

/-!
# Clocked runs

The state machine ticks at every 50 millionth edge of `CLOCK_50`.  Eighteen
steps of the program in the time between are enough for everything that has
been shown about the board to hold of the whole design.  A wrong verdict sends
the program to sleep for a second, in which it takes no step at all.
-/

namespace FpgaTrivia.System

open FpgaTrivia.Hardware
open FpgaTrivia.Software
open FpgaTrivia.Transition

namespace TopLevel

variable {divider : ClockDivider} {edge : Edge} {input : Input} {i : Nat}

/-- The tick is the last event of its edge. -/
theorem events_tick : (events divider edge)[i]? = some .tick ↔
    divider.Rises ∧ i + 1 = (events divider edge).length := by
  unfold events
  by_cases works : edge.works = true
  · by_cases rises : divider.Rises
    · rcases i with _ | _ | i <;> simp [works, rises]
    · rcases i with _ | i <;> simp [works, rises]
  · by_cases rises : divider.Rises
    · rcases i with _ | i <;> simp [works, rises]
    · simp [works, rises]

/-- The step of the program is the first one. -/
theorem events_loop : (events divider edge)[i]? = some (.loop input) ↔
    edge.works = true ∧ i = 0 ∧ input = edge.input := by
  unfold events
  by_cases works : edge.works = true
  · by_cases rises : divider.Rises
    · rcases i with _ | _ | i <;> simp [works, rises, eq_comm]
    · rcases i with _ | i <;> simp [works, rises, eq_comm]
  · by_cases rises : divider.Rises
    · rcases i with _ | i <;> simp [works, rises]
    · simp [works, rises]

theorem events_length (divider : ClockDivider) (edge : Edge) :
    (events divider edge).length =
      edge.works.toNat + (if divider.Rises then 1 else 0) := by
  unfold events
  by_cases rises : divider.Rises
  · cases edge.works <;> simp [rises]
  · cases edge.works <;> simp [rises]

end TopLevel

namespace Clocked

variable {clocked : Clocked} {e e' m n : Nat} {input : Input}

theorem place_succ (clocked : Clocked) (e : Nat) :
    clocked.place (e + 1) = clocked.place e + (clocked.chunk e).length :=
  position_succ _ e

theorem place_mono (le : e ≤ e') : clocked.place e ≤ clocked.place e' :=
  position_mono le

/-! ## The ticks -/

/-- One edge in 50 million is a tick. -/
theorem ticks_iff (clocked : Clocked) (e : Nat) :
    clocked.Ticks e ↔ ∃ k, e + 1 = clocked.divider.edgesToRise + 50000000 * k :=
  clocked.divider.rises_iff e

theorem Ticks.apart (ticks : clocked.Ticks e) (ticks' : clocked.Ticks e') (less : e < e') :
    e + 50000000 ≤ e' := by
  obtain ⟨k, edge⟩ := (clocked.ticks_iff e).mp ticks
  obtain ⟨k', edge'⟩ := (clocked.ticks_iff e').mp ticks'
  omega

/-- The next tick is never far away. -/
theorem exists_ticks (clocked : Clocked) (e : Nat) :
    ∃ e', e ≤ e' ∧ e' < e + 58554433 ∧ clocked.Ticks e' := by
  have positive := clocked.divider.edgesToRise_pos
  have upper := clocked.divider.edgesToRise_le
  rcases Nat.lt_or_ge e clocked.divider.edgesToRise with early | late
  · refine ⟨clocked.divider.edgesToRise - 1, by omega, by omega, ?_⟩
    exact (clocked.ticks_iff _).mpr ⟨0, by omega⟩
  · have rounds := Nat.div_add_mod (e - clocked.divider.edgesToRise) 50000000
    have rest := Nat.mod_lt (e - clocked.divider.edgesToRise) (show 0 < 50000000 by decide)
    refine ⟨clocked.divider.edgesToRise +
      50000000 * ((e - clocked.divider.edgesToRise) / 50000000 + 1) - 1, by omega, by omega, ?_⟩
    exact (clocked.ticks_iff _).mpr ⟨_, Nat.sub_add_cancel (by omega)⟩

/-! ## The events of a clocked run -/

theorem Ticks.place_succ (ticks : clocked.Ticks e) :
    clocked.place (e + 1) = clocked.place e + (clocked.edges e).works.toNat + 1 := by
  have rises : (clocked.divider.afterEdges e).Rises := ticks
  rw [Clocked.place_succ, chunk, TopLevel.events_length, if_pos rises]
  rfl

theorem place_unbounded (clocked : Clocked) (n : Nat) : ∃ e, n < clocked.place e := by
  induction n with
  | zero =>
      obtain ⟨e, -, -, ticks⟩ := clocked.exists_ticks 0
      exact ⟨e + 1, by rw [ticks.place_succ]; omega⟩
  | succ n ih =>
      obtain ⟨e, less⟩ := ih
      obtain ⟨e', later, -, ticks⟩ := clocked.exists_ticks e
      have upto := @place_mono clocked e e' later
      exact ⟨e' + 1, by rw [ticks.place_succ]; omega⟩

/-- Every event of the trace happens at some edge. -/
theorem exists_edge (clocked : Clocked) (n : Nat) :
    ∃ e i, n = clocked.place e + i ∧ i < (clocked.chunk e).length ∧
      (clocked.chunk e)[i]? = some (clocked.trace.events n) := by
  obtain ⟨e, less⟩ := clocked.place_unbounded n
  obtain ⟨e', -, i, within, rfl⟩ := exists_chunk less
  exact ⟨e', i, rfl, within, flatten_position Event.tick within⟩

theorem trace_ticks_iff : clocked.trace.Ticks n ↔
    ∃ e, clocked.Ticks e ∧ n + 1 = clocked.place (e + 1) := by
  constructor
  · intro ticks
    obtain ⟨e, i, rfl, within, event⟩ := clocked.exists_edge n
    rw [show clocked.trace.events _ = .tick from ticks] at event
    obtain ⟨rises, last⟩ := TopLevel.events_tick.mp event
    refine ⟨e, rises, ?_⟩
    rw [Clocked.place_succ, Nat.add_assoc]
    exact congrArg (clocked.place e + ·) last
  · rintro ⟨e, ticks, last⟩
    rw [ticks.place_succ] at last
    obtain rfl : n = clocked.place e + (clocked.edges e).works.toNat := Nat.succ.inj last
    have event : (clocked.chunk e)[(clocked.edges e).works.toNat]? = some .tick := by
      have rises : (clocked.divider.afterEdges e).Rises := ticks
      apply TopLevel.events_tick.mpr
      rw [TopLevel.events_length, if_pos rises]
      exact ⟨rises, rfl⟩
    have within := (List.getElem?_eq_some_iff.mp event).1
    rw [flatten_position Event.tick within] at event
    exact Option.some.inj event

theorem trace_loop (event : clocked.trace.events n = .loop input) :
    ∃ e, (clocked.edges e).works = true ∧ n = clocked.place e ∧
      input = (clocked.edges e).input := by
  obtain ⟨e, i, rfl, -, stands⟩ := clocked.exists_edge n
  rw [event] at stands
  obtain ⟨works, rfl, same⟩ := TopLevel.events_loop.mp stands
  exact ⟨e, works, rfl, same⟩

/-- A run of the top level is an interleaving of the board.  Before every edge of
`CLOCK_50` the state machine and the program are where the board is after the
events so far; the ticks of the board are the edges at which the divided clock
rises, one in 50 million whatever the divider powers up with; and the keys are
the pushbuttons at the edge of the step. -/
theorem is_interleaving (clocked : Clocked) :
    (∀ e, (clocked.top e).board = clocked.trace.board (clocked.place e)) ∧
      (∀ n, clocked.trace.Ticks n ↔ ∃ e, clocked.Ticks e ∧ n + 1 = clocked.place (e + 1)) ∧
      (∀ e, clocked.Ticks e ↔ ∃ k, e + 1 = clocked.divider.edgesToRise + 50000000 * k) ∧
      ∀ n input, clocked.trace.events n = .loop input →
        ∃ e, (clocked.edges e).works = true ∧ n = clocked.place e ∧
          input = (clocked.edges e).input :=
  ⟨clocked.board_eq, fun _ => trace_ticks_iff, clocked.ticks_iff, fun _ _ => trace_loop⟩

/-! ## The pace of the program -/

/-- The steps that the program completes before edge `e`. -/
def work (clocked : Clocked) : Nat → Nat
  | 0 => 0
  | e + 1 => work clocked e + (clocked.edges e).works.toNat

/-- In 50 million edges the program completes eighteen steps, unless they find it in
the branch of a wrong verdict, where it sleeps. -/
def Responsive (clocked : Clocked) : Prop :=
  ∀ e, (∀ i, e ≤ i → i ≤ e + 50000000 → (clocked.top i).sw.pc ≠ .wrong) →
    clocked.work e + 18 ≤ clocked.work (e + 50000000)

theorem work_mono (le : e ≤ e') : clocked.work e ≤ clocked.work e' := by
  induction e', le using Nat.le_induction with
  | base => exact Nat.le_refl _
  | succ e' _ ih => exact Nat.le_trans ih (Nat.le_add_right _ _)

theorem place_add_work (le : e ≤ e') :
    clocked.place e + clocked.work e' ≤ clocked.place e' + clocked.work e := by
  induction e', le using Nat.le_induction with
  | base => exact Nat.le_refl _
  | succ e' _ ih =>
      rw [work, Clocked.place_succ, chunk, TopLevel.events_length]
      omega

theorem place_le (clocked : Clocked) (e k : Nat) :
    clocked.place (e + k) ≤ clocked.place e + 2 * k := by
  induction k with
  | zero => exact Nat.le_refl _
  | succ k ih =>
      have most : (clocked.chunk (e + k)).length ≤ 2 := by
        rw [chunk, TopLevel.events_length]
        have one := Bool.toNat_le (clocked.edges (e + k)).works
        split <;> omega
      rw [← Nat.add_assoc, Clocked.place_succ]
      omega

theorem top_sw (clocked : Clocked) (e : Nat) :
    (clocked.top e).sw = clocked.trace.sw (clocked.place e) :=
  congrArg Board.sw (clocked.board_eq e)

section Responsive

variable (responsive : clocked.Responsive)

include responsive

/-- From tick to tick there are eighteen steps, or the program has been asleep. -/
theorem Responsive.apart (ticks : clocked.trace.Ticks m) (ticks' : clocked.trace.Ticks n)
    (less : m < n) : m + 19 ≤ n ∨ ∃ k, m < k ∧ k ≤ n ∧ (clocked.trace.sw k).pc = .wrong := by
  have ticked := ticks'
  obtain ⟨e, tick, last⟩ := trace_ticks_iff.mp ticks
  obtain ⟨e', tick', last'⟩ := trace_ticks_iff.mp ticks'
  have before : e < e' := by
    by_contra late
    have upto := @place_mono clocked (e' + 1) (e + 1) (by omega)
    omega
  have second := tick.apart tick' before
  by_cases awake : ∀ i, e + 1 ≤ i → i ≤ e + 1 + 50000000 → (clocked.top i).sw.pc ≠ .wrong
  · left
    have steps := responsive (e + 1) awake
    have upto := @work_mono clocked (e + 1 + 50000000) (e' + 1) (by omega)
    have events := @place_add_work clocked (e + 1) e' (by omega)
    have worked : clocked.work (e' + 1) = clocked.work e' + (clocked.edges e').works.toNat := rfl
    rw [tick'.place_succ] at last'
    omega
  · right
    push Not at awake
    obtain ⟨i, lower, upper, asleep⟩ := awake
    rw [top_sw] at asleep
    have after := @place_mono clocked (e + 1) i lower
    have upto := @place_mono clocked i (e' + 1) (by omega)
    rw [← last] at after
    rw [← last'] at upto
    rcases Nat.lt_or_eq_of_le upto with early | here
    · exact ⟨_, after, Nat.le_of_lt_succ early, asleep⟩
    · rw [here, Trace.sw_tick ticked] at asleep
      exact ⟨n, less, Nat.le_refl n, asleep⟩

theorem Responsive.attends : clocked.trace.Attends := by
  intro m n ticks ticks' less
  obtain ⟨next, lower, upper, ticksNext, none⟩ := exists_first ticks' less
  rcases responsive.apart ticks ticksNext lower with far | ⟨k, after, upto, asleep⟩
  · left
    have busy : clocked.trace.Busy (m + 1) (m + 19) :=
      fun i first last => none i first (Nat.lt_of_lt_of_le last far)
    obtain ⟨s, f, s', f', ⟨after, later, between, later', last⟩, starts, finishes, -⟩ :=
      busy.twoIterations far
    exact ⟨s, f, ⟨after, later, by omega⟩, starts, finishes⟩
  · exact Or.inr ⟨k, after, Nat.le_trans upto upper, asleep⟩

section Careful

variable (careful : clocked.trace.Careful)

include careful

theorem Responsive.twoPerTick : clocked.trace.TwoPerTick :=
  Trace.twoPerTick_of_apart fun _ _ ticks ticks' less =>
    (responsive.apart ticks ticks' less).resolve_right
      fun ⟨k, _, _, asleep⟩ => careful.pc_ne_wrong k asleep

/-- The program runs. -/
theorem Responsive.exists_starts : ∃ s, clocked.trace.Starts s := by
  by_contra none
  push Not at none
  have idle := fun n => (Trace.idle_of_not_starts fun i (_ : i < n) => none i).1
  have busy : ∃ e, (clocked.edges e).works = true := by
    by_contra lazy
    push Not at lazy
    have still : ∀ e, clocked.work e = 0 := by
      intro e
      induction e with
      | zero => rfl
      | succ e ih => simp [work, ih, lazy e]
    have steps := responsive 0 fun i _ _ => by
      rw [top_sw]
      exact careful.pc_ne_wrong _
    rw [still, still] at steps
    omega
  obtain ⟨e, works⟩ := busy
  have event : (clocked.chunk e)[0]? = some (.loop (clocked.edges e).input) :=
    TopLevel.events_loop.mpr ⟨works, rfl, rfl⟩
  have within := (List.getElem?_eq_some_iff.mp event).1
  rw [flatten_position Event.tick within] at event
  apply none (clocked.place e) ⟨⟨_, Option.some.inj event⟩, ?_⟩
  rw [idle]
  rfl

theorem Responsive.fair : clocked.trace.Fair where
  runs := responsive.exists_starts careful
  two := responsive.twoPerTick careful
  ticks := by
    intro n
    obtain ⟨e, i, rfl, within, -⟩ := clocked.exists_edge n
    obtain ⟨e', later, near, ticks⟩ := clocked.exists_ticks (e + 1)
    have after := @place_mono clocked (e + 1) e' later
    have far := clocked.place_le e (e' + 1 - e)
    rw [show e + (e' + 1 - e) = e' + 1 by omega] at far
    rw [Clocked.place_succ] at after
    refine ⟨clocked.place (e' + 1) - 1, ?_, by omega, ?_⟩
    · rw [ticks.place_succ]
      omega
    · apply trace_ticks_iff.mpr
      refine ⟨e', ticks, Nat.sub_add_cancel ?_⟩
      rw [ticks.place_succ]
      omega

end Careful

end Responsive

/-- A processor that takes a step at every edge, unless it sleeps, is fast enough. -/
theorem responsive_of_works
    (works : ∀ e, (clocked.top e).sw.pc ≠ .wrong → (clocked.edges e).works = true) :
    clocked.Responsive := by
  intro e awake
  have steps : ∀ k ≤ 50000000, clocked.work (e + k) = clocked.work e + k := by
    intro k within
    induction k with
    | zero => rfl
    | succ k ih =>
        rw [← Nat.add_assoc, work, ih (Nat.le_of_succ_le within),
          works (e + k) (awake (e + k) (Nat.le_add_right e k) (by omega))]
        rfl
  rw [steps 50000000 (Nat.le_refl _)]
  omega

/-! ## Players

A player looks at the design before every edge and decides what happens then. -/

def playedTop (player : Nat → TopLevel → Edge) : Nat → TopLevel
  | 0 => .powerUp .reset .zeroed
  | e + 1 => (playedTop player e).risingEdge (player e (playedTop player e))

def played (player : Nat → TopLevel → Edge) : Clocked :=
  ⟨.reset, .zeroed, fun e => player e (playedTop player e)⟩

theorem played_edges (player : Nat → TopLevel → Edge) (e : Nat) :
    (played player).edges e = player e ((played player).top e) := by
  have same : (played player).top e = playedTop player e := by
    induction e with
    | zero => rfl
    | succ e ih =>
        rw [top_succ, ih]
        rfl
  rw [same]
  rfl

/-! ## What the LEDs show -/

theorem ledr_eq_shown (clocked : Clocked) (e : Nat) :
    (clocked.top e).ledr.toNat = clocked.trace.shown (clocked.place e) :=
  congrArg (fun board => board.fsm.oCount.toNat) (clocked.board_eq e)

/-- Eighteen steps of the program a second, and its sleep after a wrong verdict, are
enough for the design to play the reference game: from the reset state of the
state machine on, the LEDs show at every edge the level that the published
answers lead to. -/
theorem plays_reference_game (responsive : clocked.Responsive) (e : Nat) :
    (clocked.top e).ledr.toNat = Game.play (clocked.trace.offers (clocked.place e)) := by
  rw [ledr_eq_shown]
  exact (responsive.attends.stands_for_play _).oCount_eq

/-- Whatever the question, the first key; and a processor that wakes up from its
sleep at every 60 millionth edge only. -/
def sleepyRun : Clocked :=
  played fun e top =>
    ⟨~~~(if top.sw.ready = 1 then 0b0001#4 else 0), top.sw.pc != .wrong || e % 60000000 == 0,
      false, fun _ => .lowest⟩

/-- The design plays the reference game although it sleeps through some ticks. -/
theorem sleepyRun_plays_reference_game :
    (sleepyRun.top 100000000).ledr.toNat =
      Game.play (sleepyRun.trace.offers (sleepyRun.place 100000000)) := by
  apply plays_reference_game
  apply responsive_of_works
  intro e awake
  rw [sleepyRun] at awake ⊢
  rw [played_edges]
  simpa using Or.inl awake

/-! ## The game can be won -/

/-- Whoever plays well wins.  Whatever the divider and the memory power up with, if
the state machine starts in its reset state, whatever questions come up, and at
any pace of the program from eighteen steps a second on, the LEDs show level six
at some edge and the screen says so. -/
theorem player_wins (plays : clocked.trace.Plays) (responsive : clocked.Responsive) :
    ∃ e, (clocked.top e).ledr = 6#4 ∧
      (Screen.title "You win!!!").On (clocked.top e).sw.charBuf := by
  obtain ⟨n, six, screen, still⟩ := plays.wins (responsive.fair plays.careful)
  obtain ⟨e, i, rfl, within, event⟩ := clocked.exists_edge n
  have first : i = 0 := by
    rcases here : clocked.trace.events (clocked.place e + i) with _ | input
    · exact absurd here still
    · rw [here] at event
      exact (TopLevel.events_loop.mp event).2.1
  subst first
  refine ⟨e, BitVec.eq_of_toNat_eq ?_, ?_⟩
  · rw [ledr_eq_shown]
    exact six
  · rw [top_sw]
    exact screen

/-- The perfect player, with a step of the program at every edge. -/
def perfectRun : Clocked :=
  played fun _ top => ⟨~~~perfectKey top.sw, true, false, fun _ => .lowest⟩

theorem perfectRun_responsive : perfectRun.Responsive := by
  apply responsive_of_works
  intro e _
  rw [perfectRun, played_edges]

theorem perfectRun_perfect : perfectRun.trace.Perfect := by
  intro n input event _
  obtain ⟨e, -, rfl, rfl⟩ := trace_loop event
  rw [← top_sw, perfectRun, played_edges]
  exact BitVec.not_not

/-- The perfect player does win. -/
theorem perfectRun_wins :
    ∃ e, (perfectRun.top e).ledr = 6#4 ∧
      (Screen.title "You win!!!").On (perfectRun.top e).sw.charBuf :=
  player_wins
    (perfectRun_perfect.plays (perfectRun_responsive.fair perfectRun_perfect.careful))
    perfectRun_responsive

end Clocked

end FpgaTrivia.System
