import FpgaTrivia.Hardware.Game
import FpgaTrivia.Software.Screen
import FpgaTrivia.System.Playing

/-!
# The game can be won

Whoever plays well wins under every schedule of the ticks that leaves the
program two iterations between them and never lets it wait for too long,
whatever questions come up and wherever the right answers are put.  The level
climbs one by one: as long as no tick samples a correct answer the screen stays,
so that after a release some key is held until a verdict is sampled.
-/

namespace FpgaTrivia.System

open FpgaTrivia.Arith
open FpgaTrivia.Hardware
open FpgaTrivia.Software
open FpgaTrivia.Transition

namespace Trace

/-- The program runs, two whole iterations pass between the ticks, and a tick is
never further away than `2 ^ 30` events. -/
structure Fair (trace : Trace) : Prop where
  runs : ∃ s, trace.Starts s
  two : trace.TwoPerTick
  ticks : ∀ n, ∃ m, n ≤ m ∧ m < n + 1073741824 ∧ trace.Ticks m

variable {trace : Trace} {m n t a C : Nat}

/-- Two iterations finish from one tick to the next. -/
theorem Fair.next (fair : trace.Fair) (ticks : trace.Ticks m) (started : ∃ s < m, trace.Starts s) :
    ∃ n, m < n ∧ trace.Ticks n ∧ (∀ i, m < i → i < n → ¬ trace.Ticks i) ∧
      trace.TwoIterations m n := by
  obtain ⟨later, after, -, ticks'⟩ := fair.ticks (m + 1)
  obtain ⟨n, lower, -, ticksNext, none⟩ := exists_first ticks' (Nat.lt_of_succ_le after)
  exact ⟨n, lower, ticksNext, none, fair.two m n ticks ticksNext lower none started⟩

/-- So the iterations go on forever. -/
theorem Fair.unbounded (fair : trace.Fair) (t : Nat) : ∃ n, t < trace.iterations n := by
  have far : ∀ t, ∃ n, trace.Ticks n ∧ (∃ s < n, trace.Starts s) ∧ t ≤ trace.iterations n := by
    intro t
    induction t with
    | zero =>
        obtain ⟨s, starts⟩ := fair.runs
        obtain ⟨n, after, -, ticks⟩ := fair.ticks (s + 1)
        exact ⟨n, ticks, ⟨s, Nat.lt_of_succ_le after, starts⟩, Nat.zero_le _⟩
    | succ t ih =>
        obtain ⟨m, ticks, ⟨s, before, starts⟩, count⟩ := ih
        obtain ⟨n, after, ticks', -, two⟩ := fair.next ticks ⟨s, before, starts⟩
        have more := two.iterations_add_two
        exact ⟨n, ticks', ⟨s, Nat.lt_trans before after, starts⟩, by omega⟩
  obtain ⟨n, -, -, count⟩ := far (t + 1)
  exact ⟨n, count⟩

theorem Fair.written (fair : trace.Fair) (t : Nat) : Written trace t (trace.entry t) := by
  obtain ⟨n, within⟩ := fair.unbounded t
  exact (entry_written within).1

/-- Iteration `t` reads the level at this event. -/
noncomputable def levelAt (trace : Trace) (t : Nat) : Nat :=
  (trace.entry t).levelAt

theorem Fair.levelAt_lt (fair : trace.Fair) (before : t < trace.iterations n) :
    trace.levelAt t < n := by
  have written := fair.written t
  exact Nat.lt_trans written.between.2 (written.lt_iff.mp before)

theorem Fair.levelAt_strictMono (fair : trace.Fair) {t t' : Nat} (less : t < t') :
    trace.levelAt t < trace.levelAt t' := by
  have written := fair.written t
  have written' := fair.written t'
  have before := written.lt_iff.mp (show t < trace.iterations (trace.entry t').keyAt by
    rw [written'.number]
    exact less)
  exact Nat.lt_trans (Nat.lt_trans written.between.2 before) written'.between.1

/-! ## Between two raises -/

/-- From event `n` on the board asks level `C`, and iteration `a` is the first
one to read it. -/
structure Stage (trace : Trace) (C n a : Nat) : Prop where
  stands : (trace.board n).fsm.StandsFor C
  reads : ∀ t, t < a ↔ trace.levelAt t < n
  opens : (C = 0 ∧ n = 0 ∧ a = 0) ∨
    (0 < C ∧ (∃ m, n = m + 1 ∧ trace.Ticks m ∧ ∃ s < m, trace.Starts s) ∧
      0 < a ∧ (trace.session.level (a - 1)).toNat = C - 1 ∧
      redrawCount trace.session.level a = C)

/-- No tick from `n` up to `m` has sampled a correct answer. -/
def Quiet (trace : Trace) (n m : Nat) : Prop :=
  ∀ i, n ≤ i → i < m → trace.Ticks i → (trace.sw i).pioOutputAnswer ≠ 0b11#2

theorem Quiet.mono {m' : Nat} (quiet : trace.Quiet n m) (le : m' ≤ m) : trace.Quiet n m' :=
  fun i lower upper => quiet i lower (Nat.lt_of_lt_of_le upper le)

/-- The iterations that finish before a tick at the level have read it: two at
least, unless the game has just begun. -/
theorem Stage.two (stage : trace.Stage C n a) (fair : trace.Fair) (positive : 0 < C)
    (ticks : trace.Ticks m) (after : n ≤ m) : a + 2 ≤ trace.iterations m := by
  rcases stage.opens with ⟨zero, -⟩ | ⟨-, ⟨last, rfl, ticked, started⟩, -⟩
  · omega
  · obtain ⟨next, lower, upto, ticksNext, none⟩ := exists_first ticks (Nat.lt_of_succ_le after)
    obtain ⟨s₁, f₁, s₂, f₂, ⟨start₁, finish₁, start₂, finish₂, done⟩, starts₁, finishes₁, -,
      finishes₂⟩ := fair.two last next ticked ticksNext lower none started
    have written := fair.written (trace.iterations s₁)
    have first := written.start_le starts₁ rfl
    have between := written.between.1
    have fresh : ¬ trace.iterations s₁ < a := by
      rw [stage.reads, levelAt]
      omega
    have count₁ := finishes₁.iterations_succ
    have count₂ := finishes₂.iterations_succ
    have le₁ := @iterations_mono trace s₁ f₁ (by omega)
    have le₂ := @iterations_mono trace (f₁ + 1) f₂ (by omega)
    have le₃ := @iterations_mono trace (f₂ + 1) m (by omega)
    omega

/-- What a tick at the level samples. -/
theorem Stage.sampled (stage : trace.Stage C n a) (careful : trace.Careful) (fair : trace.Fair)
    (ticks : trace.Ticks m) (after : n ≤ m) :
    (C = 0 ∧ trace.iterations m = 0 ∧ (trace.sw m).pioOutputAnswer = 0b00#2) ∨
      ∃ p, a ≤ p ∧ (0 < C → a < p) ∧ trace.iterations m = p + 1 ∧
        (trace.sw m).pioOutputAnswer = trace.session.published p := by
  rw [careful.port]
  rcases count : trace.iterations m with _ | p
  · left
    refine ⟨?_, rfl, rfl⟩
    by_contra positive
    have two := stage.two fair (Nat.pos_of_ne_zero positive) ticks after
    omega
  · right
    refine ⟨p, ?_, ?_, rfl, trace.session.after_port p⟩
    · rcases stage.opens with ⟨-, -, zero⟩ | ⟨positive, -⟩
      · omega
      · have two := stage.two fair positive ticks after
        omega
    · intro positive
      have two := stage.two fair positive ticks after
      omega

theorem control_ready (s : Sw) : s.control.ready = s.ready :=
  rfl

theorem published_cases {session : Session} {t : Nat} (notWon : (session.level t).toNat ≠ 6)
    (right : session.Judges t → session.verdict t = true) :
    session.published t = 0b00#2 ∨ session.published t = 0b11#2 := by
  unfold Session.published
  rw [if_neg notWon]
  split
  · split
    · exact Or.inr rfl
    · exact Or.inl rfl
  · split
    · rename_i confirms
      rw [if_pos (right ((session.judges_iff_confirms t).mpr confirms))]
      exact Or.inr rfl
    · exact Or.inl rfl

theorem not_mixes {fsm : Fsm} {answer : BitVec 2} (stands : fsm.StandsFor C) (low : C ≤ 5) :
    ¬ Fsm.Mixes fsm answer := by
  have count := stands.sCnt_eq
  rintro (⟨rfl, -⟩ | ⟨rfl, -⟩)
  · change (6 : Int) = C at count
    omega
  · change (6 : Int) = C at count
    omega

/-- Until a tick samples a correct answer, the level stays. -/
theorem Stage.stands_of_quiet (stage : trace.Stage C n a) (careful : trace.Careful)
    (fair : trace.Fair) (low : C ≤ 5) (quiet : trace.Quiet n m) {p : Nat} (lower : n ≤ p)
    (upper : p ≤ m) : (trace.board p).fsm.StandsFor C := by
  have all : ∀ q, n ≤ q → q ≤ p → (trace.board q).fsm.StandsFor C := by
    apply interval_induction (P := fun p => ∀ q, n ≤ q → q ≤ p → (trace.board q).fsm.StandsFor C)
      lower
    · intro q first last
      rw [Nat.le_antisymm last first]
      exact stage.stands
    · intro k first last ih q since upto
      rcases Nat.lt_succ_iff_lt_or_eq.mp (Nat.lt_succ_of_le upto) with less | rfl
      · exact ih q since (Nat.lt_succ_iff.mp less)
      · have here := ih k first (Nat.le_refl k)
        rcases event : trace.events k with _ | input
        · have silent : (trace.sw k).pioOutputAnswer = 0b00#2 := by
            rcases stage.sampled careful fair event first with
              ⟨-, -, zero⟩ | ⟨r, reads, -, count, port⟩
            · exact zero
            · have before := fair.levelAt_lt (show r < trace.iterations k by omega)
              have level : (trace.session.level r).toNat = C := by
                have shows := ih (trace.levelAt r) (by
                  by_contra early
                  have fresh := (stage.reads r).mpr (Nat.lt_of_not_le early)
                  omega) (Nat.le_of_lt before)
                rw [show trace.session.level r = _ from (fair.written r).level.symm]
                exact shows.oCount_eq
              have cases := published_cases (by omega)
                (careful.verdict (show r < trace.iterations k by omega))
              rw [← port] at cases
              exact cases.resolve_right (quiet k first (by omega) event)
          rw [fsm_tick event, silent]
          exact here.silence rfl (not_mixes here low)
        · rw [fsm_loop event]
          exact here
  exact all p lower (Nat.le_refl p)

section Quiet

variable (stage : trace.Stage C n a) (careful : trace.Careful) (fair : trace.Fair) (low : C ≤ 5)
  (quiet : trace.Quiet n m)

include stage careful fair low quiet

/-- The iterations that read the level before the next raise read `C`. -/
theorem Stage.level_of_quiet (reads : a ≤ t) (before : trace.levelAt t < m) :
    (trace.session.level t).toNat = C := by
  have after : n ≤ trace.levelAt t := by
    by_contra early
    exact Nat.not_lt.mpr reads ((stage.reads t).mpr (Nat.lt_of_not_le early))
  rw [show trace.session.level t = _ from (fair.written t).level.symm]
  exact (stage.stands_of_quiet careful fair low quiet after (Nat.le_of_lt before)).oCount_eq

/-- The first of them draws the screen, the others leave it alone. -/
theorem Stage.redrawCount_of_quiet (reads : a ≤ t) (before : trace.levelAt t < m) :
    redrawCount trace.session.level (t + 1) = C + 1 ∧
      (Redrawn trace.session.level t ↔ t = a) := by
  induction t, reads using Nat.le_induction with
  | base =>
      have redrawn : Redrawn trace.session.level a := by
        rcases stage.opens with ⟨-, -, rfl⟩ | ⟨positive, -, later, old, -⟩
        · exact redrawn_zero _
        · refine Or.inl ⟨Nat.ne_of_gt later, fun same => ?_⟩
          have new := stage.level_of_quiet careful fair low quiet (Nat.le_refl a) before
          rw [same, old] at new
          omega
      refine ⟨?_, iff_of_true redrawn rfl⟩
      rw [redrawCount_of_redrawn redrawn]
      rcases stage.opens with ⟨rfl, -, rfl⟩ | ⟨-, -, -, -, count⟩
      · rfl
      · rw [count]
  | succ t reads ih =>
      have earlier := Nat.lt_trans (fair.levelAt_strictMono (Nat.lt_succ_self t)) before
      have count := (ih earlier).1
      have fresh : ¬ Redrawn trace.session.level (t + 1) := by
        rintro (changed | wrapped)
        · apply changed.2
          apply BitVec.eq_of_toNat_eq
          rw [stage.level_of_quiet careful fair low quiet (Nat.le_succ_of_le reads) before]
          exact (stage.level_of_quiet careful fair low quiet reads earlier).symm
        · rw [count] at wrapped
          omega
      refine ⟨(redrawCount_of_not_redrawn fresh).trans count, iff_of_false fresh (by omega)⟩

end Quiet

/-- Once all keys have been released, some key is held for good. -/
theorem Stage.exists_held (stage : trace.Stage C n a) (plays : trace.Plays) (fair : trace.Fair)
    (low : C ≤ 5) (never : ∀ m, trace.Quiet n m) :
    ∃ r, a < r ∧ trace.session.key r = 0 ∧ ∀ i, r < i → trace.session.key i ≠ 0 := by
  have level (t : Nat) (reads : a ≤ t) : (trace.session.level t).toNat ≠ 6 := by
    rw [stage.level_of_quiet plays.careful fair low (never _) reads (Nat.lt_succ_self _)]
    omega
  have fresh (t : Nat) (reads : a ≤ t) : Redrawn trace.session.level t ↔ t = a :=
    (stage.redrawCount_of_quiet plays.careful fair low (never _) reads (Nat.lt_succ_self _)).2
  obtain ⟨z, after, zero⟩ := plays.releases a ((fresh a (Nat.le_refl a)).mpr rfl)
    (level a (Nat.le_refl a))
  obtain ⟨u, held⟩ := plays.presses z zero (level z (Nat.le_of_lt after)) fun i later redrawn =>
    absurd ((fresh i (by omega)).mp redrawn) (by omega)
  obtain ⟨r, first, -, released, last⟩ := exists_last (P := fun i => trace.session.key i = 0)
    zero (show z < max u (z + 1) by omega)
  refine ⟨r, Nat.lt_of_lt_of_le after first, released, fun i later => ?_⟩
  rcases Nat.lt_or_ge i (max u (z + 1)) with early | late
  · exact last i later early
  · exact held i (by omega)

/-- The idle board is answered as soon as the player has released the keys, a
question once the delay has passed. -/
theorem Stage.published (stage : trace.Stage C n a) (careful : trace.Careful) (fair : trace.Fair)
    (low : C ≤ 5) (never : ∀ m, trace.Quiet n m) {r : Nat} (after : a < r)
    (released : trace.session.key r = 0) (held : ∀ i, r < i → trace.session.key i ≠ 0)
    (counted : r + 30000 ≤ t) (bounded : t < r + 2147483648) :
    trace.session.published t = 0b11#2 := by
  have pressed := held t (by omega)
  have since : WaitsSince trace.session.key trace.session.level r t := by
    refine ⟨by omega, released, fun i lower _ => held i lower, fun i lower _ redrawn => ?_⟩
    have first := (stage.redrawCount_of_quiet careful fair low (never _) (by omega)
      (Nat.lt_succ_self (trace.levelAt i))).2.mp redrawn
    omega
  have level (i : Nat) (reads : a ≤ i) : (trace.session.level i).toNat = C :=
    stage.level_of_quiet careful fair low (never _) reads (Nat.lt_succ_self _)
  have here := level t (by omega)
  unfold Session.published
  by_cases idle : C = 0
  · rw [if_pos (here.trans idle), if_pos ⟨Or.inr (Or.inr ⟨r, since⟩), pressed⟩]
  · have start := level r (by omega)
    have confirms : Confirms trace.session.key trace.session.level t := by
      refine ⟨r, since, pressed, ⟨by omega, by omega⟩, ⟨by omega, by omega⟩, ?_⟩
      rw [wrap_eq_self (by omega) (by omega)]
      omega
    obtain ⟨within, count⟩ := fair.unbounded t
    have right := careful.verdict count ((trace.session.judges_iff_confirms t).mpr confirms)
    rw [if_neg (by omega), if_neg (by omega), if_pos confirms, if_pos right]

/-- So at last a tick samples a correct answer. -/
theorem Stage.exists_correct (stage : trace.Stage C n a) (plays : trace.Plays) (fair : trace.Fair)
    (low : C ≤ 5) : ∃ m, n ≤ m ∧ trace.Ticks m ∧ (trace.sw m).pioOutputAnswer = 0b11#2 ∧
      trace.Quiet n m := by
  classical
  have exists_one : ∃ m, n ≤ m ∧ trace.Ticks m ∧ (trace.sw m).pioOutputAnswer = 0b11#2 := by
    by_contra none
    push Not at none
    have never : ∀ m, trace.Quiet n m := fun _ i lower _ ticks => none i lower ticks
    obtain ⟨r, first, released, held⟩ := stage.exists_held plays fair low never
    have written := fair.written (r + 30000)
    obtain ⟨m, lower, upper, ticks⟩ := fair.ticks ((trace.entry (r + 30000)).writtenAt + 1)
    have after : n ≤ m := by
      have reads := (stage.reads (r + 30000)).not.mp (by omega)
      have between := written.between.2
      rw [levelAt] at reads
      omega
    have count := written.lt_iff.mpr (Nat.lt_of_succ_le lower)
    have most := trace.iterations_add_le ((trace.entry (r + 30000)).writtenAt + 1) 1073741824
    have upto := @iterations_mono trace _ _ (Nat.le_of_lt upper)
    rw [written.counted.2] at most
    rcases stage.sampled plays.careful fair ticks after with ⟨-, zero, -⟩ | ⟨p, -, -, last, port⟩
    · omega
    · apply none m after ticks
      rw [port]
      exact stage.published plays.careful fair low never first released held (by omega) (by omega)
  refine ⟨Nat.find exists_one, (Nat.find_spec exists_one).1, (Nat.find_spec exists_one).2.1,
    (Nat.find_spec exists_one).2.2, ?_⟩
  intro i lower upper ticks correct
  exact Nat.find_min exists_one upper ⟨lower, ticks, correct⟩

/-- The iterations that have read the level before an event are the first
ones. -/
theorem Fair.exists_reads (fair : trace.Fair) (n : Nat) :
    ∃ a, ∀ t, t < a ↔ trace.levelAt t < n := by
  classical
  have exists_one : ∃ t, n ≤ trace.levelAt t := by
    refine ⟨trace.iterations n + 1, ?_⟩
    have written := fair.written (trace.iterations n + 1)
    have between := written.between.1
    by_contra early
    rw [levelAt] at early
    have counted := @iterations_mono trace (trace.entry (trace.iterations n + 1)).keyAt n (by omega)
    rw [written.number] at counted
    omega
  refine ⟨Nat.find exists_one, fun t => ⟨fun less => ?_, fun early => ?_⟩⟩
  · exact Nat.lt_of_not_le (Nat.find_min exists_one less)
  · by_contra late
    have first := Nat.find_spec exists_one
    rcases Nat.lt_or_eq_of_le (Nat.le_of_not_lt late) with less | same
    · have later := fair.levelAt_strictMono less
      omega
    · rw [same] at first
      omega

/-- It raises the level by one, and the next stage begins. -/
theorem Stage.next (stage : trace.Stage C n a) (plays : trace.Plays) (fair : trace.Fair)
    (low : C ≤ 5) : ∃ n' a', n < n' ∧ trace.Stage (C + 1) n' a' := by
  obtain ⟨m, after, ticks, correct, quiet⟩ := stage.exists_correct plays fair low
  obtain ⟨a', reads⟩ := fair.exists_reads (m + 1)
  have finished : a < trace.iterations m := by
    rcases stage.sampled plays.careful fair ticks after with ⟨-, -, silent⟩ | ⟨p, upto, -, count, -⟩
    · rw [silent] at correct
      exact absurd correct (by decide)
    · omega
  have later : a < a' := (reads a).mpr (Nat.lt_succ_of_lt (fair.levelAt_lt finished))
  have last : trace.levelAt (a' - 1) < m := by
    have upto := (reads (a' - 1)).mp (by omega)
    rcases Nat.lt_succ_iff_lt_or_eq.mp upto with less | same
    · exact less
    · obtain ⟨input, event⟩ := (fair.written (a' - 1)).loads.1
      rw [show (trace.entry (a' - 1)).levelAt = m from same] at event
      exact absurd (event.symm.trans ticks) (by simp)
  refine ⟨m + 1, a', Nat.lt_succ_of_le after, ?_, reads, Or.inr ⟨Nat.succ_pos C, ?_, ?_, ?_, ?_⟩⟩
  · have stands := stage.stands_of_quiet plays.careful fair low quiet after (Nat.le_refl m)
    have raised := stands.correct (not_mixes stands low)
    rw [fsm_tick ticks, correct]
    rw [show Game.step C 0b11#2 = C + 1 by simp only [Game.step, if_true]; omega] at raised
    exact raised
  · have written := fair.written a
    have before := written.lt_iff.mp finished
    exact ⟨m, rfl, ticks, _, Nat.lt_trans written.before before, written.starts⟩
  · omega
  · rw [Nat.add_sub_cancel]
    exact stage.level_of_quiet plays.careful fair low quiet (by omega) last
  · have count := (stage.redrawCount_of_quiet plays.careful fair low quiet
      (show a ≤ a' - 1 by omega) last).1
    rwa [show a' - 1 + 1 = a' by omega] at count

/-- The last stage begins after six raises. -/
theorem exists_stage (plays : trace.Plays) (fair : trace.Fair) (upper : C ≤ 6) :
    ∃ n a, trace.Stage C n a := by
  induction C with
  | zero =>
      refine ⟨0, 0, .zero, fun t => ?_, Or.inl ⟨rfl, rfl, rfl⟩⟩
      simp
  | succ C ih =>
      obtain ⟨n, a, stage⟩ := ih (Nat.le_of_succ_le upper)
      obtain ⟨n', a', -, next⟩ := stage.next plays fair (Nat.le_of_lt_succ upper)
      exact ⟨n', a', next⟩

/-- Under every fair schedule, and whatever questions come up, whoever plays well
reaches level six and sees that the game is won, well before the next tick. -/
theorem Plays.wins (plays : trace.Plays) (fair : trace.Fair) :
    ∃ n, trace.shown n = 6 ∧ (Screen.title "You win!!!").On (trace.sw n).charBuf ∧
      ¬ trace.Ticks n := by
  obtain ⟨n, a, stage⟩ := exists_stage plays fair (Nat.le_refl 6)
  rcases stage.opens with ⟨six, -⟩ | ⟨-, ⟨m, rfl, ticked, started⟩, positive, old, -⟩
  · exact absurd six (by decide)
  · obtain ⟨next, lower, ticks, none, -⟩ := fair.next ticked started
    have two := stage.two fair (by decide) ticks lower
    have written := fair.written a
    have finished := written.lt_iff.mp (show a < trace.iterations next by omega)
    have still : ∀ k, m < k → k ≤ next → trace.shown k = 6 := by
      intro k after upto
      rw [shown_const (fun i lower upper changes => none i lower upper changes.1) after upto]
      exact stage.stands.oCount_eq
    have read : m < trace.levelAt a := by
      by_contra early
      exact Nat.lt_irrefl a ((stage.reads a).mpr (Nat.lt_succ_of_le (Nat.le_of_not_lt early)))
    have between : trace.levelAt a < (trace.entry a).writtenAt := written.between.2
    have level : (trace.session.level a).toNat = 6 := by
      rw [show trace.session.level a = _ from written.level.symm]
      exact still (trace.levelAt a) read (by omega)
    have redrawn : Redrawn trace.session.level a := by
      refine Or.inl ⟨Nat.ne_of_gt positive, fun same => ?_⟩
      rw [same, old] at level
      exact absurd level (by decide)
    refine ⟨(trace.entry a).writtenAt + 1, still _ (by omega) finished, ?_, fun early => ?_⟩
    · have shown := Sw.on_iteration_of_redraws ((trace.session.redraws_iff a).mpr redrawn)
        (trace.session.rearranges_after a) (trace.session.recorded_after a)
      rw [show (trace.session.readings a).level.toNat = 6 from level] at shown
      rw [written.finishes.sw_succ, written.counted.1]
      exact shown
    · rcases Nat.lt_or_eq_of_le (Nat.succ_le_of_lt finished) with less | same
      · exact none _ (by omega) less early
      · have counted := written.counted.2
        rw [Nat.succ_eq_add_one] at same
        rw [same] at counted
        omega

/-! ## The perfect player plays well -/

section Perfect

variable (perfect : trace.Perfect) (fair : trace.Fair)

include perfect fair

/-- The perfect player releases the keys in the iteration after the draw. -/
theorem Perfect.released (redrawn : Redrawn trace.session.level t) :
    trace.session.key (t + 1) = 0 := by
  obtain ⟨within, count⟩ := fair.unbounded (t + 1)
  have redraws := (trace.session.redrawsAt_iff t).mpr redrawn
  have blocked : (trace.session.after (t + 1)).ready = 0 := by
    rw [← control_ready, Session.control_after_succ]
    exact (Control.iteration_of_redraws _ _ _ redraws).1
  rw [perfect.key count, perfectKey, if_neg (by rw [blocked]; decide)]

/-- A key is down exactly while the program waits for it. -/
theorem Perfect.pressed_iff (positive : t ≠ 0) :
    trace.session.key t ≠ 0 ↔ ∃ r, WaitsSince trace.session.key trace.session.level r t := by
  obtain ⟨within, count⟩ := fair.unbounded t
  rw [perfect.key count, perfectKey, ← control_ready]
  cases trace.session.after_waiting t with
  | fresh first => exact absurd first positive
  | blocked blocked none =>
      rw [if_neg (by rw [blocked]; decide)]
      exact iff_of_false (fun pressed => pressed rfl) (not_exists.mpr none)
  | ready r since ready =>
      rw [if_pos ready]
      exact iff_of_true (correctKey_ne_zero _) ⟨r, since⟩

/-- Two iterations after a release the perfect player has a key down, unless a new
screen is drawn. -/
theorem Perfect.waits (undrawn : ∀ i, t < i → ¬ Redrawn trace.session.level i) {v : Nat}
    (late : t + 2 ≤ v) : ∃ r, WaitsSince trace.session.key trace.session.level r v := by
  induction v, late using Nat.le_induction with
  | base =>
      by_cases zero : trace.session.key (t + 1) = 0
      · exact ⟨t + 1, waitsSince_self zero (undrawn (t + 1) (Nat.lt_succ_self t))⟩
      · obtain ⟨r, since⟩ := (perfect.pressed_iff fair (Nat.succ_ne_zero t)).mp zero
        exact ⟨r, since.succ zero (undrawn (t + 1) (Nat.lt_succ_self t))⟩
  | succ v late ih =>
      have pressed := (perfect.pressed_iff fair (by omega)).mpr ih
      obtain ⟨r, since⟩ := ih
      exact ⟨r, since.succ pressed (undrawn v (by omega))⟩

theorem Perfect.plays : trace.Plays where
  careful := perfect.careful
  releases := fun t redrawn _ => ⟨t + 1, Nat.lt_succ_self t, perfect.released fair redrawn⟩
  presses := fun t _ _ undrawn => ⟨t + 2, fun _ late =>
    (perfect.pressed_iff fair (by omega)).mpr (perfect.waits fair undrawn late)⟩

end Perfect

end Trace

end FpgaTrivia.System
