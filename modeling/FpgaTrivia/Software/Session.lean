import FpgaTrivia.Software.Iteration
import Mathlib.Data.Nat.Count

/-!
# Sessions

A session is a power-up state with the readings of every iteration.  Two
things that an iteration does are decided by the readings alone: whether it
redraws, which depends on the levels, and whether it judges an answer, which
depends on when all keys were released last.
-/

namespace FpgaTrivia.Software

open FpgaTrivia.Arith
open FpgaTrivia.Transition

/-! ## The levels read -/

/-- The level read by iteration `t` differs from the one read before. -/
def Changed (levels : Nat → BitVec 4) (t : Nat) : Prop :=
  t ≠ 0 ∧ levels t ≠ levels (t - 1)

instance (levels : Nat → BitVec 4) : DecidablePred (Changed levels) := fun t =>
  inferInstanceAs (Decidable (t ≠ 0 ∧ levels t ≠ levels (t - 1)))

/-- How often the first `t` iterations redraw: on every change of the level,
and whenever the 8-bit counter of the redraws stands at zero. -/
def redrawCount (levels : Nat → BitVec 4) : Nat → Nat
  | 0 => 0
  | t + 1 =>
      if Changed levels t ∨ redrawCount levels t % 256 = 0 then redrawCount levels t + 1
      else redrawCount levels t

/-- Iteration `t` redraws. -/
def Redrawn (levels : Nat → BitVec 4) (t : Nat) : Prop :=
  Changed levels t ∨ redrawCount levels t % 256 = 0

instance (levels : Nat → BitVec 4) : DecidablePred (Redrawn levels) := fun t =>
  inferInstanceAs (Decidable (Changed levels t ∨ redrawCount levels t % 256 = 0))

section Levels

variable {levels : Nat → BitVec 4} {s t : Nat}

theorem redrawCount_of_redrawn (redrawn : Redrawn levels t) :
    redrawCount levels (t + 1) = redrawCount levels t + 1 :=
  if_pos redrawn

theorem redrawCount_of_not_redrawn (quiet : ¬ Redrawn levels t) :
    redrawCount levels (t + 1) = redrawCount levels t :=
  if_neg quiet

/-- The first iteration always redraws. -/
theorem redrawn_zero (levels : Nat → BitVec 4) : Redrawn levels 0 :=
  Or.inr rfl

/-- As long as every redraw after the first one answers a change of the level,
the redraws count the changes. -/
theorem redrawCount_of_changed (honest : ∀ i, 0 < i → i < t → Redrawn levels i → Changed levels i)
    (positive : 0 < t) : redrawCount levels t = 1 + Nat.count (Changed levels) t := by
  induction t, positive using Nat.le_induction with
  | base =>
      have first : Nat.count (Changed levels) 1 = 0 := by
        simp [Nat.count_succ, Changed]
      rw [redrawCount_of_redrawn (redrawn_zero levels), show Nat.succ 0 = 1 from rfl, first]
      rfl
  | succ t positive ih =>
      have before := ih fun i lower upper => honest i lower (Nat.lt_succ_of_lt upper)
      rw [Nat.count_succ]
      by_cases changed : Changed levels t
      · rw [redrawCount_of_redrawn (Or.inl changed), before, if_pos changed]
        rfl
      · have quiet : ¬ Redrawn levels t :=
          fun redrawn => changed (honest t positive (Nat.lt_succ_self t) redrawn)
        rw [redrawCount_of_not_redrawn quiet, before, if_neg changed]
        rfl

/-- With a change of the level in every iteration the redraws count the
iterations. -/
theorem redrawCount_of_all_changed
    (changing : ∀ i, 0 < i → i < t → Changed levels i) : redrawCount levels t = t := by
  induction t with
  | zero => rfl
  | succ t ih =>
      have before := ih fun i lower upper => changing i lower (Nat.lt_succ_of_lt upper)
      have redrawn : Redrawn levels t := by
        rcases Nat.eq_zero_or_pos t with rfl | positive
        · exact redrawn_zero levels
        · exact Or.inl (changing t positive (Nat.lt_succ_self t))
      rw [redrawCount_of_redrawn redrawn, before]

/-- While the level stays the same the first iteration is the only one to
redraw. -/
theorem redrawn_iff_of_const (const : ∀ i, levels i = levels 0)
    (t : Nat) : Redrawn levels t ↔ t = 0 := by
  have unchanged : ∀ i, ¬ Changed levels i :=
    fun i changed => changed.2 ((const i).trans (const (i - 1)).symm)
  have once : ∀ i, redrawCount levels (i + 1) = 1 := by
    intro i
    induction i with
    | zero => exact redrawCount_of_redrawn (redrawn_zero levels)
    | succ i ih =>
        rw [redrawCount_of_not_redrawn, ih]
        rintro (changed | wrapped)
        · exact unchanged _ changed
        · rw [ih] at wrapped
          exact absurd wrapped (by decide)
  constructor
  · rintro (changed | wrapped)
    · exact absurd changed (unchanged t)
    · cases t with
      | zero => rfl
      | succ t =>
          rw [once] at wrapped
          exact absurd wrapped (by decide)
  · rintro rfl
    exact redrawn_zero levels

/-- While nothing is redrawn the level stays the one of the start. -/
theorem levels_const (quiet : ∀ i, s ≤ i → i < t → ¬ Redrawn levels i) {i : Nat}
    (lower : s ≤ i) (upper : i < t) : levels i = levels s := by
  induction i, lower using Nat.le_induction with
  | base => rfl
  | succ i lower ih =>
      have same : ¬ Changed levels (i + 1) :=
        fun changed => quiet (i + 1) (Nat.le_succ_of_le lower) upper (Or.inl changed)
      have unchanged : levels (i + 1) = levels i := by
        by_contra different
        exact same ⟨Nat.succ_ne_zero i, different⟩
      rw [unchanged, ih (Nat.lt_of_succ_lt upper)]

end Levels

/-! ## The keys read -/

/-- Iteration `r` is the last one before `t` to find all keys released, and
nothing has been redrawn since. -/
structure WaitsSince (keys levels : Nat → BitVec 4) (r t : Nat) : Prop where
  before : r < t
  released : keys r = 0
  held : ∀ i, r < i → i < t → keys i ≠ 0
  quiet : ∀ i, r ≤ i → i < t → ¬ Redrawn levels i

/-- Iteration `t` ends a hold long enough: at a question level, with a key
down ever since the keys were last released, and 30000 counted iterations
later.  The count is a 32-bit word. -/
def Confirms (keys levels : Nat → BitVec 4) (t : Nat) : Prop :=
  ∃ r, WaitsSince keys levels r t ∧ keys t ≠ 0 ∧ Asks (levels r) ∧ Asks (levels t) ∧
    30000 ≤ wrap 32 ((t : Int) - r)

section Keys

variable {keys levels : Nat → BitVec 4} {r r' t : Nat}

theorem WaitsSince.unique (waits : WaitsSince keys levels r t)
    (waits' : WaitsSince keys levels r' t) : r = r' := by
  rcases Nat.lt_trichotomy r r' with less | same | less
  · exact absurd waits'.released (waits.held r' less waits'.before)
  · exact same
  · exact absurd waits.released (waits'.held r less waits.before)

theorem WaitsSince.succ (waits : WaitsSince keys levels r t) (pressed : keys t ≠ 0)
    (still : ¬ Redrawn levels t) : WaitsSince keys levels r (t + 1) where
  before := Nat.lt_succ_of_lt waits.before
  released := waits.released
  held := by
    intro i lower upper
    rcases Nat.lt_succ_iff_lt_or_eq.mp upper with less | rfl
    · exact waits.held i lower less
    · exact pressed
  quiet := by
    intro i lower upper
    rcases Nat.lt_succ_iff_lt_or_eq.mp upper with less | rfl
    · exact waits.quiet i lower less
    · exact still

theorem waitsSince_self (released : keys t = 0) (still : ¬ Redrawn levels t) :
    WaitsSince keys levels t (t + 1) where
  before := Nat.lt_succ_self t
  released := released
  held := by
    intro i lower upper
    omega
  quiet := by
    intro i lower upper
    rw [show i = t by omega]
    exact still

/-- While a key is down the start of the wait does not move. -/
theorem WaitsSince.of_succ (waits : WaitsSince keys levels r (t + 1)) (pressed : keys t ≠ 0) :
    WaitsSince keys levels r t where
  before := by
    rcases Nat.lt_succ_iff_lt_or_eq.mp waits.before with less | rfl
    · exact less
    · exact absurd waits.released pressed
  released := waits.released
  held := fun i lower upper => waits.held i lower (Nat.lt_succ_of_lt upper)
  quiet := fun i lower upper => waits.quiet i lower (Nat.lt_succ_of_lt upper)

/-- At an unchanged question level, keys held since iteration 1 are judged
30000 iterations later. -/
theorem confirms_of_held (const : ∀ i, levels i = levels 0) (asks : Asks (levels 0))
    (released : keys 1 = 0) (held : ∀ i, 1 < i → keys i ≠ 0) : Confirms keys levels 30001 := by
  refine ⟨1, ⟨by decide, released, fun i lower _ => held i lower, ?_⟩, held 30001 (by decide),
    const 1 ▸ asks, const 30001 ▸ asks, by decide⟩
  intro i lower _ redrawn
  rw [redrawn_iff_of_const const] at redrawn
  omega

/-- A confirmed hold is as long as the delay. -/
theorem Confirms.pressed (confirms : Confirms keys levels t) :
    30000 ≤ t ∧ ∀ i ≤ t, t < i + 30000 → keys i ≠ 0 := by
  obtain ⟨r, since, pressed, -, -, passed⟩ := confirms
  have before := since.before
  have long : r + 30000 ≤ t := by
    by_contra short
    rw [wrap_eq_self (by omega) (by omega)] at passed
    omega
  refine ⟨by omega, ?_⟩
  intro i upper recent
  rcases Nat.lt_or_eq_of_le upper with less | rfl
  · exact since.held i (by omega) less
  · exact pressed

end Keys

/-! ## The state that the readings lead to -/

/-- The contents of the memory at power-up and the readings of all
iterations. -/
structure Session where
  junk : Sw
  readings : Nat → Reading

namespace Session

variable (session : Session)

def key (t : Nat) : BitVec 4 :=
  (session.readings t).input.key

def level (t : Nat) : BitVec 4 :=
  (session.readings t).level

/-- The program after the first `t` iterations. -/
def after (t : Nat) : Sw :=
  Transition.run (fun s reading => s.iteration reading) (.boot session.junk) session.readings t

/-- The outcome of the comparison in iteration `t`, should it be made. -/
def verdict (t : Nat) : Bool :=
  ((session.after t).entered (session.readings t)).verdict (session.readings t).input.wild

/-- Iteration `t` enters the redraw block. -/
def Redraws (t : Nat) : Prop :=
  ((session.after t).decided (session.readings t)).Redraws

/-- Iteration `t` evaluates `answers[key2index(key)]`. -/
def Judges (t : Nat) : Prop :=
  ((session.after t).entered (session.readings t)).Judges

variable {session}

theorem control_after_succ (session : Session) (t : Nat) :
    (session.after (t + 1)).control =
      (session.after t).control.iteration (session.key t) (session.level t) (session.verdict t) :=
  Sw.control_iteration (session.readings t) (session.after t)

/-- The test of the redraw block, once its two variables are known. -/
theorem redrawsAt_iff_of {c : Control} {levels : Nat → BitVec 4} {t : Nat}
    (cnt : c.cnt = redrawCount levels t % 256)
    (oldLevel : t ≠ 0 → c.oldLevel = (levels (t - 1)).toNat) :
    c.RedrawsAt (levels t) ↔ Redrawn levels t := by
  unfold Control.RedrawsAt Redrawn Changed
  rw [cnt]
  by_cases zero : t = 0
  · simp [zero, redrawCount]
  · rw [oldLevel zero]
    simp [zero, BitVec.toNat_inj]

/-- The counter of the redraws and the old level follow from the levels. -/
theorem after_drawn (session : Session) (t : Nat) :
    (session.after t).control.cnt = redrawCount session.level t % 256 ∧
      (t ≠ 0 → (session.after t).control.oldLevel = (session.level (t - 1)).toNat) := by
  induction t with
  | zero => exact ⟨rfl, fun zero => absurd rfl zero⟩
  | succ t ih =>
      obtain ⟨cnt, oldLevel⟩ := ih
      have test := redrawsAt_iff_of cnt oldLevel
      rw [control_after_succ]
      refine ⟨?_, fun _ => Control.iteration_oldLevel _ _ _ _⟩
      classical
      rw [Control.iteration_cnt, cnt]
      by_cases redrawn : Redrawn session.level t
      · rw [redrawCount_of_redrawn redrawn, if_pos (test.mpr redrawn)]
        omega
      · rw [redrawCount_of_not_redrawn redrawn, if_neg (mt test.mp redrawn)]

/-- Whether an iteration redraws depends on the levels only. -/
theorem redrawsAt_iff (session : Session) (t : Nat) :
    (session.after t).control.RedrawsAt (session.level t) ↔ Redrawn session.level t :=
  redrawsAt_iff_of (session.after_drawn t).1 (session.after_drawn t).2

theorem redraws_iff (session : Session) (t : Nat) :
    session.Redraws t ↔ Redrawn session.level t := by
  rw [← redrawsAt_iff]
  exact Sw.decided_redraws (session.readings t) (session.after t)

/-- The question stays until the level changes, exactly as long as no unchanged
level is read while the 8-bit counter of the redraws stands at zero: the first
redraw and one for each change of the level have been counted. -/
theorem redraws_only_on_change_iff (session : Session) (n : Nat) :
    (∀ t, 0 < t → t < n → session.Redraws t → session.level t ≠ session.level (t - 1)) ↔
      ∀ t, 0 < t → t < n → session.level t = session.level (t - 1) →
        (1 + Nat.count (Changed session.level) t) % 256 ≠ 0 := by
  constructor
  · intro honest t positive before same wrapped
    have counted := @redrawCount_of_changed session.level t
      (fun i lower upper redrawn => ⟨Nat.ne_of_gt lower,
        honest i lower (Nat.lt_trans upper before) ((redraws_iff session i).mpr redrawn)⟩) positive
    have redrawn : Redrawn session.level t := Or.inr (counted ▸ wrapped)
    exact honest t positive before ((redraws_iff session t).mpr redrawn) same
  · intro counts t
    induction t using Nat.strong_induction_on with
    | _ t ih =>
        intro positive before redraws same
        have counted := @redrawCount_of_changed session.level t
          (fun i lower upper redrawn => ⟨Nat.ne_of_gt lower,
            ih i upper lower (Nat.lt_trans upper before) ((redraws_iff session i).mpr redrawn)⟩)
          positive
        rcases (redraws_iff session t).mp redraws with changed | wrapped
        · exact changed.2 same
        · exact counts t positive before same (counted ▸ wrapped)

/-- The level alternates between 0 and 1 for 256 iterations and stays 1
then. -/
def flicker : Session where
  junk := .zeroed
  readings t := ⟨⟨0, false, fun _ => .lowest⟩, if t < 256 then BitVec.ofNat 4 (t % 2) else 1⟩

/-- Iteration 256 redraws although it reads the level of iteration 255. -/
theorem flicker_redraws_unchanged :
    ¬ ∀ t, 0 < t → flicker.Redraws t → flicker.level t ≠ flicker.level (t - 1) := by
  intro honest
  have changing : ∀ i, 0 < i → i < 256 → Changed flicker.level i := by
    intro i positive before
    refine ⟨Nat.ne_of_gt positive, ?_⟩
    rcases Nat.mod_two_eq_zero_or_one i with even | odd
    · simp [flicker, level, before, even, show i - 1 < 256 by omega,
        show (i - 1) % 2 = 1 by omega]
    · simp [flicker, level, before, odd, show i - 1 < 256 by omega,
        show (i - 1) % 2 = 0 by omega]
  have wrapped : redrawCount flicker.level 256 % 256 = 0 := by
    rw [redrawCount_of_all_changed changing]
  apply honest 256 (by decide) ((redraws_iff flicker 256).mpr (Or.inr wrapped))
  rfl

/-- What `ready` and the delay counter say about the keys: the program is ready
since the keys were released last, and has counted the iterations since then at
a question level. -/
inductive Waiting (session : Session) (t : Nat) (c : Control) : Prop
  | fresh (first : t = 0) (timeCnt : c.timeCnt = 0)
  | blocked (ready : c.ready = 0) (none : ∀ r, ¬ WaitsSince session.key session.level r t)
  | ready (r : Nat) (since : WaitsSince session.key session.level r t) (ready : c.ready = 1)
      (counted : Asks (session.level r) → c.timeCnt = wrap 32 ((t : Int) - r - 1))
      (uncounted : ¬ Asks (session.level r) → c.timeCnt = 0)

theorem Waiting.step {c : Control} {t : Nat} (waiting : Waiting session t c)
    (test : c.RedrawsAt (session.level t) ↔ Redrawn session.level t) (verdict : Bool) :
    Waiting session (t + 1) (c.iteration (session.key t) (session.level t) verdict) := by
  by_cases redrawn : Redrawn session.level t
  · -- the block clears `ready`, and no wait spans the redraw
    obtain ⟨ready, -⟩ := Control.iteration_of_redraws (session.key t) (session.level t) verdict
      (test.mpr redrawn)
    refine .blocked ready ?_
    intro r since
    exact since.quiet t (Nat.lt_succ_iff.mp since.before) (Nat.lt_succ_self t) redrawn
  · by_cases released : session.key t = 0
    · obtain ⟨ready, timeCnt⟩ := Control.iteration_of_released (session.key t) (session.level t)
        verdict (mt test.mp redrawn) released
      refine .ready t (waitsSince_self released redrawn) ready ?_ fun _ => timeCnt
      intro _
      rw [timeCnt, show ((t + 1 : Nat) : Int) - t - 1 = 0 by omega]
      rfl
    · obtain ⟨ready, timeCnt⟩ := Control.iteration_of_pressed (session.key t) (session.level t)
        verdict (mt test.mp redrawn) released
      cases waiting with
      | fresh first => exact absurd (first ▸ redrawn_zero session.level) redrawn
      | blocked blocked none =>
          refine .blocked (ready.trans blocked) ?_
          intro r since
          exact none r (since.of_succ released)
      | ready r since isReady counted uncounted =>
          have later := since.succ released redrawn
          have same : session.level t = session.level r :=
            levels_const later.quiet (Nat.le_of_lt since.before) (Nat.lt_succ_self t)
          refine .ready r later (ready.trans isReady) ?_ ?_
          · intro asks
            rw [timeCnt, if_pos ⟨isReady, same ▸ asks⟩, counted asks, wrap_add_one]
            congr 1
            push_cast
            ring
          · intro silent
            rw [timeCnt, if_neg (fun both => silent (same ▸ both.2))]
            exact uncounted silent

theorem after_waiting (session : Session) (t : Nat) :
    Waiting session t (session.after t).control := by
  induction t with
  | zero => exact .fresh rfl rfl
  | succ t ih =>
      rw [control_after_succ]
      exact ih.step (session.redrawsAt_iff t) (session.verdict t)

theorem judges_iff (session : Session) (t : Nat) :
    session.Judges t ↔
      session.key t ≠ 0 ∧ (session.after t).ready = 1 ∧ Asks (session.level t) ∧
        30000 ≤ wrap 32 ((session.after t).timeCnt + 1) := by
  have pressed : ((session.after t).entered (session.readings t)).key ≠ 0 ↔ session.key t ≠ 0 :=
    not_congr ⟨fun zero => BitVec.eq_of_toNat_eq zero, fun zero => congrArg BitVec.toNat zero⟩
  unfold Judges Sw.Judges Asks
  rw [pressed]
  exact ⟨fun ⟨_, key, ready, idle, won, passed⟩ => ⟨key, ready, ⟨idle, won⟩, passed⟩,
    fun ⟨key, ready, ⟨idle, won⟩, passed⟩ => ⟨rfl, key, ready, idle, won, passed⟩⟩

/-- An iteration judges an answer exactly when it ends a hold long enough. -/
theorem judges_iff_confirms (session : Session) (t : Nat) :
    session.Judges t ↔ Confirms session.key session.level t := by
  have early : wrap 32 (0 + 1) < 30000 := by decide
  rw [judges_iff]
  have waiting := session.after_waiting t
  constructor
  · rintro ⟨pressed, isReady, asks, passed⟩
    cases waiting with
    | fresh _ timeCnt =>
        rw [show (session.after t).timeCnt = 0 from timeCnt] at passed
        omega
    | blocked blocked => exact absurd (isReady.symm.trans blocked) (by decide)
    | ready r since _ counted uncounted =>
        by_cases asked : Asks (session.level r)
        · refine ⟨r, since, pressed, asked, asks, ?_⟩
          rw [show (session.after t).timeCnt = _ from counted asked, wrap_add_one,
            Int.sub_add_cancel] at passed
          exact passed
        · rw [show (session.after t).timeCnt = 0 from uncounted asked] at passed
          omega
  · rintro ⟨r, since, pressed, asked, asks, passed⟩
    cases waiting with
    | fresh first => exact absurd since.before (by omega)
    | blocked _ none => exact absurd since (none r)
    | ready r' since' ready counted =>
        obtain rfl := since.unique since'
        refine ⟨pressed, ready, asks, ?_⟩
        rw [show (session.after t).timeCnt = _ from counted asked, wrap_add_one,
          Int.sub_add_cancel]
        exact passed

/-- The answers are indexed in range, exactly as long as no hold is confirmed
with several keys down. -/
theorem judges_inRange_iff (session : Session) (n : Nat) :
    (∀ t < n, session.Judges t →
        0 ≤ key2index (session.key t).toNat ∧ key2index (session.key t).toNat ≤ 3) ↔
      ∀ t < n, Confirms session.key session.level t →
        ∃ slot, (session.key t).toNat = keyOf slot := by
  constructor
  · intro inRange t before confirms
    apply (key2index_inRange_iff _).mp
    exact inRange t before ((judges_iff_confirms session t).mpr confirms)
  · intro single t before judges
    apply (key2index_inRange_iff _).mpr
    exact single t before ((judges_iff_confirms session t).mp judges)

/-- At level 1, two keys are held after the keys have been released once. -/
def chord : Session where
  junk := .zeroed
  readings t := ⟨⟨if t < 2 then 0 else 0b0011, false, fun _ => .lowest⟩, 1⟩

/-- After 30000 iterations the answers are indexed with -1. -/
theorem chord_judges_outOfRange :
    ¬ ∀ t, chord.Judges t →
      0 ≤ key2index (chord.key t).toNat ∧ key2index (chord.key t).toNat ≤ 3 := by
  intro inRange
  have pressed : ∀ t, 1 < t → chord.key t = 0b0011 := by
    intro t late
    exact if_neg (by omega)
  have confirms : Confirms chord.key chord.level 30001 := by
    apply confirms_of_held (fun _ => rfl) (by decide) rfl
    intro i late
    rw [pressed i late]
    decide
  have bad := inRange 30001 ((judges_iff_confirms chord 30001).mpr confirms)
  rw [pressed 30001 (by decide)] at bad
  exact absurd bad (by decide)

/-- Some key is down in the iteration of a verdict and in the 29999 before it. -/
theorem judges_pressed (session : Session) {t : Nat} (judges : session.Judges t) :
    30000 ≤ t ∧ ∀ i ≤ t, t < i + 30000 → session.key i ≠ 0 :=
  ((judges_iff_confirms session t).mp judges).pressed

/-- At level 1, the first key is exchanged for the second one in the middle of
the delay. -/
def slide : Session where
  junk := .zeroed
  readings t := ⟨⟨if t < 2 then 0 else if t < 20000 then 0b0001 else 0b0010, false,
    fun _ => .lowest⟩, 1⟩

theorem slide_key_ne_zero {i : Nat} (late : 1 < i) : slide.key i ≠ 0 := by
  have key : slide.key i = if i < 20000 then 0b0001 else 0b0010 := if_neg (by omega)
  rw [key]
  split <;> decide

theorem slide_judges : slide.Judges 30001 := by
  apply (judges_iff_confirms slide 30001).mpr
  exact confirms_of_held (fun _ => rfl) (by decide) rfl fun _ late => slide_key_ne_zero late

/-- The second key is judged although the first one has been down for most of
the delay. -/
theorem slide_judges_other_key :
    ¬ ∀ t, slide.Judges t → ∀ i ≤ t, t < i + 30000 → slide.key i = slide.key t := by
  intro same
  exact absurd (same 30001 slide_judges 10000 (by decide) (by decide)) (by decide)

/-- Some key has been down all the time. -/
theorem slide_pressed : slide.Judges 30001 ∧
    (30000 ≤ 30001 ∧ ∀ i ≤ 30001, 30001 < i + 30000 → slide.key i ≠ 0) :=
  ⟨slide_judges, judges_pressed slide slide_judges⟩

end Session

end FpgaTrivia.Software
