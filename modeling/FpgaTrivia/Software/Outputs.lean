import FpgaTrivia.Software.Session
import FpgaTrivia.Software.Verdict
import FpgaTrivia.Transition.Register

/-!
# What the ports show

The answer port is written in every iteration, the two letters only while a
key is counted.  Both are determined by the history of the readings: the
answer by the last release of the keys, the letters by the last counted key and
the last verdict.
-/

namespace FpgaTrivia.Software

open FpgaTrivia.Arith
open FpgaTrivia.Hardware
open FpgaTrivia.Transition

/-- Iteration `t` finds the program ready: it is the first one, it finds the
keys released itself, or nothing has been redrawn since they were. -/
def Ready (keys levels : Nat → BitVec 4) (t : Nat) : Prop :=
  t = 0 ∨ keys t = 0 ∨ ∃ r, WaitsSince keys levels r t

/-- Iteration `t` counts a key. -/
def Counted (keys levels : Nat → BitVec 4) (t : Nat) : Prop :=
  Ready keys levels t ∧ keys t ≠ 0 ∧ Asks (levels t)

namespace Control

/-- The judging step has found the program ready. -/
theorem judge_answer (verdict : Bool) (c : Control) :
    (c.judge verdict).answer =
      if c.release.ready = 1 then
        if c.level = 0 then if c.key ≠ 0 then 0b11#2 else 0b00#2
        else if c.level = 6 then 0b10#2
        else if c.key ≠ 0 ∧ 30000 ≤ wrap 32 (c.timeCnt + 1) then
          if verdict = true then 0b11#2 else 0b10#2
        else 0b00#2
      else 0b00#2 := by
  have spec := judge_spec verdict c
  generalize c.judge verdict = judged at spec ⊢
  cases spec with
  | silent idle =>
      rcases idle with blocked | ⟨notWon, released⟩
      · rw [if_neg blocked]
      · simp [notWon, released]
  | start ready level pressed => simp [release_of_pressed pressed, ready, level, pressed]
  | leave ready level => simp [ready, level]
  | delay ready asked pressed early =>
      simp [release_of_pressed pressed, ready, asked, Int.not_le.mpr early]
  | right ready asked pressed passed correct =>
      simp [release_of_pressed pressed, ready, asked, pressed, passed, correct]
  | wrong ready asked pressed passed incorrect =>
      simp [release_of_pressed pressed, ready, asked, pressed, passed, incorrect]

end Control

theorem getSSEG1value_lt (q : Question) (key : Nat) : getSSEG1value q key < 256 := by
  unfold getSSEG1value
  repeat' split
  all_goals decide

/-- The two letters do not overlap. -/
theorem bytes_of_letters {sseg : Nat} {q : Question} {key letter : Nat}
    (shown : sseg = getSSEG1value q key + 256 * letter) :
    sseg % 256 = getSSEG1value q key ∧ sseg / 256 = letter := by
  have lower := getSSEG1value_lt q key
  omega

/-- The letter of the correct slot occupies the upper byte only. -/
theorem getSSEG2value_bytes (q : Question) (answers : Fin 4 → String) :
    getSSEG2value q answers = 256 * (getSSEG2value q answers / 256) ∧
      getSSEG2value q answers / 256 < 256 := by
  unfold getSSEG2value
  repeat' split
  all_goals decide

namespace Sw

/-! ## The letters, step by step -/

variable {s : Sw} {wild : Bool} {reading : Reading}

/-- The judging step counts a key. -/
def Counts (s : Sw) : Prop :=
  s.key ≠ 0 ∧ s.ready = 1 ∧ s.level ≠ 0 ∧ s.level ≠ 6

theorem judge_of_not_counts (quiet : ¬ s.Counts) :
    (s.judge wild).pc = .redraw ∧ (s.judge wild).pioSseg = s.pioSseg ∧
      (s.judge wild).ssegValue2 = s.ssegValue2 := by
  unfold Counts at quiet
  unfold judge respond noAnswer release highlight
  by_cases released : s.key = 0
  · by_cases asks : s.level ≠ 0 ∧ s.level ≠ 6
    · simp [asks, released]
    · by_cases idle : s.level = 0
      · simp [idle, released]
      · have won : s.level = 6 := by omega
        simp [won, released]
  · by_cases ready : s.ready = 1
    · by_cases idle : s.level = 0
      · simp [idle, released, ready]
      · have won : s.level = 6 := by
          by_contra other
          exact quiet ⟨released, ready, idle, other⟩
        simp [won, released, ready]
    · by_cases asks : s.level ≠ 0 ∧ s.level ≠ 6
      · simp [asks, released, ready]
      · simp [asks, released, ready]

/-- Without counting a key nothing is drawn but the highlight at the start. -/
theorem judge_charBuf_of_not_counts (quiet : ¬ s.Counts) :
    (s.judge wild).charBuf = s.highlight.charBuf := by
  unfold Counts at quiet
  unfold judge respond noAnswer release highlight
  by_cases asks : s.level ≠ 0 ∧ s.level ≠ 6
  · by_cases released : s.key = 0
    · simp [asks, released]
    · have blocked : s.ready ≠ 1 := fun ready => quiet ⟨released, ready, asks⟩
      simp [asks, released, blocked]
  · by_cases idle : s.level = 0
    · by_cases released : s.key = 0
      · simp [idle, released]
      · by_cases ready : s.ready = 1 <;> simp [idle, released, ready]
    · have won : s.level = 6 := by omega
      by_cases released : s.key = 0
      · simp [won, released]
      · by_cases ready : s.ready = 1 <;> simp [won, released, ready]

/-- Before the verdict the lower letter changes only. -/
theorem judge_of_counts (counts : s.Counts) (early : wrap 32 (s.timeCnt + 1) < 30000) :
    (s.judge wild).pc = .redraw ∧
      (s.judge wild).pioSseg = BitVec.ofNat 16 (getSSEG1value s.q s.key + s.ssegValue2) ∧
      (s.judge wild).ssegValue2 = s.ssegValue2 := by
  obtain ⟨pressed, ready, idle, won⟩ := counts
  have late : ¬ 30000 ≤ wrap 32 (s.timeCnt + 1) := Int.not_le.mpr early
  unfold judge respond noAnswer release highlight
  simp [pressed, ready, idle, won, confirm, press, late, writeSseg]

/-- A verdict sets the upper letter. -/
theorem settle_of_judges (judges : s.Judges) :
    (s.judge wild).settle.pioSseg =
        BitVec.ofNat 16 (getSSEG1value s.q s.key + getSSEG2value s.q s.answers) ∧
      (s.judge wild).settle.ssegValue2 = getSSEG2value s.q s.answers := by
  rw [judge_of_judges judges]
  split
  · rw [settle, if_neg (by simp [right])]
    exact ⟨rfl, rfl⟩
  · rw [settle, if_pos (by simp [publishWrong])]
    exact ⟨rfl, rfl⟩

theorem drawQuestion_ssegValue2 (s : Sw) (rand : Nat → Rand) :
    (s.drawQuestion rand).ssegValue2 = s.ssegValue2 := by
  unfold drawQuestion
  split
  · split <;> rfl
  · rfl

theorem showScreen_ssegValue2 (s : Sw) (rand : Nat → Rand) :
    (s.showScreen rand).ssegValue2 = s.ssegValue2 := by
  unfold showScreen
  split
  · rfl
  · split <;> rfl

theorem redraw_ssegValue2 (s : Sw) (rand : Nat → Rand) :
    (s.redraw rand).ssegValue2 = s.ssegValue2 := by
  rw [redraw]
  split
  · exact (showScreen_ssegValue2 _ _).trans (drawQuestion_ssegValue2 s rand)
  · rfl

theorem writeAnswer_pioSseg (s : Sw) : s.writeAnswer.pioSseg = s.pioSseg :=
  rfl

theorem writeAnswer_ssegValue2 (s : Sw) : s.writeAnswer.ssegValue2 = s.ssegValue2 :=
  rfl

theorem iteration_pioSseg (reading : Reading) (s : Sw) :
    (s.iteration reading).pioSseg = (s.decided reading).pioSseg := by
  rw [iteration, writeAnswer_pioSseg, redraw_pioSseg]

theorem iteration_ssegValue2 (reading : Reading) (s : Sw) :
    (s.iteration reading).ssegValue2 = (s.decided reading).ssegValue2 := by
  rw [iteration, writeAnswer_ssegValue2, redraw_ssegValue2]

theorem decided_of_redraw (next : ((s.entered reading).judge reading.input.wild).pc = .redraw) :
    s.decided reading = (s.entered reading).judge reading.input.wild :=
  if_neg (by simp [next])

/-- The upper letter changes in a verdict only. -/
theorem iteration_upper (reading : Reading) (s : Sw) :
    ((s.entered reading).Judges → (s.iteration reading).ssegValue2 = getSSEG2value s.q s.answers) ∧
      (¬ (s.entered reading).Judges → (s.iteration reading).ssegValue2 = s.ssegValue2) := by
  rw [iteration_ssegValue2]
  constructor
  · intro judges
    exact (settle_of_judges judges).2
  · intro unjudged
    by_cases counts : (s.entered reading).Counts
    · have early : wrap 32 ((s.entered reading).timeCnt + 1) < 30000 := by
        by_contra passed
        exact unjudged ⟨rfl, counts.1, counts.2.1, counts.2.2.1, counts.2.2.2,
          Int.not_lt.mp passed⟩
      obtain ⟨next, -, upper⟩ := @judge_of_counts _ reading.input.wild counts early
      rw [decided_of_redraw next]
      exact upper
    · obtain ⟨next, -, upper⟩ := @judge_of_not_counts _ reading.input.wild counts
      rw [decided_of_redraw next]
      exact upper

/-- The display is written when a key is counted, with the upper letter as the
iteration leaves it. -/
theorem iteration_display (reading : Reading) (s : Sw) :
    ((s.entered reading).Counts → (s.iteration reading).pioSseg =
        BitVec.ofNat 16
          (getSSEG1value s.q reading.input.key.toNat + (s.iteration reading).ssegValue2)) ∧
      (¬ (s.entered reading).Counts → (s.iteration reading).pioSseg = s.pioSseg) := by
  rw [iteration_pioSseg, iteration_ssegValue2]
  constructor
  · intro counts
    by_cases passed : 30000 ≤ wrap 32 ((s.entered reading).timeCnt + 1)
    · have judges : (s.entered reading).Judges :=
        ⟨rfl, counts.1, counts.2.1, counts.2.2.1, counts.2.2.2, passed⟩
      obtain ⟨display, upper⟩ := @settle_of_judges _ reading.input.wild judges
      rw [decided, display, upper]
      rfl
    · obtain ⟨next, display, upper⟩ :=
        @judge_of_counts _ reading.input.wild counts (Int.not_le.mp passed)
      rw [decided_of_redraw next, display, upper]
      rfl
  · intro counts
    obtain ⟨next, display, -⟩ := @judge_of_not_counts _ reading.input.wild counts
    rw [decided_of_redraw next]
    exact display

end Sw

namespace Session

/-! ## The answer port -/

/-- The program is ready in an iteration exactly when its history says so. -/
theorem ready_iff (session : Session) (t : Nat) :
    ((session.after t).control.entered (session.key t) (session.level t)).release.ready = 1 ↔
      Ready session.key session.level t := by
  by_cases released : session.key t = 0
  · have zero : ((session.after t).control.entered (session.key t) (session.level t)).key = 0 :=
      congrArg BitVec.toNat released
    rw [Control.release_of_released zero]
    exact iff_of_true rfl (Or.inr (Or.inl released))
  · have nonzero : ((session.after t).control.entered (session.key t) (session.level t)).key ≠ 0 :=
      fun zero => released (BitVec.eq_of_toNat_eq zero)
    rw [Control.release_of_pressed nonzero]
    change (session.after t).control.ready = 1 ↔ _
    cases session.after_waiting t with
    | fresh first =>
        subst first
        exact iff_of_true rfl (Or.inl rfl)
    | blocked blocked none =>
        apply iff_of_false (by simp [blocked])
        rintro (first | zero | ⟨r, since⟩)
        · subst first
          exact absurd (show 1 = 0 from blocked) (by decide)
        · exact released zero
        · exact none r since
    | ready r since ready => exact iff_of_true ready (Or.inr (Or.inr ⟨r, since⟩))

/-- What iteration `t` publishes, as its history and the comparison have it. -/
noncomputable def published (session : Session) (t : Nat) : BitVec 2 := by
  classical
  exact if (session.level t).toNat = 0 then
      if Ready session.key session.level t ∧ session.key t ≠ 0 then 0b11#2 else 0b00#2
    else if (session.level t).toNat = 6 then
      if Ready session.key session.level t then 0b10#2 else 0b00#2
    else if Confirms session.key session.level t then
      if session.verdict t = true then 0b11#2 else 0b10#2
    else 0b00#2

/-- The outcome of the judging step, once ready. -/
theorem answer_of_asks (session : Session) (t : Nat) (asks : Asks (session.level t)) :
    (((session.after t).control.entered (session.key t) (session.level t)).release.ready = 1 ∧
        (session.key t).toNat ≠ 0 ∧ 30000 ≤ wrap 32 ((session.after t).control.timeCnt + 1)) ↔
      Confirms session.key session.level t := by
  have nonzero : (session.key t).toNat ≠ 0 ↔ session.key t ≠ 0 :=
    not_congr ⟨fun zero => BitVec.eq_of_toNat_eq zero, fun zero => congrArg BitVec.toNat zero⟩
  rw [← session.judges_iff_confirms t, judges_iff, nonzero]
  constructor
  · rintro ⟨ready, pressed, passed⟩
    have entered : ((session.after t).control.entered (session.key t) (session.level t)).key ≠ 0 :=
      nonzero.mpr pressed
    rw [Control.release_of_pressed entered] at ready
    exact ⟨pressed, ready, asks, passed⟩
  · rintro ⟨pressed, ready, -, passed⟩
    have entered : ((session.after t).control.entered (session.key t) (session.level t)).key ≠ 0 :=
      nonzero.mpr pressed
    rw [Control.release_of_pressed entered]
    exact ⟨ready, pressed, passed⟩

/-- The answer port after every iteration. -/
theorem after_port (session : Session) (t : Nat) :
    (session.after (t + 1)).pioOutputAnswer = session.published t := by
  classical
  have ready := session.ready_iff t
  have nonzero : (session.key t).toNat ≠ 0 ↔ session.key t ≠ 0 :=
    not_congr ⟨fun zero => BitVec.eq_of_toNat_eq zero, fun zero => congrArg BitVec.toNat zero⟩
  change (session.after (t + 1)).control.port = _
  rw [control_after_succ, Control.iteration_port, Control.judge_answer, published]
  change (if _ = 1 then
      if (session.level t).toNat = 0 then if (session.key t).toNat ≠ 0 then _ else _
      else if (session.level t).toNat = 6 then _
      else if (session.key t).toNat ≠ 0 ∧
          30000 ≤ wrap 32 ((session.after t).control.timeCnt + 1) then _ else _
    else _) = _
  by_cases idle : (session.level t).toNat = 0
  · simp only [idle, if_true, ready, nonzero]
    by_cases both : Ready session.key session.level t
    · simp [both]
    · simp [both]
  · by_cases won : (session.level t).toNat = 6
    · simp only [won, ready]
      rfl
    · have judged := session.answer_of_asks t ⟨idle, won⟩
      simp only [idle, won, if_false]
      by_cases confirms : Confirms session.key session.level t
      · obtain ⟨isReady, passed⟩ := judged.mpr confirms
        rw [if_pos isReady, if_pos passed, if_pos confirms]
      · rw [if_neg confirms]
        split
        · rename_i isReady
          rw [if_neg fun passed => confirms (judged.mp ⟨isReady, passed⟩)]
        · rfl

/-! ## The letters -/

theorem counts_iff (session : Session) (t : Nat) :
    ((session.after t).entered (session.readings t)).Counts ↔
      Counted session.key session.level t := by
  have nonzero : ((session.after t).entered (session.readings t)).key ≠ 0 ↔ session.key t ≠ 0 :=
    not_congr ⟨fun zero => BitVec.eq_of_toNat_eq zero, fun zero => congrArg BitVec.toNat zero⟩
  have ready := session.ready_iff t
  unfold Sw.Counts Counted Asks
  rw [nonzero, ← ready]
  constructor
  · rintro ⟨pressed, isReady, asks⟩
    rw [Control.release_of_pressed (nonzero.mpr pressed)]
    exact ⟨isReady, pressed, asks⟩
  · rintro ⟨isReady, pressed, asks⟩
    rw [Control.release_of_pressed (nonzero.mpr pressed)] at isReady
    exact ⟨pressed, isReady, asks⟩

/-- The letter in the upper byte of the display: that of the slot which was right
at the last verdict. -/
inductive UpperLetter (session : Session) (t : Nat) : Nat → Prop
  | unjudged (none : ∀ i < t, ¬ session.Judges i) : UpperLetter session t 0
  | judged (s : Nat) (latest : Latest session.Judges s t) :
      UpperLetter session t (getSSEG2value (session.after s).q (session.after s).answers / 256)

theorem upperLetter (session : Session) (t : Nat) :
    ∃ letter < 256, (session.after t).ssegValue2 = 256 * letter ∧
      UpperLetter session t letter := by
  have cases := @register_cases _ session.Judges (fun t => (session.after t).ssegValue2)
    (fun t => getSSEG2value (session.after t).q (session.after t).answers)
    (fun t => (Sw.iteration_upper (session.readings t) (session.after t)).1)
    (fun t => (Sw.iteration_upper (session.readings t) (session.after t)).2) t
  rcases cases with ⟨first, none⟩ | ⟨s, latest, value⟩
  · exact ⟨0, by decide, first, .unjudged none⟩
  · obtain ⟨whole, upper⟩ := getSSEG2value_bytes (session.after s).q (session.after s).answers
    exact ⟨_, upper, value.trans whole, .judged s latest⟩

/-- The two letters on the display. -/
theorem letters_cases (session : Session) (t : Nat) :
    ((session.after t).pioSseg = 0 ∧ ∀ i < t, ¬ Counted session.key session.level i) ∨
      ∃ s letter, Latest (Counted session.key session.level) s t ∧
        (session.after t).pioSseg.toNat =
          getSSEG1value (session.after s).q (session.key s).toNat + 256 * letter ∧
        UpperLetter session (s + 1) letter := by
  have cases := @register_cases _ (Counted session.key session.level)
    (fun t => (session.after t).pioSseg)
    (fun t => BitVec.ofNat 16 (getSSEG1value (session.after t).q (session.key t).toNat +
      (session.after (t + 1)).ssegValue2))
    (fun t counted => (Sw.iteration_display (session.readings t) (session.after t)).1
      ((session.counts_iff t).mpr counted))
    (fun t uncounted => (Sw.iteration_display (session.readings t) (session.after t)).2
      (mt (session.counts_iff t).mp uncounted)) t
  rcases cases with ⟨first, none⟩ | ⟨s, latest, value⟩
  · exact Or.inl ⟨first, none⟩
  · obtain ⟨letter, upper, stored, history⟩ := session.upperLetter (s + 1)
    have lower := getSSEG1value_lt (session.after s).q (session.key s).toNat
    refine Or.inr ⟨s, letter, latest, ?_, history⟩
    rw [show (session.after t).pioSseg = _ from value, stored, BitVec.toNat_ofNat]
    exact Nat.mod_eq_of_lt (by omega)

/-- The display shows the letter of the key that was counted last, and next to
it the letter of the slot that was right at the last verdict up to then: nothing
else is ever shown on it. -/
theorem display_history (session : Session) (t : Nat) :
    ((session.after t).pioSseg = 0 ∧ ∀ i < t, ¬ Counted session.key session.level i) ∨
      ∃ s, Latest (Counted session.key session.level) s t ∧
        (session.after t).pioSseg.toNat % 256 =
          getSSEG1value (session.after s).q (session.key s).toNat ∧
        UpperLetter session (s + 1) ((session.after t).pioSseg.toNat / 256) := by
  rcases session.letters_cases t with first | ⟨s, letter, latest, shown, history⟩
  · exact Or.inl first
  · obtain ⟨lower, upper⟩ := bytes_of_letters shown
    exact Or.inr ⟨s, latest, lower, upper ▸ history⟩

end Session

end FpgaTrivia.Software
