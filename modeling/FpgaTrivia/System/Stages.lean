import FpgaTrivia.System.Board

/-!
# The stages of a handshake

When the level changes, an iteration that is under way may have read the old
level.  The first one that starts afterwards notices the new level, redraws and
clears `ready`, but may still publish a stale answer; the second one publishes
`00` unless it finds the keys released.

The stages are predicates on the control.  `C` is the new level and `held`
says that no iteration has found the keys released since the change.
-/

namespace FpgaTrivia.System

open FpgaTrivia.Hardware
open FpgaTrivia.Software

namespace Handshake

variable {C : Nat} {held : Prop} {c : Control} {key level : BitVec 4} {verdict : Bool}

/-- The iteration under way has started after the change. -/
structure Whole (C : Nat) (held : Prop) (c : Control) : Prop where
  level : c.pc = .judge ∨ c.Pending → c.level = C
  quiet : C = 6 → c.Pending → c.answer ≠ 0b11#2
  key : held → c.pc ≠ .readKey → c.key ≠ 0

/-- The iteration under way may have read the old level. -/
def Straddles (C : Nat) (c : Control) : Prop :=
  c.oldLevel ≠ C ∨ ((c.pc = .writeAnswer ∨ c.pc = .readKey) ∧ c.ready = 0)

/-- The first iteration after the change is under way. -/
structure Notices (C : Nat) (held : Prop) (c : Control) : Prop where
  whole : Whole C held c
  inside : c.pc ≠ .readKey
  blocked : c.oldLevel ≠ C ∨ (held → c.ready = 0)
  redrawn : c.pc = .writeAnswer → c.oldLevel = C

/-- The first iteration after the change has finished. -/
structure Adopts (C : Nat) (held : Prop) (c : Control) : Prop where
  whole : Whole C held c
  adopted : c.oldLevel = C
  quiet : C = 6 → c.port ≠ 0b11#2
  blocked : held → c.ready = 0
  pending : held → c.Pending → c.answer = 0b00#2

/-- The second iteration after the change has finished. -/
structure Caught (C : Nat) (held : Prop) (c : Control) : Prop extends Adopts C held c where
  cleared : held → c.port = 0b00#2

/-! ## The stages, step by step -/

theorem whole_readKey (key : BitVec 4) (pressed : held → key ≠ 0) (c : Control) :
    Whole C held (c.readKey key) where
  level := by simp [Control.readKey, Control.Pending]
  quiet := by simp [Control.readKey, Control.Pending]
  key := by
    intro holds _ zero
    apply pressed holds
    exact BitVec.eq_of_toNat_eq zero

/-- An iteration that has started after the change stays one. -/
theorem Whole.step (whole : Whole C held c) (reading : level.toNat = C)
    (pressed : held → c.pc = .readKey → key ≠ 0) : Whole C held (c.step key level verdict) := by
  rcases pc : c.pc with _ | _ | _ | _ | _ | _
  · rw [Control.step_readKey pc]
    exact whole_readKey key (fun holds => pressed holds pc) c
  · rw [Control.step_readLevel pc]
    refine ⟨fun _ => reading, by simp [Control.readLevel, Control.Pending], ?_⟩
    intro holds _
    exact whole.key holds (by simp [pc])
  · rw [Control.step_judge pc]
    have atLevel := whole.level (Or.inl pc)
    refine ⟨fun _ => by simpa using atLevel, ?_, ?_⟩
    · intro six _
      exact Control.judge_answer_six verdict (atLevel.trans six)
    · intro holds _
      simpa using whole.key holds (by simp [pc])
  · rw [Control.step_wrong pc]
    have pending : c.Pending := Or.inl pc
    refine ⟨fun _ => whole.level (Or.inr pending), fun six _ => whole.quiet six pending, ?_⟩
    intro holds _
    exact whole.key holds (by simp [pc])
  · rw [Control.step_redraw pc]
    have pending : c.Pending := Or.inr (Or.inl pc)
    refine ⟨fun _ => by simpa using whole.level (Or.inr pending),
      fun six _ => by simpa using whole.quiet six pending, ?_⟩
    intro holds _
    simpa using whole.key holds (by simp [pc])
  · rw [Control.step_writeAnswer pc]
    exact ⟨by simp [Control.writeAnswer, Control.Pending],
      by simp [Control.writeAnswer, Control.Pending], by simp [Control.writeAnswer]⟩

/-- Until an iteration starts, the straddling one is under way.  It may adopt
the new level itself, and is not ready then. -/
theorem Straddles.step (straddles : Straddles C c) (inside : c.pc ≠ .readKey) :
    Straddles C (c.step key level verdict) := by
  rcases straddles with old | ⟨finishing, blocked⟩
  · rcases pc : c.pc with _ | _ | _ | _ | _ | _
    · exact absurd pc inside
    · rw [Control.step_readLevel pc]
      exact Or.inl old
    · rw [Control.step_judge pc]
      exact Or.inl (by simpa using old)
    · rw [Control.step_wrong pc]
      exact Or.inl old
    · rw [Control.step_redraw pc]
      by_cases redraws : c.Redraws
      · rw [Control.redraw_of_redraws redraws]
        exact Or.inr ⟨Or.inl rfl, rfl⟩
      · rw [Control.redraw_of_not_redraws redraws]
        exact Or.inl old
    · rw [Control.step_writeAnswer pc]
      exact Or.inl old
  · rcases finishing with pc | pc
    · rw [Control.step_writeAnswer pc]
      exact Or.inr ⟨Or.inr rfl, blocked⟩
    · exact absurd pc inside

theorem Straddles.start (straddles : Straddles C c) (pc : c.pc = .readKey)
    (pressed : held → key ≠ 0) : Notices C held (c.step key level verdict) := by
  rw [Control.step_readKey pc]
  refine ⟨whole_readKey key pressed c, by simp [Control.readKey], ?_, by simp [Control.readKey]⟩
  rcases straddles with old | ⟨_, blocked⟩
  · exact Or.inl old
  · exact Or.inr fun _ => blocked

theorem Notices.step (notices : Notices C held c) (reading : level.toNat = C)
    (unfinished : c.pc ≠ .writeAnswer) : Notices C held (c.step key level verdict) := by
  have whole : Whole C held (c.step key level verdict) :=
    notices.whole.step reading fun _ pc => absurd pc notices.inside
  rcases pc : c.pc with _ | _ | _ | _ | _ | _
  · exact absurd pc notices.inside
  · rw [Control.step_readLevel pc] at whole ⊢
    exact ⟨whole, by simp [Control.readLevel], notices.blocked, by simp [Control.readLevel]⟩
  · rw [Control.step_judge pc] at whole ⊢
    have next := Control.judge_pc verdict c
    refine ⟨whole, by rcases next with next | next <;> simp [next], ?_,
      by rcases next with next | next <;> simp [next]⟩
    rcases notices.blocked with old | blocked
    · exact Or.inl (by simpa using old)
    · right
      intro holds
      have pressed := notices.whole.key holds notices.inside
      rw [Control.judge_of_blocked verdict (blocked holds) pressed]
      exact blocked holds
  · rw [Control.step_wrong pc] at whole ⊢
    exact ⟨whole, by simp [Control.wrong], notices.blocked, by simp [Control.wrong]⟩
  · rw [Control.step_redraw pc] at whole ⊢
    have atLevel : c.level = C := notices.whole.level (Or.inr (Or.inr (Or.inl pc)))
    refine ⟨whole, by simp, ?_, fun _ => by simpa using atLevel⟩
    right
    intro holds
    by_cases redraws : c.Redraws
    · rw [Control.redraw_of_redraws redraws]
    · -- no redraw: the old level is the new level, so `ready` was cleared before
      have same : c.oldLevel = C := by
        by_contra different
        exact redraws (Or.inl fun equal => different (equal.symm.trans atLevel))
      have blocked := notices.blocked.resolve_left (not_not.mpr same)
      exact Control.redraw_ready_of_blocked (blocked holds)
  · exact absurd pc unfinished

theorem Notices.finish (notices : Notices C held c) (pc : c.pc = .writeAnswer) :
    Adopts C held (c.step key level verdict) := by
  have adopted := notices.redrawn pc
  rw [Control.step_writeAnswer pc]
  exact {
    whole := ⟨by simp [Control.writeAnswer, Control.Pending],
      by simp [Control.writeAnswer, Control.Pending], by simp [Control.writeAnswer]⟩
    adopted := adopted
    quiet := fun six => notices.whole.quiet six (Or.inr (Or.inr pc))
    blocked := notices.blocked.resolve_left (not_not.mpr adopted)
    pending := by simp [Control.writeAnswer, Control.Pending] }

/-- From the second iteration on, a held key keeps the program silent. -/
theorem Adopts.step (adopts : Adopts C held c) (reading : level.toNat = C)
    (pressed : held → c.pc = .readKey → key ≠ 0) :
    Adopts C held (c.step key level verdict) ∧
      (held → c.pc ≠ .writeAnswer → (c.step key level verdict).port = c.port) := by
  have whole : Whole C held (c.step key level verdict) := adopts.whole.step reading pressed
  rcases pc : c.pc with _ | _ | _ | _ | _ | _
  · rw [Control.step_readKey pc] at whole ⊢
    exact ⟨⟨whole, adopts.adopted, adopts.quiet, adopts.blocked,
      by simp [Control.readKey, Control.Pending]⟩, fun _ _ => rfl⟩
  · rw [Control.step_readLevel pc] at whole ⊢
    exact ⟨⟨whole, adopts.adopted, adopts.quiet, adopts.blocked,
      by simp [Control.readLevel, Control.Pending]⟩, fun _ _ => rfl⟩
  · have silent : held →
        c.judge verdict = { c with answer := 0b00#2, pc := .redraw } := by
      intro holds
      exact Control.judge_of_blocked verdict (adopts.blocked holds)
        (adopts.whole.key holds (by simp [pc]))
    have port := c.step_port key level verdict
    rw [Control.step_judge pc] at whole port ⊢
    refine ⟨⟨whole, by simpa using adopts.adopted, ?_, ?_, ?_⟩, ?_⟩
    · intro six
      rcases port with same | wrong | finished
      · rw [same]
        exact adopts.quiet six
      · simp [wrong]
      · rcases Control.judge_pc verdict c with next | next <;>
          simp [finished, Control.writeAnswer] at next
    · intro holds
      rw [silent holds]
      exact adopts.blocked holds
    · intro holds _
      rw [silent holds]
    · intro holds _
      rw [silent holds]
  · rw [Control.step_wrong pc] at whole ⊢
    exact ⟨⟨whole, adopts.adopted, adopts.quiet, adopts.blocked,
      fun holds _ => adopts.pending holds (Or.inl pc)⟩, fun _ _ => rfl⟩
  · rw [Control.step_redraw pc] at whole ⊢
    have pending : c.Pending := Or.inr (Or.inl pc)
    exact ⟨⟨whole, by simpa using adopts.whole.level (Or.inr pending), by simpa using adopts.quiet,
      fun holds => Control.redraw_ready_of_blocked (adopts.blocked holds),
      fun holds _ => by simpa using adopts.pending holds pending⟩, fun _ _ => by simp⟩
  · rw [Control.step_writeAnswer pc] at whole ⊢
    have pending : c.Pending := Or.inr (Or.inr pc)
    exact ⟨⟨whole, adopts.adopted, fun six => adopts.whole.quiet six pending, adopts.blocked,
      by simp [Control.writeAnswer, Control.Pending]⟩, fun _ unfinished => absurd rfl unfinished⟩

theorem Adopts.finish (adopts : Adopts C held c) (reading : level.toNat = C)
    (pc : c.pc = .writeAnswer) : Caught C held (c.step key level verdict) where
  toAdopts := (adopts.step reading (by simp [pc])).1
  cleared := by
    intro holds
    rw [Control.step_writeAnswer pc]
    exact adopts.pending holds (Or.inr (Or.inr pc))

theorem Caught.step (caught : Caught C held c) (reading : level.toNat = C)
    (pressed : held → c.pc = .readKey → key ≠ 0) : Caught C held (c.step key level verdict) := by
  by_cases pc : c.pc = .writeAnswer
  · exact caught.toAdopts.finish reading pc
  · obtain ⟨adopts, port⟩ := caught.toAdopts.step reading pressed
    refine ⟨adopts, ?_⟩
    intro holds
    rw [port holds pc]
    exact caught.cleared holds

end Handshake

end FpgaTrivia.System
