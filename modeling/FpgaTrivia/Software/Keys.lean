import FpgaTrivia.Software.Question
import Mathlib.Algebra.Group.Nat.Defs

/-!
# Keys, slots and letters

Key `i` of the four keys sets bit `i` of the key port and stands for slot `i`
of the answers.  `key2index`, `getSSEG1value` and `getSSEG2value` carry a table
of the slots each; the lemmas state that the tables agree.
-/

namespace FpgaTrivia.Software

/-- `key2index`: the slot of a key reading, -1 unless exactly one key is
down. -/
def key2index (key : Nat) : Int :=
  if key = 0b0001 then 0
  else if key = 0b0010 then 1
  else if key = 0b0100 then 2
  else if key = 0b1000 then 3
  else -1

/-- `getSSEG1value`: the letter of the pressed key.  The question argument is
not used. -/
def getSSEG1value (_q : Question) (key : Nat) : Nat :=
  if key = 0b0001 then 0b10001000
  else if key = 0b0010 then 0b10000011
  else if key = 0b0100 then 0b11000110
  else if key = 0b1000 then 0b10100001
  else 0b00000000

/-- `getSSEG2value`: the letter of the first slot that holds the correct
answer, in the upper byte. -/
def getSSEG2value (q : Question) (answers : Fin 4 → String) : Nat :=
  if answers 0 = q.answerCorrect then 0b1000100000000000
  else if answers 1 = q.answerCorrect then 0b1000001100000000
  else if answers 2 = q.answerCorrect then 0b1100011000000000
  else if answers 3 = q.answerCorrect then 0b1010000100000000
  else 0b0000000000000000

/-- `answers[index]`; an index outside the array reads no answer. -/
def answerAt (answers : Fin 4 → String) (index : Int) : Option String :=
  if inRange : 0 ≤ index ∧ index < 4 then
    some (answers ⟨index.toNat, by omega⟩)
  else none

/-- The key reading with only key `slot` down. -/
def keyOf (slot : Fin 4) : Nat :=
  2 ^ slot.val

/-- The segments of the letters A, B, C and D. -/
def segmentLetter : Fin 4 → Nat :=
  ![0b10001000, 0b10000011, 0b11000110, 0b10100001]

theorem segmentLetter_injective : Function.Injective segmentLetter := by
  have distinct : ∀ i j, segmentLetter i = segmentLetter j → i = j := by decide
  intro i j same
  exact distinct i j same

theorem segmentLetter_lt (slot : Fin 4) : segmentLetter slot < 256 := by
  revert slot
  decide

theorem keyOf_injective : Function.Injective keyOf := by
  have distinct : ∀ i j, keyOf i = keyOf j → i = j := by decide
  intro i j same
  exact distinct i j same

theorem keyOf_ne_zero (slot : Fin 4) : keyOf slot ≠ 0 := by
  revert slot
  decide

@[simp]
theorem key2index_keyOf (slot : Fin 4) : key2index (keyOf slot) = slot.val := by
  revert slot
  decide

/-- The index is one of the four slots exactly when one key is down. -/
theorem key2index_inRange_iff (key : Nat) :
    (0 ≤ key2index key ∧ key2index key ≤ 3) ↔ ∃ slot, key = keyOf slot := by
  constructor
  · intro inRange
    unfold key2index at inRange
    split at inRange
    · exact ⟨0, by assumption⟩
    · split at inRange
      · exact ⟨1, by assumption⟩
      · split at inRange
        · exact ⟨2, by assumption⟩
        · split at inRange
          · exact ⟨3, by assumption⟩
          · omega
  · rintro ⟨slot, rfl⟩
    rw [key2index_keyOf]
    omega

@[simp]
theorem getSSEG1value_keyOf (q : Question) (slot : Fin 4) :
    getSSEG1value q (keyOf slot) = segmentLetter slot := by
  revert slot
  simp only [getSSEG1value]
  decide

@[simp]
theorem answerAt_key2index_keyOf (answers : Fin 4 → String) (slot : Fin 4) :
    answerAt answers (key2index (keyOf slot)) = some (answers slot) := by
  have inRange : (0 : Int) ≤ slot.val ∧ (slot.val : Int) < 4 := by omega
  rw [key2index_keyOf, answerAt, dif_pos inRange]
  rfl

/-- With one correct slot the upper byte is the letter of that slot. -/
theorem getSSEG2value_of_unique {q : Question} {answers : Fin 4 → String} {slot : Fin 4}
    (unique : ∀ i, answers i = q.answerCorrect ↔ i = slot) :
    getSSEG2value q answers = 256 * segmentLetter slot := by
  simp only [getSSEG2value, unique]
  clear unique
  revert slot
  decide

end FpgaTrivia.Software
