import Mathlib.Data.Fin.VecNotation
import Mathlib.Data.List.FinRange

/-!
# The question records

`struct Question`, and the array that `fillQuestions` builds.  A `char *` is
the text it points to: the program only compares pointers into one record, and
`fillQuestions_options_injective` shows that the four answers of a record are four
different literals.
-/

namespace FpgaTrivia.Software

/-- `struct Question`. -/
structure Question where
  question : String
  level : Nat
  answerCorrect : String
  answer1 : String
  answer2 : String
  answer3 : String
  deriving DecidableEq, Repr

/-- There is a first slot. -/
instance slotsNeZero : @NeZero Nat Zero.ofOfNat0 4 :=
  Nat.instNeZeroSucc

/-- The four answers in the order in which `displayQuestion` stores them. -/
def Question.options (q : Question) : Fin 4 → String :=
  ![q.answer1, q.answer2, q.answer3, q.answerCorrect]

/-- `fillQuestions`: the contents of `questions[]`. -/
def fillQuestions : Fin 15 → Question :=
  ![{ question := "What does the Analysis and Elaboration do?"
      level := 1
      answerCorrect := "Creates RTL"
      answer1 := "Creates Logic"
      answer2 := "Assign/view pins"
      answer3 := "Check syntax errors" },
    { question := "What does RTL stand for?"
      level := 1
      answerCorrect := "Register Transfer Level"
      answer1 := "Real Time Logic"
      answer2 := "Read Trunk Link"
      answer3 := "Route Through Line" },
    { question := "How many bits are needed for 10 values?"
      level := 1
      answerCorrect := "4"
      answer1 := "5"
      answer2 := "6"
      answer3 := "3" },
    { question := "How many kB can be stored in an MK9 block?"
      level := 2
      answerCorrect := "9"
      answer1 := "5"
      answer2 := "6"
      answer3 := "3" },
    { question := "Which of the following is a state machine type?"
      level := 2
      answerCorrect := "Moore"
      answer1 := "Milly"
      answer2 := "Morse"
      answer3 := "Michael" },
    { question := "What is the minimum sample rate for Nyquist?"
      level := 2
      answerCorrect := "2 x f_in"
      answer1 := "2/f_in"
      answer2 := "f_in/2"
      answer3 := "2^f_in" },
    { question := "What does LAB stand for?"
      level := 3
      answerCorrect := "Logic Array Block"
      answer1 := "Logic Array Bridge"
      answer2 := "Low Amp Block"
      answer3 := "Little as Big" },
    { question := "Which of the following is not part of a PLL?"
      level := 3
      answerCorrect := "Clock Divider"
      answer1 := "Charge Pump"
      answer2 := "Low Pass Filter"
      answer3 := "Phase Detector" },
    { question := "How do you calculate the output frequency of a PLL?"
      level := 3
      answerCorrect := "f_in x M/N"
      answer1 := "f_in x N/M"
      answer2 := "M/f_in x N"
      answer3 := "M^f_in - N" },
    { question := "What is not correct about pointers?"
      level := 4
      answerCorrect := "Are case sensitive"
      answer1 := "Have no type"
      answer2 := "Point to any type"
      answer3 := "Can be casted" },
    { question := "In which file can you find base addresses?"
      level := 4
      answerCorrect := "system.h"
      answer1 := "linker.h"
      answer2 := "nios2.h"
      answer3 := ".._pio_regs.h" },
    { question := "In which file can you find IO read and write functions?"
      level := 4
      answerCorrect := ".._pio_regs.h"
      answer1 := "linker.h"
      answer2 := "nios2.h"
      answer3 := "system.h" },
    { question := "What is not correct about the accelerometor?"
      level := 5
      answerCorrect := "5 wire SPI"
      answer1 := "Triggers on int1"
      answer2 := "10 bit wide"
      answer3 := "+/- 2g range" },
    { question := "What is the correct order of the blocks of a PLL?"
      level := 5
      answerCorrect := "Error Det., LPF, VCO"
      answer1 := "LPF, VCO, Error Det."
      answer2 := "Error Det., VCO, LPF"
      answer3 := "VCO, Error Det. LPF" },
    { question := "Who is the VHDL god?"
      level := 5
      answerCorrect := "Dr. Johnson"
      answer1 := "Stephen Hawking"
      answer2 := "Dr. Stecklina"
      answer3 := "Angela Merkel" }]

/-- A record that `fillQuestions` stores. -/
def Recorded (q : Question) : Prop :=
  ∃ i, fillQuestions i = q

/-- The four answers of a record are different texts. -/
theorem fillQuestions_options_injective :
    ∀ i, Function.Injective (fillQuestions i).options := by
  have distinct : ∀ i (j k : Fin 4),
      (fillQuestions i).options j = (fillQuestions i).options k → j = k := by decide +kernel
  intro i j k same
  exact distinct i j k same

/-- No answer is longer than the longest one, "Register Transfer Level". -/
theorem fillQuestions_options_length :
    ∀ i k, ((fillQuestions i).options k).length ≤ 23 := by
  decide +kernel

/-- Every level of the game has a question. -/
theorem fillQuestions_level :
    ∀ level, 1 ≤ level → level ≤ 5 → ∃ i, (fillQuestions i).level = level := by
  intro level pos le
  have present : ∀ k : Fin 5, ∃ i, (fillQuestions i).level = k + 1 := by decide
  obtain ⟨i, found⟩ := present ⟨level - 1, by omega⟩
  exact ⟨i, by simpa [Nat.sub_add_cancel pos] using found⟩

end FpgaTrivia.Software
