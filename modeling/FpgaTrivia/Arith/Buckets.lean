import Mathlib.Data.Finset.Card
import Mathlib.Order.Interval.Finset.Nat

/-!
# Even buckets

Dividing by `b` cuts the numbers below `size` into buckets of `b` numbers; the last
one may be cut short.  With `b = limit / d + 1` the numbers up to `limit` fill `d`
buckets, almost evenly.
-/

namespace FpgaTrivia.Arith

/-- The numbers below `size` whose quotient by `b` is `k`. -/
def bucket (size b k : Nat) : Finset Nat :=
  (Finset.range size).filter fun r => r / b = k

section Sizes

variable {size b k m : Nat}

theorem mem_bucket {r : Nat} : r ∈ bucket size b k ↔ r < size ∧ r / b = k := by
  simp [bucket]

/-- No bucket is overfull. -/
theorem card_bucket_le (positive : 0 < b) : (bucket size b k).card ≤ b := by
  have inside : bucket size b k ⊆ Finset.Ico (k * b) (k * b + b) := by
    intro r member
    obtain ⟨-, quotient⟩ := mem_bucket.mp member
    obtain ⟨lower, upper⟩ := (Nat.div_eq_iff positive).mp quotient
    apply Finset.mem_Ico.mpr
    omega
  have interval : (Finset.Ico (k * b) (k * b + b)).card = b := by
    rw [Nat.card_Ico, Nat.add_sub_cancel_left]
  exact (Finset.card_le_card inside).trans interval.le

/-- A bucket holds every number that it starts with. -/
theorem le_card_bucket (small : m ≤ b) (fits : k * b + m ≤ size) :
    m ≤ (bucket size b k).card := by
  have inside : Finset.Ico (k * b) (k * b + m) ⊆ bucket size b k := by
    intro r member
    obtain ⟨lower, upper⟩ := Finset.mem_Ico.mp member
    apply mem_bucket.mpr
    constructor
    · exact Nat.lt_of_lt_of_le upper fits
    · apply (Nat.div_eq_iff (by omega)).mpr
      omega
  have interval : (Finset.Ico (k * b) (k * b + m)).card = m := by
    rw [Nat.card_Ico, Nat.add_sub_cancel_left]
  exact interval.ge.trans (Finset.card_le_card inside)

end Sizes

section Even

variable {limit d k k' : Nat}

/-- The buckets before the last one end before the numbers up to `limit` do. -/
theorem mul_bucket_le (lt : k < d) : k * (limit / d + 1) + limit / d ≤ limit + (d - 1) := by
  have whole : d * (limit / d) ≤ limit := Nat.mul_div_le limit d
  have before : k * (limit / d + 1) ≤ (d - 1) * (limit / d + 1) :=
    Nat.mul_le_mul_right _ (Nat.le_sub_one_of_lt lt)
  have split : d * (limit / d) = (d - 1) * (limit / d) + limit / d := by
    rw [← Nat.succ_mul, Nat.succ_eq_add_one, Nat.sub_add_cancel (Nat.lt_of_le_of_lt k.zero_le lt)]
  have expand : (d - 1) * (limit / d + 1) = (d - 1) * (limit / d) + (d - 1) := Nat.mul_succ _ _
  omega

/-- Two of `d` buckets differ by at most `d - 1` numbers. -/
theorem card_bucket_le_add (lt' : k' < d) :
    (bucket (limit + 1) (limit / d + 1) k).card ≤
      (bucket (limit + 1) (limit / d + 1) k').card + (d - 1) := by
  have upper := @card_bucket_le (limit + 1) (limit / d + 1) k (Nat.succ_pos _)
  have fits := @mul_bucket_le limit d k' lt'
  by_cases short : limit / d + 1 ≤ d - 1
  · omega
  · have lower : limit / d + 1 - (d - 1) ≤ (bucket (limit + 1) (limit / d + 1) k').card := by
      apply le_card_bucket
      · exact Nat.sub_le _ _
      · omega
    omega

/-- With enough numbers none of the `d` buckets is empty. -/
theorem exists_div_eq (many : d * (d - 1) ≤ limit) (lt : k < d) :
    ∃ r ≤ limit, r / (limit / d + 1) = k := by
  have quotient : d - 1 ≤ limit / d := by
    rw [Nat.le_div_iff_mul_le (Nat.lt_of_le_of_lt k.zero_le lt), Nat.mul_comm]
    exact many
  have fits := @mul_bucket_le limit d k lt
  refine ⟨k * (limit / d + 1), by omega, ?_⟩
  exact Nat.mul_div_cancel k (Nat.succ_pos _)

end Even

end FpgaTrivia.Arith
