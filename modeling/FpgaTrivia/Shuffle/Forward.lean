import FpgaTrivia.Shuffle.Exchange

/-!
# Forward exchanges

A shuffle in which step `i` exchanges entry `i` with itself or a later entry,
for all `i` but the last one.  Such shuffles reach every rearrangement, and the
positions can be read off the result: an entry that has been passed is final.
-/

namespace FpgaTrivia.Shuffle

universe u

variable {α : Type u} {n : Nat}

/-- Every listed step looks forward, and into the array. -/
def Forward (n : Nat) (position : Nat → Nat) (steps : List Nat) : Prop :=
  ∀ i ∈ steps, i ≤ position i ∧ position i < n

section Steps

variable {position : Nat → Nat} {i : Nat} {rest : List Nat}

theorem Forward.tail (forward : Forward n position (i :: rest)) : Forward n position rest :=
  fun k member => forward k (List.mem_cons_of_mem i member)

theorem forward_cons (here : i ≤ position i ∧ position i < n)
    (later : Forward n position rest) : Forward n position (i :: rest) := by
  intro k member
  rcases List.mem_cons.mp member with rfl | member
  · exact here
  · exact later k member

theorem exchanges_cons (a : Fin n → α) (hi : i < n) {j : Fin n} (here : position i = j.val) :
    exchanges position (i :: rest) a = exchanges position rest (exchange a ⟨i, hi⟩ j) := by
  simp [exchanges, List.foldlM_cons, here, exchangeAt_of_lt a hi j.isLt]

/-- An entry that no step touches keeps its value. -/
theorem exchanges_frame {steps : List Nat} {a b : Fin n → α} {k : Fin n}
    (forward : Forward n position steps) (passed : ∀ i ∈ steps, k.val < i)
    (result : exchanges position steps a = some b) : b k = a k := by
  induction steps generalizing a with
  | nil =>
      obtain rfl : a = b := Option.some.inj result
      rfl
  | cons i rest ih =>
      obtain ⟨lower, hj⟩ := forward i List.mem_cons_self
      have before : k.val < i := passed i List.mem_cons_self
      rw [@exchanges_cons _ _ _ _ _ a (Nat.lt_of_le_of_lt lower hj) ⟨position i, hj⟩ rfl] at result
      rw [ih forward.tail (fun l member => passed l (List.mem_cons_of_mem i member)) result,
        exchange_eq_comp]
      apply congrArg a
      apply Equiv.swap_apply_of_ne_of_ne
      · exact Fin.ne_of_val_ne (Nat.ne_of_lt before)
      · exact Fin.ne_of_val_ne (Nat.ne_of_lt (Nat.lt_of_lt_of_le before lower))

end Steps

section Complete

/-- A permutation that fixes everything before the last entry is the
identity. -/
theorem eq_refl_of_fixes {σ : Equiv.Perm (Fin n)} {i : Nat} (last : i + 1 = n)
    (fixes : ∀ k : Fin n, k.val < i → σ k = k) : σ = Equiv.refl _ := by
  apply Equiv.ext
  intro k
  by_cases before : k.val < i
  · exact fixes k before
  · by_cases image : (σ k).val < i
    · exact σ.injective (fixes (σ k) image)
    · apply Fin.ext
      change (σ k).val = k.val
      omega

/-- A permutation that fixes everything before `i` sends `i` forward. -/
theorem le_of_fixes {σ : Equiv.Perm (Fin n)} {i : Fin n}
    (fixes : ∀ k : Fin n, k.val < i.val → σ k = k) : i.val ≤ (σ i).val := by
  by_contra back
  have same : σ (σ i) = σ i := fixes (σ i) (Nat.lt_of_not_le back)
  exact back (congrArg Fin.val (σ.injective same)).ge

/-- Once the final entry has been exchanged into place `i`, one more entry is
fixed. -/
theorem fixes_succ {σ : Equiv.Perm (Fin n)} {i : Nat} (inside : i < n)
    (fixes : ∀ k : Fin n, k.val < i → σ k = k) :
    ∀ k : Fin n, k.val < i + 1 →
      (σ.trans (Equiv.swap ⟨i, inside⟩ (σ ⟨i, inside⟩))) k = k := by
  have lower : i ≤ (σ ⟨i, inside⟩).val := @le_of_fixes n σ ⟨i, inside⟩ fixes
  intro k before
  rw [Equiv.trans_apply]
  rcases Nat.lt_succ_iff_lt_or_eq.mp before with less | same
  · rw [fixes k less]
    apply Equiv.swap_apply_of_ne_of_ne
    · exact Fin.ne_of_val_ne (Nat.ne_of_lt less)
    · exact Fin.ne_of_val_ne (Nat.ne_of_lt (Nat.lt_of_lt_of_le less lower))
  · obtain rfl : k = ⟨i, inside⟩ := Fin.ext same
    exact Equiv.swap_apply_right _ _

/-- Forward exchanges from `i` on reach every rearrangement that leaves the
entries before `i` alone. -/
theorem exists_forward (a : Fin n → α) (σ : Equiv.Perm (Fin n)) {i m : Nat}
    (size : i + m + 1 = n) (fixes : ∀ k : Fin n, k.val < i → σ k = k) :
    ∃ position, Forward n position (List.range' i m) ∧
      exchanges position (List.range' i m) a = some (a ∘ σ) := by
  induction m generalizing a σ i with
  | zero =>
      refine ⟨id, fun k member => absurd member List.not_mem_nil, ?_⟩
      rw [eq_refl_of_fixes size fixes]
      rfl
  | succ m ih =>
      have inside : i < n := by omega
      have lower : i ≤ (σ ⟨i, inside⟩).val := @le_of_fixes n σ ⟨i, inside⟩ fixes
      obtain ⟨position, forward, result⟩ :=
        ih (exchange a ⟨i, inside⟩ (σ ⟨i, inside⟩)) _ (by omega) (fixes_succ inside fixes)
      have here : Function.update position i (σ ⟨i, inside⟩).val i = (σ ⟨i, inside⟩).val :=
        Function.update_self ..
      have later : ∀ k ∈ List.range' (i + 1) m,
          Function.update position i (σ ⟨i, inside⟩).val k = position k := by
        intro k member
        apply Function.update_of_ne
        have bounds := List.mem_range'_1.mp member
        omega
      refine ⟨Function.update position i (σ ⟨i, inside⟩).val, ?_, ?_⟩
      · apply forward_cons
        · rw [here]
          exact ⟨lower, (σ ⟨i, inside⟩).isLt⟩
        · intro k member
          rw [later k member]
          exact forward k member
      · rw [List.range'_succ, exchanges_cons a inside here, exchanges_congr later, result,
          exchange_eq_comp]
        congr 1
        funext k
        simp

end Complete

section Unique

variable {position position' : Nat → Nat}

/-- On an array of distinct entries the result determines the positions. -/
theorem forward_unique {a b : Fin n → α} (distinct : Function.Injective a) {i m : Nat}
    (forward : Forward n position (List.range' i m))
    (forward' : Forward n position' (List.range' i m))
    (result : exchanges position (List.range' i m) a = some b)
    (result' : exchanges position' (List.range' i m) a = some b) :
    ∀ k ∈ List.range' i m, position k = position' k := by
  induction m generalizing a i with
  | zero => exact fun k member => absurd member List.not_mem_nil
  | succ m ih =>
      rw [List.range'_succ] at *
      obtain ⟨lower, hj⟩ := forward i List.mem_cons_self
      obtain ⟨lower', hj'⟩ := forward' i List.mem_cons_self
      have inside : i < n := Nat.lt_of_le_of_lt lower hj
      rw [@exchanges_cons _ _ _ _ _ a inside ⟨position i, hj⟩ rfl] at result
      rw [@exchanges_cons _ _ _ _ _ a inside ⟨position' i, hj'⟩ rfl] at result'
      have passed : ∀ k ∈ List.range' (i + 1) m, i < k :=
        fun k member => (List.mem_range'_1.mp member).1
      -- both runs leave entry `i` as the first exchange has put it
      have entry := @exchanges_frame α n position (List.range' (i + 1) m) _ b ⟨i, inside⟩
        forward.tail passed result
      have entry' := @exchanges_frame α n position' (List.range' (i + 1) m) _ b ⟨i, inside⟩
        forward'.tail passed result'
      rw [exchange_eq_comp, Function.comp_apply, Equiv.swap_apply_left] at entry entry'
      have same : position i = position' i :=
        congrArg Fin.val (distinct (entry.symm.trans entry'))
      have middle : exchange a ⟨i, inside⟩ ⟨position' i, hj'⟩ =
          exchange a ⟨i, inside⟩ ⟨position i, hj⟩ := by
        simp only [same]
      have later := ih ((Rearranges.exchange a _ _).injective distinct) forward.tail
        forward'.tail result (middle ▸ result')
      intro k member
      rcases List.mem_cons.mp member with rfl | member
      · exact same
      · exact later k member

end Unique

end FpgaTrivia.Shuffle
