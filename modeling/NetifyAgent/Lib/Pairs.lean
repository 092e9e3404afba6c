import Mathlib.Data.List.Basic

/-! Pairs laid out in a row, the second element of each behind the first. A row that is cut
anywhere is cut between two pairs or inside one. -/
namespace NetifyAgent.Pairs

variable {α : Type} {pairs : List (α × α)}

/-- The elements of pairs in their order. -/
def row (pairs : List (α × α)) : List α := pairs.flatMap fun q => [q.1, q.2]

@[simp] theorem row_nil : row ([] : List (α × α)) = [] := rfl

@[simp] theorem row_cons (q : α × α) (pairs : List (α × α)) :
    row (q :: pairs) = q.1 :: q.2 :: row pairs := rfl

@[simp] theorem row_append (first last : List (α × α)) :
    row (first ++ last) = row first ++ row last := List.flatMap_append

@[simp] theorem length_row (pairs : List (α × α)) : (row pairs).length = 2 * pairs.length := by
  induction pairs with
  | nil => rfl
  | cons q pairs ih =>
    rw [row_cons, List.length_cons, List.length_cons, List.length_cons, ih]
    omega

/-- Whole pairs are dropped. -/
theorem drop_row (pairs : List (α × α)) (n : Nat) :
    (row pairs).drop (2 * n) = row (pairs.drop n) := by
  induction n generalizing pairs with
  | zero => rfl
  | succ n ih =>
    cases pairs with
    | nil => rfl
    | cons q pairs => exact ih pairs

/-- **A cut** behind an even number of elements is one between pairs, any other is one
inside a pair. -/
theorem row_eq_append {l m : List α} (whole : row pairs = l ++ m) :
    (∃ first last, pairs = first ++ last ∧ l = row first ∧ m = row last) ∨
      ∃ first q last, pairs = first ++ q :: last ∧ l = row first ++ [q.1] ∧
        m = q.2 :: row last := by
  induction pairs generalizing l with
  | nil =>
    obtain ⟨rfl, rfl⟩ := List.append_eq_nil_iff.mp whole.symm
    exact .inl ⟨[], [], rfl, rfl, rfl⟩
  | cons q pairs ih =>
    rw [row_cons] at whole
    match l with
    | [] => exact .inl ⟨[], q :: pairs, rfl, rfl, whole.symm⟩
    | [x] =>
      obtain ⟨rfl, rfl⟩ := List.cons.inj whole
      exact .inr ⟨[], q, pairs, rfl, rfl, rfl⟩
    | x :: y :: l =>
      obtain ⟨rfl, behind⟩ := List.cons.inj whole
      obtain ⟨rfl, rest⟩ := List.cons.inj behind
      rcases ih rest with ⟨first, last, rfl, rfl, rfl⟩ | ⟨first, q', last, rfl, rfl, rfl⟩
      · exact .inl ⟨q :: first, last, rfl, rfl, rfl⟩
      · exact .inr ⟨q :: first, q', last, rfl, rfl, rfl⟩

end NetifyAgent.Pairs
