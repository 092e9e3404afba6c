import Mathlib.Algebra.Order.Group.Nat
import Mathlib.Data.Int.ModEq
import Mathlib.Data.List.Basic

/-! A queue that is kept in slots around a ring. Items are put into the first free
slot behind them and taken out at the front, whose place goes round the ring. -/
namespace NetifyAgent.RingBuffer

variable {α : Type*}

/-- From slot `head` on the slots hold the items one after the other, and those
behind them are free. -/
structure Holds (slots : List (Option α)) (head : Nat) (items : List α) : Prop where
  start : head < slots.length
  fits : items.length ≤ slots.length
  slot : ∀ j < slots.length, slots[(head + j) % slots.length]? = some items[j]?

/-- The slot behind another. -/
def behind (size slot : Nat) : Nat := if slot + 1 = size then 0 else slot + 1

theorem behind_eq {size slot : Nat} (inside : slot < size) :
    behind size slot = (slot + 1) % size := by
  unfold behind
  split
  · rename_i last
    rw [last, Nat.mod_self]
  · exact (Nat.mod_eq_of_lt (by omega)).symm

theorem behind_lt {size slot : Nat} (inside : slot < size) : behind size slot < size := by
  unfold behind
  split <;> omega

theorem add_mod_right {size head j : Nat} :
    ((head + 1) % size + j) % size = (head + (j + 1)) % size := by
  rw [Nat.mod_add_mod, Nat.add_assoc, Nat.add_comm 1 j]

/-- Slots that are less than one round apart are different. -/
theorem mod_ne (size head : Nat) {i j : Nat} (hi : i < size) (hj : j < size) (apart : i ≠ j) :
    (head + i) % size ≠ (head + j) % size := by
  intro same
  exact apart ((Nat.ModEq.add_left_cancel' head same).eq_of_lt_of_lt hi hj)

section
variable {slots : List (Option α)} {head : Nat} {items : List α}

theorem holds_free {size : Nat} (positive : 0 < size) :
    Holds (List.replicate size (none : Option α)) 0 [] where
  start := by rwa [List.length_replicate]
  fits := Nat.zero_le _
  slot j inside := by
    rw [List.length_replicate] at inside ⊢
    rw [List.getElem?_replicate, if_pos (Nat.mod_lt _ positive)]
    rfl

/-- The front item is in the slot `head`. -/
theorem Holds.front (holds : Holds slots head items) : slots[head]? = some items.head? := by
  have first := holds.slot 0 (by have := holds.start; omega)
  rwa [Nat.add_zero, Nat.mod_eq_of_lt holds.start, ← List.head?_eq_getElem?] at first

/-- The slot behind the items is free unless all are taken. -/
theorem Holds.free_iff (holds : Holds slots head items) :
    slots[(head + items.length) % slots.length]? = some none ↔ items.length < slots.length := by
  constructor
  · intro free
    by_contra full
    have all : items.length = slots.length := by have := holds.fits; omega
    rw [all, Nat.add_mod_right, Nat.mod_eq_of_lt holds.start, holds.front] at free
    have none := Option.some.inj free
    rw [List.head?_eq_none_iff] at none
    have := holds.start
    rw [none] at all
    simp only [List.length_nil] at all
    omega
  · intro room
    rw [holds.slot _ room, List.getElem?_eq_none (Nat.le_refl _)]

/-- An item goes into the slot behind the others. -/
theorem Holds.push (holds : Holds slots head items) (room : items.length < slots.length) (a : α) :
    Holds (slots.set ((head + items.length) % slots.length) (some a)) head (items ++ [a]) where
  start := by rw [List.length_set]; exact holds.start
  fits := by rw [List.length_set, List.length_append, List.length_singleton]; omega
  slot j inside := by
    rw [List.length_set] at inside ⊢
    have positive := holds.start
    by_cases here : j = items.length
    · subst here
      rw [List.getElem?_set_self (Nat.mod_lt _ (by omega)), List.getElem?_concat_length]
    · rw [List.getElem?_set_ne (mod_ne _ _ room inside (Ne.symm here)), holds.slot j inside]
      by_cases earlier : j < items.length
      · rw [List.getElem?_append_left earlier]
      · rw [List.getElem?_eq_none (by omega), List.getElem?_eq_none (by
          rw [List.length_append, List.length_singleton]
          omega)]

/-- The front item is exchanged where it is. -/
theorem Holds.exchange {a : α} (holds : Holds slots head (a :: items)) (b : α) :
    Holds (slots.set head (some b)) head (b :: items) where
  start := by rw [List.length_set]; exact holds.start
  fits := by rw [List.length_set]; exact holds.fits
  slot j inside := by
    rw [List.length_set] at inside ⊢
    have start := holds.start
    cases j with
    | zero =>
      rw [Nat.add_zero, Nat.mod_eq_of_lt start, List.getElem?_set_self start,
        List.getElem?_cons_zero]
    | succ j =>
      have other : head ≠ (head + (j + 1)) % slots.length := by
        have := mod_ne slots.length head (i := 0) (j := j + 1) (by omega)
          inside (by omega)
        rwa [Nat.add_zero, Nat.mod_eq_of_lt start] at this
      rw [List.getElem?_set_ne other, holds.slot _ inside, List.getElem?_cons_succ,
        List.getElem?_cons_succ]

/-- The front item is taken out, and the front goes on. -/
theorem Holds.pop {a : α} (holds : Holds slots head (a :: items)) :
    Holds (slots.set head none) (behind slots.length head) items where
  start := by rw [List.length_set]; exact behind_lt holds.start
  fits := by
    have := holds.fits
    rw [List.length_cons] at this
    rw [List.length_set]
    omega
  slot j inside := by
    rw [List.length_set] at inside ⊢
    have start := holds.start
    have fits := holds.fits
    rw [List.length_cons] at fits
    rw [behind_eq start, add_mod_right]
    by_cases round : j + 1 = slots.length
    · rw [round, Nat.add_mod_right, Nat.mod_eq_of_lt start, List.getElem?_set_self start,
        List.getElem?_eq_none (by omega)]
    · have other : head ≠ (head + (j + 1)) % slots.length := by
        have := mod_ne slots.length head (i := 0) (j := j + 1) (by omega)
          (by omega) (by omega)
        rwa [Nat.add_zero, Nat.mod_eq_of_lt start] at this
      rw [List.getElem?_set_ne other, holds.slot _ (by omega), List.getElem?_cons_succ]

end

end NetifyAgent.RingBuffer
