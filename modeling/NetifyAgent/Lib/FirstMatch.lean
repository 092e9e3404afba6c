import Mathlib.Data.List.Perm.Basic

/-! The first match over a collection whose order is not fixed. What is seen of
the first match is the same in every order if and only if all matches look the
same. -/
namespace NetifyAgent.FirstMatch

variable {α β γ : Type} {f : α → Option β} {view : β → γ}

/-- All matches among some elements look the same. -/
def Agree (f : α → Option β) (view : β → γ) (elements : List α) : Prop :=
  ∀ a ∈ elements, ∀ b ∈ elements, ∀ x y, f a = some x → f b = some y → view x = view y

/-- What is seen of the first match. -/
def first (f : α → Option β) (view : β → γ) (elements : List α) : Option γ :=
  (elements.findSome? f).map view

theorem first_some {elements : List α} {seen : γ} (found : first f view elements = some seen) :
    ∃ a ∈ elements, ∃ x, f a = some x ∧ view x = seen := by
  obtain ⟨x, here, rfl⟩ := Option.map_eq_some_iff.mp found
  obtain ⟨a, member, matched⟩ := List.exists_of_findSome?_eq_some here
  exact ⟨a, member, x, matched, rfl⟩

theorem first_none {elements : List α} (found : first f view elements = none) :
    ∀ a ∈ elements, f a = none := by
  rw [first, Option.map_eq_none_iff] at found
  exact List.findSome?_eq_none_iff.mp found

variable (view) in
/-- An element that matches can come first. -/
theorem first_of_order [DecidableEq α] {elements : List α} {a : α} (member : a ∈ elements) {x : β}
    (matched : f a = some x) :
    ∃ order, order.Perm elements ∧ first f view order = some (view x) := by
  refine ⟨a :: elements.erase a, (List.perm_cons_erase member).symm, ?_⟩
  rw [first, List.findSome?_cons, matched]
  rfl

/-- Where all matches agree, any of them is seen. -/
theorem Agree.first_eq {elements order : List α} (agree : Agree f view elements)
    (inside : ∀ a ∈ order, f a ≠ none → a ∈ elements) {a : α} (member : a ∈ order) {x : β}
    (matched : f a = some x) : first f view order = some (view x) := by
  cases found : first f view order with
  | none =>
    rw [first_none found a member] at matched
    cases matched
  | some seen =>
    obtain ⟨b, member', y, matched', rfl⟩ := first_some found
    have here := inside a member (by rw [matched]; simp)
    have there := inside b member' (by rw [matched']; simp)
    rw [agree b there a here y x matched' matched]

/-- **Order.** In a collection and in one with more elements that match nothing the
first match is seen the same in every order, exactly if all matches agree. -/
theorem agree_iff_order [DecidableEq α] {elements : List α} (more : List α)
    (others : ∀ a ∈ more, f a = none) :
    Agree f view elements ↔
      ∀ order, order.Perm (more ++ elements) → first f view order = first f view elements := by
  constructor
  · intro agree order perm
    have inside : ∀ a ∈ order, f a ≠ none → a ∈ elements := by
      intro a member matched
      rcases List.mem_append.mp (perm.mem_iff.mp member) with new | old
      · exact absurd (others a new) matched
      · exact old
    cases found : first f view elements with
    | none =>
      rw [first, Option.map_eq_none_iff, List.findSome?_eq_none_iff]
      intro a member
      by_contra matched
      exact matched (first_none found a (inside a member matched))
    | some seen =>
      obtain ⟨a, member, x, matched, rfl⟩ := first_some found
      exact agree.first_eq inside (perm.mem_iff.mpr (List.mem_append_right _ member)) matched
  · intro same a member b member' x y matched matched'
    obtain ⟨order, perm, here⟩ := first_of_order view (List.mem_append_right more member)
      matched
    obtain ⟨order', perm', there⟩ := first_of_order view
      (List.mem_append_right more member') matched'
    have equal := (same order perm).trans (same order' perm').symm
    rw [here, there] at equal
    exact Option.some.inj equal

end NetifyAgent.FirstMatch
