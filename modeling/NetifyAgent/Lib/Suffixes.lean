import Mathlib.Data.Nat.Find
import NetifyAgent.Lib.Lines

/-! The parts of a text behind its separators. They lie one inside the other, so
that among those of a kind there is a longest, which a search finds that drops
one part after the other from the front. -/
namespace NetifyAgent.Suffixes
open Lines

variable {separator : Char}

/-- A text itself, or what follows one of its separators unless it is empty. -/
def Tail (separator : Char) (text part : List Char) : Prop :=
  part = text ∨ (part ≠ [] ∧ ∃ start, text = start ++ separator :: part)

/-- The longest part of a kind. -/
def Longest (separator : Char) (kind : List Char → Prop) (text part : List Char) : Prop :=
  Tail separator text part ∧ kind part ∧
    ∀ other, Tail separator text other → kind other → other.length ≤ part.length

theorem tail_self (text : List Char) : Tail separator text text := .inl rfl

theorem Tail.trans {text part inner : List Char} (outer : Tail separator text part)
    (within : Tail separator part inner) : Tail separator text inner := by
  rcases within with rfl | ⟨nonempty, start', rfl⟩
  · exact outer
  · rcases outer with rfl | ⟨-, start, rfl⟩
    · exact .inr ⟨nonempty, start', rfl⟩
    · exact .inr ⟨nonempty, start ++ separator :: start', by simp⟩

/-- Of two parts the shorter one is a part of the longer one. -/
theorem Tail.nested {text part other : List Char} (here : Tail separator text part)
    (there : Tail separator text other) (shorter : other.length ≤ part.length) :
    Tail separator part other := by
  rcases here with rfl | ⟨nonempty, start, split⟩
  · exact there
  · rcases there with rfl | ⟨nonempty', start', split'⟩
    · rw [split, List.length_append, List.length_cons] at shorter
      omega
    · rw [split] at split'
      rcases List.append_eq_append_iff.mp split' with ⟨more, -, rest⟩ | ⟨more, -, rest⟩
      · cases more with
        | nil =>
          cases rest
          exact .inl rfl
        | cons c more =>
          obtain ⟨-, rfl⟩ := List.cons.inj rest
          exact .inr ⟨nonempty', more, rfl⟩
      · cases more with
        | nil =>
          cases rest
          exact .inl rfl
        | cons c more =>
          have inside := (List.cons.inj rest).2
          have length := congrArg List.length inside
          simp at length
          omega

theorem Tail.length_le {text part : List Char} (tail : Tail separator text part) :
    part.length ≤ text.length := by
  rcases tail with rfl | ⟨-, start, rfl⟩
  · exact Nat.le_refl _
  · rw [List.length_append, List.length_cons]
    omega

/-- Parts of one length are the same. -/
theorem Tail.unique {text part other : List Char} (here : Tail separator text part)
    (there : Tail separator text other) (same : other.length = part.length) : other = part := by
  rcases here.nested there (Nat.le_of_eq same) with equal | ⟨-, start, split⟩
  · exact equal
  · rw [split, List.length_append, List.length_cons] at same
    omega

theorem Longest.unique {kind : List Char → Prop} {text part other : List Char}
    (here : Longest separator kind text part) (there : Longest separator kind text other) :
    other = part :=
  here.1.unique there.1
    (Nat.le_antisymm (here.2.2 other there.1 there.2.1) (there.2.2 part here.1 here.2.1))

/-- A text of the kind is its own longest part. -/
theorem longest_self {kind : List Char → Prop} {text : List Char} (member : kind text) :
    Longest separator kind text text :=
  ⟨tail_self text, member, fun _ tail _ => tail.length_le⟩

/-- Where a text has a part of a kind it has a longest one. -/
theorem exists_longest {kind : List Char → Prop} {text part : List Char}
    (tail : Tail separator text part) (member : kind part) :
    ∃ longest, Longest separator kind text longest := by
  classical
  let sizes := fun n => ∃ other, Tail separator text other ∧ kind other ∧ other.length = n
  have held : sizes part.length := ⟨part, tail, member, rfl⟩
  obtain ⟨longest, tail', member', size⟩ := Nat.findGreatest_spec (P := sizes) tail.length_le held
  refine ⟨longest, tail', member', fun other tail'' member'' => ?_⟩
  rw [size]
  exact Nat.le_findGreatest tail''.length_le ⟨other, tail'', member'', rfl⟩

/-- The parts of a text without a separator. -/
theorem tail_uncut {text part : List Char} (uncut : cutFirst separator text = none) :
    Tail separator text part ↔ part = text := by
  constructor
  · rintro (same | ⟨-, start, split⟩)
    · exact same
    · exact absurd (split ▸ by simp) (cutFirst_eq_none.mp uncut)
  · exact .inl

/-- The parts of a text with a separator are itself and those behind the first. -/
theorem tail_cut {text part start rest : List Char}
    (cut : cutFirst separator text = some (start, rest)) (nonempty : rest ≠ []) :
    Tail separator text part ↔ part = text ∨ Tail separator rest part := by
  obtain ⟨free, rfl⟩ := cutFirst_eq_some.mp cut
  have first : Tail separator (start ++ separator :: rest) rest := .inr ⟨nonempty, start, rfl⟩
  constructor
  · intro tail
    by_cases shorter : part.length ≤ rest.length
    · exact .inr (first.nested tail shorter)
    · left
      rcases tail with same | ⟨-, start', split⟩
      · exact same
      · rcases List.append_eq_append_iff.mp split with ⟨more, -, inside⟩ | ⟨more, rfl, inside⟩
        · have length := congrArg List.length inside
          rw [List.length_append, List.length_cons, List.length_cons] at length
          omega
        · cases more with
          | nil =>
            cases inside
            exact absurd (Nat.le_refl _) shorter
          | cons c more =>
            obtain ⟨rfl, -⟩ := List.cons.inj inside
            exact absurd (by simp) free
  · rintro (rfl | later)
    · exact tail_self _
    · exact first.trans later

/-- A text that ends at its first separator has no other part. -/
theorem tail_ended {text part start : List Char}
    (cut : cutFirst separator text = some (start, [])) :
    Tail separator text part ↔ part = text := by
  obtain ⟨free, rfl⟩ := cutFirst_eq_some.mp cut
  constructor
  · rintro (same | ⟨nonempty, start', split⟩)
    · exact same
    · rcases List.append_eq_append_iff.mp split with ⟨more, -, inside⟩ | ⟨more, rfl, inside⟩
      · cases more with
        | nil =>
          cases inside
          exact absurd rfl nonempty
        | cons c more =>
          have length := congrArg List.length inside
          simp at length
      · cases more with
        | nil =>
          cases inside
          exact absurd rfl nonempty
        | cons c more =>
          obtain ⟨rfl, -⟩ := List.cons.inj inside
          exact absurd (by simp) free
  · exact .inl

end NetifyAgent.Suffixes
