import Mathlib.Data.List.TakeWhile

/-! Texts as lines, and lines cut at a separator. Lines that were written one
after the other are read back as they were. -/
namespace NetifyAgent.Lines

/-! ## Lines -/

/-- What `getline` reads up to each separator and to the end of a text. -/
def pieces (separator : Char) : List Char → List (List Char)
  | [] => []
  | c :: rest =>
    if c = separator then [] :: pieces separator rest
    else
      match pieces separator rest with
      | [] => [[c]]
      | piece :: others => (c :: piece) :: others

/-- The lines of a text. -/
def lines (text : List Char) : List (List Char) := pieces '\n' text

/-- Lines as they are written. -/
def unlines (ls : List (List Char)) : List Char := ls.flatMap (· ++ ['\n'])

theorem pieces_append {separator : Char} {piece : List Char} (whole : separator ∉ piece)
    (rest : List Char) :
    pieces separator (piece ++ separator :: rest) = piece :: pieces separator rest := by
  induction piece with
  | nil => simp [pieces]
  | cons c piece ih =>
    have other : c ≠ separator := fun same => whole (same ▸ List.mem_cons_self ..)
    have later := ih fun member => whole (List.mem_cons_of_mem _ member)
    rw [List.cons_append, pieces, if_neg other, later]

theorem lines_append {line : List Char} (whole : '\n' ∉ line) (rest : List Char) :
    lines (line ++ '\n' :: rest) = line :: lines rest :=
  pieces_append whole rest

theorem lines_unlines {ls : List (List Char)} (whole : ∀ line ∈ ls, '\n' ∉ line) :
    lines (unlines ls) = ls := by
  induction ls with
  | nil => rfl
  | cons line ls ih =>
    have first := whole line (List.mem_cons_self ..)
    have others := ih fun other member => whole other (List.mem_cons_of_mem _ member)
    have text : unlines (line :: ls) = line ++ '\n' :: unlines ls := by
      simp [unlines]
    rw [text, lines_append first, others]

/-- A piece has no separator. -/
theorem mem_pieces {separator : Char} {text piece : List Char}
    (member : piece ∈ pieces separator text) : separator ∉ piece := by
  induction text generalizing piece with
  | nil => cases member
  | cons c text ih =>
    unfold pieces at member
    split at member
    · rcases List.mem_cons.mp member with rfl | later
      · exact List.not_mem_nil
      · exact ih later
    case isFalse other =>
      split at member
      · rw [List.mem_singleton.mp member, List.mem_singleton]
        exact Ne.symm other
      · next first others below =>
        rcases List.mem_cons.mp member with rfl | later
        · intro inside
          rcases List.mem_cons.mp inside with here | there
          · exact other here.symm
          · exact ih (below ▸ List.mem_cons_self ..) there
        · exact ih (below ▸ List.mem_cons_of_mem _ later)

theorem mem_lines {text line : List Char} (member : line ∈ lines text) : '\n' ∉ line :=
  mem_pieces member

theorem mem_of_mem_pieces {separator : Char} {text piece : List Char}
    (member : piece ∈ pieces separator text) : piece ⊆ text := by
  induction text generalizing piece with
  | nil => cases member
  | cons c text ih =>
    unfold pieces at member
    split at member
    · rcases List.mem_cons.mp member with rfl | later
      · exact List.nil_subset _
      · exact List.Subset.trans (ih later) (List.subset_cons_self ..)
    · split at member
      · obtain rfl := List.mem_singleton.mp member
        exact List.cons_subset_cons c (List.nil_subset _)
      · next first others below =>
        rcases List.mem_cons.mp member with rfl | later
        · exact List.cons_subset_cons c (ih (below ▸ List.mem_cons_self ..))
        · refine List.Subset.trans (ih (below ▸ List.mem_cons_of_mem _ later)) ?_
          exact List.subset_cons_self ..

theorem pieces_whole {separator : Char} {piece : List Char} (nonempty : piece ≠ [])
    (whole : separator ∉ piece) : pieces separator piece = [piece] := by
  induction piece with
  | nil => exact absurd rfl nonempty
  | cons c piece ih =>
    have other : c ≠ separator := fun same => whole (same ▸ List.mem_cons_self ..)
    rw [pieces, if_neg other]
    by_cases last : piece = []
    · rw [last, pieces]
    · rw [ih last fun member => whole (List.mem_cons_of_mem _ member)]

/-! ## Joining -/

theorem intercalate_cons {separator : Char} (text next : List Char) (texts : List (List Char)) :
    [separator].intercalate (text :: next :: texts) =
      text ++ separator :: [separator].intercalate (next :: texts) := by
  rw [List.intercalate_cons_cons, List.append_assoc, List.singleton_append]

theorem mem_intercalate {separator c : Char} {texts : List (List Char)}
    (member : c ∈ [separator].intercalate texts) : c = separator ∨ ∃ text ∈ texts, c ∈ text := by
  induction texts with
  | nil => cases member
  | cons text texts ih =>
    cases texts with
    | nil =>
      rw [List.intercalate_singleton] at member
      exact .inr ⟨text, List.mem_cons_self .., member⟩
    | cons next texts =>
      rw [intercalate_cons] at member
      rcases List.mem_append.mp member with here | behind
      · exact .inr ⟨text, List.mem_cons_self .., here⟩
      · rcases List.mem_cons.mp behind with same | later
        · exact .inl same
        · rcases ih later with same | ⟨other, inside, found⟩
          · exact .inl same
          · exact .inr ⟨other, List.mem_cons_of_mem _ inside, found⟩

/-- Texts that are joined by a separator are its pieces. -/
theorem pieces_intercalate {separator : Char} {texts : List (List Char)}
    (whole : ∀ text ∈ texts, text ≠ [] ∧ separator ∉ text) :
    pieces separator ([separator].intercalate texts) = texts := by
  induction texts with
  | nil => rfl
  | cons text texts ih =>
    obtain ⟨nonempty, free⟩ := whole text (List.mem_cons_self ..)
    have later := ih fun other member => whole other (List.mem_cons_of_mem _ member)
    cases texts with
    | nil => rw [List.intercalate_singleton, pieces_whole nonempty free]
    | cons next texts => rw [intercalate_cons, pieces_append free, later]

/-! ## Separators -/

/-- The text before and after the first separator. -/
def cutFirst (separator : Char) (text : List Char) : Option (List Char × List Char) :=
  match text.dropWhile (· ≠ separator) with
  | [] => none
  | _ :: rest => some (text.takeWhile (· ≠ separator), rest)

/-- The text before and after the last separator. -/
def cutLast (separator : Char) (text : List Char) : Option (List Char × List Char) :=
  (cutFirst separator text.reverse).map fun cut => (cut.2.reverse, cut.1.reverse)

theorem cutFirst_append {separator : Char} {start : List Char} (free : separator ∉ start)
    (rest : List Char) : cutFirst separator (start ++ separator :: rest) = some (start, rest) := by
  have all (c : Char) (member : c ∈ start) : decide (c ≠ separator) = true :=
    decide_eq_true fun same => free (same ▸ member)
  unfold cutFirst
  rw [List.dropWhile_append_of_pos all, List.takeWhile_append_of_pos all]
  simp

theorem cutFirst_eq_some {separator : Char} {text start rest : List Char} :
    cutFirst separator text = some (start, rest) ↔
      separator ∉ start ∧ text = start ++ separator :: rest := by
  constructor
  · intro cut
    have whole := List.takeWhile_append_dropWhile (p := (· ≠ separator)) (l := text)
    unfold cutFirst at cut
    split at cut
    · cases cut
    · next c after dropped =>
      cases cut
      have stop : ¬ decide (c ≠ separator) = true := by
        have head := List.head?_dropWhile_not (· ≠ separator) text
        rw [dropped] at head
        simpa using head
      obtain rfl : c = separator := by simpa using stop
      refine ⟨fun inside => ?_, by rw [← dropped, whole]⟩
      have passed := List.mem_takeWhile_imp inside
      simp at passed
  · rintro ⟨free, rfl⟩
    exact cutFirst_append free rest

theorem cutFirst_eq_none {separator : Char} {text : List Char} :
    cutFirst separator text = none ↔ separator ∉ text := by
  constructor
  · intro uncut inside
    obtain ⟨start, rest, rfl, free⟩ := List.eq_append_cons_of_mem inside
    rw [cutFirst_append free] at uncut
    cases uncut
  · intro free
    cases cut : cutFirst separator text with
    | none => rfl
    | some parts =>
      obtain ⟨-, rfl⟩ := cutFirst_eq_some.mp cut
      exact absurd (by simp) free

theorem cutFirst_subset {separator : Char} {text start rest : List Char}
    (cut : cutFirst separator text = some (start, rest)) : start ⊆ text ∧ rest ⊆ text := by
  obtain ⟨-, rfl⟩ := cutFirst_eq_some.mp cut
  exact ⟨List.subset_append_left ..,
    List.Subset.trans (List.subset_cons_self ..) (List.subset_append_right ..)⟩

theorem cutLast_subset {separator : Char} {text start rest : List Char}
    (cut : cutLast separator text = some (start, rest)) : start ⊆ text ∧ rest ⊆ text := by
  obtain ⟨⟨last, front⟩, reversed, same⟩ := Option.map_eq_some_iff.mp cut
  obtain ⟨lastInside, frontInside⟩ := cutFirst_subset reversed
  cases same
  constructor
  · intro c member
    exact List.mem_reverse.mp (frontInside (List.mem_reverse.mp member))
  · intro c member
    exact List.mem_reverse.mp (lastInside (List.mem_reverse.mp member))

theorem cutLast_append {separator : Char} {rest : List Char} (free : separator ∉ rest)
    (start : List Char) : cutLast separator (start ++ separator :: rest) = some (start, rest) := by
  have reversed : (start ++ separator :: rest).reverse =
      rest.reverse ++ separator :: start.reverse := by simp
  unfold cutLast
  rw [reversed, cutFirst_append (mt List.mem_reverse.mp free), Option.map_some,
    List.reverse_reverse, List.reverse_reverse]

/-- Behind the last separator there is none. -/
theorem cutLast_free {separator : Char} {text start rest : List Char}
    (cut : cutLast separator text = some (start, rest)) : separator ∉ rest := by
  obtain ⟨⟨last, front⟩, reversed, same⟩ := Option.map_eq_some_iff.mp cut
  cases same
  exact mt List.mem_reverse.mp (cutFirst_eq_some.mp reversed).1

theorem cutLast_eq_none {separator : Char} {text : List Char} :
    cutLast separator text = none ↔ separator ∉ text := by
  unfold cutLast
  rw [Option.map_eq_none_iff, cutFirst_eq_none, List.mem_reverse]

end NetifyAgent.Lines
