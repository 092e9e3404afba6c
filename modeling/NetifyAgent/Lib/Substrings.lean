import Mathlib.Data.List.Infix

/-! Occurrences of a word in a text. A search finds the first one; a text is split at the
occurrences that searches find one behind the other, none of which overlap. A text may also be known
in pieces, which makes an occurrence either one inside a piece or one where pieces meet. -/
namespace NetifyAgent.Substrings

variable {α : Type} [DecidableEq α]

/-! ## The first occurrence -/

/-- Where the first occurrence of a word starts. -/
def find (word : List α) : List α → Option Nat
  | [] => if word = [] then some 0 else none
  | c :: rest => if word <+: c :: rest then some 0 else (find word rest).map (· + 1)

section
variable {word text : List α} {k : Nat}

/-- A word that a text starts with is found nowhere else first. -/
theorem first_iff_of_prefix (here : word <+: text) :
    some 0 = some k ↔ word <+: text.drop k ∧ ∀ j < k, ¬ word <+: text.drop j := by
  cases k with
  | zero => exact ⟨fun _ => ⟨here, fun _ early => absurd early (Nat.not_lt_zero _)⟩, fun _ => rfl⟩
  | succ k =>
    constructor
    · intro same
      cases same
    · intro found
      exact absurd here (found.2 0 (Nat.succ_pos k))

theorem find_eq_some_iff :
    find word text = some k ↔ word <+: text.drop k ∧ ∀ j < k, ¬ word <+: text.drop j := by
  induction text generalizing k with
  | nil =>
    unfold find
    by_cases none_ : word = []
    · rw [if_pos none_]
      exact first_iff_of_prefix (none_ ▸ List.nil_prefix)
    · simp [none_]
  | cons c rest ih =>
    unfold find
    by_cases here : word <+: c :: rest
    · rw [if_pos here]
      exact first_iff_of_prefix here
    · rw [if_neg here]
      cases k with
      | zero => simp [here]
      | succ k =>
        have later : find word rest = some k ↔ _ := ih
        rw [Option.map_eq_some_iff]
        simp only [Nat.add_right_cancel_iff, exists_eq_right, later, List.drop_succ_cons]
        refine and_congr_right fun _ => ⟨fun before j early => ?_, fun before j early =>
          before (j + 1) (Nat.succ_lt_succ early)⟩
        cases j with
        | zero => exact here
        | succ j => exact before j (Nat.lt_of_succ_lt_succ early)

theorem find_eq_none_iff : find word text = none ↔ ∀ k, ¬ word <+: text.drop k := by
  constructor
  · intro missing k occurs
    induction k using Nat.strong_induction_on with
    | _ k ih =>
      have found : find word text = some k := find_eq_some_iff.mpr ⟨occurs, ih⟩
      rw [missing] at found
      cases found
  · intro absent
    cases found : find word text with
    | none => rfl
    | some k => exact absurd (find_eq_some_iff.mp found).1 (absent k)

omit [DecidableEq α] in
theorem infix_iff : word <:+: text ↔ ∃ k, word <+: text.drop k := by
  rw [List.infix_iff_prefix_suffix]
  constructor
  · rintro ⟨rest, front, suffix⟩
    exact ⟨_, List.suffix_iff_eq_drop.mp suffix ▸ front⟩
  · rintro ⟨k, front⟩
    exact ⟨_, front, List.drop_suffix _ _⟩

theorem find_eq_none : find word text = none ↔ ¬ word <:+: text := by
  rw [find_eq_none_iff, infix_iff, not_exists]

/-- A text around the first occurrence. -/
theorem text_of_find (found : find word text = some k) :
    text = text.take k ++ (word ++ text.drop (k + word.length)) := by
  obtain ⟨rest, split⟩ := (find_eq_some_iff.mp found).1
  rw [← List.drop_drop, ← split, List.drop_left, split, List.take_append_drop]

theorem take_length_of_find (found : find word text = some k) : (text.take k).length = k := by
  by_cases short : k ≤ text.length
  · rw [List.length_take, Nat.min_eq_left short]
  · obtain ⟨here, before⟩ := find_eq_some_iff.mp found
    rw [List.drop_eq_nil_of_le (by omega)] at here
    exact absurd (List.drop_eq_nil_of_le (Nat.le_refl _) ▸ here) (before _ (not_le.mp short))

/-- In front of the first occurrence there is none. -/
theorem free_of_find (nonempty : word ≠ []) (found : find word text = some k) :
    ¬ word <:+: text.take k := by
  rw [infix_iff]
  rintro ⟨j, front⟩
  have early : j < k := by
    by_contra late
    rw [List.drop_eq_nil_of_le (by rw [List.length_take]; omega), List.prefix_nil] at front
    exact nonempty front
  refine (find_eq_some_iff.mp found).2 j early (front.trans ?_)
  rw [List.drop_take]
  exact List.take_prefix _ _

/-! ## A text behind another one -/

/-- No occurrence starts in the text in front. -/
def NoSeam (word front rest : List α) : Prop :=
  ∀ k < front.length, ¬ word <+: (front ++ rest).drop k

instance (word front rest : List α) : Decidable (NoSeam word front rest) :=
  inferInstanceAs (Decidable (∀ k < front.length, ¬ word <+: (front ++ rest).drop k))

/-- Without a seam the search finds what it finds in the rest. -/
theorem find_append {front rest : List α} (apart : NoSeam word front rest) :
    find word (front ++ rest) = (find word rest).map (front.length + ·) := by
  cases found : find word rest with
  | none =>
    rw [find_eq_none_iff] at found
    refine find_eq_none_iff.mpr fun k occurs => ?_
    by_cases early : k < front.length
    · exact apart k early occurs
    · obtain ⟨i, rfl⟩ := Nat.exists_eq_add_of_le (not_lt.mp early)
      rw [List.drop_length_add_append] at occurs
      exact found i occurs
  | some k =>
    obtain ⟨here, before⟩ := find_eq_some_iff.mp found
    refine find_eq_some_iff.mpr ⟨?_, fun j early occurs => ?_⟩
    · rw [List.drop_length_add_append]
      exact here
    · by_cases inside : j < front.length
      · exact apart j inside occurs
      · obtain ⟨i, rfl⟩ := Nat.exists_eq_add_of_le (not_lt.mp inside)
        rw [List.drop_length_add_append] at occurs
        exact before i (Nat.add_lt_add_iff_left.mp early) occurs

/-! ## All occurrences -/

/-- The pieces of a text between the occurrences of a word that follow each other from the left. -/
inductive Cut (word : List α) : List α → List (List α) → Prop where
  | last {text : List α} : find word text = none → Cut word text [text]
  | cut {text : List α} {k : Nat} {pieces : List (List α)} : find word text = some k →
      Cut word (text.drop (k + word.length)) pieces → Cut word text (text.take k :: pieces)

/-- The pieces, found in a number of searches. -/
def splitIn (word : List α) : Nat → List α → List (List α)
  | 0, text => [text]
  | searches + 1, text =>
    match find word text with
    | some k => text.take k :: splitIn word searches (text.drop (k + word.length))
    | none => [text]

def split (word text : List α) : List (List α) := splitIn word (text.length + 1) text

/-- The text with another one in place of every occurrence. -/
def replaceAll (word value text : List α) : List α := value.intercalate (split word text)

theorem cut_splitIn (nonempty : word ≠ []) {searches : Nat} (enough : text.length < searches) :
    Cut word text (splitIn word searches text) := by
  induction searches generalizing text with
  | zero => omega
  | succ searches ih =>
    unfold splitIn
    split
    · rename_i k found
      refine .cut found (ih ?_)
      have width := List.length_pos_iff.mpr nonempty
      have whole := congrArg List.length (text_of_find found)
      simp only [List.length_append, List.length_drop, List.length_take] at whole ⊢
      omega
    · rename_i missing
      exact .last missing

theorem cut_split (nonempty : word ≠ []) (text : List α) : Cut word text (split word text) :=
  cut_splitIn nonempty (Nat.lt_succ_self _)

variable {pieces : List (List α)}

theorem Cut.ne_nil (cut : Cut word text pieces) : pieces ≠ [] := by
  cases cut <;> exact List.cons_ne_nil _ _

/-- The word between the pieces makes the text. -/
theorem Cut.intercalate (cut : Cut word text pieces) : word.intercalate pieces = text := by
  induction cut with
  | last _ => exact List.intercalate_singleton
  | cut found rest ih =>
    rw [List.intercalate_cons_of_ne_nil rest.ne_nil, ih, List.append_assoc]
    exact (text_of_find found).symm

/-- No piece has the word in it, and every piece is a part of the text. -/
theorem Cut.free (nonempty : word ≠ []) (cut : Cut word text pieces) :
    ∀ piece ∈ pieces, ¬ word <:+: piece ∧ piece <:+: text := by
  induction cut with
  | last missing =>
    intro piece member
    rw [List.mem_singleton.mp member]
    exact ⟨find_eq_none.mp missing, List.infix_refl _⟩
  | cut found _ ih =>
    intro piece member
    rcases List.mem_cons.mp member with rfl | later
    · exact ⟨free_of_find nonempty found, (List.take_prefix _ _).isInfix⟩
    · obtain ⟨free, part⟩ := ih piece later
      exact ⟨free, part.trans (List.drop_suffix _ _).isInfix⟩

end

/-! ## Pieces -/

section
variable {good : List α → Prop}

/-- A text in pieces that are all good. -/
def Pieced (good : List α → Prop) (text : List α) : Prop :=
  ∃ pieces : List (List α), text = pieces.flatten ∧ ∀ piece ∈ pieces, good piece

omit [DecidableEq α]

theorem pieced_one {text : List α} (here : good text) : Pieced good text :=
  ⟨[text], by simp, by simpa using here⟩

theorem Pieced.append {text text' : List α} (pieced : Pieced good text) (pieced' : Pieced good text') :
    Pieced good (text ++ text') := by
  obtain ⟨pieces, rfl, each⟩ := pieced
  obtain ⟨pieces', rfl, each'⟩ := pieced'
  refine ⟨pieces ++ pieces', List.flatten_append.symm, fun piece member => ?_⟩
  exact (List.mem_append.mp member).elim (each piece) (each' piece)

/-- A part of a text in pieces consists of parts of the pieces. -/
theorem Pieced.part {text part : List α} (pieced : Pieced good text) (inside : part <:+: text) :
    Pieced (fun piece => ∃ whole, good whole ∧ piece <:+: whole) part := by
  obtain ⟨pieces, rfl, each⟩ := pieced
  induction pieces generalizing part with
  | nil =>
    rw [List.flatten_nil, List.infix_nil] at inside
    exact ⟨[], by rw [inside]; rfl, by simp⟩
  | cons first rest ih =>
    obtain ⟨here, later⟩ := List.forall_mem_cons.mp each
    rw [List.flatten_cons] at inside
    rcases List.infix_append_iff.mp inside with within | behind | ⟨front, tail, rfl, left, right⟩
    · exact pieced_one ⟨first, here, within⟩
    · exact ih later behind
    · exact (pieced_one ⟨first, here, left.isInfix⟩).append (ih later right.isInfix)

/-- Texts in pieces with a good one between them. -/
theorem pieced_intercalate {value : List α} {texts : List (List α)} (between : good value)
    (each : ∀ text ∈ texts, Pieced good text) : Pieced good (value.intercalate texts) := by
  induction texts with
  | nil => exact ⟨[], rfl, by simp⟩
  | cons first rest ih =>
    obtain ⟨here, later⟩ := List.forall_mem_cons.mp each
    cases rest with
    | nil =>
      rw [List.intercalate_singleton]
      exact here
    | cons second rest =>
      rw [List.intercalate_cons_cons]
      exact (here.append (pieced_one between)).append (ih later)

theorem Pieced.mono {good' : List α → Prop} {text : List α} (weaker : ∀ x, good x → good' x)
    (pieced : Pieced good text) : Pieced good' text := by
  obtain ⟨pieces, whole, each⟩ := pieced
  exact ⟨pieces, whole, fun piece member => weaker piece (each piece member)⟩

end

end NetifyAgent.Substrings
