import NetifyAgent.ApplicationTables
import Mathlib.Data.Nat.Digits.Lemmas

/-! Numbers as they are printed. What `<<`, `to_string` and `inet_ntop` print of a
number, `strtoul` and `stoul` read back. -/
namespace NetifyAgent.NumberTexts

section
variable {base n : Nat}

theorem digitValue_digitChar {d : Nat} (digit : d < 16) :
    digitValue (Nat.digitChar d) = some d := by
  revert d
  decide

theorem mem_toDigits (large : 1 < base) {c : Char} (member : c ∈ Nat.toDigits base n) :
    ∃ d < base, c = Nat.digitChar d := by
  induction n using Nat.strong_induction_on with
  | _ n ih =>
    rw [Nat.toDigits_eq_if large] at member
    split at member
    case isTrue small => exact ⟨n, small, List.mem_singleton.mp member⟩
    case isFalse more =>
      rcases List.mem_append.mp member with before | last
      · exact ih (n / base) (Nat.div_lt_self (by omega) large) before
      · exact ⟨n % base, Nat.mod_lt n (by omega), List.mem_singleton.mp last⟩

/-- What a digit is not. -/
theorem digit_plain (large : 1 < base) (fits : base ≤ 16) {c : Char}
    (member : c ∈ Nat.toDigits base n) : isSpace c = false ∧ c ∉ "-+:/.\n".toList := by
  obtain ⟨d, below, rfl⟩ := mem_toDigits large member
  have all : ∀ d < 16, isSpace (Nat.digitChar d) = false ∧
      Nat.digitChar d ∉ "-+:/.\n".toList := by decide
  exact all d (by omega)

/-- A number other than zero has no leading zero. -/
theorem head_toDigits (large : 1 < base) (nonzero : n ≠ 0) :
    (Nat.toDigits base n).head? ≠ some '0' := by
  induction n using Nat.strong_induction_on with
  | _ n ih =>
    rw [Nat.toDigits_eq_if large]
    split
    case isTrue small => simpa using nonzero
    case isFalse more =>
      have some := List.head?_eq_some_head (@Nat.toDigits_ne_nil (n / base) base)
      have front := ih (n / base) (Nat.div_lt_self (by omega) large)
        (Nat.div_pos (by omega) (by omega)).ne'
      rw [some] at front
      rwa [List.head?_append, some, Option.some_or]

theorem leadingDigits_append {text : List Char}
    (all : (leadingDigits base text).length = text.length) (rest : List Char) :
    leadingDigits base (text ++ rest) = leadingDigits base text ++ leadingDigits base rest := by
  induction text with
  | nil => rfl
  | cons c text ih =>
    rw [List.cons_append, leadingDigits, leadingDigits] at *
    cases value : digitValue c with
    | none => simp [value] at all
    | some d =>
      simp only [value] at all ⊢
      by_cases below : d < base
      · rw [if_pos below] at all ⊢
        rw [if_pos below, List.cons_append, ih (by simpa using all)]
      · simp [below] at all

theorem leadingDigits_digit {d : Nat} (below : d < base) (fits : base ≤ 16) :
    leadingDigits base [Nat.digitChar d] = [d] := by
  rw [leadingDigits, digitValue_digitChar (by omega)]
  simp only [if_pos below, leadingDigits]

/-- The digits of a number are all read, and are those of the number. -/
theorem leadingDigits_toDigits (large : 1 < base) (fits : base ≤ 16) (n : Nat) :
    (leadingDigits base (Nat.toDigits base n)).length = (Nat.toDigits base n).length ∧
      Nat.ofDigits base (leadingDigits base (Nat.toDigits base n)).reverse = n := by
  induction n using Nat.strong_induction_on with
  | _ n ih =>
    rw [Nat.toDigits_eq_if large]
    split
    case isTrue small =>
      rw [leadingDigits_digit small fits]
      simp
    case isFalse more =>
      obtain ⟨all, number⟩ := ih (n / base) (Nat.div_lt_self (by omega) large)
      have last := Nat.mod_lt n (show 0 < base by omega)
      rw [leadingDigits_append all, leadingDigits_digit last fits]
      refine ⟨by simp [all], ?_⟩
      rw [List.reverse_append, List.reverse_singleton, List.singleton_append, Nat.ofDigits_cons,
        number]
      exact Nat.mod_add_div n base

/-- The text of a number is read from its first character on. -/
theorem start_toDigits (large : 1 < base) (fits : base ≤ 16) :
    (Nat.toDigits base n).dropWhile isSpace = Nat.toDigits base n ∧
      (Nat.toDigits base n).head? ≠ some '-' ∧ (Nat.toDigits base n).head? ≠ some '+' := by
  obtain ⟨c, rest, text⟩ := List.exists_cons_of_ne_nil (@Nat.toDigits_ne_nil n base)
  obtain ⟨visible, plain⟩ := @digit_plain base n large fits c (by simp [text])
  rw [text]
  refine ⟨List.dropWhile_cons_of_neg (by simp [visible]), ?_, ?_⟩
  · rintro same
    cases same
    simp at plain
  · rintro same
    cases same
    simp at plain

/-- Only zero starts with a zero. -/
theorem toDigits_zero_of_head (large : 1 < base)
    (zero : (Nat.toDigits base n).head? = some '0') : n = 0 := by
  by_contra nonzero
  exact head_toDigits large nonzero zero

/-- **`stoul`** reads what was printed in its base. -/
theorem stoul_toDigits (large : 1 < base) (fits : base ≤ 16) (small : n < 2 ^ 64) :
    stoul base (Nat.toDigits base n) = some n := by
  obtain ⟨start, minus, plus⟩ := @start_toDigits base n large fits
  obtain ⟨all, number⟩ := leadingDigits_toDigits large fits n
  have noHex : ¬ (base = 16 ∧ (Nat.toDigits base n).head? = some '0' ∧
      ((Nat.toDigits base n)[1]? = some 'x' ∨ (Nat.toDigits base n)[1]? = some 'X') ∧
        leadingDigits base ((Nat.toDigits base n).drop 2) ≠ []) := by
    rintro ⟨-, zero, second, -⟩
    rw [toDigits_zero_of_head large zero, Nat.toDigits_zero] at second
    simp at second
  have present : leadingDigits base (Nat.toDigits base n) ≠ [] := by
    rw [← List.length_pos_iff, all, List.length_pos_iff]
    exact Nat.toDigits_ne_nil
  simp only [stoul, start, minus, plus, or_self, if_false, if_neg noHex, number, present, false_or,
    if_neg (Nat.not_le.mpr small)]

/-- **`strtoul`** reads what was printed in decimal. -/
theorem strtoul_toDigits (small : n < 2 ^ 64) : strtoul (Nat.toDigits 10 n) = n := by
  obtain ⟨start, minus, plus⟩ := @start_toDigits 10 n (by decide) (by decide)
  obtain ⟨-, number⟩ := @leadingDigits_toDigits 10 (by decide) (by decide) n
  by_cases zero : (Nat.toDigits 10 n).head? = some '0'
  · rw [toDigits_zero_of_head (by decide) zero, Nat.toDigits_zero]
    decide
  · simp only [strtoul, start, minus, plus, zero, or_self, false_and, if_false, number,
      if_neg (Nat.not_le.mpr small)]

/-- An application id is read back. -/
theorem appId_toDigits (small : n < 2 ^ 32) : appId (Nat.toDigits 10 n) = n := by
  rw [appId, strtoul_toDigits (by omega), Nat.mod_eq_of_lt small]

end

end NetifyAgent.NumberTexts
