import Mathlib.Data.List.Basic

/-! Lexers by longest match. A rule accepts texts and makes of a match a token,
or nothing where the match is skipped. At each point the longest nonempty prefix
is taken that any rule accepts, by the first rule that accepts it. -/
namespace NetifyAgent.Lexer

variable {α τ : Type}

structure Rule (α τ : Type) where
  accepts : List α → Bool
  action : List α → Option τ

/-- The longest match among the prefixes of at most `n` characters. -/
def longest (rules : List (Rule α τ)) (text : List α) : Nat → Option (Rule α τ × Nat)
  | 0 => none
  | n + 1 =>
    match rules.find? fun rule => rule.accepts (text.take (n + 1)) with
    | some rule => some (rule, n + 1)
    | none => longest rules text n

/-- The tokens of a text, given the matches still allowed. It ends where no rule
matches. -/
def lexFor (rules : List (Rule α τ)) : Nat → List α → List τ
  | 0, _ => []
  | fuel + 1, text =>
    match longest rules text text.length with
    | some (rule, n) => (rule.action (text.take n)).toList ++ lexFor rules fuel (text.drop n)
    | none => []

/-- The tokens of a text. -/
def lex (rules : List (Rule α τ)) (text : List α) : List τ := lexFor rules text.length text

section
variable {rules : List (Rule α τ)} {text : List α}

/-- The rule of a match accepts it. -/
theorem accepts_of_longest {n k : Nat} {rule : Rule α τ}
    (found : longest rules text n = some (rule, k)) :
    rule ∈ rules ∧ rule.accepts (text.take k) := by
  induction n with
  | zero => cases found
  | succ n ih =>
    cases first : rules.find? fun rule => rule.accepts (text.take (n + 1)) with
    | none =>
      simp only [longest, first] at found
      exact ih found
    | some other =>
      simp only [longest, first] at found
      cases found
      have accepts := List.find?_some first
      exact ⟨List.mem_of_find?_eq_some first, accepts⟩

/-- A longest match is the one of the first rule that accepts it, and no rule accepts
more. -/
theorem longest_eq_some_iff {n k : Nat} {rule : Rule α τ} :
    longest rules text n = some (rule, k) ↔ 0 < k ∧ k ≤ n ∧
      (rules.find? fun rule => rule.accepts (text.take k)) = some rule ∧
      ∀ j, k < j → j ≤ n → (rules.find? fun rule => rule.accepts (text.take j)) = none := by
  induction n with
  | zero =>
    simp only [longest, reduceCtorEq, false_iff]
    omega
  | succ n ih =>
    cases first : rules.find? fun rule => rule.accepts (text.take (n + 1)) with
    | none =>
      simp only [longest, first, ih]
      constructor
      · rintro ⟨positive, fits, here, longer⟩
        refine ⟨positive, by omega, here, fun j above within => ?_⟩
        by_cases last : j = n + 1
        · rw [last, first]
        · exact longer j above (by omega)
      · rintro ⟨positive, fits, here, longer⟩
        have inside : k ≠ n + 1 := by
          rintro rfl
          rw [first] at here
          cases here
        exact ⟨positive, by omega, here, fun j above within => longer j above (by omega)⟩
    | some other =>
      simp only [longest, first, Option.some.injEq, Prod.mk.injEq]
      constructor
      · rintro ⟨rfl, rfl⟩
        exact ⟨by omega, Nat.le_refl _, first, fun j above within => by omega⟩
      · rintro ⟨positive, fits, here, longer⟩
        by_cases last : k = n + 1
        · subst last
          rw [first] at here
          exact ⟨Option.some.inj here, rfl⟩
        · have none := longer (n + 1) (by omega) (Nat.le_refl _)
          rw [first] at none
          cases none

/-- Every token comes from a text that its rule accepts. -/
theorem exists_rule_of_mem {token : τ} (mem : token ∈ lex rules text) :
    ∃ rule ∈ rules, ∃ lexeme, rule.accepts lexeme ∧ rule.action lexeme = some token := by
  unfold lex at mem
  generalize text.length = fuel at mem
  induction fuel generalizing text with
  | zero => cases mem
  | succ fuel ih =>
    cases found : longest rules text text.length with
    | none => simp [lexFor, found] at mem
    | some next =>
      obtain ⟨rule, n⟩ := next
      simp only [lexFor, found, List.mem_append, Option.mem_toList] at mem
      rcases mem with here | later
      · obtain ⟨listed, accepts⟩ := accepts_of_longest found
        exact ⟨rule, listed, text.take n, accepts, here⟩
      · exact ih later

end

end NetifyAgent.Lexer
