import NetifyAgent.FlowExprNegation

/-! Regular expressions in flow expressions, from the scanner to the host name. The
scanner takes a literal up to the last quote of its line, or for a name; the
action looks for the end of the scheme in a loop that keeps what it finds. -/
namespace NetifyAgent.FlowExprRegex
open NetifyAgent.Lexer NetifyAgent.Loops FlowTokens StateTransition

/-! ## The scanner -/

/-- A regular expression between quotes, with its scheme. -/
def literal (w : List Char) : List Char := '\'' :: ("rx:".toList ++ w ++ ['\''])

/-- The scanner's token is the regular expression, with its whole text. -/
def Scanned (w after : List Char) : Prop :=
  (flowTokens (literal w ++ after)).head? = some (.value (.regex (literal w)))

/-- The rule for a single character. -/
def single : Rule Char FlowToken :=
  ⟨fun text => text.length == 1 && text != ['\n'], fun text => text.head?.map charToken⟩

section
variable (body : List Char)

theorem addrIpv4_quoted (n : Nat) : addrIpv4 n ('\'' :: body) = false := by
  have quote : digit '\'' = false := rfl
  cases n <;> simp [addrIpv4, quote]

theorem addrIpv6_quoted : addrIpv6 ('\'' :: body) = false := by
  have quote : hexDigit '\'' = false := rfl
  simp [addrIpv6, quote]

theorem withPrefix_quoted {addr : List Char → Bool} (other : ∀ body, addr ('\'' :: body) = false) :
    withPrefix addr ('\'' :: body) = false := by
  simp [withPrefix, other]

theorem number_quoted : number ('\'' :: body) = false := by
  have quote : digit '\'' = false := rfl
  simp [number, quote]

theorem words_quoted : (words.map fun entry => word entry.1 entry.2).find?
    (fun rule => rule.accepts ('\'' :: body)) = none := by
  rw [List.find?_eq_none]
  intro rule member accepted
  obtain ⟨entry, listed, rfl⟩ := List.mem_map.mp member
  have other : ∀ entry ∈ words, entry.1.toList.head? ≠ some '\'' := by decide
  have same : '\'' :: body = entry.1.toList := by simpa [word] using accepted
  exact other entry listed (by rw [← same]; rfl)

/-- The rules that accept a text which starts with a quote. -/
theorem find_quoted : (rules.find? fun rule => rule.accepts ('\'' :: body)) =
    if name ('\'' :: body) then some (valued name .name)
    else if regex ('\'' :: body) then some (valued regex .regex)
    else if body = [] then some single else none := by
  have wide := withPrefix_quoted body (addrIpv4_quoted · 4)
  have wide6 := withPrefix_quoted body addrIpv6_quoted
  have letters : ∀ text ∈ ["true", "false", "and", "or"],
      classes (text.toList.map either) ('\'' :: body) = false := by
    simp only [List.mem_cons, List.not_mem_nil, or_false]
    rintro text (rfl | rfl | rfl | rfl) <;> rfl
  have spelled : ∀ text ∈ ["::1", "==", "!=", ">=", "<=", "&&", "||"],
      ('\'' :: body == text.toList) = false := by
    simp only [List.mem_cons, List.not_mem_nil, or_false]
    rintro text (rfl | rfl | rfl | rfl | rfl | rfl | rfl) <;> rfl
  have mac : addrMac ('\'' :: body) = false := rfl
  have spaces : ('\'' :: body != [] && ('\'' :: body).all space) = false := rfl
  have last : (('\'' :: body).length == 1 && '\'' :: body != ['\n']) = decide (body = []) := by
    cases body <;> simp
  unfold rules
  rw [List.find?_append, words_quoted, Option.none_or]
  simp only [List.mem_cons, List.not_mem_nil, or_false, forall_eq_or_imp, forall_eq] at letters spelled
  simp only [List.find?_cons, List.find?_nil, valued, FlowTokens.letters, word, mac, wide, wide6,
    addrIpv4_quoted, addrIpv6_quoted, number_quoted, spaces, last, letters, spelled]
  cases name ('\'' :: body) <;> cases regex ('\'' :: body) <;> cases body <;> rfl

end

section
variable {w after more : List Char}

theorem quoted_append {inside : List Char → Bool} (body : List Char) (last : Char) :
    quoted inside ('\'' :: (body ++ [last])) = (last == '\'' && inside body) := by
  simp [quoted]

/-- A literal is a name where all that follows the scheme may stand in a name. -/
theorem name_literal (w : List Char) : name (literal w) = w.all nameChar := by
  rw [literal, name, quoted_append]
  rfl

theorem regex_literal (w : List Char) : regex (literal w) = w.all (· != '\n') := by
  rw [literal, regex, quoted_append]
  rfl

theorem literal_append (w more : List Char) (last : Char) : literal w ++ (more ++ [last]) =
    '\'' :: ("rx:".toList ++ w ++ ['\''] ++ more ++ [last]) := by
  simp [literal]

/-- What starts with a literal and goes on is no name. -/
theorem name_longer (w : List Char) (last : Char) :
    name (literal w ++ (more ++ [last])) = false := by
  have quote : nameChar '\'' = false := rfl
  rw [literal_append, name, quoted_append]
  simp [quote]

/-- What starts with a literal and goes on is a regular expression where it ends in
a quote on the same line. -/
theorem regex_longer (w : List Char) (last : Char) :
    regex (literal w ++ (more ++ [last])) =
      (last == '\'' && (w ++ more).all (· != '\n')) := by
  rw [literal_append, regex, quoted_append]
  simp

theorem take_literal (w after : List Char) (j : Nat) :
    (literal w ++ after).take ((literal w).length + j) = literal w ++ after.take j := by
  rw [List.take_append, List.take_of_length_le (by omega), Nat.add_sub_cancel_left]

/-- The rule for what starts with a literal. -/
theorem find_literal (w : List Char) : (rules.find? fun rule => rule.accepts (literal w)) =
    if w.all nameChar then some (valued name .name)
    else if w.all (· != '\n') then some (valued regex .regex) else none := by
  have found := find_quoted ("rx:".toList ++ w ++ ['\''])
  have used : ¬ "rx:".toList ++ w ++ ['\''] = [] := by simp
  rw [← literal, name_literal, regex_literal, if_neg used] at found
  exact found

theorem find_longer (w : List Char) (last : Char) :
    (rules.find? fun rule => rule.accepts (literal w ++ (more ++ [last]))) =
      if last = '\'' ∧ (w ++ more).all (· != '\n') then some (valued regex .regex) else none := by
  have found := find_quoted ("rx:".toList ++ w ++ ['\''] ++ more ++ [last])
  have used : ¬ "rx:".toList ++ w ++ ['\''] ++ more ++ [last] = [] := by simp
  rw [← literal_append, name_longer, regex_longer, if_neg used] at found
  simpa only [Bool.false_eq_true, if_false, Bool.and_eq_true, beq_iff_eq] using found

/-- The scanner takes the first token of what starts with a quote from the longest
match. -/
theorem head_flowTokens {body : List Char} {rule : Rule Char FlowToken} {n : Nat}
    (found : longest rules ('\'' :: body) (body.length + 1) = some (rule, n)) :
    (flowTokens ('\'' :: body)).head? = rule.action (('\'' :: body).take n) := by
  obtain ⟨positive, fits, here, -⟩ := longest_eq_some_iff.mp found
  obtain ⟨k, rfl⟩ : ∃ k, n = k + 1 := ⟨n - 1, by omega⟩
  have spoken : (rule.action (('\'' :: body).take (k + 1))).isSome := by
    rw [List.take_succ_cons] at here ⊢
    rw [find_quoted] at here
    split at here
    · cases here
      rfl
    · split at here
      · cases here
        rfl
      · split at here
        · cases here
          rfl
        · cases here
  obtain ⟨token, acted⟩ := Option.isSome_iff_exists.mp spoken
  rw [flowTokens, lex, List.length_cons, lexFor, List.length_cons, found]
  simp only [acted]
  rfl

/-- A quote on the line that starts here. -/
theorem quote_on_line (after : List Char) : '\'' ∈ after.takeWhile (· ≠ '\n') ↔
    ∃ j, ∃ inside : j < after.length,
      after[j] = '\'' ∧ (after.take j).all (· != '\n') = true := by
  induction after with
  | nil => simp
  | cons c after ih =>
    by_cases line : c = '\n'
    · subst line
      rw [List.takeWhile_cons_of_neg (by simp)]
      refine iff_of_false List.not_mem_nil ?_
      rintro ⟨j, inside, quote, clear⟩
      cases j with
      | zero => cases quote
      | succ j => simp at clear
    · rw [List.takeWhile_cons_of_pos (by simpa using line), List.mem_cons, ih]
      constructor
      · rintro (same | ⟨j, inside, quote, clear⟩)
        · exact ⟨0, Nat.succ_pos _, same.symm, rfl⟩
        · refine ⟨j + 1, Nat.succ_lt_succ inside, quote, ?_⟩
          rw [List.take_succ_cons, List.all_cons, clear, Bool.and_true]
          simpa using line
      · rintro ⟨j, inside, quote, clear⟩
        cases j with
        | zero => exact .inl quote.symm
        | succ j =>
          rw [List.take_succ_cons, List.all_cons, Bool.and_eq_true] at clear
          exact .inr ⟨j, Nat.lt_of_succ_lt_succ inside, quote, clear.2⟩

/-- **Scanning.** A literal is scanned as it stands exactly if it is no name and no quote
follows on its line. -/
theorem scanned_iff (free : ∀ c ∈ w, c ≠ '\'' ∧ c ≠ '\n') (after : List Char) :
    Scanned w after ↔ w.all nameChar = false ∧ '\'' ∉ after.takeWhile (· ≠ '\n') := by
  have line : w.all (· != '\n') = true := by
    rw [List.all_eq_true]
    intro c member
    simpa using (free c member).2
  have text : literal w ++ after = '\'' :: ("rx:".toList ++ w ++ ['\''] ++ after) := by
    simp [literal]
  have whole : (literal w ++ after).take (literal w).length = literal w := by
    rw [List.take_append_of_le_length (Nat.le_refl _), List.take_length]
  have length : ("rx:".toList ++ w ++ ['\''] ++ after).length + 1 =
      (literal w).length + after.length := by
    simp [literal]
    omega
  -- what follows on the line up to a quote makes the match longer
  have longer (j : Nat) (inside : j < after.length) :
      (rules.find? fun rule => rule.accepts
        ((literal w ++ after).take ((literal w).length + (j + 1)))) ≠ none ↔
        after[j] = '\'' ∧ (after.take j).all (· != '\n') = true := by
    rw [take_literal, ← List.take_append_getElem inside, find_longer, List.all_append, line,
      Bool.true_and]
    split
    case isTrue closes => exact iff_of_true (by simp) closes
    case isFalse other => exact iff_of_false (by simp) other
  have later := quote_on_line after
  have found (scanned : w.all nameChar = false ∧ '\'' ∉ after.takeWhile (· ≠ '\n')) :
      longest rules (literal w ++ after) ((literal w).length + after.length) =
        some (valued regex .regex, (literal w).length) := by
    apply longest_eq_some_iff.mpr
    refine ⟨by simp [literal], by omega, ?_, fun j above fits => ?_⟩
    · rw [whole, find_literal, scanned.1, line]
      rfl
    · obtain ⟨k, rfl⟩ : ∃ k, j = (literal w).length + (k + 1) :=
        ⟨j - (literal w).length - 1, by omega⟩
      by_contra accepted
      have inside : k < after.length := by omega
      exact scanned.2 (later.mpr ⟨k, inside, (longer k inside).mp accepted⟩)
  unfold Scanned
  constructor
  · intro scanned
    rw [text] at scanned
    cases first : longest rules ('\'' :: ("rx:".toList ++ w ++ ['\''] ++ after))
        (("rx:".toList ++ w ++ ['\''] ++ after).length + 1) with
    | none =>
      rw [flowTokens, lex, List.length_cons, lexFor, List.length_cons, first] at scanned
      cases scanned
    | some next =>
      obtain ⟨rule, n⟩ := next
      rw [head_flowTokens first] at scanned
      obtain ⟨positive, fits, here, more⟩ := longest_eq_some_iff.mp first
      obtain ⟨k, rfl⟩ : ∃ k, n = k + 1 := ⟨n - 1, by omega⟩
      -- only the rule of regular expressions makes this token
      have rule_eq : rule = valued regex .regex := by
        rw [List.take_succ_cons, find_quoted] at here
        split at here
        · cases here
          cases scanned
        · split at here
          · exact (Option.some.inj here).symm
          · split at here
            · cases here
              cases scanned
            · cases here
      subst rule_eq
      have taken : (literal w ++ after).take (k + 1) = literal w := by
        rw [text]
        simpa [valued] using scanned
      have size : k + 1 = (literal w).length := by
        have lengths := congrArg List.length taken
        rw [List.length_take, List.length_append] at lengths
        omega
      rw [← text, taken, find_literal, line] at here
      refine ⟨?_, fun quote => ?_⟩
      · by_contra named
        rw [if_pos (by simpa using named)] at here
        have actions := congrArg (Option.map fun rule => rule.action []) here
        cases actions
      · obtain ⟨j, inside, closes⟩ := later.mp quote
        have none := more ((literal w).length + (j + 1)) (by omega) (by omega)
        rw [← text] at none
        exact (longer j inside).mpr closes none
  · intro scanned
    have first := found scanned
    rw [text, ← length] at first
    rw [text, head_flowTokens first, ← text, whole]
    rfl

end

/-- An anchor stands in no name, and no quote follows. -/
theorem anchor_scanned : Scanned "^a".toList ";".toList :=
  (@scanned_iff "^a".toList (by simp) ";".toList).mpr (by decide)

/-- A literal that may stand in a name is scanned as one, and another literal on the
line is taken along. -/
theorem literal_lost : ¬ Scanned "a".toList ";".toList ∧ ¬ Scanned "^a".toList " 'b'".toList := by
  unfold Scanned
  decide +kernel

/-! ## The action -/

/-- One round of the loop that erases quotes; `none` is the exit. -/
def stripQuote (rx : List Char) : Option (List Char) :=
  if '\'' ∈ rx then some (rx.erase '\'') else none

/-- The loop over the quotes ends with the text without them. -/
theorem stripQuote_eval (rx : List Char) :
    eval stripQuote rx = Part.some (rx.filter (· != '\'')) := by
  induction size : rx.length generalizing rx with
  | zero =>
    rw [List.length_eq_zero_iff.mp size]
    exact Part.eq_some_iff.mpr (mem_eval.mpr ⟨.refl, rfl⟩)
  | succ n ih =>
    by_cases quoted : '\'' ∈ rx
    · have taken : stripQuote rx = some (rx.erase '\'') := if_pos quoted
      rw [reaches_eval (Relation.ReflTransGen.single (Option.mem_def.mpr taken)),
        ih _ (by rw [List.length_erase_of_mem quoted]; omega)]
      obtain ⟨front, back, rfl, clear⟩ := List.eq_append_cons_of_mem quoted
      rw [List.erase_append_right _ clear, List.erase_cons_head]
      simp
    · have exit : stripQuote rx = none := if_neg quoted
      have clear : rx.filter (· != '\'') = rx := by
        rw [List.filter_eq_self]
        intro c member
        rw [bne_iff_ne]
        rintro rfl
        exact quoted member
      rw [clear]
      exact Part.eq_some_iff.mpr (mem_eval.mpr ⟨.refl, exit⟩)

/-- The pattern of a literal: what follows the scheme, without quotes. -/
def pattern (text : List Char) : List Char := (text.filter (· != '\'')).drop "rx:".length

/-- `detected_hostname == text` ends and says whether the pattern is found in the host
name. -/
structure Applied (s : ExprServices) (view : ExprView) (text : List Char) : Prop where
  ends : textOf view.flow.hostServerName ≠ [] → s.workingRegex = true →
    (eval stripScheme (unquote s text)).Dom
  result : exprDetectedHostname s view (.compare .equal (.regex text)) =
    some (.both ((s.regexSearch (textOf view.flow.hostServerName) (pattern text)).getD false))

section
variable {s : ExprServices} {view : ExprView} {input text : List Char}

/-- **The pattern is applied** exactly where the action does not get to it and it
would not match. -/
theorem applied_iff (scanned : .value (.regex text) ∈ flowTokens input) : Applied s view text ↔
    (textOf view.flow.hostServerName = [] ∨ s.workingRegex = false) ∧
      (s.regexSearch (textOf view.flow.hostServerName) (pattern text)).getD false = false := by
  have colon : ':' ∈ unquote s text := colon_of_regex (regex_of_mem scanned)
  have idle (skipped : textOf view.flow.hostServerName = [] ∨ s.workingRegex = false) :
      exprDetectedHostname s view (.compare .equal (.regex text)) = some (.both false) := by
    rw [exprDetectedHostname]
    exact if_pos (skipped.imp_right fun broken => by simp [broken])
  constructor
  · rintro ⟨ends, result⟩
    have skipped : textOf view.flow.hostServerName = [] ∨ s.workingRegex = false := by
      by_contra reached
      obtain ⟨host, working⟩ := not_or.mp reached
      exact stripScheme_ends_iff.mp (ends host (by simpa using working)) colon
    rw [idle skipped] at result
    exact ⟨skipped, (ExprAction.both.inj (Option.some.inj result)).symm⟩
  · rintro ⟨skipped, unmatched⟩
    refine ⟨fun host working => ?_, by rw [idle skipped, unmatched]⟩
    rcases skipped with empty | broken
    · exact absurd empty host
    · rw [working] at broken
      cases broken

end

/-- A flow without a host name. -/
def quietView : ExprView where
  flow := sampleFlow
  localMac := []
  otherMac := []
  localIp := {}
  otherIp := {}
  localPort := 0
  otherPort := 0
  origin := .unknown

/-- The same flow to the host a. -/
def hostView : ExprView :=
  { quietView with flow := { sampleFlow with hostServerName := [97] } }

theorem anchor_tokens : .value (.regex (literal "^a".toList)) ∈
    flowTokens (literal "^a".toList ++ ";".toList) := by
  decide +kernel

theorem quiet_applied : Applied sampleServices quietView (literal "^a".toList) :=
  (applied_iff anchor_tokens).mpr (by decide)

/-- With a host name the action goes on for ever. -/
theorem scheme_endless : .value (.regex (literal "^a".toList)) ∈
      flowTokens (literal "^a".toList ++ ";".toList) ∧
    ¬ Applied sampleServices hostView (literal "^a".toList) := by
  refine ⟨anchor_tokens, fun applied => ?_⟩
  have other : exprDetectedHostname sampleServices hostView
      (.compare .equal (.regex (literal "^a".toList))) = some .endless := by
    decide +kernel
  have result := applied.result
  rw [other] at result
  cases result

end NetifyAgent.FlowExprRegex
