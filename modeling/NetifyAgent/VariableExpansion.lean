import NetifyAgent.Lib.Substrings

/-! `nd_expand_variables`. Each variable is looked for from the start of the text, and looked for
again from the start after each replacement, so that a value and the text next to it are searched
like the text that was there before. -/
namespace NetifyAgent.VariableExpansion
open Substrings

/-! ## The operations of a string -/

def insert (text : List Char) (pos n : Nat) (c : Char) : List Char :=
  text.take pos ++ List.replicate n c ++ text.drop pos

def replace (text : List Char) (pos len : Nat) (str : List Char) : List Char :=
  text.take pos ++ str ++ text.drop (pos + len)

def erase (text : List Char) (pos len : Nat) : List Char := text.take pos ++ text.drop (pos + len)

/-! ## The function -/

/-- The variables in the order of the map: names and values. -/
abbrev Variables := List (List Char × List Char)

/-- The body of the loop at an occurrence. -/
def expandAt (name value : List Char) (p : Nat) (output : List Char) : List Char :=
  let output := if name.length < value.length then
      insert output (p + name.length) (value.length - name.length) ' ' else output
  let output := replace output p value.length value
  if value.length < name.length then
    erase output (p + value.length) (name.length - value.length) else output

/-- `while ((p = output.find(var.first)) != string::npos)`, in a number of rounds. -/
def expandVariable (name value : List Char) : Nat → List Char → Option (List Char)
  | 0, _ => none
  | rounds + 1, output =>
    match find name output with
    | some p => expandVariable name value rounds (expandAt name value p output)
    | none => some output

/-- `nd_expand_variables`; each loop has a number of rounds. -/
def expandVariables (rounds : Nat) (input : List Char) (vars : Variables) : Option (List Char) :=
  vars.foldlM (fun output var => expandVariable var.1 var.2 rounds output) input

/-! ## One replacement -/

theorem replace_covered {front middle rest str : List Char} {len : Nat}
    (width : middle.length = len) :
    replace (front ++ (middle ++ rest)) front.length len str = front ++ (str ++ rest) := by
  unfold replace
  rw [List.take_left, ← width, List.drop_length_add_append, List.drop_left, List.append_assoc]

theorem expandAt_eq {name value front rest : List Char} :
    expandAt name value front.length (front ++ (name ++ rest)) = front ++ (value ++ rest) := by
  unfold expandAt
  rcases Nat.lt_trichotomy name.length value.length with longer | same | shorter
  · have inserted : insert (front ++ (name ++ rest)) (front.length + name.length)
        (value.length - name.length) ' ' =
          front ++ ((name ++ List.replicate (value.length - name.length) ' ') ++ rest) := by
      unfold insert
      rw [← List.append_assoc front, ← List.length_append, List.take_left, List.drop_left]
      simp only [List.append_assoc]
    rw [if_pos longer, if_neg (Nat.lt_asymm longer), inserted]
    refine replace_covered ?_
    rw [List.length_append, List.length_replicate]
    exact Nat.add_sub_cancel' longer.le
  · rw [if_neg same.not_lt, if_neg same.not_gt]
    exact replace_covered same
  · have split : name ++ rest = name.take value.length ++ (name.drop value.length ++ rest) := by
      rw [← List.append_assoc, List.take_append_drop]
    have width : (name.take value.length).length = value.length := by
      rw [List.length_take]
      exact Nat.min_eq_left shorter.le
    have left : (name.drop value.length).length = name.length - value.length := List.length_drop
    rw [if_neg (Nat.lt_asymm shorter), if_pos shorter, split, replace_covered width]
    unfold erase
    rw [← List.append_assoc, ← List.length_append, List.take_left, List.drop_length_add_append,
      ← left, List.drop_left, List.append_assoc]

/-- The value in place of the first occurrence of the name. -/
theorem expandAt_find {name value output : List Char} {p : Nat} (found : find name output = some p) :
    expandAt name value p output = output.take p ++ (value ++ output.drop (p + name.length)) := by
  have whole := text_of_find found
  have width : (output.take p).length = p := take_length_of_find found
  have expanded := @expandAt_eq name value (output.take p) (output.drop (p + name.length))
  rwa [← whole, width] at expanded

/-! ## More rounds -/

theorem expandVariable_more {name value output expanded : List Char} {rounds more : Nat}
    (done : expandVariable name value rounds output = some expanded) :
    expandVariable name value (rounds + more) output = some expanded := by
  induction rounds generalizing output with
  | zero => cases done
  | succ rounds ih =>
    rw [Nat.succ_add]
    unfold expandVariable at done ⊢
    split
    · rename_i p found
      rw [found] at done
      exact ih done
    · rename_i missing
      rw [missing] at done
      exact done

/-- A value that has its own name in it is expanded for ever. -/
theorem expandVariable_none {name value output : List Char} (own : name <:+: value)
    (occurs : name <:+: output) (rounds : Nat) :
    expandVariable name value rounds output = none := by
  induction rounds generalizing output with
  | zero => rfl
  | succ rounds ih =>
    unfold expandVariable
    split
    · rename_i p found
      rw [expandAt_find found]
      exact ih (own.trans (List.infix_append' _ _ _))
    · rename_i missing
      exact absurd occurs (find_eq_none.mp missing)

/-! ## Text without seams -/

/-- What has been written in place of some pieces and the names behind them. -/
def written (value : List Char) (pieces : List (List Char)) : List Char :=
  (pieces.map (· ++ value)).flatten

/-- Whenever the search starts again, no occurrence of the name starts in what has been written
so far. -/
def Seamless (name value text : List Char) : Prop :=
  ∀ i < (split name text).length,
    NoSeam name (written value ((split name text).take i)) (name.intercalate ((split name text).drop i))

instance (name value text : List Char) : Decidable (Seamless name value text) :=
  inferInstanceAs (Decidable (∀ i < (split name text).length, NoSeam _ _ _))

/-- Every variable finds a text without seams. -/
def AllSeamless : Variables → List Char → Prop
  | [], _ => True
  | (name, value) :: vars, text =>
    Seamless name value text ∧ AllSeamless vars (replaceAll name value text)

instance : (vars : Variables) → (text : List Char) → Decidable (AllSeamless vars text)
  | [], _ => .isTrue trivial
  | (name, value) :: vars, text =>
    have : Decidable (AllSeamless vars (replaceAll name value text)) :=
      instDecidableAllSeamless vars _
    inferInstanceAs (Decidable (Seamless name value text ∧ _))

/-- The loop over a text without seams goes from one piece to the next. -/
theorem expandVariable_cut {name value done rest : List Char} {pieces : List (List Char)}
    (cut : Cut name rest pieces)
    (seamless : ∀ i < pieces.length,
      NoSeam name (done ++ written value (pieces.take i)) (name.intercalate (pieces.drop i))) :
    expandVariable name value pieces.length (done ++ rest) =
      some (done ++ value.intercalate pieces) := by
  induction cut generalizing done with
  | @last text missing =>
    have apart := seamless 0 (by simp)
    simp only [List.take_zero, written, List.map_nil, List.flatten_nil, List.append_nil,
      List.drop_zero, List.intercalate_singleton] at apart
    have nowhere : find name (done ++ text) = none := by rw [find_append apart, missing]; rfl
    simp only [List.length_singleton, expandVariable, nowhere, List.intercalate_singleton]
  | @cut text k pieces found rest ih =>
    have whole := (Cut.cut found rest).intercalate
    have apart := seamless 0 (by simp)
    simp only [List.take_zero, written, List.map_nil, List.flatten_nil, List.append_nil,
      List.drop_zero, whole] at apart
    have next : find name (done ++ text) = some (done.length + k) := by
      rw [find_append apart, found]
      rfl
    have replaced : expandAt name value (done.length + k) (done ++ text) =
        (done ++ text.take k ++ value) ++ text.drop (k + name.length) := by
      rw [expandAt_find next, Nat.add_assoc, List.drop_length_add_append, List.take_length_add_append]
      simp only [List.append_assoc]
    have later := @ih (done ++ text.take k ++ value) fun i inside => by
      have apart := seamless (i + 1) (by simpa using inside)
      simpa [written] using apart
    rw [List.length_cons, expandVariable, next]
    simp only
    rw [replaced, later, List.intercalate_cons_of_ne_nil rest.ne_nil]
    simp only [List.append_assoc]

/-- **One variable.** -/
theorem expandVariable_seamless {name value text : List Char} (nonempty : name ≠ [])
    (seamless : Seamless name value text) :
    ∃ rounds, expandVariable name value rounds text = some (replaceAll name value text) :=
  ⟨_, @expandVariable_cut name value [] text _ (cut_split nonempty text) seamless⟩

/-! ## All variables -/

/-- Every occurrence of every name is replaced by its value, one variable after the other. -/
def expanded (vars : Variables) (input : List Char) : List Char :=
  vars.foldl (fun text var => replaceAll var.1 var.2 text) input

/-- No value has a name in it. -/
def Plain (vars : Variables) : Prop := ∀ var ∈ vars, ∀ other ∈ vars, ¬ other.1 <:+: var.2

/-- A part of the input or of a value that has none of the names in it. -/
def Foreign (names vars : Variables) (input part : List Char) : Prop :=
  (part <:+: input ∨ ∃ var ∈ vars, part <:+: var.2) ∧ ∀ other ∈ names, ¬ other.1 <:+: part

/-- **What the function is for.** It returns, and if no value has a name in it the result is the
input with all names replaced, in which a name is found only where parts of the input and of values
meet. -/
def Expands (vars : Variables) (input : List Char) : Prop :=
  ∃ output, (∃ rounds, expandVariables rounds input vars = some output) ∧
    (Plain vars → output = expanded vars input ∧ Pieced (Foreign vars vars input) output)

theorem expandVariables_more {vars : Variables} {input output : List Char} {rounds more : Nat}
    (done : expandVariables rounds input vars = some output) :
    expandVariables (rounds + more) input vars = some output := by
  induction vars generalizing input with
  | nil => exact done
  | cons var vars ih =>
    obtain ⟨text, first, rest⟩ := Option.bind_eq_some_iff.mp done
    exact Option.bind_eq_some_iff.mpr ⟨text, expandVariable_more first, ih rest⟩

theorem expandVariables_seamless {vars : Variables} {input : List Char}
    (nonempty : ∀ var ∈ vars, var.1 ≠ []) (seamless : AllSeamless vars input) :
    ∃ rounds, expandVariables rounds input vars = some (expanded vars input) := by
  induction vars generalizing input with
  | nil => exact ⟨0, rfl⟩
  | cons var vars ih =>
    obtain ⟨first, rest⟩ := List.forall_mem_cons.mp nonempty
    obtain ⟨rounds, here⟩ := expandVariable_seamless first seamless.1
    obtain ⟨more, later⟩ := ih rest seamless.2
    refine ⟨rounds + more, Option.bind_eq_some_iff.mpr ⟨_, expandVariable_more here, ?_⟩⟩
    rw [Nat.add_comm]
    exact expandVariables_more later

/-- Replacing one more variable leaves parts that do not have its name in them either. -/
theorem pieced_replaceAll {names vars : Variables} {input text : List Char}
    {var : List Char × List Char} (nonempty : var.1 ≠ []) (member : var ∈ vars)
    (plain : ∀ other ∈ var :: names, ¬ other.1 <:+: var.2)
    (pieced : Pieced (Foreign names vars input) text) :
    Pieced (Foreign (var :: names) vars input) (replaceAll var.1 var.2 text) := by
  refine pieced_intercalate ⟨.inr ⟨var, member, List.infix_refl _⟩, plain⟩ fun piece cut => ?_
  obtain ⟨free, part⟩ := (cut_split nonempty text).free nonempty piece cut
  obtain ⟨parts, rfl, each⟩ := pieced.part part
  refine ⟨parts, rfl, fun x inside => ?_⟩
  obtain ⟨whole, ⟨origin, clean⟩, within⟩ := each x inside
  refine ⟨origin.imp within.trans fun ⟨other, there, of⟩ => ⟨other, there, within.trans of⟩, ?_⟩
  refine List.forall_mem_cons.mpr ⟨fun name => free ?_, fun other there name =>
    clean other there (name.trans within)⟩
  obtain ⟨front, back, split⟩ := List.append_of_mem inside
  refine name.trans ⟨front.flatten, back.flatten, ?_⟩
  rw [split]
  simp

theorem pieced_expanded {vars rest names : Variables} {input text : List Char}
    (nonempty : ∀ var ∈ vars, var.1 ≠ []) (plain : Plain vars) (todo : ∀ var ∈ rest, var ∈ vars)
    (done : ∀ var ∈ names, var ∈ vars) (pieced : Pieced (Foreign names vars input) text) :
    Pieced (Foreign (rest.reverse ++ names) vars input) (expanded rest text) := by
  induction rest generalizing names text with
  | nil => exact pieced
  | cons var rest ih =>
    obtain ⟨member, later⟩ := List.forall_mem_cons.mp todo
    have known : ∀ other ∈ var :: names, other ∈ vars := List.forall_mem_cons.mpr ⟨member, done⟩
    have here := pieced_replaceAll (nonempty var member) member
      (fun other there => plain var member other (known other there)) pieced
    rw [List.reverse_cons, List.append_assoc]
    exact ih later known here

end NetifyAgent.VariableExpansion
