import NetifyAgent.Base64
import NetifyAgent.FlowParser
import NetifyAgent.NumberTexts
import NetifyAgent.DetectionEntry

/-! Soft dissectors come from the lines of a signature file: two numbers, and in base64
an expression over flows. The first whose expression holds of a flow overrides what was
detected, and ends detection. -/
namespace NetifyAgent
open Base64 Sextets Lines

/-- `strtol` with base 0, which stays at the limits of `long`. -/
def strtol (text : List Char) : Int :=
  let text := text.dropWhile isSpace
  let negative := text.head? = some '-'
  let text := if negative ∨ text.head? = some '+' then text.tail else text
  let hex := text.head? = some '0' ∧ (text[1]? = some 'x' ∨ text[1]? = some 'X') ∧
    leadingDigits 16 (text.drop 2) ≠ []
  let base := if hex then 16 else if text.head? = some '0' then 8 else 10
  let n := Nat.ofDigits base (leadingDigits base (if hex then text.drop 2 else text)).reverse
  if negative then max (-n) (-2 ^ 63) else min n (2 ^ 63 - 1)

/-- A cast to `signed`. -/
def signedOf (n : Int) : Int := n.bmod (2 ^ 32)

/-- The bytes of a string, and the string of some bytes. -/
def bytesOfText (text : List Char) : List UInt8 := text.map fun c => UInt8.ofNat c.toNat

def textOfBytes (bytes : List UInt8) : List Char := bytes.map fun b => Char.ofNat b.toNat

/-- `ndSoftDissector` with its expression. -/
structure NdSoftDissector where
  aid : Int
  pid : Int
  expr : List Char
  deriving DecidableEq, Repr

/-- `AddSoftDissector`; `none` where the text is not decoded. -/
def addSoftDissector (softDissectors : List NdSoftDissector) (aid pid : Int)
    (encodedExpr : List Char) : Option (List NdSoftDissector) := do
  let decodedExpr ← base64Decode (bytesOfText encodedExpr ++ [0]) encodedExpr.length
  if aid < 0 ∧ pid < 0 then return softDissectors
  return softDissectors ++ [⟨aid, pid, textOfBytes decodedExpr⟩]

/-- What `Load` does with a line to `soft_dissectors`. -/
def loadNsd (softDissectors : List NdSoftDissector) (line : List Char) :
    Option (List NdSoftDissector) :=
  match splitLine line with
  | none => some softDissectors
  | some (type, line) =>
    if type ≠ "nsd".toList then some softDissectors
    else
      match cutLast ':' line with
      | none => some softDissectors
      | some (line, expr) =>
        match cutLast ':' line with
        | none => some softDissectors
        | some (aid, pid) =>
          addSoftDissector softDissectors (signedOf (strtol aid)) (signedOf (strtol pid)) expr

/-- What `Load` leaves in `soft_dissectors`, which `Reset` has cleared. -/
def loadSoftDissectors (text : List Char) : Option (List NdSoftDissector) :=
  (lines text).foldlM loadNsd []

/-- `SoftDissectorMatch`, with what the first byte of `yylval` is in each call of the
parser; `none` if one of them does not return. -/
def softDissectorMatch (s : ExprServices) (yylval : Nat → Bool) (flow : ExprFlow) :
    List NdSoftDissector → Nat → Option (Option NdSoftDissector)
  | [], _ => some none
  | it :: rest, i =>
    match ndFlowParser.parse s (yylval i) flow it.expr with
    | .ok true => some (some it)
    | .error .endless => none
    | .ok false | .error _ => softDissectorMatch s yylval flow rest (i + 1)

namespace SoftDissectors

/-! ## Numbers -/

/-- `to_string` of an `int`. -/
def printed (n : Int) : List Char :=
  if n < 0 then '-' :: Nat.toDigits 10 n.natAbs else Nat.toDigits 10 n.natAbs

theorem printed_plain (n : Int) : ∀ c ∈ printed n, c ≠ ':' ∧ c ≠ '\n' ∧ c ≠ '#' := by
  have digits (c : Char) (member : c ∈ Nat.toDigits 10 n.natAbs) :
      c ≠ ':' ∧ c ≠ '\n' ∧ c ≠ '#' := by
    obtain ⟨d, below, rfl⟩ := NumberTexts.mem_toDigits (by decide) member
    have all : ∀ d < 10, Nat.digitChar d ≠ ':' ∧ Nat.digitChar d ≠ '\n' ∧
        Nat.digitChar d ≠ '#' := by decide
    exact all d below
  intro c member
  unfold printed at member
  split at member
  · rcases List.mem_cons.mp member with rfl | member
    · decide
    · exact digits c member
  · exact digits c member

theorem strtol_printed {n : Int} (low : -2 ^ 31 ≤ n) (high : n < 2 ^ 31) :
    strtol (printed n) = n := by
  obtain ⟨start, minus, plus⟩ := @NumberTexts.start_toDigits 10 n.natAbs (by decide) (by decide)
  obtain ⟨-, number⟩ := @NumberTexts.leadingDigits_toDigits 10 (by decide) (by decide) n.natAbs
  by_cases zero : n = 0
  · subst zero
    decide
  · have head : (Nat.toDigits 10 n.natAbs).head? ≠ some '0' :=
      NumberTexts.head_toDigits (by decide) (by omega)
    by_cases negative : n < 0
    · have signed : ('-' :: Nat.toDigits 10 n.natAbs).dropWhile isSpace =
          '-' :: Nat.toDigits 10 n.natAbs := List.dropWhile_cons_of_neg (by decide)
      simp only [strtol, printed, if_pos negative, signed, List.head?_cons, true_or, if_true,
        List.tail_cons, head, false_and, if_false, number]
      omega
    · simp only [strtol, printed, if_neg negative, start, minus, plus, or_self, if_false, head,
        false_and, number]
      omega

theorem signedOf_small {n : Int} (low : -2 ^ 31 ≤ n) (high : n < 2 ^ 31) : signedOf n = n := by
  apply Int.bmod_eq_of_le <;> omega

/-! ## Lines -/

/-- What a line adds: two numbers, an expression, and the text that it is written as. -/
structure Entry where
  aid : Int
  pid : Int
  expr : List UInt8
  text : List UInt8
  deriving DecidableEq

namespace Entry

/-- The numbers fit, and the text spells the expression in a line of its own. -/
structure Fits (e : Entry) : Prop where
  aid : -2 ^ 31 ≤ e.aid ∧ e.aid < 2 ^ 31
  pid : -2 ^ 31 ≤ e.pid ∧ e.pid < 2 ^ 31
  spells : Spells indexOf filler e.text e.expr
  plain : ':' ∉ textOfBytes e.text ∧ '\n' ∉ textOfBytes e.text

def line (e : Entry) : List Char :=
  "nsd:".toList ++ printed e.aid ++ ':' :: printed e.pid ++ ':' :: textOfBytes e.text

/-- `AddSoftDissector` refuses one that names neither. -/
def Names (e : Entry) : Prop := 0 ≤ e.aid ∨ 0 ≤ e.pid

instance (e : Entry) : Decidable e.Names := inferInstanceAs (Decidable (_ ∨ _))

def dissector (e : Entry) : NdSoftDissector := ⟨e.aid, e.pid, textOfBytes e.expr⟩

end Entry

theorem bytesOfText_textOfBytes (bytes : List UInt8) : bytesOfText (textOfBytes bytes) = bytes := by
  rw [bytesOfText, textOfBytes, List.map_map]
  refine (List.map_congr_left fun b _ => ?_).trans (List.map_id bytes)
  have := b.toNat_lt
  have valid : b.toNat.isValidChar := .inl (by omega)
  have back : (Char.ofNat b.toNat).toNat = b.toNat := by
    rw [Char.ofNat, dif_pos valid]
    rfl
  rw [Function.comp_apply, back, UInt8.ofNat_toNat, id]

theorem addSoftDissector_entry {e : Entry} (fits : e.Fits) (ds : List NdSoftDissector) :
    addSoftDissector ds e.aid e.pid (textOfBytes e.text) =
      some (if e.Names then ds ++ [e.dissector] else ds) := by
  have decoded := decode_spelled fits.spells
  have length : (textOfBytes e.text).length = e.text.length := by simp [textOfBytes]
  simp only [addSoftDissector, bytesOfText_textOfBytes, length, decoded, Option.bind_eq_bind,
    Option.bind_some]
  by_cases names : e.Names
  · have one : ¬ (e.aid < 0 ∧ e.pid < 0) := by
      unfold Entry.Names at names
      omega
    rw [if_neg one, if_pos names]
    rfl
  · have none : e.aid < 0 ∧ e.pid < 0 := by
      unfold Entry.Names at names
      omega
    rw [if_pos none, if_neg names]
    rfl

theorem loadNsd_entry {e : Entry} (fits : e.Fits) (ds : List NdSoftDissector) :
    loadNsd ds e.line = some (if e.Names then ds ++ [e.dissector] else ds) := by
  have split : splitLine e.line = some ("nsd".toList,
      printed e.aid ++ ':' :: printed e.pid ++ ':' :: textOfBytes e.text) := by
    have start : e.line.dropWhile isSpace = e.line := List.dropWhile_cons_of_neg (by decide)
    have whole : e.line = "nsd".toList ++
        ':' :: (printed e.aid ++ ':' :: printed e.pid ++ ':' :: textOfBytes e.text) := by
      simp [Entry.line]
    unfold splitLine
    simp only [start]
    rw [if_neg (by simp [Entry.line]), whole, cutFirst_append (by decide)]
  have last : cutLast ':' (printed e.aid ++ ':' :: printed e.pid ++ ':' :: textOfBytes e.text) =
      some (printed e.aid ++ ':' :: printed e.pid, textOfBytes e.text) :=
    cutLast_append fits.plain.1 _
  have first : cutLast ':' (printed e.aid ++ ':' :: printed e.pid) =
      some (printed e.aid, printed e.pid) :=
    cutLast_append (fun inside => (printed_plain e.pid ':' inside).1 rfl) _
  simp only [loadNsd, split, ne_eq, not_true_eq_false, if_false, last, first,
    strtol_printed fits.aid.1 fits.aid.2, strtol_printed fits.pid.1 fits.pid.2,
    signedOf_small fits.aid.1 fits.aid.2, signedOf_small fits.pid.1 fits.pid.2]
  exact addSoftDissector_entry fits ds

/-- The lines of a file: those of some entries, and between them lines of other types. -/
inductive Listing : List (List Char) → List Entry → Prop
  | nil : Listing [] []
  | entry {ls : List (List Char)} {entries : List Entry} {e : Entry} (fits : e.Fits)
      (rest : Listing ls entries) : Listing (e.line :: ls) (e :: entries)
  | other {ls : List (List Char)} {entries : List Entry} {line : List Char} (whole : '\n' ∉ line)
      (type : (splitLine line).map Prod.fst ≠ some "nsd".toList) (rest : Listing ls entries) :
      Listing (line :: ls) entries

theorem Listing.whole {ls : List (List Char)} {entries : List Entry}
    (listing : Listing ls entries) :
    ∀ line ∈ ls, '\n' ∉ line := by
  induction listing with
  | nil => exact fun line none => by cases none
  | @entry ls entries e fits rest ih =>
    refine List.forall_mem_cons.mpr ⟨fun inside => ?_, ih⟩
    rcases List.mem_append.mp inside with front | text
    · rcases List.mem_append.mp front with front | pid
      · rcases List.mem_append.mp front with type | aid
        · exact absurd type (by decide)
        · exact (printed_plain e.aid _ aid).2.1 rfl
      · rcases List.mem_cons.mp pid with colon | pid
        · cases colon
        · exact (printed_plain e.pid _ pid).2.1 rfl
    · rcases List.mem_cons.mp text with colon | text
      · cases colon
      · exact fits.plain.2 text
  | other whole type rest ih => exact List.forall_mem_cons.mpr ⟨whole, ih⟩

/-- **Loading** adds a soft dissector for every entry that names an application or a
protocol. -/
theorem loadSoftDissectors_listing {ls : List (List Char)} {entries : List Entry}
    (listing : Listing ls entries) :
    loadSoftDissectors (unlines ls) =
      some ((entries.filter fun e => e.Names).map Entry.dissector) := by
  have loop (ds : List NdSoftDissector) :
      ls.foldlM loadNsd ds = some (ds ++ (entries.filter fun e => e.Names).map Entry.dissector) := by
    induction listing generalizing ds with
    | nil => simp
    | @entry ls entries e fits rest ih =>
      rw [List.foldlM_cons, loadNsd_entry fits, Option.bind_eq_bind, Option.bind_some, ih]
      by_cases names : e.Names
      · simp [names]
      · simp [names]
    | @other ls entries line whole type rest ih =>
      have skips : loadNsd ds line = some ds := by
        unfold loadNsd
        cases split : splitLine line with
        | none => rfl
        | some parts =>
          have different : parts.1 ≠ "nsd".toList := by
            rw [split] at type
            exact fun same => type (congrArg some same)
          simp only [ne_eq, different, not_false_eq_true, if_true]
      rw [List.foldlM_cons, skips, Option.bind_eq_bind, Option.bind_some, ih]
  rw [loadSoftDissectors, lines_unlines listing.whole, loop, List.nil_append]

/-! ## Matching -/

/-- A parse that returns true. -/
def holds : Except ParseStop Bool → Bool
  | .ok b => b
  | .error _ => false

/-- The parser is called with one soft dissector after the other, up to the first whose
expression holds. -/
theorem softDissectorMatch_eq {s : ExprServices} {yylval : Nat → Bool} {flow : ExprFlow}
    {ds : List NdSoftDissector} {i : Nat}
    (returns : ∀ d ∈ ds.zipIdx i, ndFlowParser.parse s (yylval d.2) flow d.1.expr ≠ .error .endless) :
    softDissectorMatch s yylval flow ds i =
      some (((ds.zipIdx i).find? fun d =>
        holds (ndFlowParser.parse s (yylval d.2) flow d.1.expr)).map Prod.fst) := by
  induction ds generalizing i with
  | nil => rfl
  | cons d ds ih =>
    rw [List.zipIdx_cons] at returns ⊢
    have first := returns _ List.mem_cons_self
    have later := ih fun d member => returns d (List.mem_cons_of_mem _ member)
    rw [softDissectorMatch, List.find?_cons]
    simp only at first
    cases parsed : ndFlowParser.parse s (yylval i) flow d.expr with
    | ok b =>
      cases b with
      | true => rfl
      | false => simp only [holds, later]
    | error stop =>
      cases stop with
      | endless => exact absurd parsed first
      | syntaxError => simp only [holds, later]
      | memoryExhausted => simp only [holds, later]

/-- What `FlowUpdate` asks: the numbers of the soft dissector that matches. -/
def matcher (s : ExprServices) (yylval : Nat → Bool) (view : Flow → ExprFlow)
    (ds : List NdSoftDissector) (flow : Flow) : Option SoftDissector :=
  ((softDissectorMatch s yylval (view flow) ds 0).getD none).map fun d => ⟨d.aid, d.pid⟩

/-- The first expression lacks its semicolon. -/
def unended : Entry where
  aid := 7
  pid := -1
  expr := bytesOfText "ip_version == 4".toList
  text := bytesOfText "aXBfdmVyc2lvbiA9PSA0".toList

def fourth : Entry where
  aid := 12
  pid := -1
  expr := bytesOfText "ip_version == 4;".toList
  text := bytesOfText "aXBfdmVyc2lvbiA9PSA0Ow==".toList

end SoftDissectors
end NetifyAgent
