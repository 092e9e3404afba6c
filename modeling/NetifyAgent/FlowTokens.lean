import NetifyAgent.Flow
import NetifyAgent.Lib.Lexer

/-! The tokens of flow expressions, `nd-flow-criteria.l`. A text is the list of
its bytes, each a character. The longest match wins, and the first of several
rules that match it. -/
namespace NetifyAgent
open NetifyAgent.Lexer

/-- The attributes, by their tokens. -/
inductive FlowAttr where
  | ipProto
  | ipVersion
  | ipNat
  | vlanId
  | otherType
  | localMac
  | otherMac
  | localIp
  | otherIp
  | localPort
  | otherPort
  | tunnelType
  | detectionGuessed
  | detectionUpdated
  | category
  | risks
  | ndpiRiskScore
  | ndpiRiskScoreClient
  | ndpiRiskScoreServer
  | domainCategory
  | networkCategory
  | application
  | applicationCategory
  | protocol
  | protocolCategory
  | detectedHostname
  | sslVersion
  | sslCipher
  | origin
  | ctMark
  deriving DecidableEq, Repr

/-- `CMP_EQUAL` and the like. -/
inductive Cmp where
  | equal
  | notEqual
  | gthanEqual
  | lthanEqual
  | gthan
  | lthan
  deriving DecidableEq, Repr

/-- `BOOL_AND` and `BOOL_OR`. -/
inductive BoolOp where
  | and
  | or
  deriving DecidableEq, Repr

/-- `_NDFP_ORIGIN_UNKNOWN` and the like. -/
inductive ExprOrigin where
  | unknown
  | local_
  | other
  deriving DecidableEq, Repr

/-- The tokens that carry a value. -/
inductive FlowValue where
  /-- `FLOW_OTHER_UNKNOWN` and the like. -/
  | otherType (t : OtherType)
  /-- `FLOW_ORIGIN_LOCAL` and the like. -/
  | origin (o : ExprOrigin)
  /-- `FLOW_TUNNEL_NONE` and `FLOW_TUNNEL_GTP`. -/
  | tunnelType (t : TunnelType)
  /-- `VALUE_TRUE` and `VALUE_FALSE`. -/
  | bool (b : Bool)
  /-- `VALUE_ADDR_MAC`. -/
  | addrMac (text : List Char)
  /-- `VALUE_ADDR_IPV4`, `VALUE_ADDR_IPV6` and their forms with a prefix length. -/
  | addrIp (text : List Char)
  /-- `VALUE_NAME`. -/
  | name (text : List Char)
  /-- `VALUE_REGEX`. -/
  | regex (text : List Char)
  /-- `VALUE_NUMBER`. -/
  | number (text : List Char)
  deriving DecidableEq, Repr

inductive FlowToken where
  | flow (attr : FlowAttr)
  | value (v : FlowValue)
  | cmp (op : Cmp)
  | bool (op : BoolOp)
  | bang
  | lparen
  | rparen
  | semicolon
  /-- A character that yields zero or a negative token. -/
  | eof
  /-- Any other character. -/
  | other
  deriving DecidableEq, Repr

namespace FlowTokens

/-! ## Patterns -/

def hexDigit (c : Char) : Bool :=
  ('0' ≤ c && c ≤ '9') || ('a' ≤ c && c ≤ 'f') || ('A' ≤ c && c ≤ 'F')

def digit (c : Char) : Bool := '0' ≤ c && c ≤ '9'

def letter (c : Char) : Bool := ('a' ≤ c && c ≤ 'z') || ('A' ≤ c && c ≤ 'Z')

/-- A sequence of character classes, such as `[t|T][r|R][u|U][e|E]`. -/
def classes : List (Char → Bool) → List Char → Bool
  | [], text => text.isEmpty
  | p :: rest, c :: text => p c && classes rest text
  | _ :: _, [] => false

/-- A letter in either case. The source writes `[t|T]`, which has a bar in it. -/
def either (c : Char) (d : Char) : Bool := d == c || d == '|' || d == c.toUpper

def octet : List (Char → Bool) := [hexDigit, hexDigit]

/-- Six hexadecimal octets between colons. -/
def addrMac : List Char → Bool :=
  classes (octet ++ [(· == ':')] ++ octet ++ [(· == ':')] ++ octet ++ [(· == ':')] ++
    octet ++ [(· == ':')] ++ octet ++ [(· == ':')] ++ octet)

/-- `[0-9]{1,3}\.[0-9]{1,3}\.[0-9]{1,3}\.[0-9]{1,3}`, of `n` such numbers. -/
def addrIpv4 : Nat → List Char → Bool
  | 0, _ => false
  | n + 1, text =>
    let part := text.takeWhile digit
    1 ≤ part.length && part.length ≤ 3 &&
      match text.drop part.length with
      | [] => n == 0
      | c :: rest => c == '.' && addrIpv4 n rest

/-- `[a-fA-F0-9]{1,4}[:]{1,2}[a-fA-F0-9:]*`. -/
def addrIpv6 (text : List Char) : Bool :=
  let part := text.takeWhile hexDigit
  1 ≤ part.length && part.length ≤ 4 &&
    match text.drop part.length with
    | [] => false
    | c :: rest => c == ':' && rest.all fun d => hexDigit d || d == ':'

/-- A pattern followed by `\/[0-9]+`. -/
def withPrefix (addr : List Char → Bool) (text : List Char) : Bool :=
  let host := text.takeWhile (· != '/')
  let length := (text.drop host.length).tail
  host.length < text.length && addr host && length != [] && length.all digit

/-- The characters of a name behind its first. -/
def nameChar (c : Char) : Bool :=
  letter c || digit c || c == ':' || c == '/' || c == '.' || c == '_' || c == '+' || c == '(' ||
    c == ')' || c == ' ' || c == '-'

/-- What stands between two quotes. -/
def quoted (inside : List Char → Bool) : List Char → Bool
  | '\'' :: text => text.getLast? == some '\'' && inside text.dropLast
  | _ => false

/-- `\'[a-zA-Z0-9][a-zA-Z0-9:\/\._+() -]+\'`. -/
def name : List Char → Bool :=
  quoted fun
    | c :: rest => (letter c || digit c) && rest != [] && rest.all nameChar
    | [] => false

/-- `\'rx:.*\'`. -/
def regex : List Char → Bool :=
  quoted fun text => "rx:".toList.isPrefixOf text && text.all (· != '\n')

theorem scheme_of_regex {text : List Char} (accepted : regex text) :
    ∃ rest, text = '\'' :: 'r' :: 'x' :: ':' :: rest := by
  unfold regex quoted at accepted
  split at accepted
  · rename_i inside
    simp only [Bool.and_eq_true, List.isPrefixOf_iff_prefix] at accepted
    obtain ⟨rest, split⟩ := accepted.2.1.trans (List.dropLast_prefix inside)
    exact ⟨rest, by rw [← split]; rfl⟩
  · cases accepted

/-- `0x[a-fA-F0-9]+` or `[0-9]+`. -/
def number : List Char → Bool
  | '0' :: 'x' :: digits => digits != [] && digits.all hexDigit
  | text => text != [] && text.all digit

def space (c : Char) : Bool := c == ' ' || c == '\t' || c == '\n'

/-! ## Rules -/

/-- The words with a token of their own, in their order. -/
def words : List (String × FlowToken) :=
  [("ip_protocol", .flow .ipProto), ("ip_version", .flow .ipVersion), ("ip_nat", .flow .ipNat),
    ("vlan_id", .flow .vlanId), ("other_type", .flow .otherType),
    ("other_unknown", .value (.otherType .unknown)),
    ("other_unsupported", .value (.otherType .unsupported)),
    ("other_local", .value (.otherType .local_)),
    ("other_multicast", .value (.otherType .multicast)),
    ("other_broadcast", .value (.otherType .broadcast)),
    ("other_remote", .value (.otherType .remote)),
    ("other_error", .value (.otherType .error)), ("local_mac", .flow .localMac),
    ("other_mac", .flow .otherMac), ("local_ip", .flow .localIp), ("other_ip", .flow .otherIp),
    ("local_port", .flow .localPort), ("other_port", .flow .otherPort),
    ("tunnel_type", .flow .tunnelType), ("tunnel_none", .value (.tunnelType .none)),
    ("tunnel_gtp", .value (.tunnelType .gtp)), ("detection_guessed", .flow .detectionGuessed),
    ("detection_updated", .flow .detectionUpdated), ("app", .flow .application),
    ("application", .flow .application), ("application_id", .flow .application),
    ("app_id", .flow .application), ("cat", .flow .category), ("category", .flow .category),
    ("risks", .flow .risks), ("ndpi_risk_score", .flow .ndpiRiskScore),
    ("ndpi_risk_client", .flow .ndpiRiskScoreClient),
    ("ndpi_risk_server", .flow .ndpiRiskScoreServer),
    ("application_category", .flow .applicationCategory),
    ("app_category", .flow .applicationCategory), ("domain_category", .flow .domainCategory),
    ("dom_category", .flow .domainCategory), ("protocol", .flow .protocol),
    ("proto", .flow .protocol), ("protocol_id", .flow .protocol), ("proto_id", .flow .protocol),
    ("protocol_category", .flow .protocolCategory), ("proto_category", .flow .protocolCategory),
    ("detected_hostname", .flow .detectedHostname), ("ssl_version", .flow .sslVersion),
    ("ssl_cipher", .flow .sslCipher), ("origin", .flow .origin),
    ("origin_local", .value (.origin .local_)), ("origin_other", .value (.origin .other)),
    ("origin_unknown", .value (.origin .unknown)),
    ("fwmark", .flow .ctMark)]

/-- `return (int)yytext[0]`, where `char` is signed. -/
def charToken (c : Char) : FlowToken :=
  if c = ';' then .semicolon
  else if c = '(' then .lparen
  else if c = ')' then .rparen
  else if c = '!' then .bang
  else if c = '>' then .cmp .gthan
  else if c = '<' then .cmp .lthan
  else if c.toNat = 0 ∨ 128 ≤ c.toNat then .eof
  else .other

/-- A rule for a fixed text. -/
def word (text : String) (token : FlowToken) : Rule Char FlowToken :=
  ⟨(· == text.toList), fun _ => some token⟩

def valued (accepts : List Char → Bool) (value : List Char → FlowValue) : Rule Char FlowToken :=
  ⟨accepts, fun text => some (.value (value text))⟩

def letters (text : String) (token : FlowToken) : Rule Char FlowToken :=
  ⟨classes (text.toList.map either), fun _ => some token⟩

def rules : List (Rule Char FlowToken) :=
  words.map (fun entry => word entry.1 entry.2) ++
    [letters "true" (.value (.bool true)), letters "false" (.value (.bool false)),
      valued addrMac .addrMac, valued (withPrefix (addrIpv4 4)) .addrIp,
      valued (addrIpv4 4) .addrIp, valued (· == "::1".toList) .addrIp,
      valued (withPrefix addrIpv6) .addrIp, valued addrIpv6 .addrIp, valued name .name,
      valued regex .regex, valued number .number, word "==" (.cmp .equal),
      word "!=" (.cmp .notEqual), word ">=" (.cmp .gthanEqual), word "<=" (.cmp .lthanEqual),
      word "&&" (.bool .and), letters "and" (.bool .and), word "||" (.bool .or),
      letters "or" (.bool .or), ⟨fun text => text != [] && text.all space, fun _ => none⟩,
      ⟨fun text => text.length == 1 && text != ['\n'], fun text => text.head?.map charToken⟩]

end FlowTokens

/-- The tokens of an expression. -/
def flowTokens (text : List Char) : List FlowToken := lex FlowTokens.rules text

/-- A value that no word spells is a boolean, or it is what its pattern accepts. -/
theorem accepted_of_mem {text : List Char} {v : FlowValue} (mem : .value v ∈ flowTokens text)
    (spelled : ∀ entry ∈ FlowTokens.words, entry.2 ≠ .value v) :
    (∃ b, v = .bool b) ∨ ∃ pattern ∈ ([(FlowTokens.addrMac, .addrMac),
        (FlowTokens.withPrefix (FlowTokens.addrIpv4 4), .addrIp), (FlowTokens.addrIpv4 4, .addrIp),
        ((· == "::1".toList), .addrIp), (FlowTokens.withPrefix FlowTokens.addrIpv6, .addrIp),
        (FlowTokens.addrIpv6, .addrIp), (FlowTokens.name, .name), (FlowTokens.regex, .regex),
        (FlowTokens.number, .number)] : List ((List Char → Bool) × (List Char → FlowValue))),
      ∃ found, pattern.1 found = true ∧ v = pattern.2 found := by
  obtain ⟨rule, listed, lexeme, accepts, action⟩ := exists_rule_of_mem mem
  have single (c : Char) : FlowTokens.charToken c ≠ .value v := by
    unfold FlowTokens.charToken
    grind
  rcases List.mem_append.mp listed with word | other
  · obtain ⟨entry, mem, rfl⟩ := List.mem_map.mp word
    exact (spelled entry mem (Option.some.inj action)).elim
  · simp only [List.mem_cons, List.not_mem_nil, or_false] at other ⊢
    rcases other with rfl | rfl | rfl | rfl | rfl | rfl | rfl | rfl | rfl | rfl | rfl | rfl | rfl |
      rfl | rfl | rfl | rfl | rfl | rfl | rfl | rfl
    all_goals first | cases action; done | skip
    · cases action
      exact .inl ⟨true, rfl⟩
    · cases action
      exact .inl ⟨false, rfl⟩
    iterate 9
      · cases action
        refine .inr ⟨(_, _), ?_, lexeme, accepts, rfl⟩
        simp [FlowTokens.valued]
    · obtain ⟨c, -, is⟩ := Option.map_eq_some_iff.mp action
      exact (single c is).elim

/-- A regular expression is what its pattern accepts. -/
theorem regex_of_mem {text found : List Char}
    (mem : .value (.regex found) ∈ flowTokens text) : FlowTokens.regex found := by
  have spelled : ∀ entry ∈ FlowTokens.words, entry.2 ≠ .value (.regex found) := by
    simp [FlowTokens.words]
  rcases accepted_of_mem mem spelled with ⟨b, is⟩ | ⟨pattern, listed, text, accepts, is⟩
  · cases is
  · simp only [List.mem_cons, List.not_mem_nil, or_false] at listed
    rcases listed with rfl | rfl | rfl | rfl | rfl | rfl | rfl | rfl | rfl
    all_goals first | cases is; done | skip
    cases is
    exact accepts

end NetifyAgent
