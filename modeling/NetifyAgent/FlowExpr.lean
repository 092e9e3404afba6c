import NetifyAgent.AddrText
import NetifyAgent.Dns
import NetifyAgent.FlowTokens
import NetifyAgent.Lib.Loops

/-! `ndFlowParser`, the flow expressions of `nd-flow-expr.ypp`. An expression is
parsed by a stack of states that shifts as long as it can: of the two things that
can be done with `a op b` when another operator follows, the generated tables
shift. An expression is evaluated while it is parsed, into two places, the value
of the symbol on the stack and the result of the parser. -/
namespace NetifyAgent
open NetifyAgent.Loops NetifyAgent.Overlay StateTransition

/-- Why a parse does not return. -/
inductive ParseStop where
  /-- The parser throws "syntax error". -/
  | syntaxError
  /-- The parser throws "memory exhausted". -/
  | memoryExhausted
  /-- A semantic action goes on for ever. -/
  | endless
  deriving DecidableEq, Repr

/-- `ndFlow` with the fields that only expressions read. -/
structure ExprFlow extends Flow where
  /-- `flags.ip_nat`. -/
  ipNat : Bool := false
  /-- `category.network`. -/
  categoryNetwork : Nat := 0
  ctMark : Nat := 0

/-- What the parser asks of the rest of the agent and of its build. -/
structure ExprServices where
  pton : Pton
  /-- `inet_ntop`. -/
  ntop : Addr → List Char
  /-- `categories.LookupTag` for `TYPE_APP` and for `TYPE_PROTO`. -/
  lookupApp : List Char → Nat
  lookupProto : List Char → Nat
  /-- `nd_risk_lookup`. -/
  riskLookup : List Char → Nat
  /-- What a number that does not fit `unsigned long` is converted to. -/
  outOfRange : List Char → Nat
  /-- The bytes behind a buffer that is full, up to a zero. -/
  beyond : List Char
  /-- The bytes of the pointers stored in a flow. -/
  pointerByte : Nat → Nat → UInt8
  /-- `_ND_USE_CONNTRACK` and `_ND_WITH_CONNTRACK_MDATA`. -/
  conntrackMdata : Bool
  /-- `HAVE_WORKING_REGEX`. -/
  workingRegex : Bool
  /-- `regex_search`, where the expression compiles. -/
  regexSearch : List Char → List Char → Option Bool

/-- `_NDFP_MAX_BUFLEN`. -/
def ndfpMaxBuflen : Nat := 256

/-- `ND_STR_ETHALEN`. -/
def ndStrEthalen : Nat := 17

/-! ## Texts and numbers -/

/-- `strncasecmp(s, t, n) == 0`. -/
def sameText (n : Nat) (s t : List Char) : Bool :=
  (s.take n).map Char.toLower == (t.take n).map Char.toLower

/-- The text in a token's buffer, as a string is made of it. -/
def bufferText (s : ExprServices) (text : List Char) : List Char :=
  if text.length < ndfpMaxBuflen then text else text.take ndfpMaxBuflen ++ s.beyond

/-- The text of a name without its quotes. -/
def unquote (s : ExprServices) (text : List Char) : List Char :=
  (bufferText s text).filter (· != '\'')

/-- `(unsigned long)strtold(text)`. -/
def numberValue (s : ExprServices) (text : List Char) : Nat :=
  let digits (base : Nat) (text : List Char) := Nat.ofDigits base (leadingDigits base text).reverse
  let n := match text with
    | '0' :: 'x' :: text => digits 16 text
    | text => digits 10 text
  if n < 2 ^ 64 then n else s.outOfRange text

/-- `c_str()` of a string of the flow, a character for a byte. -/
def textOf (bytes : List UInt8) : List Char :=
  (bytes.takeWhile (· != 0)).map fun b => Char.ofNat b.toNat

/-- Two bytes of the metadata union. -/
def Flow.readShort (flow : Flow) (s : ExprServices) (off : Nat) : Nat :=
  let byte (i : Nat) := (Dns.byteOf s.pointerByte (flow.metadata.area (off + i)).val).toNat
  byte 0 + 256 * byte 1

/-! ## Addresses -/

def hexChar (n : Nat) : Char := if n < 10 then Char.ofNat (48 + n) else Char.ofNat (87 + n)

/-- The octets of a hardware address as `MakeString` prints them. -/
def printOctets : List UInt8 → List Char
  | [] => []
  | [b] => [hexChar (b.toNat / 16), hexChar (b.toNat % 16)]
  | b :: rest => hexChar (b.toNat / 16) :: hexChar (b.toNat % 16) :: ':' :: printOctets rest

/-- `ndAddr::GetString`; a hardware address of another type than Ethernet has none. -/
def Addr.getString (s : ExprServices) (a : Addr) : List Char :=
  match a.family with
  | .unspec => []
  | .packet =>
    if a.sin6Addr.take 2 = [1, 0] then
      printOctets ((a.sin6Addr.drop 4).take ((a.sin6Addr[3]?).getD 0).toNat)
    else []
  | .inet | .inet6 => s.ntop a

/-- `CreateQuery` of an IPv6 address into an entry that is used again: the first `|=` keeps
what is in the entry, and the shifts leave its last word in the first one. -/
def requery6 (old : BitVec 128) (addr : Addr) : BitVec 128 :=
  let word (k : Nat) := BitVec.ofNat 128 (ntohl ((addr.sin6Addr.drop (4 * k)).take 4))
  shl (shl (shl (old ||| word 0) 32 ||| word 1) 32 ||| word 2) 32 ||| word 3

/-- The single network `addr` contains the address, which is read into the entry of the
network. -/
def matchesNetwork {N : Nat} (read : Addr → BitVec N) (requery : BitVec N → Addr → BitVec N)
    (flowAddr addr : Addr) : Bool :=
  match RadixNetworkEntry.create read addr with
  | none => false
  | some entry =>
    match RadixTree.assign {} entry true with
    | .error _ => false
    | .ok tree =>
      ((RadixNetworkEntry.createQuery (requery entry.addr) flowAddr).bind
        tree.longestMatch).isSome

/-- `is_addr_equal`. -/
def isAddrEqual (s : ExprServices) (flowAddr : Addr) (comprAddr : List Char) : Bool :=
  let addr := Addr.ofText s.pton comprAddr
  if ¬ addr.isValid ∨ ¬ addr.isIP then false
  else if flowAddr.isIPv4 ≠ addr.isIPv4 then false
  else if flowAddr.isIPv6 ≠ addr.isIPv6 then false
  else if ¬ addr.isNetwork then
    if addr.isIPv4 then addr.sinAddr == flowAddr.sinAddr else addr.sin6Addr == flowAddr.sin6Addr
  else if addr.isIPv4 then
    matchesNetwork RadixNetworkEntry.read4 (fun _ => RadixNetworkEntry.read4) flowAddr addr
  else matchesNetwork RadixNetworkEntry.read6 requery6 flowAddr addr

/-! ## Attributes

An attribute is asked for alone, behind `!` or in a comparison. What the grammar
has no rule for is `none`. -/

/-- How an expression asks for an attribute. -/
inductive ExprTest where
  | set
  | unset
  | compare (op : Cmp) (v : FlowValue)
  deriving DecidableEq, Repr

/-- What the action of a rule does. -/
inductive ExprAction where
  /-- `_NDFP_result = ($$ = b)`. -/
  | both (b : Bool)
  /-- `_NDFP_result = b`. The symbol has the value of the first one of the rule. -/
  | resultOnly (b : Bool)
  | endless
  deriving DecidableEq, Repr

/-- What `Parse` sets up from the flow, `local_mac` to `origin`. -/
structure ExprView where
  flow : ExprFlow
  localMac : List Char
  otherMac : List Char
  localIp : Addr
  otherIp : Addr
  localPort : Nat
  otherPort : Nat
  origin : ExprOrigin

def Cmp.holds (op : Cmp) (a b : Nat) : Bool :=
  match op with
  | .equal => a == b
  | .notEqual => a != b
  | .gthanEqual => b ≤ a
  | .lthanEqual => a ≤ b
  | .gthan => b < a
  | .lthan => a < b

section
variable (s : ExprServices) (view : ExprView)

/-- The rules of a number. -/
def exprNumber (n : Nat) : ExprTest → Option ExprAction
  | .set => some (.both (n != 0))
  | .unset => some (.both (n == 0))
  | .compare op (.number text) => some (.both (op.holds n (numberValue s text)))
  | .compare _ _ => none

/-- The rules of a flag. -/
def exprFlag (flag : Bool) : ExprTest → Option ExprAction
  | .set => some (.both flag)
  | .unset => some (.both !flag)
  | .compare .equal (.bool b) => some (.both (flag == b))
  | .compare .notEqual (.bool b) => some (.both (flag != b))
  | .compare _ _ => none

/-- The rules of an attribute that is only compared with `==` and `!=`, given
the values it takes. -/
def exprEqual (equal : FlowValue → Option Bool) : ExprTest → Option ExprAction
  | .compare .equal v => (equal v).map .both
  | .compare .notEqual v => (equal v).map fun b => .both !b
  | _ => none

/-- The rules of an attribute that may be known. -/
def exprKnown (known : Bool) (equal : FlowValue → Option Bool) : ExprTest → Option ExprAction
  | .set => some (.both known)
  | .unset => some (.both !known)
  | test => exprEqual equal test

def exprMac (mac : List Char) : ExprTest → Option ExprAction :=
  exprEqual fun
    | .addrMac text => some (sameText ndStrEthalen mac (bufferText s text))
    | _ => none

def exprIp (ip : Addr) : ExprTest → Option ExprAction :=
  exprEqual fun
    | .addrIp text => some (isAddrEqual s ip (bufferText s text))
    | _ => none

/-- The rules of one category. -/
def exprOneCategory (lookupTag : List Char → Nat) (category : Nat) :
    ExprTest → Option ExprAction :=
  exprEqual fun
    | .name text => some (lookupTag (unquote s text) == category)
    | _ => none

def exprIpProto : ExprTest → Option ExprAction := exprNumber s view.flow.ipProtocol

def exprIpVersion : ExprTest → Option ExprAction :=
  exprEqual fun
    | .number text => some (view.flow.ipVersion == numberValue s text)
    | _ => none

def exprIpNat : ExprTest → Option ExprAction := exprFlag view.flow.ipNat

def exprVlanId : ExprTest → Option ExprAction := exprNumber s view.flow.vlanId

def exprOtherType : ExprTest → Option ExprAction :=
  exprKnown (view.flow.otherType != .unknown) fun
    | .otherType t => some (view.flow.otherType == t)
    | _ => none

def exprLocalMac : ExprTest → Option ExprAction := exprMac s view.localMac

def exprOtherMac : ExprTest → Option ExprAction := exprMac s view.otherMac

def exprLocalIp : ExprTest → Option ExprAction := exprIp s view.localIp

def exprOtherIp : ExprTest → Option ExprAction := exprIp s view.otherIp

def exprLocalPort : ExprTest → Option ExprAction := exprNumber s view.localPort

def exprOtherPort : ExprTest → Option ExprAction := exprNumber s view.otherPort

/-- The comparisons look at `other_type`, whose first two members have the codes
of the two tunnel types. -/
def exprTunnelType : ExprTest → Option ExprAction :=
  exprKnown (view.flow.tunnelType != .none) fun
    | .tunnelType .none => some (view.flow.otherType == .unknown)
    | .tunnelType .gtp => some (view.flow.otherType == .unsupported)
    | _ => none

def exprDetectionGuessed : ExprTest → Option ExprAction :=
  exprFlag view.flow.flags.detectionGuessed

def exprDetectionUpdated : ExprTest → Option ExprAction :=
  exprFlag view.flow.flags.detectionUpdated

/-- An application is also found by what follows the first dot of its name. -/
def appNamed (app search : List Char) : Bool :=
  app != [] && (sameText ndfpMaxBuflen app search ||
    (app.contains '.' && sameText ndfpMaxBuflen (app.dropWhile (· != '.')).tail search))

def exprApp : ExprTest → Option ExprAction :=
  exprKnown (view.flow.detectedApplication != 0) fun
    | .number text => some (numberValue s text == view.flow.detectedApplication)
    | .name text => some (appNamed view.flow.detectedApplicationName.toList (unquote s text))
    | _ => none

/-- `!=` asks whether any of the three categories is different. -/
def exprCategory : ExprTest → Option ExprAction
  | .compare .equal (.name text) =>
    let id := s.lookupApp (unquote s text)
    some (.both (id == view.flow.category.application || id == view.flow.category.domain ||
      id == view.flow.categoryNetwork))
  | .compare .notEqual (.name text) =>
    let id := s.lookupApp (unquote s text)
    some (.both (id != view.flow.category.application || id != view.flow.category.domain ||
      id != view.flow.categoryNetwork))
  | _ => none

/-- The comparisons do not assign `$$`. -/
def exprRisks : ExprTest → Option ExprAction
  | .set => some (.both (view.flow.risks.length != 0))
  | .unset => some (.both (view.flow.risks.length == 0))
  | .compare .equal (.name text) =>
    some (.resultOnly (view.flow.risks.contains (s.riskLookup (unquote s text))))
  | .compare .notEqual (.name text) =>
    some (.resultOnly !(view.flow.risks.contains (s.riskLookup (unquote s text))))
  | .compare _ _ => none

def exprNdpiRiskScore : ExprTest → Option ExprAction := exprNumber s view.flow.ndpiRiskScore

def exprNdpiRiskScoreClient : ExprTest → Option ExprAction :=
  exprNumber s view.flow.ndpiRiskScoreClient

def exprNdpiRiskScoreServer : ExprTest → Option ExprAction :=
  exprNumber s view.flow.ndpiRiskScoreServer

def exprAppCategory : ExprTest → Option ExprAction :=
  exprOneCategory s s.lookupApp view.flow.category.application

def exprDomainCategory : ExprTest → Option ExprAction :=
  exprOneCategory s s.lookupApp view.flow.category.domain

def exprNetworkCategory : ExprTest → Option ExprAction :=
  exprOneCategory s s.lookupApp view.flow.categoryNetwork

def exprProto : ExprTest → Option ExprAction :=
  exprKnown (view.flow.detectedProtocol != 0) fun
    | .number text => some (view.flow.detectedProtocol == numberValue s text)
    | .name text =>
      let proto := view.flow.detectedProtocolName.toList
      some (proto != [] && sameText ndfpMaxBuflen proto (unquote s text))
    | _ => none

def exprProtoCategory : ExprTest → Option ExprAction :=
  exprOneCategory s s.lookupProto view.flow.category.protocol

/-- `while ((p = rx.find_first_of(":")) != npos) rx.erase(0, p)`, one round of it;
`none` is the exit. The colon it finds stays. -/
def stripScheme (rx : List Char) : Option (List Char) :=
  if ':' ∈ rx then some (rx.dropWhile (· != ':')) else none

/-- The loop ends only where it has nothing to do. -/
theorem stripScheme_ends_iff {rx : List Char} : (eval stripScheme rx).Dom ↔ ':' ∉ rx := by
  refine ⟨fun ends colon => ?_, fun clear => ends_at (by simp [stripScheme, clear])⟩
  have stays : ':' ∈ rx.dropWhile (· != ':') := by
    clear ends
    induction rx with
    | nil => simp at colon
    | cons c rest ih =>
      by_cases same : c = ':'
      · simp [same]
      · have later : ':' ∈ rest := (List.mem_cons.mp colon).resolve_left (Ne.symm same)
        simpa [same] using ih later
  have again : stripScheme (rx.dropWhile (· != ':')) = some (rx.dropWhile (· != ':')) := by
    simp [stripScheme, stays, List.dropWhile_idempotent]
  refine no_return_of_ends ends (t := rx.dropWhile (· != ':')) ?_ ?_
  · exact .single (by simp [stripScheme, colon])
  · exact .single again

def exprDetectedHostname : ExprTest → Option ExprAction
  | .set => some (.both (textOf view.flow.hostServerName != []))
  | .unset => some (.both (textOf view.flow.hostServerName == []))
  | .compare .equal (.name text) =>
    let host := textOf view.flow.hostServerName
    some (.both (host != [] && sameText ndfpMaxBuflen (unquote s text) host))
  | .compare .notEqual (.name text) =>
    let host := textOf view.flow.hostServerName
    some (.both !(host != [] && sameText ndfpMaxBuflen (unquote s text) host))
  | .compare .equal (.regex text) =>
    let host := textOf view.flow.hostServerName
    if host = [] ∨ ¬ s.workingRegex then some (.both false)
    else if (stripScheme (unquote s text)).isSome then some .endless
    else some (.both ((s.regexSearch host (unquote s text)).getD false))
  | .compare .notEqual (.regex _) => some (.both true)
  | .compare _ _ => none

/-- Without the data of the connection tracker every test is false. -/
def exprFwmark (test : ExprTest) : Option ExprAction :=
  if s.conntrackMdata then exprNumber s view.flow.ctMark test
  else (exprNumber s view.flow.ctMark test).map fun _ => .both false

def exprSslVersion : ExprTest → Option ExprAction :=
  exprNumber s (view.flow.toFlow.readShort s Layout.sslVersion)

def exprSslCipher : ExprTest → Option ExprAction :=
  exprNumber s (view.flow.toFlow.readShort s Layout.sslCipherSuite)

def exprOrigin : ExprTest → Option ExprAction :=
  exprKnown (view.origin != .unknown) fun
    | .origin o => some (view.origin == o)
    | _ => none

/-- The rules of an attribute. -/
def exprAttr : FlowAttr → ExprTest → Option ExprAction
  | .ipProto => exprIpProto s view
  | .ipVersion => exprIpVersion s view
  | .ipNat => exprIpNat view
  | .vlanId => exprVlanId s view
  | .otherType => exprOtherType view
  | .localMac => exprLocalMac s view
  | .otherMac => exprOtherMac s view
  | .localIp => exprLocalIp s view
  | .otherIp => exprOtherIp s view
  | .localPort => exprLocalPort s view
  | .otherPort => exprOtherPort s view
  | .tunnelType => exprTunnelType view
  | .detectionGuessed => exprDetectionGuessed view
  | .detectionUpdated => exprDetectionUpdated view
  | .category => exprCategory s view
  | .risks => exprRisks s view
  | .ndpiRiskScore => exprNdpiRiskScore s view
  | .ndpiRiskScoreClient => exprNdpiRiskScoreClient s view
  | .ndpiRiskScoreServer => exprNdpiRiskScoreServer s view
  | .domainCategory => exprDomainCategory s view
  | .networkCategory => exprNetworkCategory s view
  | .application => exprApp s view
  | .applicationCategory => exprAppCategory s view
  | .protocol => exprProto s view
  | .protocolCategory => exprProtoCategory s view
  | .detectedHostname => exprDetectedHostname s view
  | .sslVersion => exprSslVersion s view
  | .sslCipher => exprSslCipher s view
  | .origin => exprOrigin view
  | .ctMark => exprFwmark s view

end

end NetifyAgent
