import NetifyAgent.Radix
import Mathlib.Data.Nat.Digits.Defs

/-! Addresses as texts. `ndAddr::Create` reads the host of a network with
`inet_pton`, a parameter here, and its prefix length with `stoul`; a text of
another kind may be a hardware address. A text is the list of its characters. -/
namespace NetifyAgent

/-! ## Numbers -/

/-- `isspace` in the C locale. -/
def isSpace (c : Char) : Bool := c == ' ' || ('\t' ≤ c && c ≤ '\r')

/-- The value of a digit. -/
def digitValue (c : Char) : Option Nat :=
  if '0' ≤ c ∧ c ≤ '9' then some (c.toNat - '0'.toNat)
  else if 'a' ≤ c ∧ c ≤ 'z' then some (c.toNat - 'a'.toNat + 10)
  else if 'A' ≤ c ∧ c ≤ 'Z' then some (c.toNat - 'A'.toNat + 10)
  else none

/-- The digits of a base at the start of a text. -/
def leadingDigits (base : Nat) : List Char → List Nat
  | [] => []
  | c :: rest =>
    match digitValue c with
    | some d => if d < base then d :: leadingDigits base rest else []
    | none => []

/-- `stoul` with an explicit base: nothing is thrown for a text that starts with a
number of 64 bits, after white space and a sign. -/
def stoul (base : Nat) (text : List Char) : Option Nat :=
  let text := text.dropWhile isSpace
  let negative := text.head? = some '-'
  let text := if negative ∨ text.head? = some '+' then text.tail else text
  let hex := base = 16 ∧ text.head? = some '0' ∧ (text[1]? = some 'x' ∨ text[1]? = some 'X') ∧
    leadingDigits base (text.drop 2) ≠ []
  let digits := leadingDigits base (if hex then text.drop 2 else text)
  let n := Nat.ofDigits base digits.reverse
  if digits = [] ∨ 2 ^ 64 ≤ n then none
  else some (if negative then (2 ^ 64 - n) % 2 ^ 64 else n)

/-! ## Addresses -/

/-- `inet_pton` for `AF_INET` and for `AF_INET6`: the bytes, if it returns 1. -/
structure Pton where
  inet : List Char → Option (List UInt8)
  inet6 : List Char → Option (List UInt8)

/-- The fields that `getline` reads up to a separator, six of them at most. -/
def fields (separator : Char) : Nat → List Char → List (List Char)
  | 0, _ => []
  | n + 1, text =>
    text.takeWhile (· ≠ separator) ::
      match text.dropWhile (· ≠ separator) with
      | [] => []
      | _ :: rest => fields separator n rest

/-- `ndAddr::Create(a, addr)` and whether it succeeds. -/
def Addr.createText (pton : Pton) (a : Addr) (addr : List Char) : Addr × Bool :=
  let host := addr.takeWhile (· ≠ '/')
  let slash := addr.dropWhile (· ≠ '/')
  match if slash = [] then some a.prefixLen else (stoul 10 slash.tail).map (· % 256) with
  | none => (a, false)
  | some prefixLen =>
    let a := { a with prefixLen }
    match pton.inet host with
    | some bytes =>
      let a := { a with sinAddr := bytes }
      if 32 < prefixLen then (a, false) else ({ a with family := .inet }, true)
    | none =>
      match pton.inet6 host with
      | some bytes =>
        let a := { a with sin6Addr := bytes }
        if 128 < prefixLen then (a, false) else ({ a with family := .inet6 }, true)
      | none =>
        let octets := fields ':' 6 addr
        match octets.mapM (stoul 16) with
        | some hwAddr =>
          if addr.length = 17 ∧ octets.length = 6 then
            (a.createHw (hwAddr.map UInt8.ofNat), true)
          else (a, false)
        | none => (a, false)

/-- `ndAddr(addr)`. -/
def Addr.ofText (pton : Pton) (addr : List Char) : Addr := (Addr.createText pton {} addr).1

/-- `ndAddr::HasValidPrefix`. -/
def Addr.hasValidPrefix (a : Addr) : Bool :=
  0 < a.prefixLen && ((a.family == .inet && a.prefixLen ≤ 32) ||
    (a.family == .inet6 && a.prefixLen ≤ 128))

/-- `ndAddr::IsNetwork`. -/
def Addr.isNetwork (a : Addr) : Bool :=
  a.hasValidPrefix && ((a.family == .inet && a.prefixLen != 32) ||
    (a.family == .inet6 && a.prefixLen != 128))

end NetifyAgent
