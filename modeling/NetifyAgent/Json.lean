import Mathlib.Algebra.Ring.Int.Defs
import Mathlib.Data.Char
import Mathlib.Data.Finset.Dedup
import Mathlib.Data.List.Lex
import NetifyAgent.Lib.OrderedMap

/-! JSON values as the loaders read them: members are looked up by name, and a
value is converted to the type that a table wants or the conversion throws. -/
namespace NetifyAgent

/-- A parsed value. The members of an object stand in the order of their names. -/
inductive Json where
  | null
  | boolean (b : Bool)
  /-- `number_integer` and `number_unsigned`. -/
  | integer (n : Int)
  /-- A floating point number, by its integral part. -/
  | float (whole : Int)
  | string (text : List Char)
  | array (elements : List Json)
  | object (members : List (List Char × Json))

namespace Json

/-- `find(key)`. `none` is `end()`. -/
def find (key : List Char) : Json → Option Json
  | object members => (members.find? fun e => e.1 = key).map Prod.snd
  | _ => none

/-- `get<unsigned>()`. `none` is thrown. -/
def getUnsigned : Json → Option Nat
  | boolean b => some b.toNat
  | integer n => some (n % 2 ^ 32).toNat
  | float whole => some (whole % 2 ^ 32).toNat
  | _ => none

/-- `get<string>()`. -/
def getString : Json → Option (List Char)
  | string text => some text
  | _ => none

/-- `get<set<unsigned>>()`. -/
def getSet : Json → Option (Finset Nat)
  | array elements => (elements.mapM getUnsigned).map List.toFinset
  | _ => none

/-- `get<map<string, unsigned>>()`. -/
def getIndexTag : Json → Option (OrderedMap (List Char) Nat)
  | object members =>
    members.foldlM (fun m e => e.2.getUnsigned.map fun id => m.emplace e.1 id) ∅
  | _ => none

/-- `get<map<unsigned, set<unsigned>>>()`, from an array of pairs. -/
def getIndexCat : Json → Option (OrderedMap Nat (Finset Nat))
  | array elements =>
    elements.foldlM (fun m p =>
      match p with
      | array (id :: ids :: _) => do return m.emplace (← id.getUnsigned) (← ids.getSet)
      | _ => none) ∅
  | _ => none

/-- The values that `begin()` to `end()` runs over. -/
def children : Json → List Json
  | null => []
  | array elements => elements
  | object members => members.map Prod.snd
  | value => [value]

end Json

end NetifyAgent
