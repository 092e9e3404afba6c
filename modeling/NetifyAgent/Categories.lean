import NetifyAgent.Json
import NetifyAgent.Lib.Runs
import NetifyAgent.Radix

/-! `ndCategories`: for applications and for protocols a map from tags to category
ids and a map from category ids to their members. Three loaders fill the maps.
A query for a member by category id never finds one, so that it agrees with the
other queries exactly where they find none either. -/
namespace NetifyAgent

/-- `ND_CAT_UNKNOWN`. -/
def ndCatUnknown : Nat := 0

/-- `ndCategory`. -/
structure NdCategory where
  tag : OrderedMap (List Char) Nat := ∅
  index : OrderedMap Nat (Finset Nat) := ∅
  deriving DecidableEq

/-- `ndCategories::Type`. -/
inductive CategoryType where
  | typeNone
  | typeApp
  | typeProto
  | typeMax
  deriving DecidableEq, Repr

/-- `ndCategories`. The map `categories` has the two types that the constructor
puts there. The domains stand in the order in which they are visited. -/
structure Categories where
  app : NdCategory := {}
  proto : NdCategory := {}
  domains : List (Nat × Finset (List Char)) := []
  networks4 : Option (RadixTree 32 Nat) := none
  networks6 : Option (RadixTree 128 Nat) := none
  deriving DecidableEq

/-- How a loader ends: it returns, an exception leaves it, or it does what has
no defined behaviour. -/
inductive LoadEnd where
  | returned (ok : Bool)
  | thrown
  | undefined
  deriving DecidableEq, Repr

namespace NdCategory

/-- One type's members of the current format. The flag is false for a throw. -/
def read (key : String) (jdata : Json) (ci : NdCategory) : NdCategory × LoadEnd :=
  match (jdata.find (key ++ "_tag_index").toList).bind Json.getIndexTag with
  | none => (ci, .thrown)
  | some tag =>
    let ci := { ci with tag }
    match (jdata.find (key ++ "_index").toList).bind Json.getIndexCat with
    | none => (ci, .thrown)
    | some index => ({ ci with index }, .returned true)

/-- The loop over the members of a legacy index. -/
def readMembers : List (List Char × Json) → Nat → NdCategory → NdCategory × LoadEnd
  | [], _, ci => (ci, .returned true)
  | (tag, .array elements) :: rest, id, ci =>
    let ci := { ci with tag := ci.tag.set tag id }
    match (Json.array elements).getSet with
    | none => (ci, .thrown)
    | some ids => readMembers rest ((id + 1) % 2 ^ 32) { ci with index := ci.index.set id ids }
  | (_, _) :: rest, id, ci => readMembers rest id ci

/-- One type's legacy index. The past-the-end iterator of an object or of an array
is dereferenced, that of another value throws. -/
def readLegacy (key : String) (jdata : Json) (ci : NdCategory) : NdCategory × LoadEnd :=
  match jdata.find (key ++ "_index").toList with
  | none =>
    match jdata with
    | .object _ | .array _ => (ci, .undefined)
    | _ => (ci, .thrown)
  | some (.object members) => readMembers members 1 ci
  | some _ => (ci, .thrown)

/-- One element of the array that the incremental loader merges. -/
def merge (key : String) (entry : Json) (ci : NdCategory) : Option NdCategory :=
  match entry.find key.toList with
  | none => some ci
  | some category => do
    let id ← (← entry.find "id".toList).getUnsigned
    let cid ← (← category.find "id".toList).getUnsigned
    let tag ← (← category.find "tag".toList).getString
    let ids := (ci.index.get cid).getD ∅
    return { tag := ci.tag.emplace tag cid, index := ci.index.set cid (insert id ids) }

/-- The loop over the elements, up to the first that throws. -/
def mergeAll (key : String) : List Json → NdCategory → NdCategory × LoadEnd
  | [], ci => (ci, .returned true)
  | entry :: rest, ci =>
    match merge key entry ci with
    | none => (ci, .thrown)
    | some ci => mergeAll key rest ci

end NdCategory

namespace Categories

/-! ## Loading -/

/-- `ndCategories::ResetCategories`. -/
def resetCategories (cs : Categories) : Categories := { cs with app := {}, proto := {} }

/-- The loop over the two types, up to the first that does not end well. -/
def readBoth (read : String → NdCategory → NdCategory × LoadEnd) (cs : Categories) :
    Categories × LoadEnd :=
  match read "application" cs.app with
  | (app, .returned _) =>
    let (proto, ends) := read "protocol" cs.proto
    ({ cs with app, proto }, ends)
  | (app, ends) => ({ cs with app }, ends)

/-- `ndCategories::LoadLegacy`. -/
def loadLegacy (cs : Categories) (jdata : Json) : Categories × LoadEnd :=
  readBoth (fun key => NdCategory.readLegacy key jdata) cs.resetCategories

/-- The format with tag indexes. -/
def isCurrent (jdata : Json) : Bool :=
  (jdata.find "application_tag_index".toList).isSome &&
    (jdata.find "protocol_tag_index".toList).isSome

/-- `ndCategories::Load` of a file. A file that cannot be opened has no text. -/
def load (parse : List Char → Option Json) (cs : Categories) (file : Option (List Char)) :
    Categories × LoadEnd :=
  match file with
  | none => (cs, .returned false)
  | some text =>
    match parse text with
    | none => (cs, .returned false)
    | some jdata =>
      if isCurrent jdata then
        readBoth (fun key => NdCategory.read key jdata) cs.resetCategories
      else loadLegacy cs jdata

/-- `ndCategories::Load` of the categories of one type. -/
def loadType (cs : Categories) (type : CategoryType) (jdata : Json) : Categories × LoadEnd :=
  match type with
  | .typeApp =>
    let (app, ends) := NdCategory.mergeAll "application_category" jdata.children cs.app
    ({ cs with app }, ends)
  | .typeProto =>
    let (proto, ends) := NdCategory.mergeAll "protocol_category" jdata.children cs.proto
    ({ cs with proto }, ends)
  | _ => (cs, .returned false)

/-! ## Queries -/

/-- `categories.find(type)`. -/
def find (cs : Categories) : CategoryType → Option NdCategory
  | .typeApp => some cs.app
  | .typeProto => some cs.proto
  | _ => none

/-- `ndCategories::IsMember` of a category id. -/
def isMember (cs : Categories) (type : CategoryType) (catId id : Nat) : Bool :=
  match cs.find type with
  | none => false
  | some ci =>
    match ci.index.get catId with
    | none => false
    | some ids => if id ∉ ids then false else false

/-- `ndCategories::IsMember` of a tag. -/
def isMemberTag (cs : Categories) (type : CategoryType) (catTag : List Char) (id : Nat) : Bool :=
  match cs.find type with
  | none => false
  | some ci =>
    match ci.tag.get catTag with
    | none => false
    | some catId =>
      match ci.index.get catId with
      | none => false
      | some ids => if id ∉ ids then false else true

/-- `ndCategories::Lookup`. -/
def lookup (cs : Categories) (type : CategoryType) (id : Nat) : Nat :=
  match cs.find type with
  | none => ndCatUnknown
  | some ci =>
    match ci.index.entries.find? fun it => id ∈ it.2 with
    | none => ndCatUnknown
    | some it => it.1

/-- `ndCategories::LookupTag`. -/
def lookupTag (cs : Categories) (type : CategoryType) (tag : List Char) : Nat :=
  match cs.find type with
  | none => ndCatUnknown
  | some ci => (ci.tag.get tag).getD ndCatUnknown

/-- `ndCategories::ResolveTag`, with the text that it leaves in `tag`. -/
def resolveTag (cs : Categories) (type : CategoryType) (id : Nat) (tag : List Char) :
    Nat × List Char :=
  let catId := cs.lookup type id
  if catId = ndCatUnknown then (ndCatUnknown, tag)
  else
    match cs.find type with
    | none => (catId, tag)
    | some ci =>
      match ci.tag.entries.find? fun i => i.2 = catId with
      | none => (catId, tag)
      | some i => (catId, i.1)

end Categories
end NetifyAgent
