import NetifyAgent.AddrText
import NetifyAgent.Categories
import NetifyAgent.Lib.Lines

/-! `ndCategories::LoadDotDirectory` and the queries of what it loads. Every
category keeps the domains of the first file that has any for it. Lines of
networks are passed over; lines of unknown kinds are read as networks and stored
in tables that are never there. -/
namespace NetifyAgent
open Lines

/-- An entry of a directory. It has no text if it cannot be opened. -/
structure DirEntry where
  name : List Char
  /-- A link, a regular file or of unknown type. -/
  plain : Bool := true
  text : Option (List Char)
  deriving DecidableEq

/-- The entries in the order of `readdir`, if the directory can be opened. -/
abbrev Directory := Option (List DirEntry)

/-- Whether `nd_scan_dotd` takes an entry. -/
def DirEntry.taken (entry : DirEntry) : Bool :=
  entry.plain && entry.name.head?.any (fun c => '0' ≤ c && c ≤ '9') &&
    ((cutLast '.' entry.name).any fun cut => cut.2 = "conf".toList)

/-- `nd_scan_dotd`: the files, unless it returns false. -/
def scanDotd (dir : Directory) : Option (List DirEntry) :=
  match dir with
  | none => none
  | some entries =>
    let files := entries.filter DirEntry.taken
    if files = [] then none else some files

/-- A line that is neither empty nor a comment, cut at its first colon. -/
def splitLine (line : List Char) : Option (List Char × List Char) :=
  let line := line.dropWhile isSpace
  if line = [] ∨ line.head? = some '#' then none else cutFirst ':' line

/-- The tag between the first hyphen and the last dot of a file name. A dot in
front of the hyphen makes the length wrap around. -/
def categoryTag (name : List Char) : Option (List Char) :=
  match cutFirst '-' name with
  | none => none
  | some (_, rest) =>
    match cutLast '.' name with
    | none => none
    | some _ => some ((cutLast '.' rest).elim rest Prod.fst)

/-- What a category file adds to: its domains and the two tables. -/
structure CategoryEntries where
  entries : Finset (List Char) := ∅
  networks4 : Option (RadixTree 32 Nat) := none
  networks6 : Option (RadixTree 128 Nat) := none
  deriving DecidableEq

namespace Categories
open RadixNetworkEntry

/-- An assignment to an entry of a table, whose exceptions are caught. `none` for
a table that is not there. -/
def assignNetwork {N : Nat} (networks : Option (RadixTree N Nat)) (entry : RadixNetworkEntry N)
    (catId : Nat) : Option (RadixTree N Nat) :=
  networks.map fun tree =>
    match tree.assign entry catId with
    | .ok tree => tree
    | .error _ => tree

/-- One line of a category file. `none` for undefined behaviour. -/
def loadLine (pton : Pton) (catId : Nat) (file : CategoryEntries) (line : List Char) :
    Option CategoryEntries :=
  match splitLine line with
  | none => some file
  | some (type, rest) =>
    if type = "dom".toList then some { file with entries := insert rest file.entries }
    else if type ≠ "net".toList then
      let addr := Addr.ofText pton rest
      if ¬ addr.isValid ∨ ¬ addr.isIP then some file
      else if addr.isIPv4 then
        match create read4 addr with
        | none => some file
        | some entry =>
          (assignNetwork file.networks4 entry catId).map fun networks4 =>
            { file with networks4 := some networks4 }
      else
        match create read6 addr with
        | none => some file
        | some entry =>
          (assignNetwork file.networks6 entry catId).map fun networks6 =>
            { file with networks6 := some networks6 }
    else some file

/-- `domains.insert`. The arrangement is the order in which the table is visited
after an insertion. -/
def insertDomains (arrange : List (Nat × Finset (List Char)) → List (Nat × Finset (List Char)))
    (catId : Nat) (entries : Finset (List Char)) (domains : List (Nat × Finset (List Char))) :
    List (Nat × Finset (List Char)) :=
  if domains.any fun it => it.1 = catId then domains else arrange ((catId, entries) :: domains)

/-- The category of a file, with its text. `none` for a file that is rejected. -/
def accepted (cs : Categories) (entry : DirEntry) : Option (Nat × List Char) := do
  let catTag ← categoryTag entry.name
  let catId ← cs.app.tag.get catTag
  return (catId, ← entry.text)

/-- One file of the directory. -/
def loadFile (pton : Pton)
    (arrange : List (Nat × Finset (List Char)) → List (Nat × Finset (List Char)))
    (cs : Categories) (entry : DirEntry) : Option Categories :=
  match cs.accepted entry with
  | none => some cs
  | some (catId, text) =>
    ((lines text).foldlM (loadLine pton catId)
      { networks4 := cs.networks4, networks6 := cs.networks6 }).map fun file =>
      { cs with
        networks4 := file.networks4
        networks6 := file.networks6
        domains :=
          if file.entries = ∅ then cs.domains
          else insertDomains arrange catId file.entries cs.domains }

/-- `ndCategories::ResetDomains`. -/
def resetDomains (cs : Categories) : Categories := { cs with domains := [] }

/-- `ndCategories::ResetNetworks`. -/
def resetNetworks (cs : Categories) (freeOnly : Bool) : Categories :=
  if freeOnly then { cs with networks4 := none, networks6 := none }
  else { cs with networks4 := some {}, networks6 := some {} }

/-- `ndCategories::LoadDotDirectory` and what it returns, if it does. -/
def loadDotDirectory (pton : Pton)
    (arrange : List (Nat × Finset (List Char)) → List (Nat × Finset (List Char)))
    (cs : Categories) (dir : Directory) : Option (Categories × Bool) :=
  match scanDotd dir with
  | none => some (cs, true)
  | some files =>
    (files.foldlM (loadFile pton arrange) (cs.resetDomains.resetNetworks true)).map (·, true)

/-- The first category in which a text is a domain. -/
def categoryOf (domains : List (Nat × Finset (List Char))) (search : List Char) : Option Nat :=
  (domains.find? fun it => search ∈ it.2).map Prod.fst

/-- The loop of `LookupDotDirectory`. Every round but the last makes the text
shorter, so that the rounds are no more than its length and one. -/
def searchDomains (domains : List (Nat × Finset (List Char))) : Nat → List Char → Nat
  | 0, _ => ndCatUnknown
  | rounds + 1, search =>
    match categoryOf domains search with
    | some catId => catId
    | none =>
      match cutFirst '.' search with
      | none => ndCatUnknown
      | some (_, rest) =>
        if rest = [] then ndCatUnknown else searchDomains domains rounds rest

/-- `ndCategories::LookupDotDirectory` of a domain. -/
def lookupDotDirectory (cs : Categories) (domain : List Char) : Nat :=
  searchDomains cs.domains (domain.length + 1) domain

/-- `ndCategories::LookupDotDirectory` of an address. -/
def lookupDotDirectoryAddr (_ : Categories) (_ : Addr) : Nat := ndCatUnknown

end Categories
end NetifyAgent
