import Mathlib.Data.List.AList
import NetifyAgent.Applications
import NetifyAgent.CategoryDirectory

/-! `ndApplications`: applications by id and by tag, domains, transforms of domains
and networks, the loaders that fill these tables and the queries that read them. An
unordered map is kept with its keys in the order of their insertion, the last one
first; the order in which it is visited is a parameter. -/
namespace NetifyAgent
open Lines

/-- `regex` and `regex_replace`: whether a pattern compiles, and what replaces a
domain by a pattern and a replacement. -/
structure Regex where
  compiles : List Char → Bool
  replace : List Char → List Char → List Char → List Char

/-- `ndApplications` with the tables that its queries read. -/
structure NdApplications extends Applications where
  apps : AList fun _ : Nat => List Char := ∅
  appTags : OrderedMap (List Char) Nat := ∅
  tlds : Finset (List Char) := ∅
  domains : AList fun _ : List Char => Nat := ∅
  domainXforms : AList fun _ : List Char => List Char := ∅
  deriving DecidableEq

/-- `strtoul` with base 0, which reads the base off the number and stays at the
largest value when there are too many digits. -/
def strtoul (text : List Char) : Nat :=
  let text := text.dropWhile isSpace
  let negative := text.head? = some '-'
  let text := if negative ∨ text.head? = some '+' then text.tail else text
  let hex := text.head? = some '0' ∧ (text[1]? = some 'x' ∨ text[1]? = some 'X') ∧
    leadingDigits 16 (text.drop 2) ≠ []
  let base := if hex then 16 else if text.head? = some '0' then 8 else 10
  let n := Nat.ofDigits base (leadingDigits base (if hex then text.drop 2 else text)).reverse
  if 2 ^ 64 ≤ n then 2 ^ 64 - 1 else if negative then (2 ^ 64 - n) % 2 ^ 64 else n

/-- A cast to `nd_app_id_t`. -/
def appId (text : List Char) : Nat := strtoul text % 2 ^ 32

/-- `nd_trim` of white space, or of a character. -/
def trim (drop : Char → Bool) (text : List Char) : List Char :=
  ((text.dropWhile drop).reverse.dropWhile drop).reverse

namespace NdApplications

/-! ## Adding -/

/-- `ndApplications::Reset`. The top level domains stay. -/
def reset (self : NdApplications) : NdApplications := { tlds := self.tlds }

/-- `ndApplications::AddApp` and whether it returns an application. -/
def addApp (self : NdApplications) (id : Nat) (tag : List Char) : NdApplications × Bool :=
  if (self.apps.lookup id).isSome then (self, true)
  else if (self.appTags.get tag).isSome then (self, false)
  else ({ self with apps := self.apps.insert id tag, appTags := self.appTags.set tag id }, true)

/-- `ndApplications::AddDomain`. -/
def addDomain (self : NdApplications) (id : Nat) (domain : List Char) : NdApplications :=
  { self with
    domains := if (self.domains.lookup domain).isSome then self.domains
      else self.domains.insert domain id
    tlds := if '.' ∈ domain then self.tlds else insert domain self.tlds }

/-- `ndApplications::AddDomainTransform`. -/
def addDomainTransform (regex : Regex) (self : NdApplications) (search replace : List Char) :
    NdApplications :=
  if search = [] then self
  else if (self.domainXforms.lookup search).isSome then self
  else if regex.compiles search then
    { self with domainXforms := self.domainXforms.insert search replace }
  else self

/-- `ndApplications::AddNetwork`. -/
def addNetwork (pton : Pton) (self : NdApplications) (id : Nat) (network : List Char) :
    NdApplications :=
  { self with toApplications := (self.toApplications.addNetwork pton id network).1 }

/-! ## Loading -/

/-- One line of a signature file, and whether it adds an application. A line of a
soft dissector fills a table that no query reads. -/
def loadLine (pton : Pton) (regex : Regex) (self : NdApplications) (line : List Char) :
    NdApplications × Bool :=
  match splitLine line with
  | none => (self, false)
  | some (type, line) =>
    match cutFirst ':' line with
    | none => (self, false)
    | some (first, rest) =>
      if type = "app".toList then
        if (self.apps.lookup (appId first)).isSome then (self, false)
        else self.addApp (appId first) rest
      else if type = "dom".toList then (self.addDomain (appId first) rest, false)
      else if type = "net".toList then (self.addNetwork pton (appId first) rest, false)
      else if type = "xfm".toList then (self.addDomainTransform regex first rest, false)
      else (self, false)

/-- The loop over the lines, with `stats.ac`. -/
def loadLines (pton : Pton) (regex : Regex) (s : NdApplications × Nat) (ls : List (List Char)) :
    NdApplications × Nat :=
  ls.foldl (fun s line =>
    let (self, added) := loadLine pton regex s.1 line
    (self, if added then s.2 + 1 else s.2)) s

/-- `ndApplications::Load` and what it returns. -/
def load (pton : Pton) (regex : Regex) (self : NdApplications) (file : Option (List Char)) :
    NdApplications × Bool :=
  match file with
  | none => (self, false)
  | some text =>
    let (self, ac) := loadLines pton regex (self.reset, 0) (lines text)
    (self, 0 < ac)

/-- One entry of a legacy line. -/
def legacyEntry (pton : Pton) (id : Nat) (self : NdApplications) (entry : List Char) :
    NdApplications :=
  match cutFirst ':' (trim isSpace entry) with
  | none => self
  | some (type, rest) =>
    if trim isSpace type = "host".toList then
      let domain := trim (· = '"') (trim isSpace rest)
      if domain.head? ≠ some '^' then self
      else
        let domain := domain.dropWhile (· = '^')
        self.addDomain id (domain.reverse.dropWhile (· = '$')).reverse
    else if trim isSpace type = "ip".toList then self.addNetwork pton id (trim isSpace rest)
    else self

/-- The application that a legacy line names, with the text of its entries. -/
def legacyApp (line : List Char) : Option ((Nat × List Char) × List Char) :=
  let line := trim isSpace line
  if line = [] ∨ line.head? = some '#' then none
  else do
    let (entries, app) ← cutLast '@' line
    let (id, tag) ← cutFirst '.' (trim isSpace app)
    return ((appId id, trim isSpace tag), entries)

/-- The loop over the legacy lines, with `ac`. It ends at a new application whose
tag is taken. -/
def loadLegacyLines (pton : Pton) : List (List Char) → NdApplications → Nat →
    NdApplications × Bool
  | [], self, ac => (self, 0 < ac)
  | line :: rest, self, ac =>
    match legacyApp line with
    | none => loadLegacyLines pton rest self ac
    | some ((id, tag), entries) =>
      let isNew := (self.apps.lookup id).isNone
      let (self, added) := self.addApp id tag
      if isNew ∧ ¬ added then (self, false)
      else
        loadLegacyLines pton rest ((pieces ',' entries).foldl (legacyEntry pton id) self)
          (if isNew then ac + 1 else ac)

/-- `ndApplications::LoadLegacy` and what it returns. -/
def loadLegacy (pton : Pton) (self : NdApplications) (file : Option (List Char)) :
    NdApplications × Bool :=
  match file with
  | none => (self, false)
  | some text => loadLegacyLines pton (lines text) self.reset 0

/-! ## Queries -/

/-- `ndApplications::Lookup` of an id: the tag and whether there is one. -/
def lookup (self : NdApplications) (id : Nat) : List Char × Bool :=
  match self.apps.lookup id with
  | none => ("Unknown".toList, false)
  | some tag => (tag, true)

/-- `ndApplications::Lookup` of a tag. -/
def lookupTag (self : NdApplications) (tag : List Char) : Nat :=
  (self.appTags.get tag).getD ndAppUnknown

/-- `ndApplications::Lookup` of a tag, with the application that it copies. -/
def lookupApp (self : NdApplications) (tag : List Char) : Option (Nat × List Char) :=
  (self.appTags.get tag).map fun id => (id, tag)

/-- The loop of `Find` over the parts of a domain. Every round but the last makes the
text shorter. -/
def findParts (self : NdApplications) : Nat → List Char → Option Nat
  | 0, _ => none
  | rounds + 1, it =>
    if it = [] then none
    else
      match cutFirst '.' it with
      | none => if it ∈ self.tlds then self.domains.lookup it else none
      | some (_, rest) =>
        match self.domains.lookup it with
        | some id => some id
        | none => findParts self rounds rest

/-- What `Find` searches for: what the transforms make of the domain, in the order
in which they are visited, or the domain if that is nothing. -/
def searches (regex : Regex)
    (visit : List ((_ : List Char) × List Char) → List ((_ : List Char) × List Char))
    (self : NdApplications) (domain : List Char) : List (List Char) :=
  if domain = [] then []
  else
    let results := (visit self.domainXforms.entries).map fun rx => regex.replace rx.1 rx.2 domain
    let search := results.filter (· ≠ [])
    if search = [] then [domain] else search

/-- `ndApplications::Find` of a domain. -/
def findDomain (regex : Regex)
    (visit : List ((_ : List Char) × List Char) → List ((_ : List Char) × List Char))
    (self : NdApplications) (domain : List Char) : Nat :=
  ((searches regex visit self domain).findSome? fun it =>
    self.findParts (it.length + 1) it).getD ndAppUnknown

end NdApplications
end NetifyAgent
