import NetifyAgent.ApplicationTables

/-! Loads that fail. A loader clears its tables before it knows whether the file is
of use, so that a failure leaves the answers alone only if the file cannot be
opened or parsed, or if the tables said before what the file leaves in them. -/
namespace NetifyAgent.FailedLoads
open Lines

/-! ## Categories -/

namespace CategoryFiles
open Categories

/-- Two tables answer the queries in the same way. -/
structure SameAnswers (a b : Categories) : Prop where
  lookup : ∀ type id, a.lookup type id = b.lookup type id
  lookupTag : ∀ type tag, a.lookupTag type tag = b.lookupTag type tag
  resolveTag : ∀ type id tag, a.resolveTag type id tag = b.resolveTag type id tag
  isMember : ∀ type catId id, a.isMember type catId id = b.isMember type catId id
  isMemberTag : ∀ type tag id, a.isMemberTag type tag id = b.isMemberTag type tag id

theorem sameAnswers_trans {a b c : Categories} (first : SameAnswers a b) (second : SameAnswers b c) :
    SameAnswers a c where
  lookup type id := (first.lookup type id).trans (second.lookup type id)
  lookupTag type tag := (first.lookupTag type tag).trans (second.lookupTag type tag)
  resolveTag type id tag := (first.resolveTag type id tag).trans (second.resolveTag type id tag)
  isMember type catId id := (first.isMember type catId id).trans (second.isMember type catId id)
  isMemberTag type tag id := (first.isMemberTag type tag id).trans (second.isMemberTag type tag id)

/-- The answers are those of the two types. -/
theorem sameAnswers_types {a b : Categories} (app : a.app = b.app) (proto : a.proto = b.proto) :
    SameAnswers a b := by
  have same : a.find = b.find := by
    funext type
    cases type <;> simp [find, app, proto]
  have lookups : a.lookup = b.lookup := by
    funext type id
    unfold lookup
    rw [same]
  constructor <;> intros <;>
    simp only [lookups, same, lookupTag, resolveTag, isMember, isMemberTag]

/-- A load that fails, if at all, is defined and leaves the answers as they were. -/
def Keeps (parse : List Char → Option Json) (cs : Categories) (file : Option (List Char)) : Prop :=
  (load parse cs file).2 = .returned true ∨
    ((load parse cs file).2 ≠ .undefined ∧ SameAnswers (load parse cs file).1 cs)

/-- How the members of one type are read. -/
def reader (jdata : Json) (key : String) (ci : NdCategory) : NdCategory × LoadEnd :=
  if isCurrent jdata then NdCategory.read key jdata ci else NdCategory.readLegacy key jdata ci

/-- The members of both types can be read. -/
def Whole (jdata : Json) : Prop :=
  ∃ app proto, reader jdata "application" {} = (app, .returned true) ∧
    reader jdata "protocol" {} = (proto, .returned true)

/-- A member is of the wrong type, and what stands in front of it. -/
inductive Faulty (jdata : Json) : NdCategory → NdCategory → Prop
  | app {app : NdCategory} (faulty : reader jdata "application" {} = (app, .thrown)) :
      Faulty jdata app {}
  | proto {app proto : NdCategory} (whole : reader jdata "application" {} = (app, .returned true))
      (faulty : reader jdata "protocol" {} = (proto, .thrown)) : Faulty jdata app proto

/-- The file cannot be opened or parsed, or it can be read, or the tables answered
like the part of it that stands in front of the first fault. -/
def Spared (parse : List Char → Option Json) (cs : Categories) (file : Option (List Char)) :
    Prop :=
  ∀ text jdata, file = some text → parse text = some jdata →
    Whole jdata ∨ ∃ app proto, Faulty jdata app proto ∧ SameAnswers { app, proto } cs

theorem readMembers_returned {members : List (List Char × Json)} {id : Nat} {ci ci' : NdCategory}
    {ok : Bool} (done : NdCategory.readMembers members id ci = (ci', .returned ok)) : ok = true := by
  fun_induction NdCategory.readMembers members id ci with
  | case1 =>
    obtain ⟨-, same⟩ := Prod.mk.inj done
    exact (LoadEnd.returned.inj same).symm
  | case2 =>
    obtain ⟨-, other⟩ := Prod.mk.inj done
    cases other
  | case3 _ _ _ _ _ _ _ _ ih => exact ih done
  | case4 _ _ _ _ _ _ ih => exact ih done

theorem reader_returned {jdata : Json} {key : String} {ci ci' : NdCategory} {ok : Bool}
    (done : reader jdata key ci = (ci', .returned ok)) : ok = true := by
  unfold reader NdCategory.read NdCategory.readLegacy at done
  split at done
  · split at done
    · cases done
    · split at done
      · cases done
      · cases done
        rfl
  · split at done
    · split at done <;> cases done
    · exact readMembers_returned done
    · cases done

/-- The load of a file that can be parsed. -/
theorem load_parsed {parse : List Char → Option Json} (cs : Categories) {text : List Char}
    {jdata : Json} (parsed : parse text = some jdata) : load parse cs (some text) =
      readBoth (reader jdata) cs.resetCategories := by
  simp only [load, parsed]
  split
  case isTrue current =>
    have same : reader jdata = fun key => NdCategory.read key jdata := by
      funext key ci
      rw [reader, if_pos current]
    rw [same]
  case isFalse legacy =>
    have same : reader jdata = fun key => NdCategory.readLegacy key jdata := by
      funext key ci
      rw [reader, if_neg legacy]
    rw [same]
    rfl

section
variable {read : String → NdCategory → NdCategory × LoadEnd} {cs : Categories}
  {app proto : NdCategory} {ends : LoadEnd}

theorem readBoth_both {ok : Bool} (first : read "application" cs.app = (app, .returned ok))
    (second : read "protocol" cs.proto = (proto, ends)) :
    readBoth read cs = ({ cs with app, proto }, ends) := by
  unfold readBoth
  simp only [first, second]

theorem readBoth_first (first : read "application" cs.app = (app, ends))
    (stopped : ∀ ok, ends ≠ .returned ok) : readBoth read cs = ({ cs with app }, ends) := by
  unfold readBoth
  cases ends with
  | returned ok => exact absurd rfl (stopped ok)
  | thrown => simp only [first]
  | undefined => simp only [first]

end

/-- What reading both types keeps, by how the types are read. -/
theorem readBoth_keeps (cs : Categories) (jdata : Json) :
    ((readBoth (reader jdata) cs.resetCategories).2 = .returned true ∨
        ((readBoth (reader jdata) cs.resetCategories).2 ≠ .undefined ∧
          SameAnswers (readBoth (reader jdata) cs.resetCategories).1 cs)) ↔
      (Whole jdata ∨ ∃ app proto, Faulty jdata app proto ∧ SameAnswers { app, proto } cs) := by
  have left {app proto : NdCategory} (a : Categories) (sameApp : a.app = app)
      (sameProto : a.proto = proto) : SameAnswers a cs ↔ SameAnswers { app, proto } cs := by
    constructor
    · intro same
      exact sameAnswers_trans (sameAnswers_types sameApp.symm sameProto.symm) same
    · intro same
      exact sameAnswers_trans (sameAnswers_types sameApp sameProto) same
  obtain ⟨app, ends, first⟩ : ∃ app ends, reader jdata "application" {} = (app, ends) := ⟨_, _, rfl⟩
  obtain ⟨proto, ends', second⟩ : ∃ proto ends', reader jdata "protocol" {} = (proto, ends') :=
    ⟨_, _, rfl⟩
  cases ends with
  | returned ok =>
    obtain rfl : ok = true := reader_returned first
    rw [@readBoth_both _ cs.resetCategories _ _ _ _ first second]
    cases ends' with
    | returned ok' =>
      obtain rfl : ok' = true := reader_returned second
      exact ⟨fun _ => .inl ⟨app, proto, first, second⟩, fun _ => .inl rfl⟩
    | thrown =>
      simp only [reduceCtorEq, false_or, ne_eq, not_false_eq_true, true_and]
      constructor
      · intro same
        exact .inr ⟨app, proto, .proto first second, (left _ rfl rfl).mp same⟩
      · rintro (⟨app', proto', -, other⟩ | ⟨app', proto', faulty, same⟩)
        · rw [second] at other
          cases other
        · cases faulty with
          | app other =>
            rw [first] at other
            cases other
          | proto whole other =>
            rw [first] at whole
            rw [second] at other
            cases whole
            cases other
            exact (left _ rfl rfl).mpr same
    | undefined =>
      simp only [reduceCtorEq, false_or, ne_eq, not_true_eq_false, false_and, false_iff, not_or]
      constructor
      · rintro ⟨app', proto', -, other⟩
        rw [second] at other
        cases other
      · rintro ⟨app', proto', faulty, -⟩
        cases faulty with
        | app other =>
          rw [first] at other
          cases other
        | proto whole other =>
          rw [second] at other
          cases other
  | thrown =>
    rw [@readBoth_first _ cs.resetCategories _ _ first (by simp)]
    simp only [reduceCtorEq, false_or, ne_eq, not_false_eq_true, true_and]
    constructor
    · intro same
      exact .inr ⟨app, {}, .app first, (left _ rfl rfl).mp same⟩
    · rintro (⟨app', proto', other, -⟩ | ⟨app', proto', faulty, same⟩)
      · rw [first] at other
        cases other
      · cases faulty with
        | app other =>
          rw [first] at other
          cases other
          exact (left _ rfl rfl).mpr same
        | proto whole _ =>
          rw [first] at whole
          cases whole
  | undefined =>
    rw [@readBoth_first _ cs.resetCategories _ _ first (by simp)]
    simp only [reduceCtorEq, false_or, ne_eq, not_true_eq_false, false_and, false_iff, not_or]
    constructor
    · rintro ⟨app', proto', other, -⟩
      rw [first] at other
      cases other
    · rintro ⟨app', proto', faulty, -⟩
      cases faulty with
      | app other =>
        rw [first] at other
        cases other
      | proto whole _ =>
        rw [first] at whole
        cases whole

theorem keeps_iff (parse : List Char → Option Json) (cs : Categories) (file : Option (List Char)) :
    Keeps parse cs file ↔ Spared parse cs file := by
  have self : SameAnswers cs cs := sameAnswers_types rfl rfl
  cases file with
  | none =>
    constructor
    · intro _ text jdata opened
      cases opened
    · intro _
      exact .inr ⟨by simp [load], self⟩
  | some text =>
    cases parsed : parse text with
    | none =>
      have done : load parse cs (some text) = (cs, .returned false) := by
        simp only [load, parsed]
      refine ⟨fun _ text' jdata opened other => ?_, fun _ => .inr ?_⟩
      · cases opened
        rw [parsed] at other
        cases other
      · rw [done]
        exact ⟨by simp, self⟩
    | some jdata =>
      have only : Spared parse cs (some text) ↔
          (Whole jdata ∨ ∃ app proto, Faulty jdata app proto ∧ SameAnswers { app, proto } cs) := by
        constructor
        · intro spared
          exact spared text jdata rfl parsed
        · intro here text' jdata' opened parsed'
          cases opened
          rw [parsed] at parsed'
          cases parsed'
          exact here
      rw [only]
      unfold Keeps
      rw [load_parsed cs parsed]
      exact readBoth_keeps cs jdata

end CategoryFiles
/-! ## Applications -/

namespace SignatureFiles
open NdApplications

section
variable {pton : Pton} {regex : Regex}
  {visit : List ((_ : List Char) × List Char) → List ((_ : List Char) × List Char)}

/-- Two tables answer the queries in the same way. -/
structure SameAnswers (regex : Regex)
    (visit : List ((_ : List Char) × List Char) → List ((_ : List Char) × List Char))
    (a b : NdApplications) : Prop where
  lookup : ∀ id, a.lookup id = b.lookup id
  lookupTag : ∀ tag, a.lookupTag tag = b.lookupTag tag
  lookupApp : ∀ tag, a.lookupApp tag = b.lookupApp tag
  findDomain : ∀ domain, a.findDomain regex visit domain = b.findDomain regex visit domain
  find : ∀ addr, a.find addr = b.find addr

/-- Tables that differ in nothing but in top level domains that are not domains. -/
structure Alike (a b : NdApplications) : Prop where
  networks : a.toApplications = b.toApplications
  apps : a.apps = b.apps
  appTags : a.appTags = b.appTags
  domains : a.domains = b.domains
  domainXforms : a.domainXforms = b.domainXforms
  known : ∀ domain, '.' ∉ domain → (a.domains.lookup domain).isSome →
    domain ∈ a.tlds ∧ domain ∈ b.tlds

/-- The loop of `Find` goes by what is stored, if every domain without a dot is in the list. -/
theorem findParts_congr {a b : NdApplications}
    (lookups : ∀ domain, b.domains.lookup domain = a.domains.lookup domain)
    (known : ∀ domain, '.' ∉ domain → (a.domains.lookup domain).isSome →
      domain ∈ a.tlds ∧ domain ∈ b.tlds) (rounds : Nat) (it : List Char) :
    b.findParts rounds it = a.findParts rounds it := by
  induction rounds generalizing it with
  | zero => rfl
  | succ rounds ih =>
    unfold findParts
    simp only [lookups, ih]
    split
    · rfl
    · cases cut : cutFirst '.' it with
      | none =>
        cases found : a.domains.lookup it with
        | none => simp
        | some id =>
          obtain ⟨inA, inB⟩ := known it (cutFirst_eq_none.mp cut) (by rw [found]; rfl)
          simp only [if_pos inA, if_pos inB]
      | some parts => rfl

theorem findParts_alike {a b : NdApplications} (alike : Alike a b) (rounds : Nat)
    (it : List Char) : b.findParts rounds it = a.findParts rounds it :=
  findParts_congr (fun _ => by rw [alike.domains]) alike.known rounds it

theorem sameAnswers_alike {a b : NdApplications} (alike : Alike a b) :
    SameAnswers regex visit a b where
  lookup id := by simp only [NdApplications.lookup, alike.apps]
  lookupTag tag := by simp only [NdApplications.lookupTag, alike.appTags]
  lookupApp tag := by simp only [NdApplications.lookupApp, alike.appTags]
  findDomain domain := by
    have same : searches regex visit a domain = searches regex visit b domain := by
      simp only [searches, alike.domainXforms]
    simp only [NdApplications.findDomain, same, findParts_alike alike]
  find addr := by rw [alike.networks]

theorem alike_reset (self : NdApplications) : Alike self.reset {} :=
  ⟨rfl, rfl, rfl, rfl, rfl, fun _ _ found => by simp [reset] at found⟩

section
variable {a b : NdApplications}

theorem alike_addApp (alike : Alike a b) (id : Nat) (tag : List Char) :
    Alike (a.addApp id tag).1 (b.addApp id tag).1 ∧
      (a.addApp id tag).2 = (b.addApp id tag).2 := by
  unfold addApp
  rw [← alike.apps, ← alike.appTags]
  split
  · exact ⟨alike, rfl⟩
  · split
    · exact ⟨alike, rfl⟩
    · exact ⟨⟨alike.networks, by rw [alike.apps], by rw [alike.appTags], alike.domains,
        alike.domainXforms, alike.known⟩, rfl⟩

theorem alike_addDomain (alike : Alike a b) (id : Nat) (domain : List Char) :
    Alike (a.addDomain id domain) (b.addDomain id domain) := by
  refine ⟨alike.networks, alike.apps, alike.appTags, ?_, alike.domainXforms, ?_⟩
  · simp only [addDomain, alike.domains]
  · intro other plain found
    have old (present : (a.domains.lookup other).isSome) :
        other ∈ (a.addDomain id domain).tlds ∧ other ∈ (b.addDomain id domain).tlds := by
      obtain ⟨inA, inB⟩ := alike.known other plain present
      unfold addDomain
      constructor
      · simp only
        split
        · exact inA
        · exact Finset.mem_insert_of_mem inA
      · simp only
        split
        · exact inB
        · exact Finset.mem_insert_of_mem inB
    by_cases same : other = domain
    · subst same
      simp [addDomain, plain]
    · apply old
      simp only [addDomain] at found
      split at found
      · exact found
      · rwa [AList.lookup_insert_ne same] at found

theorem alike_addDomainTransform (alike : Alike a b) (search replace : List Char) :
    Alike (a.addDomainTransform regex search replace) (b.addDomainTransform regex search replace) := by
  unfold addDomainTransform
  rw [← alike.domainXforms]
  split
  · exact alike
  · split
    · exact alike
    · split
      · exact ⟨alike.networks, alike.apps, alike.appTags, alike.domains, by rw [alike.domainXforms],
          alike.known⟩
      · exact alike

theorem alike_addNetwork (alike : Alike a b) (id : Nat) (network : List Char) :
    Alike (a.addNetwork pton id network) (b.addNetwork pton id network) :=
  ⟨by simp only [NdApplications.addNetwork, alike.networks], alike.apps, alike.appTags,
    alike.domains, alike.domainXforms, alike.known⟩

theorem alike_loadLine (alike : Alike a b) (line : List Char) :
    Alike (a.loadLine pton regex line).1 (b.loadLine pton regex line).1 ∧
      (a.loadLine pton regex line).2 = (b.loadLine pton regex line).2 := by
  unfold loadLine
  split
  · exact ⟨alike, rfl⟩
  · split
    · exact ⟨alike, rfl⟩
    · split
      · rw [← alike.apps]
        split
        · exact ⟨alike, rfl⟩
        · exact alike_addApp alike _ _
      · split
        · exact ⟨alike_addDomain alike _ _, rfl⟩
        · split
          · exact ⟨alike_addNetwork alike _ _, rfl⟩
          · split
            · exact ⟨alike_addDomainTransform alike _ _, rfl⟩
            · exact ⟨alike, rfl⟩

theorem alike_loadLines (alike : Alike a b) (ac : Nat) (ls : List (List Char)) :
    Alike (loadLines pton regex (a, ac) ls).1 (loadLines pton regex (b, ac) ls).1 := by
  induction ls generalizing a b ac with
  | nil => exact alike
  | cons line ls ih =>
    obtain ⟨next, added⟩ := @alike_loadLine pton regex a b alike line
    unfold loadLines at ih ⊢
    rw [List.foldl_cons, List.foldl_cons]
    simp only [added]
    exact ih next _

theorem alike_legacyEntry (alike : Alike a b) (id : Nat) (entry : List Char) :
    Alike (a.legacyEntry pton id entry) (b.legacyEntry pton id entry) := by
  unfold legacyEntry
  split
  · exact alike
  · split
    · simp only
      split
      · exact alike
      · exact alike_addDomain alike _ _
    · split
      · exact alike_addNetwork alike _ _
      · exact alike

theorem alike_legacyEntries (alike : Alike a b) (id : Nat) (entries : List (List Char)) :
    Alike (entries.foldl (legacyEntry pton id) a) (entries.foldl (legacyEntry pton id) b) := by
  induction entries generalizing a b with
  | nil => exact alike
  | cons entry entries ih => exact ih (alike_legacyEntry alike id entry)

theorem alike_loadLegacyLines (alike : Alike a b) (ac : Nat) (ls : List (List Char)) :
    Alike (loadLegacyLines pton ls a ac).1 (loadLegacyLines pton ls b ac).1 := by
  induction ls generalizing a b ac with
  | nil => exact alike
  | cons line ls ih =>
    unfold loadLegacyLines
    cases legacyApp line with
    | none => exact ih alike ac
    | some named =>
      obtain ⟨⟨id, tag⟩, entries⟩ := named
      obtain ⟨next, added⟩ := alike_addApp alike id tag
      simp only [added, alike.apps]
      split
      · exact next
      · exact ih (alike_legacyEntries next id _) _

end
/-! ### Which files fail -/

/-- A line names an application. -/
def NamesApp (line : List Char) : Prop :=
  ∃ rest id tag, splitLine line = some ("app".toList, rest) ∧ cutFirst ':' rest = some (id, tag)

/-- A line that names no application adds none. -/
theorem loadLine_other (self : NdApplications) {line : List Char} (other : ¬ NamesApp line) :
    (self.loadLine pton regex line).2 = false ∧
      (self.loadLine pton regex line).1.apps = self.apps ∧
      (self.loadLine pton regex line).1.appTags = self.appTags := by
  unfold loadLine
  cases cut : splitLine line with
  | none => exact ⟨rfl, rfl, rfl⟩
  | some parts =>
    obtain ⟨type, rest⟩ := parts
    simp only
    cases inner : cutFirst ':' rest with
    | none => exact ⟨rfl, rfl, rfl⟩
    | some fields =>
      obtain ⟨first, last⟩ := fields
      have notApp : type ≠ "app".toList := by
        rintro rfl
        exact other ⟨rest, first, last, cut, inner⟩
      simp only [if_neg notApp]
      split
      · exact ⟨rfl, rfl, rfl⟩
      · split
        · exact ⟨rfl, rfl, rfl⟩
        · split
          · unfold addDomainTransform
            split
            · exact ⟨rfl, rfl, rfl⟩
            · split
              · exact ⟨rfl, rfl, rfl⟩
              · split <;> exact ⟨rfl, rfl, rfl⟩
          · exact ⟨rfl, rfl, rfl⟩

/-- The first application that is named is added. -/
theorem loadLine_first {self : NdApplications} (noApps : self.apps = ∅) (noTags : self.appTags = ∅)
    {line : List Char} (names : NamesApp line) : (self.loadLine pton regex line).2 = true := by
  obtain ⟨rest, id, tag, cut, inner⟩ := names
  unfold loadLine
  simp only [cut, inner, ↓reduceIte]
  have absent : ¬ (self.apps.lookup (appId id)).isSome = true := by
    rw [noApps, AList.lookup_empty]
    simp
  have unused : ¬ (self.appTags.get tag).isSome = true := by
    rw [noTags, OrderedMap.get_empty]
    simp
  rw [if_neg absent, addApp, if_neg absent, if_neg unused]

theorem loadLines_count {self : NdApplications} {ac : Nat}
    (start : ac = 0 → self.apps = ∅ ∧ self.appTags = ∅) (ls : List (List Char)) :
    0 < (loadLines pton regex (self, ac) ls).2 ↔ 0 < ac ∨ ∃ line ∈ ls, NamesApp line := by
  induction ls generalizing self ac with
  | nil => simp [loadLines]
  | cons line ls ih =>
    have step : loadLines pton regex (self, ac) (line :: ls) =
        loadLines pton regex ((self.loadLine pton regex line).1,
          if (self.loadLine pton regex line).2 then ac + 1 else ac) ls := rfl
    rw [step]
    by_cases names : NamesApp line
    · by_cases zero : ac = 0
      · have added := @loadLine_first pton regex self (start zero).1 (start zero).2 line names
        rw [if_pos added, ih (fun none => by omega)]
        exact ⟨fun _ => .inr ⟨line, List.mem_cons_self .., names⟩, fun _ => .inl (by omega)⟩
      · rw [ih (fun none => by split at none <;> omega)]
        constructor
        · intro _
          exact .inl (by omega)
        · intro _
          left
          split <;> omega
    · obtain ⟨none, apps, appTags⟩ := @loadLine_other pton regex self line names
      rw [none, if_neg (by simp), ih (fun zero => ?_)]
      · simp [names]
      · rw [apps, appTags]
        exact start zero

/-- `Load` returns true for a file that names an application. -/
theorem load_true_iff (self : NdApplications) (text : List Char) :
    (self.load pton regex (some text)).2 = true ↔ ∃ line ∈ lines text, NamesApp line := by
  have count := @loadLines_count pton regex self.reset 0 (fun _ => ⟨rfl, rfl⟩) (lines text)
  simp only [load, decide_eq_true_eq, count]
  simp

/-- The applications that the lines of a legacy file name. -/
def legacyApps (ls : List (List Char)) : List (Nat × List Char) :=
  ls.filterMap fun line => (legacyApp line).map Prod.fst

/-- A new application is given a tag that another one has. -/
def clashes : List (Nat × List Char) → List (Nat × List Char) → Bool
  | _, [] => false
  | known, (id, tag) :: rest =>
    if known.any fun app => app.1 = id then clashes known rest
    else (known.any fun app => app.2 = tag) || clashes ((id, tag) :: known) rest

/-- The tables have the applications of a list. -/
structure Registered (tables : NdApplications) (known : List (Nat × List Char)) : Prop where
  apps : ∀ id, (tables.apps.lookup id).isSome = known.any fun app => app.1 = id
  appTags : ∀ tag, (tables.appTags.get tag).isSome = known.any fun app => app.2 = tag

theorem registered_add {self : NdApplications} {known : List (Nat × List Char)}
    (registered : Registered self known) (id : Nat) (tag : List Char)
    (absent : (known.any fun app => app.1 = id) = false)
    (unused : (known.any fun app => app.2 = tag) = false) :
    (self.addApp id tag).2 = true ∧ Registered (self.addApp id tag).1 ((id, tag) :: known) := by
  have added : self.addApp id tag =
      ({ self with apps := self.apps.insert id tag, appTags := self.appTags.set tag id }, true) := by
    unfold addApp
    rw [registered.apps, absent, registered.appTags, unused]
    rfl
  rw [added]
  refine ⟨rfl, fun other => ?_, fun other => ?_⟩
  · rw [List.any_cons, ← registered.apps]
    by_cases same : other = id
    · subst same
      simp
    · simp [AList.lookup_insert_ne same, Ne.symm same]
  · rw [List.any_cons, ← registered.appTags]
    by_cases same : other = tag
    · subst same
      simp
    · simp [OrderedMap.get_set_ne same, Ne.symm same]

theorem registered_entries {self : NdApplications} {known : List (Nat × List Char)}
    (registered : Registered self known) (id : Nat) (entries : List (List Char)) :
    Registered (entries.foldl (legacyEntry pton id) self) known := by
  induction entries generalizing self with
  | nil => exact registered
  | cons entry entries ih =>
    apply ih
    unfold legacyEntry
    split
    · exact registered
    · split
      · simp only
        split
        · exact registered
        · exact ⟨registered.apps, registered.appTags⟩
      · split
        · exact ⟨registered.apps, registered.appTags⟩
        · exact registered

theorem loadLegacyLines_true_iff {self : NdApplications} {known : List (Nat × List Char)}
    (registered : Registered self known) (ls : List (List Char)) :
    (loadLegacyLines pton ls self known.length).2 = true ↔
      clashes known (legacyApps ls) = false ∧ (known ≠ [] ∨ legacyApps ls ≠ []) := by
  induction ls generalizing self known with
  | nil => simp [loadLegacyLines, legacyApps, clashes, List.length_pos_iff]
  | cons line ls ih =>
    unfold loadLegacyLines
    cases named : legacyApp line with
    | none =>
      have same : legacyApps (line :: ls) = legacyApps ls :=
        List.filterMap_cons_none (by rw [named]; rfl)
      rw [same]
      exact ih registered
    | some app =>
      obtain ⟨⟨id, tag⟩, entries⟩ := app
      have more : legacyApps (line :: ls) = (id, tag) :: legacyApps ls :=
        List.filterMap_cons_some (by rw [named]; rfl)
      rw [more, clashes]
      simp only
      cases present : known.any fun app => app.1 = id with
      | true =>
        have here := (registered.apps id).trans present
        have old : (self.apps.lookup id).isNone = false := by
          rw [← Option.not_isSome, here]
          rfl
        have kept : self.addApp id tag = (self, true) := if_pos here
        have nonempty : known ≠ [] := by
          rintro rfl
          cases present
        simp only [old, kept, Bool.false_eq_true, false_and, ↓reduceIte]
        rw [ih (registered_entries registered id _)]
        simp [nonempty]
      | false =>
        have new : (self.apps.lookup id).isNone = true := by
          rw [← Option.not_isSome, registered.apps, present]
          rfl
        cases used : known.any fun app => app.2 = tag with
        | true =>
          have refused : (self.addApp id tag).2 = false := by
            unfold addApp
            rw [registered.apps, present, registered.appTags, used]
            rfl
          simp [new, refused]
        | false =>
          obtain ⟨added, next⟩ := registered_add registered id tag present used
          simp only [new, added, not_true_eq_false, and_false, ↓reduceIte, Bool.false_eq_true,
            Bool.false_or]
          have length : known.length + 1 = ((id, tag) :: known).length := rfl
          rw [length, ih (registered_entries next id _)]
          simp

/-- A legacy file names an application, and no new one by a tag that is taken. -/
def LegacyWhole (text : List Char) : Prop :=
  clashes [] (legacyApps (lines text)) = false ∧ legacyApps (lines text) ≠ []

/-- `LoadLegacy` returns true for such a file. -/
theorem loadLegacy_true_iff (self : NdApplications) (text : List Char) :
    (self.loadLegacy pton (some text)).2 = true ↔ LegacyWhole text := by
  have start : Registered self.reset [] := ⟨fun id => by simp [reset], fun tag => rfl⟩
  have whole := @loadLegacyLines_true_iff pton self.reset [] start (lines text)
  unfold loadLegacy LegacyWhole
  rw [List.length_nil] at whole
  simp only [whole]
  simp

/-! ### What a failure keeps -/

/-- A `Load` that fails leaves the answers as they were. -/
def Keeps (pton : Pton) (regex : Regex)
    (visit : List ((_ : List Char) × List Char) → List ((_ : List Char) × List Char))
    (self : NdApplications) (file : Option (List Char)) : Prop :=
  (self.load pton regex file).2 = false →
    SameAnswers regex visit (self.load pton regex file).1 self

/-- A `LoadLegacy` that fails leaves the answers as they were. -/
def KeepsLegacy (pton : Pton) (regex : Regex)
    (visit : List ((_ : List Char) × List Char) → List ((_ : List Char) × List Char))
    (self : NdApplications) (file : Option (List Char)) : Prop :=
  (self.loadLegacy pton file).2 = false →
    SameAnswers regex visit (self.loadLegacy pton file).1 self

/-- The domains, networks and transforms of a file that names no application. -/
def rest (pton : Pton) (regex : Regex) (text : List Char) : NdApplications :=
  (loadLines pton regex ({}, 0) (lines text)).1

/-- The lines of a legacy file up to the clash, if there is one. -/
def legacyRest (pton : Pton) (text : List Char) : NdApplications :=
  (loadLegacyLines pton (lines text) {} 0).1

/-- The file cannot be opened, or names an application, or the tables answered like
what else is in it. -/
def Spared (pton : Pton) (regex : Regex)
    (visit : List ((_ : List Char) × List Char) → List ((_ : List Char) × List Char))
    (self : NdApplications) (file : Option (List Char)) : Prop :=
  ∀ text, file = some text → (∃ line ∈ lines text, NamesApp line) ∨
    SameAnswers regex visit (rest pton regex text) self

/-- The file cannot be opened, or nothing is wrong with it, or the tables answered
like the part of it that was read. -/
def SparedLegacy (pton : Pton) (regex : Regex)
    (visit : List ((_ : List Char) × List Char) → List ((_ : List Char) × List Char))
    (self : NdApplications) (file : Option (List Char)) : Prop :=
  ∀ text, file = some text → LegacyWhole text ∨
    SameAnswers regex visit (legacyRest pton text) self

theorem sameAnswers_trans {a b c : NdApplications} (first : SameAnswers regex visit a b)
    (second : SameAnswers regex visit b c) : SameAnswers regex visit a c where
  lookup id := (first.lookup id).trans (second.lookup id)
  lookupTag tag := (first.lookupTag tag).trans (second.lookupTag tag)
  lookupApp tag := (first.lookupApp tag).trans (second.lookupApp tag)
  findDomain domain := (first.findDomain domain).trans (second.findDomain domain)
  find addr := (first.find addr).trans (second.find addr)

theorem sameAnswers_symm {a b : NdApplications} (same : SameAnswers regex visit a b) :
    SameAnswers regex visit b a where
  lookup id := (same.lookup id).symm
  lookupTag tag := (same.lookupTag tag).symm
  lookupApp tag := (same.lookupApp tag).symm
  findDomain domain := (same.findDomain domain).symm
  find addr := (same.find addr).symm

theorem sameAnswers_iff {a b c : NdApplications} (alike : Alike a b) :
    SameAnswers regex visit a c ↔ SameAnswers regex visit b c := by
  have same : SameAnswers regex visit a b := sameAnswers_alike alike
  exact ⟨sameAnswers_trans (sameAnswers_symm same), sameAnswers_trans same⟩

theorem keeps_iff (self : NdApplications) (file : Option (List Char)) :
    Keeps pton regex visit self file ↔ Spared pton regex visit self file := by
  cases file with
  | none =>
    constructor
    · intro _ text opened
      cases opened
    · intro _ _
      exact ⟨fun _ => rfl, fun _ => rfl, fun _ => rfl, fun _ => rfl, fun _ => rfl⟩
  | some text =>
    have left : Alike (self.load pton regex (some text)).1 (rest pton regex text) :=
      alike_loadLines (alike_reset self) 0 (lines text)
    have ends := @load_true_iff pton regex self text
    unfold Keeps Spared
    rw [sameAnswers_iff left]
    cases done : (self.load pton regex (some text)).2 with
    | true =>
      rw [done] at ends
      refine ⟨fun _ text' opened => ?_, fun _ failed => by cases failed⟩
      cases opened
      exact .inl (ends.mp rfl)
    | false =>
      rw [done] at ends
      constructor
      · intro same text' opened
        cases opened
        exact .inr (same rfl)
      · intro spared _
        rcases spared text rfl with named | same
        · exact absurd (ends.mpr named) (by simp)
        · exact same

theorem keepsLegacy_iff (self : NdApplications) (file : Option (List Char)) :
    KeepsLegacy pton regex visit self file ↔ SparedLegacy pton regex visit self file := by
  cases file with
  | none =>
    constructor
    · intro _ text opened
      cases opened
    · intro _ _
      exact ⟨fun _ => rfl, fun _ => rfl, fun _ => rfl, fun _ => rfl, fun _ => rfl⟩
  | some text =>
    have left : Alike (self.loadLegacy pton (some text)).1 (legacyRest pton text) :=
      alike_loadLegacyLines (alike_reset self) 0 (lines text)
    have ends := @loadLegacy_true_iff pton self text
    unfold KeepsLegacy SparedLegacy
    rw [sameAnswers_iff left]
    cases done : (self.loadLegacy pton (some text)).2 with
    | true =>
      rw [done] at ends
      refine ⟨fun _ text' opened => ?_, fun _ failed => by cases failed⟩
      cases opened
      exact .inl (ends.mp rfl)
    | false =>
      rw [done] at ends
      constructor
      · intro same text' opened
        cases opened
        exact .inr (same rfl)
      · intro spared _
        rcases spared text rfl with whole | same
        · exact absurd (ends.mpr whole) (by simp)
        · exact same

end
end SignatureFiles

/-! ## All loaders -/

/-- **Failed loads.** -/
theorem failed_loads_iff (parse : List Char → Option Json) (cs : Categories) (pton : Pton)
    (regex : Regex)
    (visit : List ((_ : List Char) × List Char) → List ((_ : List Char) × List Char))
    (apps : NdApplications) (file : Option (List Char)) :
    (CategoryFiles.Keeps parse cs file ↔ CategoryFiles.Spared parse cs file) ∧
      (SignatureFiles.Keeps pton regex visit apps file ↔
        SignatureFiles.Spared pton regex visit apps file) ∧
      (SignatureFiles.KeepsLegacy pton regex visit apps file ↔
        SignatureFiles.SparedLegacy pton regex visit apps file) :=
  ⟨CategoryFiles.keeps_iff parse cs file, SignatureFiles.keeps_iff apps file,
    SignatureFiles.keepsLegacy_iff apps file⟩

/-- A categories file without its indexes. -/
def tagsOnly : Json :=
  .object [("application_tag_index".toList, .object []),
    ("protocol_tag_index".toList, .object [])]

/-- Tables with one application category. -/
def oneCategory : Categories := { app := { tag := (∅ : OrderedMap (List Char) Nat).set "a".toList 1 } }

/-- Tables with one application. -/
def oneApp : NdApplications := (({} : NdApplications).addApp 7 "a".toList).1

/-- A regex that compiles nothing. -/
def noRegex : Regex := ⟨fun _ => false, fun _ _ domain => domain⟩

/-- `inet_pton` that reads nothing. -/
def noAddress : Pton := ⟨fun _ => none, fun _ => none⟩

/-- A file without indexes, a file without applications and a legacy file that gives
one tag to two applications clear the tables. -/
theorem failed_loads_clear :
    ¬ CategoryFiles.Keeps (fun _ => some tagsOnly) oneCategory (some []) ∧
      ¬ SignatureFiles.Keeps noAddress noRegex id oneApp (some "dom:1:a.com\n".toList) ∧
        ¬ SignatureFiles.KeepsLegacy noAddress noRegex id oneApp (some "@1.b\n@2.b\n".toList) := by
  refine ⟨?_, ?_, ?_⟩
  · rintro (returned | ⟨-, same⟩)
    · exact absurd returned (by decide +kernel)
    · have kept := same.lookupTag .typeApp "a".toList
      revert kept
      decide +kernel
  · intro keeps
    have kept := (keeps (by decide +kernel)).lookup 7
    revert kept
    decide +kernel
  · intro keeps
    have kept := (keeps (by decide +kernel)).lookup 7
    revert kept
    decide +kernel

end NetifyAgent.FailedLoads
