import NetifyAgent.FailedLoads
import NetifyAgent.NetworkTexts
import NetifyAgent.Lib.FirstMatch

/-! Signatures that are saved and loaded into new tables. Applications, domains and
networks come back as they were. Transforms come back too, but are visited in
another order, and `Find` of a domain takes the first one that leads to an
application. -/
namespace NetifyAgent

/-- The orders in which unordered maps are visited. -/
structure VisitOrders where
  apps : List ((_ : Nat) × List Char) → List ((_ : Nat) × List Char)
  domains : List ((_ : List Char) × Nat) → List ((_ : List Char) × Nat)
  domainXforms : List ((_ : List Char) × List Char) → List ((_ : List Char) × List Char)

/-- What `Save` writes in a line. -/
inductive SignatureLine where
  | app (id : Nat) (tag : List Char)
  | dom (id : Nat) (domain : List Char)
  | net (id : Nat) (ip : List Char)
  | xfm (search replace : List Char)

/-- The line as a text. -/
def SignatureLine.text : SignatureLine → List Char
  | app id tag => "app".toList ++ ':' :: (Nat.toDigits 10 id ++ ':' :: tag)
  | dom id domain => "dom".toList ++ ':' :: (Nat.toDigits 10 id ++ ':' :: domain)
  | net id ip => "net".toList ++ ':' :: (Nat.toDigits 10 id ++ ':' :: ip)
  | xfm search replace => "xfm".toList ++ ':' :: (search ++ ':' :: replace)

namespace NdApplications

/-- The lines that `Save` writes one after the other. -/
def savedLines (ntop : Ntop) (orders : VisitOrders) (self : NdApplications) : List SignatureLine :=
  (orders.apps self.apps.entries).map (fun it => .app it.1 it.2) ++
    (orders.domains self.domains.entries).map (fun it => .dom it.2 it.1) ++
    self.networks4.values.filterMap (fun it => (it.1.getString4 ntop).map (.net it.2)) ++
    self.networks6.values.filterMap (fun it => (it.1.getString6 ntop).map (.net it.2)) ++
    (orders.domainXforms self.domainXforms.entries).map (fun it => .xfm it.1 it.2)

/-- What `ndApplications::Save` writes. -/
def save (ntop : Ntop) (orders : VisitOrders) (self : NdApplications) : List Char :=
  Lines.unlines ((savedLines ntop orders self).map SignatureLine.text)

/-- New tables, loaded from what was saved. -/
def reloaded (ntop : Ntop) (pton : Pton) (regex : Regex) (orders : VisitOrders)
    (self : NdApplications) : NdApplications :=
  (load pton regex {} (some (self.save ntop orders))).1

end NdApplications

namespace SignatureExport
open Lines NdApplications NumberTexts ApplicationNetworks RadixKeys RadixRewinds NetworkTexts
open FailedLoads.SignatureFiles (SameAnswers findParts_congr)

/-! ## The property -/

/-- The tables that loading makes. -/
inductive Reachable (pton : Pton) (regex : Regex) : NdApplications → Prop
  | fresh : Reachable pton regex {}
  | load {self : NdApplications} (reached : Reachable pton regex self)
      (file : Option (List Char)) : Reachable pton regex (self.load pton regex file).1
  | loadLegacy {self : NdApplications} (reached : Reachable pton regex self)
      (file : Option (List Char)) : Reachable pton regex (self.loadLegacy pton file).1

/-- Every entry is visited once. -/
structure VisitOrders.Permute (orders : VisitOrders) : Prop where
  apps : ∀ entries, (orders.apps entries).Perm entries
  domains : ∀ entries, (orders.domains entries).Perm entries
  domainXforms : ∀ entries, (orders.domainXforms entries).Perm entries

/-- In whatever orders the maps are visited, the tables that are saved and loaded
answer like those that were saved. -/
def Reloads (ntop : Ntop) (pton : Pton) (regex : Regex) (self : NdApplications) : Prop :=
  ∀ orders : VisitOrders, VisitOrders.Permute orders →
    SameAnswers regex orders.domainXforms (self.reloaded ntop pton regex orders) self

/-- The application that a transform of a domain leads to. -/
def leads (regex : Regex) (self : NdApplications) (domain : List Char)
    (rx : (_ : List Char) × List Char) : Option Nat :=
  let result := regex.replace rx.1 rx.2 domain
  if result = [] then none else self.findParts (result.length + 1) result

/-- The transforms of a domain that lead to an application lead to the same one. -/
def OrderFree (regex : Regex) (self : NdApplications) : Prop :=
  ∀ domain, domain ≠ [] →
    FirstMatch.Agree (leads regex self domain) id self.domainXforms.entries

/-- No network is stored twice in a tree. -/
def Distinct (self : NdApplications) : Prop :=
  (self.networks4.values.map Prod.fst).Nodup ∧ (self.networks6.values.map Prod.fst).Nodup

/-! ## What loading keeps -/

/-- What holds of tables that are loaded: their fields can be written in one line and
read from it. -/
structure Loaded (regex : Regex) (tables : NdApplications) : Prop where
  networks : Made tables.toApplications
  tags : ∀ id tag, tables.appTags.get tag = some id ↔ tables.apps.lookup id = some tag
  apps : ∀ id tag, tables.apps.lookup id = some tag → id < 2 ^ 32 ∧ '\n' ∉ tag
  domains : ∀ domain id, tables.domains.lookup domain = some id →
    id < 2 ^ 32 ∧ '\n' ∉ domain ∧ ('.' ∉ domain → domain ∈ tables.tlds)
  xforms : ∀ search replace, tables.domainXforms.lookup search = some replace →
    search ≠ [] ∧ ':' ∉ search ∧ '\n' ∉ search ∧ '\n' ∉ replace ∧ regex.compiles search = true

section
variable {ntop : Ntop} {pton : Pton} {regex : Regex} {self : NdApplications} {id : Nat}

theorem loaded_reset (self : NdApplications) : Loaded regex self.reset where
  networks := made_empty
  tags id tag := by simp [reset]
  apps id tag found := by simp [reset] at found
  domains domain id found := by simp [reset] at found
  xforms search replace found := by simp [reset] at found

theorem appId_lt (text : List Char) : appId text < 2 ^ 32 := Nat.mod_lt _ (by decide)

theorem loaded_addApp (loaded : Loaded regex self) (small : id < 2 ^ 32) {tag : List Char}
    (line : '\n' ∉ tag) : Loaded regex (self.addApp id tag).1 := by
  unfold addApp
  split
  case isTrue present => exact loaded
  case isFalse absent =>
    split
    case isTrue taken => exact loaded
    case isFalse free =>
      have noId : self.apps.lookup id = none := by simpa using absent
      have noTag : self.appTags.get tag = none := by simpa using free
      refine ⟨loaded.networks, fun id' tag' => ?_, fun id' tag' found => ?_, loaded.domains,
        loaded.xforms⟩
      · simp only [OrderedMap.get_set]
        by_cases sameId : id' = id <;> by_cases sameTag : tag' = tag
        · subst sameId sameTag
          simp
        · subst sameId
          rw [if_neg sameTag, AList.lookup_insert]
          constructor
          · intro found
            rw [(loaded.tags _ _).mp found] at noId
            cases noId
          · intro found
            exact absurd (Option.some.inj found).symm sameTag
        · subst sameTag
          rw [if_pos rfl, AList.lookup_insert_ne sameId]
          constructor
          · intro found
            exact absurd (Option.some.inj found).symm sameId
          · intro found
            rw [(loaded.tags _ _).mpr found] at noTag
            cases noTag
        · rw [if_neg sameTag, AList.lookup_insert_ne sameId]
          exact loaded.tags id' tag'
      · by_cases same : id' = id
        · subst same
          simp only [AList.lookup_insert, Option.some.injEq] at found
          exact found ▸ ⟨small, line⟩
        · simp only [AList.lookup_insert_ne same] at found
          exact loaded.apps id' tag' found

theorem loaded_addDomain (loaded : Loaded regex self) (small : id < 2 ^ 32) {domain : List Char}
    (line : '\n' ∉ domain) : Loaded regex (self.addDomain id domain) := by
  refine ⟨loaded.networks, loaded.tags, loaded.apps, fun domain' id' found => ?_, loaded.xforms⟩
  have known (old : self.domains.lookup domain' = some id') : id' < 2 ^ 32 ∧ '\n' ∉ domain' ∧
      ('.' ∉ domain' → domain' ∈ (self.addDomain id domain).tlds) := by
    obtain ⟨small', line', tld⟩ := loaded.domains domain' id' old
    refine ⟨small', line', fun plain => ?_⟩
    simp only [addDomain]
    split
    · exact tld plain
    · exact Finset.mem_insert_of_mem (tld plain)
  by_cases present : (self.domains.lookup domain).isSome
  · simp only [addDomain, if_pos present] at found
    exact known found
  · simp only [addDomain, if_neg present] at found
    by_cases same : domain' = domain
    · subst same
      rw [AList.lookup_insert] at found
      cases found
      refine ⟨small, line, fun plain => ?_⟩
      simp [addDomain, plain]
    · rw [AList.lookup_insert_ne same] at found
      exact known found

theorem loaded_addDomainTransform (loaded : Loaded regex self) {search replace : List Char}
    (uncut : ':' ∉ search) (line : '\n' ∉ search) (line' : '\n' ∉ replace) :
    Loaded regex (self.addDomainTransform regex search replace) := by
  unfold addDomainTransform
  split
  case isTrue empty => exact loaded
  case isFalse nonempty =>
    split
    case isTrue present => exact loaded
    case isFalse absent =>
      split
      case isFalse wrong => exact loaded
      case isTrue compiles =>
        refine ⟨loaded.networks, loaded.tags, loaded.apps, loaded.domains,
          fun search' replace' found => ?_⟩
        by_cases same : search' = search
        · subst same
          simp only [AList.lookup_insert, Option.some.injEq] at found
          exact found ▸ ⟨nonempty, uncut, line, line', compiles⟩
        · simp only [AList.lookup_insert_ne same] at found
          exact loaded.xforms search' replace' found

theorem loaded_addNetwork (inverse : Inverse ntop pton) (loaded : Loaded regex self)
    (small : id < 2 ^ 32) (network : List Char) : Loaded regex (self.addNetwork pton id network) :=
  ⟨made_addNetwork inverse loaded.networks small network, loaded.tags, loaded.apps, loaded.domains,
    loaded.xforms⟩

theorem loaded_loadLine (inverse : Inverse ntop pton) (loaded : Loaded regex self) {line : List Char}
    (whole : '\n' ∉ line) : Loaded regex (self.loadLine pton regex line).1 := by
  unfold loadLine
  split
  case h_1 => exact loaded
  case h_2 type fields outer =>
    split
    case h_1 => exact loaded
    case h_2 first rest inner =>
      have fieldsWhole : '\n' ∉ fields := by
        unfold splitLine at outer
        simp only at outer
        split at outer
        · cases outer
        · intro member
          exact whole ((List.dropWhile_suffix _).subset ((cutFirst_subset outer).2 member))
      have firstWhole : '\n' ∉ first := fun member =>
        fieldsWhole ((cutFirst_subset inner).1 member)
      have restWhole : '\n' ∉ rest := fun member => fieldsWhole ((cutFirst_subset inner).2 member)
      split
      · split
        · exact loaded
        · exact loaded_addApp loaded (appId_lt first) restWhole
      · split
        · exact loaded_addDomain loaded (appId_lt first) restWhole
        · split
          · exact loaded_addNetwork inverse loaded (appId_lt first) rest
          · split
            · exact loaded_addDomainTransform loaded (cutFirst_eq_some.mp inner).1 firstWhole
                restWhole
            · exact loaded

theorem loaded_loadLines (inverse : Inverse ntop pton) (loaded : Loaded regex self) (ac : Nat)
    {ls : List (List Char)} (whole : ∀ line ∈ ls, '\n' ∉ line) :
    Loaded regex (loadLines pton regex (self, ac) ls).1 := by
  induction ls generalizing self ac with
  | nil => exact loaded
  | cons line ls ih =>
    have next := loaded_loadLine inverse loaded (whole line (List.mem_cons_self ..))
    exact ih next _ fun other member => whole other (List.mem_cons_of_mem _ member)

theorem trim_subset (drop : Char → Bool) (text : List Char) : trim drop text ⊆ text := by
  intro c member
  unfold trim at member
  have inside := (List.dropWhile_suffix drop).subset (List.mem_reverse.mp member)
  exact (List.dropWhile_suffix drop).subset (List.mem_reverse.mp inside)

theorem loaded_legacyEntry (inverse : Inverse ntop pton) (loaded : Loaded regex self)
    (small : id < 2 ^ 32) {entry : List Char} (whole : '\n' ∉ entry) :
    Loaded regex (self.legacyEntry pton id entry) := by
  unfold legacyEntry
  split
  case h_1 => exact loaded
  case h_2 type rest cut =>
    have restWhole : '\n' ∉ rest := fun member =>
      whole (trim_subset _ _ ((cutFirst_subset cut).2 member))
    split
    · simp only
      split
      · exact loaded
      · apply loaded_addDomain loaded small
        intro member
        have front := (List.dropWhile_suffix _).subset (List.mem_reverse.mp member)
        have text := (List.dropWhile_suffix _).subset (List.mem_reverse.mp front)
        exact restWhole (trim_subset _ _ (trim_subset _ _ text))
    · split
      · exact loaded_addNetwork inverse loaded small _
      · exact loaded

theorem loaded_legacyEntries (inverse : Inverse ntop pton) (loaded : Loaded regex self)
    (small : id < 2 ^ 32) {entries : List (List Char)} (whole : ∀ entry ∈ entries, '\n' ∉ entry) :
    Loaded regex (entries.foldl (legacyEntry pton id) self) := by
  induction entries generalizing self with
  | nil => exact loaded
  | cons entry entries ih =>
    have next := loaded_legacyEntry inverse loaded small (whole entry (List.mem_cons_self ..))
    exact ih next fun other member => whole other (List.mem_cons_of_mem _ member)

/-- The parts of a legacy line. -/
theorem legacyApp_parts {line entries tag : List Char}
    (named : legacyApp line = some ((id, tag), entries)) :
    id < 2 ^ 32 ∧ tag ⊆ line ∧ entries ⊆ line := by
  unfold legacyApp at named
  simp only at named
  split at named
  · cases named
  · obtain ⟨⟨front, app⟩, outer, named⟩ := Option.bind_eq_some_iff.mp named
    obtain ⟨⟨number, name⟩, inner, named⟩ := Option.bind_eq_some_iff.mp named
    cases named
    obtain ⟨frontInside, appInside⟩ := cutLast_subset outer
    have nameInside := (cutFirst_subset inner).2
    refine ⟨appId_lt number, ?_, List.Subset.trans frontInside (trim_subset _ _)⟩
    intro c member
    exact trim_subset _ _ (appInside (trim_subset _ _ (nameInside (trim_subset _ _ member))))

theorem loaded_loadLegacyLines (inverse : Inverse ntop pton) (loaded : Loaded regex self) (ac : Nat)
    {ls : List (List Char)} (whole : ∀ line ∈ ls, '\n' ∉ line) :
    Loaded regex (loadLegacyLines pton ls self ac).1 := by
  induction ls generalizing self ac with
  | nil => exact loaded
  | cons line ls ih =>
    have lineWhole := whole line (List.mem_cons_self ..)
    have others := fun other member => whole other (List.mem_cons_of_mem line member)
    unfold loadLegacyLines
    split
    case h_1 => exact ih loaded ac others
    case h_2 id tag entries named =>
      obtain ⟨small, tagInside, entriesInside⟩ := legacyApp_parts named
      have next := loaded_addApp loaded small fun member => lineWhole (tagInside member)
      simp only
      split
      · exact next
      · apply ih _ _ others
        apply loaded_legacyEntries inverse next small
        intro entry member inside
        exact lineWhole (entriesInside (mem_of_mem_pieces member inside))

/-- **What loading keeps.** -/
theorem loaded_reachable (inverse : Inverse ntop pton) (reachable : Reachable pton regex self) :
    Loaded regex self := by
  induction reachable with
  | fresh => exact loaded_reset {}
  | load reached file ih =>
    cases file with
    | none => exact ih
    | some text => exact loaded_loadLines inverse (loaded_reset _) 0 fun line => mem_lines
  | loadLegacy reached file ih =>
    cases file with
    | none => exact ih
    | some text => exact loaded_loadLegacyLines inverse (loaded_reset _) 0 fun line => mem_lines

end

/-! ## What is read of a line -/

/-- A line that is read as it was written. -/
def Readable : SignatureLine → Prop
  | .app id tag => id < 2 ^ 32 ∧ '\n' ∉ tag
  | .dom id domain => id < 2 ^ 32 ∧ '\n' ∉ domain
  | .net id ip => id < 2 ^ 32 ∧ '\n' ∉ ip
  | .xfm search replace => ':' ∉ search ∧ '\n' ∉ search ∧ '\n' ∉ replace

/-- What a line adds. -/
def add (pton : Pton) (regex : Regex) (self : NdApplications) : SignatureLine → NdApplications
  | .app id tag => (self.addApp id tag).1
  | .dom id domain => self.addDomain id domain
  | .net id ip => self.addNetwork pton id ip
  | .xfm search replace => self.addDomainTransform regex search replace

section
variable {pton : Pton} {regex : Regex} {self : NdApplications}

theorem splitLine_type {type : List Char} (nonempty : type ≠ [])
    (plain : ∀ c ∈ type, isSpace c = false ∧ c ≠ '#' ∧ c ≠ ':') (rest : List Char) :
    splitLine (type ++ ':' :: rest) = some (type, rest) := by
  have uncut : ':' ∉ type := fun member => (plain _ member).2.2 rfl
  obtain ⟨c, tail, rfl⟩ := List.exists_cons_of_ne_nil nonempty
  obtain ⟨visible, used, -⟩ := plain c (List.mem_cons_self ..)
  unfold splitLine
  rw [List.cons_append, List.dropWhile_cons_of_neg (by simp [visible])]
  simp only
  rw [if_neg (by simp [used]), ← List.cons_append, cutFirst_append uncut]

theorem toDigits_uncut (id : Nat) : ':' ∉ Nat.toDigits 10 id := by
  intro member
  have plain := (digit_plain (by decide) (by decide) member).2
  simp at plain

theorem toDigits_line (id : Nat) : '\n' ∉ Nat.toDigits 10 id := by
  intro member
  have plain := (digit_plain (by decide) (by decide) member).2
  simp at plain

/-- **Reading** a line adds what was written. -/
theorem loadLine_text {line : SignatureLine} (readable : Readable line) :
    (self.loadLine pton regex line.text).1 = add pton regex self line := by
  unfold loadLine
  cases line with
  | app id tag =>
    rw [SignatureLine.text, splitLine_type (by decide) (by simp [isSpace])]
    simp only [cutFirst_append (toDigits_uncut id), appId_toDigits readable.1, ↓reduceIte]
    rw [add]
    split
    case isTrue present =>
      rw [appId_toDigits readable.1] at present
      rw [addApp, if_pos present]
    case isFalse absent => rfl
  | dom id domain =>
    rw [SignatureLine.text, splitLine_type (by decide) (by simp [isSpace])]
    simp only [cutFirst_append (toDigits_uncut id), appId_toDigits readable.1]
    rfl
  | net id ip =>
    rw [SignatureLine.text, splitLine_type (by decide) (by simp [isSpace])]
    simp only [cutFirst_append (toDigits_uncut id), appId_toDigits readable.1]
    rfl
  | xfm search replace =>
    rw [SignatureLine.text, splitLine_type (by decide) (by simp [isSpace])]
    simp only [cutFirst_append readable.1]
    rfl

/-- A line stays in one line. -/
theorem text_whole {line : SignatureLine} (readable : Readable line) : '\n' ∉ line.text := by
  have app (type front rest : List Char) (first : '\n' ∉ type) (second : '\n' ∉ front)
      (third : '\n' ∉ rest) : '\n' ∉ type ++ ':' :: (front ++ ':' :: rest) := by
    simp [first, second, third]
  cases line with
  | app id tag => exact app _ _ _ (by decide) (toDigits_line id) readable.2
  | dom id domain => exact app _ _ _ (by decide) (toDigits_line id) readable.2
  | net id ip => exact app _ _ _ (by decide) (toDigits_line id) readable.2
  | xfm search replace => exact app _ _ _ (by decide) readable.2.1 readable.2.2

theorem loadLines_text {ls : List SignatureLine} (readable : ∀ line ∈ ls, Readable line) (ac : Nat) :
    (loadLines pton regex (self, ac) (ls.map SignatureLine.text)).1 =
      ls.foldl (add pton regex) self := by
  induction ls generalizing self ac with
  | nil => rfl
  | cons line ls ih =>
    have others := fun other member => readable other (List.mem_cons_of_mem line member)
    have step : loadLines pton regex (self, ac) ((line :: ls).map SignatureLine.text) =
        loadLines pton regex ((self.loadLine pton regex line.text).1,
          if (self.loadLine pton regex line.text).2 then ac + 1 else ac)
            (ls.map SignatureLine.text) := rfl
    rw [step, ih others, loadLine_text (readable line (List.mem_cons_self ..)), List.foldl_cons]

/-- Loading a file of such lines adds them one after the other. -/
theorem load_unlines {ls : List SignatureLine} (readable : ∀ line ∈ ls, Readable line) :
    (load pton regex {} (some (unlines (ls.map SignatureLine.text)))).1 =
      ls.foldl (add pton regex) {} := by
  have whole : ∀ line ∈ ls.map SignatureLine.text, '\n' ∉ line := by
    intro text member
    obtain ⟨line, inside, rfl⟩ := List.mem_map.mp member
    exact text_whole (readable line inside)
  have read := @loadLines_text pton regex {} ls readable 0
  unfold load
  simp only [lines_unlines whole]
  exact read

end

/-! ## What is added -/

section
variable {ntop : Ntop} {pton : Pton} {regex : Regex} {self : NdApplications}

/-- What is behind an element whose key is its own has another key. -/
theorem key_ne {α β : Type} {key : α → β} {a b : α} {rest : List α}
    (distinct : key a ∉ rest.map key) (member : b ∈ rest) : key b ≠ key a := by
  intro same
  exact distinct (same ▸ List.mem_map_of_mem member)

/-- Applications with new ids and new tags are all added. -/
theorem add_apps {es : List ((_ : Nat) × List Char)} (ids : (es.map Sigma.fst).Nodup)
    (tags : (es.map Sigma.snd).Nodup) (newIds : ∀ e ∈ es, self.apps.lookup e.1 = none)
    (newTags : ∀ e ∈ es, self.appTags.get e.2 = none) : ∃ apps appTags,
      (es.map fun it => SignatureLine.app it.1 it.2).foldl (add pton regex) self =
        { self with apps, appTags } ∧
      apps.entries = es.reverse ++ self.apps.entries ∧
      ∀ id tag, appTags.get tag = some id ↔ ⟨id, tag⟩ ∈ es ∨ self.appTags.get tag = some id := by
  induction es generalizing self with
  | nil => exact ⟨self.apps, self.appTags, rfl, rfl, fun id tag => by simp⟩
  | cons e es ih =>
    have newId := newIds e (List.mem_cons_self ..)
    have newTag := newTags e (List.mem_cons_self ..)
    have added : add pton regex self (.app e.1 e.2) =
        { self with apps := self.apps.insert e.1 e.2, appTags := self.appTags.set e.2 e.1 } := by
      rw [add, addApp, newId, newTag]
      rfl
    obtain ⟨otherId, ids⟩ := List.nodup_cons.mp ids
    obtain ⟨otherTag, tags⟩ := List.nodup_cons.mp tags
    have nextIds : ∀ f ∈ es, (self.apps.insert e.1 e.2).lookup f.1 = none := by
      intro f member
      rw [AList.lookup_insert_ne (key_ne otherId member)]
      exact newIds f (List.mem_cons_of_mem _ member)
    have nextTags : ∀ f ∈ es, (self.appTags.set e.2 e.1).get f.2 = none := by
      intro f member
      rw [OrderedMap.get_set_ne (key_ne otherTag member)]
      exact newTags f (List.mem_cons_of_mem _ member)
    obtain ⟨apps, appTags, result, entries, found⟩ := @ih
      { self with apps := self.apps.insert e.1 e.2, appTags := self.appTags.set e.2 e.1 }
      ids tags nextIds nextTags
    refine ⟨apps, appTags, ?_, ?_, fun id tag => ?_⟩
    · rw [List.map_cons, List.foldl_cons, added, result]
    · have absent : e.1 ∉ self.apps := AList.lookup_eq_none.mp newId
      rw [entries, AList.insert_of_notMem absent]
      simp
    · rw [found]
      simp only [OrderedMap.get_set, List.mem_cons]
      by_cases same : tag = e.2
      · subst same
        rw [if_pos rfl, newTag]
        have here : (⟨id, e.2⟩ : (_ : Nat) × List Char) ∈ es ↔ False := by
          rw [iff_false]
          exact fun member => key_ne otherTag member rfl
        rw [here]
        constructor
        · rintro (none | same)
          · exact none.elim
          · cases same
            exact .inl (.inl rfl)
        · rintro ((same | none) | none)
          · exact .inr (congrArg (fun e => some e.1) same).symm
          · exact none.elim
          · cases none
      · have other : (⟨id, tag⟩ : (_ : Nat) × List Char) ≠ e := fun whole => same (whole ▸ rfl)
        rw [if_neg same]
        simp [other]

/-- New domains are all added. -/
theorem add_domains {es : List ((_ : List Char) × Nat)} (keys : (es.map Sigma.fst).Nodup)
    (new : ∀ e ∈ es, self.domains.lookup e.1 = none) : ∃ domains tlds,
      (es.map fun it => SignatureLine.dom it.2 it.1).foldl (add pton regex) self =
        { self with domains, tlds } ∧
      domains.entries = es.reverse ++ self.domains.entries ∧ self.tlds ⊆ tlds ∧
      ∀ e ∈ es, '.' ∉ e.1 → e.1 ∈ tlds := by
  induction es generalizing self with
  | nil => exact ⟨self.domains, self.tlds, rfl, rfl, Finset.Subset.refl _, fun e none => by cases none⟩
  | cons e es ih =>
    have newDomain := new e (List.mem_cons_self ..)
    have added : add pton regex self (.dom e.2 e.1) = { self with
        domains := self.domains.insert e.1 e.2
        tlds := if '.' ∈ e.1 then self.tlds else insert e.1 self.tlds } := by
      rw [add, addDomain, newDomain]
      rfl
    obtain ⟨other, keys⟩ := List.nodup_cons.mp keys
    have next : ∀ f ∈ es, (self.domains.insert e.1 e.2).lookup f.1 = none := by
      intro f member
      rw [AList.lookup_insert_ne (key_ne other member)]
      exact new f (List.mem_cons_of_mem _ member)
    obtain ⟨domains, tlds, result, entries, more, known⟩ := @ih { self with
        domains := self.domains.insert e.1 e.2
        tlds := if '.' ∈ e.1 then self.tlds else insert e.1 self.tlds } keys next
    have old : self.tlds ⊆ if '.' ∈ e.1 then self.tlds else insert e.1 self.tlds := by
      split
      · exact Finset.Subset.refl _
      · exact Finset.subset_insert ..
    refine ⟨domains, tlds, ?_, ?_, Finset.Subset.trans old more, fun f member plain => ?_⟩
    · rw [List.map_cons, List.foldl_cons, added, result]
    · have absent : e.1 ∉ self.domains := AList.lookup_eq_none.mp newDomain
      rw [entries, AList.insert_of_notMem absent]
      simp
    · rcases List.mem_cons.mp member with rfl | later
      · apply more
        simp [plain]
      · exact known f later plain

/-- New transforms that compile are all added. -/
theorem add_domainXforms {es : List ((_ : List Char) × List Char)} (keys : (es.map Sigma.fst).Nodup)
    (new : ∀ e ∈ es, self.domainXforms.lookup e.1 = none)
    (useful : ∀ e ∈ es, e.1 ≠ [] ∧ regex.compiles e.1 = true) : ∃ domainXforms,
      (es.map fun it => SignatureLine.xfm it.1 it.2).foldl (add pton regex) self =
        { self with domainXforms } ∧
      domainXforms.entries = es.reverse ++ self.domainXforms.entries := by
  induction es generalizing self with
  | nil => exact ⟨self.domainXforms, rfl, rfl⟩
  | cons e es ih =>
    have newXform := new e (List.mem_cons_self ..)
    obtain ⟨nonempty, compiles⟩ := useful e (List.mem_cons_self ..)
    have added : add pton regex self (.xfm e.1 e.2) =
        { self with domainXforms := self.domainXforms.insert e.1 e.2 } := by
      rw [add, addDomainTransform, if_neg nonempty, newXform, if_pos compiles]
      rfl
    obtain ⟨other, keys⟩ := List.nodup_cons.mp keys
    have next : ∀ f ∈ es, (self.domainXforms.insert e.1 e.2).lookup f.1 = none := by
      intro f member
      rw [AList.lookup_insert_ne (key_ne other member)]
      exact new f (List.mem_cons_of_mem _ member)
    obtain ⟨domainXforms, result, entries⟩ := @ih
      { self with domainXforms := self.domainXforms.insert e.1 e.2 } keys next
      fun f member => useful f (List.mem_cons_of_mem _ member)
    refine ⟨domainXforms, ?_, ?_⟩
    · rw [List.map_cons, List.foldl_cons, added, result]
    · have absent : e.1 ∉ self.domainXforms := AList.lookup_eq_none.mp newXform
      rw [entries, AList.insert_of_notMem absent]
      simp

/-- The networks that are printed are assigned one after the other. -/
theorem add_networks4 (inverse : Inverse ntop pton) {es : List (RadixNetworkEntry 32 × Nat)}
    (networks : ∀ e ∈ es, OfNetwork e.1) :
    (es.filterMap fun it => (it.1.getString4 ntop).map (SignatureLine.net it.2)).foldl
        (add pton regex) self =
      { self with networks4 := es.foldl assignTo self.networks4 } := by
  induction es generalizing self with
  | nil => rfl
  | cons e es ih =>
    obtain ⟨key, nonempty, fits, same⟩ := networks e (List.mem_cons_self ..)
    obtain ⟨ip, printed, -, names⟩ := getString4_names inverse nonempty fits
    have added : add pton regex self (.net e.2 ip) =
        { self with networks4 := assignTo self.networks4 e } := by
      rw [add, addNetwork, addNetwork_inet (stands_names names), ← same]
    rw [List.filterMap_cons_some (by rw [same, printed]; rfl), List.foldl_cons, added,
      ih fun f member => networks f (List.mem_cons_of_mem _ member)]
    rfl

theorem add_networks6 (inverse : Inverse ntop pton) {es : List (RadixNetworkEntry 128 × Nat)}
    (networks : ∀ e ∈ es, OfNetwork e.1) :
    (es.filterMap fun it => (it.1.getString6 ntop).map (SignatureLine.net it.2)).foldl
        (add pton regex) self =
      { self with networks6 := es.foldl assignTo self.networks6 } := by
  induction es generalizing self with
  | nil => rfl
  | cons e es ih =>
    obtain ⟨key, nonempty, fits, same⟩ := networks e (List.mem_cons_self ..)
    obtain ⟨ip, printed, -, names⟩ := getString6_names inverse nonempty fits
    have added : add pton regex self (.net e.2 ip) =
        { self with networks6 := assignTo self.networks6 e } := by
      rw [add, addNetwork, addNetwork_inet6 (stands_names names), ← same]
    rw [List.filterMap_cons_some (by rw [same, printed]; rfl), List.foldl_cons, added,
      ih fun f member => networks f (List.mem_cons_of_mem _ member)]
    rfl

end

/-! ## What comes back -/

/-- What is loaded, next to what was saved. -/
structure Restored (orders : VisitOrders) (a b : NdApplications) : Prop where
  networks4 : b.networks4 = a.networks4.values.foldl assignTo {}
  networks6 : b.networks6 = a.networks6.values.foldl assignTo {}
  apps : b.apps.entries.Perm a.apps.entries
  tags : ∀ tag, b.appTags.get tag = a.appTags.get tag
  domains : b.domains.entries.Perm a.domains.entries
  known : ∀ e ∈ a.domains.entries, '.' ∉ e.1 → e.1 ∈ b.tlds
  xforms : b.domainXforms.entries = (orders.domainXforms a.domainXforms.entries).reverse

section
variable {ntop : Ntop} {pton : Pton} {regex : Regex} {self : NdApplications} {orders : VisitOrders}

theorem mem_visited {α : Type} {β : α → Type} [DecidableEq α] {m : AList β} {es : List (Sigma β)}
    (perm : es.Perm m.entries) {e : Sigma β} : e ∈ es ↔ m.lookup e.1 = some e.2 :=
  perm.mem_iff.trans AList.mem_lookup_iff.symm

theorem nodup_visited {α : Type} {β : α → Type} {m : AList β} {es : List (Sigma β)}
    (perm : es.Perm m.entries) : (es.map Sigma.fst).Nodup :=
  (perm.map Sigma.fst).nodup_iff.mpr m.nodupKeys

/-- What is saved can be read. -/
theorem readable_savedLines (inverse : Inverse ntop pton) (loaded : Loaded regex self)
    (permute : VisitOrders.Permute orders) :
    ∀ line ∈ savedLines ntop orders self, Readable line := by
  intro line member
  simp only [savedLines, List.mem_append, List.mem_map, List.mem_filterMap,
    Option.map_eq_some_iff] at member
  rcases member with
    (((⟨e, inside, rfl⟩ | ⟨e, inside, rfl⟩) | ⟨e, inside, ip, printed, rfl⟩) |
      ⟨e, inside, ip, printed, rfl⟩) | ⟨e, inside, rfl⟩
  · exact loaded.apps _ _ ((mem_visited (permute.apps _)).mp inside)
  · obtain ⟨small, whole, -⟩ := loaded.domains _ _ ((mem_visited (permute.domains _)).mp inside)
    exact ⟨small, whole⟩
  · obtain ⟨key, nonempty, fits, same⟩ := ofNetwork_values loaded.networks.kept4 e inside
    obtain ⟨text, printed', whole, -⟩ := getString4_names inverse nonempty fits
    rw [same, printed'] at printed
    cases printed
    exact ⟨loaded.networks.id4 e inside, whole⟩
  · obtain ⟨key, nonempty, fits, same⟩ := ofNetwork_values loaded.networks.kept6 e inside
    obtain ⟨text, printed', whole, -⟩ := getString6_names inverse nonempty fits
    rw [same, printed'] at printed
    cases printed
    exact ⟨loaded.networks.id6 e inside, whole⟩
  · obtain ⟨-, uncut, whole, whole', -⟩ :=
      loaded.xforms _ _ ((mem_visited (permute.domainXforms _)).mp inside)
    exact ⟨uncut, whole, whole'⟩

/-- **Saving and loading** bring every entry back. -/
theorem restored_reloaded (inverse : Inverse ntop pton) (loaded : Loaded regex self)
    (permute : VisitOrders.Permute orders) :
    Restored orders self (self.reloaded ntop pton regex orders) := by
  have visited (e : (_ : Nat) × List Char) := @mem_visited _ _ _ _ _ (permute.apps self.apps.entries) e
  have tags : ((orders.apps self.apps.entries).map Sigma.snd).Nodup := by
    have nodup := List.Nodup.of_map _ (nodup_visited (permute.apps self.apps.entries))
    refine List.Nodup.map_on (fun e member f member' same => ?_) nodup
    have first := (loaded.tags _ _).mpr ((visited _).mp member)
    have second := (loaded.tags _ _).mpr ((visited _).mp member')
    rw [same, second] at first
    exact Sigma.ext (Option.some.inj first).symm (heq_of_eq same)
  obtain ⟨apps, appTags, resultA, entriesA, foundA⟩ := @add_apps pton regex {} _
    (nodup_visited (permute.apps self.apps.entries)) tags (fun _ _ => rfl) (fun _ _ => rfl)
  obtain ⟨domains, tlds, resultD, entriesD, -, known⟩ := @add_domains pton regex
    { ({} : NdApplications) with apps, appTags } _
    (nodup_visited (permute.domains self.domains.entries)) (fun _ _ => rfl)
  have networks4 := @add_networks4 ntop pton regex
    { ({} : NdApplications) with apps, appTags, domains, tlds } inverse _
    (ofNetwork_values loaded.networks.kept4)
  have networks6 := @add_networks6 ntop pton regex
    { ({} : NdApplications) with
      apps, appTags, domains, tlds
      networks4 := self.networks4.values.foldl assignTo {} } inverse _
    (ofNetwork_values loaded.networks.kept6)
  obtain ⟨domainXforms, resultX, entriesX⟩ := @add_domainXforms pton regex
    { ({} : NdApplications) with
      apps, appTags, domains, tlds
      networks4 := self.networks4.values.foldl assignTo {}
      networks6 := self.networks6.values.foldl assignTo {} } _
    (nodup_visited (permute.domainXforms self.domainXforms.entries)) (fun _ _ => rfl)
    fun e member => by
      obtain ⟨nonempty, -, -, -, compiles⟩ :=
        loaded.xforms _ _ ((mem_visited (permute.domainXforms _)).mp member)
      exact ⟨nonempty, compiles⟩
  have whole : self.reloaded ntop pton regex orders =
      { ({} : NdApplications) with
        apps, appTags, domains, tlds, domainXforms
        networks4 := self.networks4.values.foldl assignTo {}
        networks6 := self.networks6.values.foldl assignTo {} } := by
    rw [reloaded, save, load_unlines (readable_savedLines inverse loaded permute), savedLines,
      List.foldl_append, List.foldl_append, List.foldl_append, List.foldl_append, resultA, resultD,
      networks4, networks6, resultX]
  rw [whole]
  refine ⟨rfl, rfl, ?_, fun tag => ?_, ?_, fun e member => ?_, ?_⟩
  · simp only [entriesA]
    exact ((List.reverse_perm _).append_right _).trans
      ((List.perm_append_right_iff _).mpr (permute.apps _) |>.trans (by simp [AList.empty_entries]))
  · apply Option.ext
    intro id
    rw [foundA, visited, loaded.tags]
    simp
  · simp only [entriesD]
    exact ((List.reverse_perm _).append_right _).trans
      ((List.perm_append_right_iff _).mpr (permute.domains _) |>.trans (by simp [AList.empty_entries]))
  · exact known e ((permute.domains _).mem_iff.mpr member)
  · simp only [entriesX]
    simp [AList.empty_entries]

/-- What holds of the parts holds of a domain. -/
theorem findParts_restored {a b : NdApplications} (loaded : Loaded regex a)
    (restored : Restored orders a b) (rounds : Nat) (it : List Char) :
    b.findParts rounds it = a.findParts rounds it := by
  apply findParts_congr
  · exact fun domain => AList.perm_lookup restored.domains
  · intro domain plain stored
    obtain ⟨id, found⟩ := Option.isSome_iff_exists.mp stored
    exact ⟨(loaded.domains domain id found).2.2 plain,
      restored.known ⟨domain, id⟩ (AList.mem_lookup_iff.mp found) plain⟩

/-! ## Transforms -/

/-- `Find` of a domain takes the first transform that leads to an application, unless
none makes anything of the domain. -/
theorem findDomain_first (self : NdApplications) {domain : List Char} (nonempty : domain ≠ [])
    (visit : List ((_ : List Char) × List Char) → List ((_ : List Char) × List Char)) :
    self.findDomain regex visit domain =
      (if ∀ rx ∈ visit self.domainXforms.entries, regex.replace rx.1 rx.2 domain = [] then
        self.findParts (domain.length + 1) domain
      else (visit self.domainXforms.entries).findSome? (leads regex self domain)).getD
        ndAppUnknown := by
  have made (rxs : List ((_ : List Char) × List Char)) :
      ((rxs.map fun rx => regex.replace rx.1 rx.2 domain).filter (· ≠ [])).findSome?
        (fun it => self.findParts (it.length + 1) it) = rxs.findSome? (leads regex self domain) := by
    induction rxs with
    | nil => rfl
    | cons rx rxs ih =>
      rw [List.map_cons, List.findSome?_cons, leads]
      by_cases empty : regex.replace rx.1 rx.2 domain = []
      · rw [List.filter_cons_of_neg (by simp [empty])]
        simp only [if_pos empty, ih]
      · rw [List.filter_cons_of_pos (by simp [empty]), List.findSome?_cons]
        simp only [if_neg empty, ih]
  unfold findDomain searches
  rw [if_neg nonempty]
  have nothing : ((visit self.domainXforms.entries).map fun rx =>
      regex.replace rx.1 rx.2 domain).filter (· ≠ []) = [] ↔
        ∀ rx ∈ visit self.domainXforms.entries, regex.replace rx.1 rx.2 domain = [] := by
    rw [List.filter_eq_nil_iff, List.forall_mem_map]
    simp only [ne_eq, decide_not, Bool.not_eq_eq_eq_not, Bool.not_true, decide_eq_false_iff_not,
      not_not]
  by_cases unchanged : ∀ rx ∈ visit self.domainXforms.entries, regex.replace rx.1 rx.2 domain = []
  · have none := nothing.mpr unchanged
    simp only [none, ↓reduceIte, if_pos unchanged, List.findSome?_cons, List.findSome?_nil]
    cases self.findParts (domain.length + 1) domain <;> rfl
  · have some := mt nothing.mp unchanged
    simp only [if_neg some, if_neg unchanged, made]

/-- The domain is found in the same way if the transforms that are visited lead to it
in the same way. -/
theorem findDomain_restored {a b : NdApplications} (loaded : Loaded regex a)
    (restored : Restored orders a b) (permute : VisitOrders.Permute orders) {domain : List Char}
    (same : (orders.domainXforms b.domainXforms.entries).findSome? (leads regex a domain) =
      (orders.domainXforms a.domainXforms.entries).findSome? (leads regex a domain)) :
    b.findDomain regex orders.domainXforms domain =
      a.findDomain regex orders.domainXforms domain := by
  by_cases empty : domain = []
  · simp [findDomain, searches, empty]
  · have parts := findParts_restored loaded restored
    have lead : leads regex b domain = leads regex a domain := by
      funext rx
      simp only [leads, parts]
    have members (rx : (_ : List Char) × List Char) :
        rx ∈ orders.domainXforms b.domainXforms.entries ↔
          rx ∈ orders.domainXforms a.domainXforms.entries := by
      rw [(permute.domainXforms _).mem_iff, restored.xforms, List.mem_reverse]
    rw [findDomain_first b empty, findDomain_first a empty, lead, same, parts]
    simp only [members]

/-- An entry is moved to the front. -/
def front (rx : (_ : List Char) × List Char) (rxs : List ((_ : List Char) × List Char)) :
    List ((_ : List Char) × List Char) :=
  if rx ∈ rxs then rx :: rxs.erase rx else rxs

theorem front_perm (rx : (_ : List Char) × List Char) (rxs : List ((_ : List Char) × List Char)) :
    (front rx rxs).Perm rxs := by
  unfold front
  split
  case isTrue member => exact (List.perm_cons_erase member).symm
  case isFalse => exact .refl _

theorem findSome?_front {α : Type} {f : (_ : List Char) × List Char → Option α}
    {rx : (_ : List Char) × List Char} {rxs : List ((_ : List Char) × List Char)} {x : α}
    (member : rx ∈ rxs) (leads : f rx = some x) : (front rx rxs).findSome? f = some x := by
  rw [front, if_pos member, List.findSome?_cons, leads]

/-- One transform is visited first in the tables that are saved, another one in those
that are loaded. -/
theorem reloads_front {x y : Nat} {domain : List Char} {rx rx' : (_ : List Char) × List Char}
    (inverse : Inverse ntop pton) (loaded : Loaded regex self) (nonempty : domain ≠ [])
    (reloads : Reloads ntop pton regex self) (member : rx ∈ self.domainXforms.entries)
    (member' : rx' ∈ self.domainXforms.entries) (lead : leads regex self domain rx = some x)
    (lead' : leads regex self domain rx' = some y)
    (turned : (front rx self.domainXforms.entries).reverse ≠ self.domainXforms.entries) :
    x = y := by
  let orders : VisitOrders := {
    apps := id
    domains := id
    domainXforms := fun rxs =>
      if rxs = self.domainXforms.entries then front rx rxs else front rx' rxs }
  have permute : VisitOrders.Permute orders := by
    refine ⟨fun _ => .refl _, fun _ => .refl _, fun rxs => ?_⟩
    show (if rxs = self.domainXforms.entries then front rx rxs else front rx' rxs).Perm rxs
    split
    · exact front_perm rx rxs
    · exact front_perm rx' rxs
  have restored := restored_reloaded inverse loaded permute
  have saved : orders.domainXforms self.domainXforms.entries =
      front rx self.domainXforms.entries := if_pos rfl
  have entries := restored.xforms
  rw [saved] at entries
  have visited : orders.domainXforms (self.reloaded ntop pton regex orders).domainXforms.entries =
      front rx' (front rx self.domainXforms.entries).reverse := by
    rw [entries]
    exact if_neg turned
  have inside : rx' ∈ (front rx self.domainXforms.entries).reverse := by
    rw [List.mem_reverse, (front_perm rx _).mem_iff]
    exact member'
  have parts := findParts_restored loaded restored
  have same := (reloads orders permute).findDomain domain
  have leads' : leads regex (self.reloaded ntop pton regex orders) domain =
      leads regex self domain := by
    funext rx
    simp only [leads, parts]
  have shown {rx : (_ : List Char) × List Char} {z : Nat} (lead : leads regex self domain rx = some z)
      {rxs : List ((_ : List Char) × List Char)} (inside : rx ∈ rxs) :
      ¬ ∀ it ∈ front rx rxs, regex.replace it.1 it.2 domain = [] := by
    intro all
    have none := all rx ((front_perm rx rxs).mem_iff.mpr inside)
    rw [leads, if_pos none] at lead
    cases lead
  rw [findDomain_first _ nonempty, findDomain_first _ nonempty, visited, saved,
    if_neg (shown lead' inside), if_neg (shown lead member), leads', findSome?_front inside lead',
    findSome?_front member lead] at same
  exact same.symm

theorem applications_ext {a b : Applications} (four : a.networks4 = b.networks4)
    (six : a.networks6 = b.networks6) : a = b := by
  cases a
  cases b
  cases four
  cases six
  rfl

/-- **Export and import** of tables in which no network is stored twice keep the
answers exactly if no domain is led to two applications. -/
theorem reloads_iff (inverse : Inverse ntop pton) (reachable : Reachable pton regex self)
    (distinct : Distinct self) : Reloads ntop pton regex self ↔ OrderFree regex self := by
  have loaded := loaded_reachable inverse reachable
  constructor
  · intro reloads domain nonempty rx member rx' member' x y lead lead'
    by_contra other
    by_cases turned : (front rx self.domainXforms.entries).reverse = self.domainXforms.entries
    · -- then the other one is not the last one when it is the first one
      apply other
      refine (reloads_front inverse loaded nonempty reloads member' member lead' lead ?_).symm
      intro turned'
      have fronts := List.reverse_injective (turned.trans turned'.symm)
      have first := findSome?_front member lead
      rw [fronts, findSome?_front member' lead'] at first
      exact other (Option.some.inj first).symm
    · exact other (reloads_front inverse loaded nonempty reloads member member' lead lead' turned)
  · intro free orders permute
    have restored := restored_reloaded inverse loaded permute
    refine ⟨fun id => ?_, fun tag => ?_, fun tag => ?_, fun domain => ?_, fun addr => ?_⟩
    · simp only [NdApplications.lookup, AList.perm_lookup restored.apps]
    · simp only [lookupTag, restored.tags]
    · simp only [lookupApp, restored.tags]
    · by_cases empty : domain = []
      · simp [findDomain, searches, empty]
      · apply findDomain_restored loaded restored permute
        have first := (FirstMatch.agree_iff_order [] (fun _ none => by cases none)).mp
          (free domain empty)
        have saved := first _ (permute.domainXforms self.domainXforms.entries)
        have back := first (orders.domainXforms
          (self.reloaded ntop pton regex orders).domainXforms.entries) (by
            refine (permute.domainXforms _).trans ?_
            rw [restored.xforms]
            exact (List.reverse_perm _).trans (permute.domainXforms _))
        have same := back.trans saved.symm
        simpa [FirstMatch.first] using same
    · have networks : (self.reloaded ntop pton regex orders).toApplications =
          self.toApplications := by
        have four := foldl_assignTo_values (by decide) loaded.networks.kept4 distinct.1
        have six := foldl_assignTo_values (by decide) loaded.networks.kept6 distinct.2
        exact applications_ext (restored.networks4.trans four) (restored.networks6.trans six)
      rw [networks]

end

/-! ## Two transforms of a domain -/

/-- What `regex_replace` makes of a text if the pattern is a word. -/
def replaceAll (search replace : List Char) : Nat → List Char → List Char
  | 0, text => text
  | _, [] => []
  | rounds + 1, c :: rest =>
    if search.isPrefixOf (c :: rest) then
      replace ++ replaceAll search replace rounds ((c :: rest).drop search.length)
    else c :: replaceAll search replace rounds rest

/-- Patterns that are words. -/
def wordRegex : Regex where
  compiles search := search.all fun c => 'a' ≤ c && c ≤ 'z'
  replace search replace domain := replaceAll search replace domain.length domain

/-- Tables loaded from lines. -/
def ofLines (ls : List String) : NdApplications :=
  (load plainPton wordRegex {} (some (unlines (ls.map String.toList)))).1

theorem ofLines_reachable (ls : List String) : Reachable plainPton wordRegex (ofLines ls) :=
  .load .fresh _

/-- One transform leads cdn.example to the first application, the other one to the
second. -/
def twoWays : NdApplications :=
  ofLines ["app:1:first", "app:2:second", "dom:1:one.example", "dom:2:cdn.two", "xfm:cdn:one",
    "xfm:example:two"]

/-- A domain, a network and a transform. -/
def oneWay : NdApplications :=
  ofLines ["app:1:first", "app:2:second", "dom:1:one.example", "net:2:10.0.0.0/8", "xfm:cdn:one"]

theorem oneWay_reloads : Reloads plainNtop plainPton wordRegex oneWay := by
  have distinct : Distinct oneWay := by
    unfold Distinct
    decide +kernel
  have reached : Reachable plainPton wordRegex oneWay := ofLines_reachable _
  apply (reloads_iff inverse_plain reached distinct).mpr
  have entries : oneWay.domainXforms.entries = [⟨"cdn".toList, "one".toList⟩] := by
    decide +kernel
  intro domain nonempty rx member rx' member' x y lead lead'
  rw [entries] at member member'
  obtain rfl := List.mem_singleton.mp member
  obtain rfl := List.mem_singleton.mp member'
  rw [lead] at lead'
  exact Option.some.inj lead'

/-- The map is visited from the last entry to the first, and is filled again in this
order. -/
theorem transforms_turned : Reachable plainPton wordRegex twoWays ∧
    ¬ Reloads plainNtop plainPton wordRegex twoWays := by
  refine ⟨ofLines_reachable _, fun reloads => ?_⟩
  have same := (reloads ⟨id, id, id⟩ ⟨fun _ => .refl _, fun _ => .refl _, fun _ => .refl _⟩).findDomain
    "cdn.example".toList
  have other : (twoWays.reloaded plainNtop plainPton wordRegex ⟨id, id, id⟩).findDomain wordRegex id
      "cdn.example".toList ≠ twoWays.findDomain wordRegex id "cdn.example".toList := by
    decide +kernel
  exact other same

end SignatureExport
end NetifyAgent
