import NetifyAgent.SignatureExport

/-! The two maps of applications. Both point to one object for each application, which knows its
own id and tag; a loader deletes the objects before it clears the maps. Every object is in both
maps, each under what it knows itself, after every line of every file. -/
namespace NetifyAgent.ApplicationIndex
open Lines NdApplications

/-- `ndApplication`. -/
structure NdApplication where
  id : Nat
  tag : List Char
  deriving DecidableEq, Repr

/-- `apps` and `app_tags` of `ndApplications`, and the objects that they point to. -/
structure AppIndex where
  /-- The live objects by their addresses. -/
  heap : Nat → Option NdApplication := fun _ => none
  /-- Where `new` makes the next object. -/
  next : Nat := 0
  apps : AList fun _ : Nat => Nat := ∅
  appTags : OrderedMap (List Char) Nat := ∅

namespace AppIndex

/-- `ndApplications::AddApp` and the pointer that it returns. -/
def addApp (self : AppIndex) (id : Nat) (tag : List Char) : AppIndex × Option Nat :=
  match self.apps.lookup id with
  | some app => (self, some app)
  | none =>
    match self.appTags.get tag with
    | some _ => (self, none)
    | none =>
      ({ heap := Function.update self.heap self.next (some ⟨id, tag⟩)
         next := self.next + 1
         apps := self.apps.insert id self.next
         appTags := self.appTags.set tag self.next }, some self.next)

/-- `ndApplications::Reset`: the objects are deleted through `apps`. -/
def reset (self : AppIndex) : AppIndex :=
  { heap := fun app => if app ∈ self.apps.entries.map Sigma.snd then none else self.heap app
    next := self.next }

/-- One line of a signature file, and whether it adds an application. -/
def loadLine (self : AppIndex) (line : List Char) : AppIndex × Bool :=
  match splitLine line with
  | none => (self, false)
  | some (type, line) =>
    match cutFirst ':' line with
    | none => (self, false)
    | some (first, rest) =>
      if type = "app".toList ∧ self.apps.lookup (appId first) = none then
        let added := self.addApp (appId first) rest
        (added.1, added.2.isSome)
      else (self, false)

/-- The loop over the lines, with `stats.ac`. -/
def loadLines (s : AppIndex × Nat) (ls : List (List Char)) : AppIndex × Nat :=
  ls.foldl (fun s line =>
    let loaded := loadLine s.1 line
    (loaded.1, if loaded.2 then s.2 + 1 else s.2)) s

/-- `ndApplications::Load` and what it returns. -/
def load (self : AppIndex) (file : Option (List Char)) : AppIndex × Bool :=
  match file with
  | none => (self, false)
  | some text =>
    let loaded := loadLines (self.reset, 0) (lines text)
    (loaded.1, 0 < loaded.2)

/-- The loop over the legacy lines, with `ac`. -/
def loadLegacyLines : List (List Char) → AppIndex → Nat → AppIndex × Bool
  | [], self, ac => (self, 0 < ac)
  | line :: rest, self, ac =>
    match legacyApp line with
    | none => loadLegacyLines rest self ac
    | some ((id, tag), _) =>
      match self.apps.lookup id with
      | some _ => loadLegacyLines rest self ac
      | none =>
        let added := self.addApp id tag
        if added.2.isSome then loadLegacyLines rest added.1 (ac + 1) else (added.1, false)

/-- `ndApplications::LoadLegacy` and what it returns. -/
def loadLegacy (self : AppIndex) (file : Option (List Char)) : AppIndex × Bool :=
  match file with
  | none => (self, false)
  | some text => loadLegacyLines (lines text) self.reset 0

/-- `ndApplications::Lookup` of an id, unless it follows a dangling pointer: the tag and whether
there is one. -/
def lookup (self : AppIndex) (id : Nat) : Option (List Char × Bool) :=
  match self.apps.lookup id with
  | none => some ("Unknown".toList, false)
  | some app => (self.heap app).map fun a => (a.tag, true)

/-- `ndApplications::Lookup` of a tag. -/
def lookupTag (self : AppIndex) (tag : List Char) : Option Nat :=
  match self.appTags.get tag with
  | none => some ndAppUnknown
  | some app => (self.heap app).map NdApplication.id

end AppIndex

/-- The states after some calls of the two loaders. -/
inductive Reached : AppIndex → Prop
  | fresh : Reached {}
  | load {self : AppIndex} (reached : Reached self) (file : Option (List Char)) :
      Reached (self.load file).1
  | loadLegacy {self : AppIndex} (reached : Reached self) (file : Option (List Char)) :
      Reached (self.loadLegacy file).1

/-- **Coherence.** Both maps hold the same objects, each under its own id and its own tag. -/
structure Coherent (index : AppIndex) : Prop where
  apps : ∀ i a, index.apps.lookup i = some a ↔
    ∃ app, index.heap a = some app ∧ app.id = i ∧ index.appTags.get app.tag = some a
  appTags : ∀ tag a, index.appTags.get tag = some a ↔
    ∃ app, index.heap a = some app ∧ app.tag = tag ∧ index.apps.lookup app.id = some a
  lookups : ∀ tag, (index.appTags.get tag).isSome →
    ∃ id, index.lookupTag tag = some id ∧ index.lookup id = some (tag, true)
  distinct : ∀ i j a b app app', index.apps.lookup i = some a → index.apps.lookup j = some b →
    index.heap a = some app → index.heap b = some app' → app.id = app'.id ∨ app.tag = app'.tag →
      i = j ∧ a = b

/-! ## What every line keeps -/

/-- The pointers of the maps are to live objects, which are in both maps. -/
structure Indexed (index : AppIndex) : Prop where
  room : ∀ a app, index.heap a = some app → a < index.next
  live : ∀ a app, index.heap a = some app →
    index.apps.lookup app.id = some a ∧ index.appTags.get app.tag = some a
  id : ∀ i a, index.apps.lookup i = some a → ∃ app, index.heap a = some app ∧ app.id = i
  tag : ∀ t a, index.appTags.get t = some a → ∃ app, index.heap a = some app ∧ app.tag = t

section
variable {self : AppIndex}

theorem Indexed.coherent (indexed : Indexed self) : Coherent self where
  apps i a := by
    constructor
    · intro found
      obtain ⟨app, object, id⟩ := indexed.id i a found
      exact ⟨app, object, id, (indexed.live a app object).2⟩
    · rintro ⟨app, object, rfl, -⟩
      exact (indexed.live a app object).1
  appTags tag a := by
    constructor
    · intro found
      obtain ⟨app, object, same⟩ := indexed.tag tag a found
      exact ⟨app, object, same, (indexed.live a app object).1⟩
    · rintro ⟨app, object, rfl, -⟩
      exact (indexed.live a app object).2
  lookups tag known := by
    obtain ⟨a, found⟩ := Option.isSome_iff_exists.mp known
    obtain ⟨app, object, rfl⟩ := indexed.tag tag a found
    refine ⟨app.id, ?_, ?_⟩
    · rw [AppIndex.lookupTag, found]
      simp [object]
    · rw [AppIndex.lookup, (indexed.live a app object).1]
      simp [object]
  distinct i j a b app app' found found' object object' same := by
    obtain ⟨owner, held, rfl⟩ := indexed.id i a found
    obtain ⟨owner', held', rfl⟩ := indexed.id j b found'
    obtain rfl : owner = app := Option.some.inj (held.symm.trans object)
    obtain rfl : owner' = app' := Option.some.inj (held'.symm.trans object')
    obtain ⟨byId, byTag⟩ := indexed.live a owner object
    obtain ⟨byId', byTag'⟩ := indexed.live b owner' object'
    rcases same with id | tag
    · rw [id, byId'] at byId
      exact ⟨id, (Option.some.inj byId).symm⟩
    · rw [tag, byTag'] at byTag
      obtain rfl := Option.some.inj byTag
      obtain rfl : owner = owner' := Option.some.inj (object.symm.trans object')
      exact ⟨rfl, rfl⟩

theorem indexed_fresh : Indexed {} where
  room a app object := by cases object
  live a app object := by cases object
  id i a found := by simp at found
  tag t a found := by simp at found

/-- Through `apps` every object is deleted. -/
theorem indexed_reset (indexed : Indexed self) : Indexed self.reset := by
  have deleted (a : Nat) : self.reset.heap a = none := by
    simp only [AppIndex.reset]
    split
    · rfl
    · rename_i missing
      cases object : self.heap a with
      | none => rfl
      | some app =>
        have entry := AList.mem_lookup_iff.mp (indexed.live a app object).1
        exact absurd (List.mem_map_of_mem (f := Sigma.snd) entry) missing
  refine ⟨fun a app object => ?_, fun a app object => ?_, fun i a found => ?_, fun t a found => ?_⟩
  · rw [deleted] at object
    cases object
  · rw [deleted] at object
    cases object
  · simp [AppIndex.reset] at found
  · simp [AppIndex.reset] at found

/-- The next object is not on the heap yet. -/
theorem Indexed.unused (indexed : Indexed self) : self.heap self.next = none := by
  cases object : self.heap self.next with
  | none => rfl
  | some app => exact absurd (indexed.room _ _ object) (Nat.lt_irrefl _)

/-- An object of the heap is not the next one, and has another id and tag than those that are
not in the maps. -/
theorem Indexed.other (indexed : Indexed self) {id : Nat} {tag : List Char}
    (noId : self.apps.lookup id = none) (noTag : self.appTags.get tag = none) {a : Nat}
    {app : NdApplication} (object : self.heap a = some app) :
    a ≠ self.next ∧ app.id ≠ id ∧ app.tag ≠ tag := by
  obtain ⟨byId, byTag⟩ := indexed.live a app object
  refine ⟨?_, ?_, ?_⟩
  · rintro rfl
    rw [indexed.unused] at object
    cases object
  · rintro rfl
    rw [noId] at byId
    cases byId
  · rintro rfl
    rw [noTag] at byTag
    cases byTag

/-- **`AddApp`** keeps the maps. -/
theorem indexed_addApp (indexed : Indexed self) (id : Nat) (tag : List Char) :
    Indexed (self.addApp id tag).1 := by
  unfold AppIndex.addApp
  cases noId : self.apps.lookup id with
  | some app => exact indexed
  | none =>
    cases noTag : self.appTags.get tag with
    | some app => exact indexed
    | none =>
      simp only
      refine ⟨fun a app object => ?_, fun a app object => ?_, fun i a found => ?_,
        fun t a found => ?_⟩ <;> dsimp only at *
      · by_cases here : a = self.next
        · exact here ▸ Nat.lt_succ_self _
        · rw [Function.update_of_ne here] at object
          exact Nat.lt_succ_of_lt (indexed.room a app object)
      · by_cases here : a = self.next
        · subst here
          rw [Function.update_self] at object
          obtain rfl := Option.some.inj object
          exact ⟨AList.lookup_insert _, OrderedMap.get_set_self _ _ _⟩
        · rw [Function.update_of_ne here] at object
          obtain ⟨-, otherId, otherTag⟩ := indexed.other noId noTag object
          rw [AList.lookup_insert_ne otherId, OrderedMap.get_set_ne otherTag]
          exact indexed.live a app object
      · by_cases same : i = id
        · subst same
          rw [AList.lookup_insert] at found
          obtain rfl := Option.some.inj found
          exact ⟨_, Function.update_self .., rfl⟩
        · rw [AList.lookup_insert_ne same] at found
          obtain ⟨app, object, rfl⟩ := indexed.id i a found
          obtain ⟨elsewhere, -, -⟩ := indexed.other noId noTag object
          exact ⟨app, (Function.update_of_ne elsewhere ..).trans object, rfl⟩
      · by_cases same : t = tag
        · subst same
          rw [OrderedMap.get_set_self] at found
          obtain rfl := Option.some.inj found
          exact ⟨_, Function.update_self .., rfl⟩
        · rw [OrderedMap.get_set_ne same] at found
          obtain ⟨app, object, rfl⟩ := indexed.tag t a found
          obtain ⟨elsewhere, -, -⟩ := indexed.other noId noTag object
          exact ⟨app, (Function.update_of_ne elsewhere ..).trans object, rfl⟩

theorem indexed_loadLine (indexed : Indexed self) (line : List Char) :
    Indexed (self.loadLine line).1 := by
  unfold AppIndex.loadLine
  split
  · exact indexed
  · split
    · exact indexed
    · split
      · exact indexed_addApp indexed _ _
      · exact indexed

theorem indexed_loadLines (indexed : Indexed self) (ac : Nat) (ls : List (List Char)) :
    Indexed (AppIndex.loadLines (self, ac) ls).1 := by
  induction ls generalizing self ac with
  | nil => exact indexed
  | cons line ls ih =>
    unfold AppIndex.loadLines at ih ⊢
    rw [List.foldl_cons]
    exact ih (indexed_loadLine indexed line) _

theorem indexed_loadLegacyLines (indexed : Indexed self) (ac : Nat) (ls : List (List Char)) :
    Indexed (AppIndex.loadLegacyLines ls self ac).1 := by
  induction ls generalizing self ac with
  | nil => exact indexed
  | cons line ls ih =>
    unfold AppIndex.loadLegacyLines
    cases legacyApp line with
    | none => exact ih indexed ac
    | some named =>
      obtain ⟨⟨id, tag⟩, entries⟩ := named
      have added := indexed_addApp indexed id tag
      dsimp only
      split
      · exact ih indexed ac
      · split
        · exact ih added _
        · exact added

end

/-- **Every state** that loads lead to. -/
theorem indexed_reached {self : AppIndex} (reached : Reached self) : Indexed self := by
  induction reached with
  | fresh => exact indexed_fresh
  | load _ file ih =>
    cases file with
    | none => exact ih
    | some text => exact indexed_loadLines (indexed_reset ih) 0 _
  | loadLegacy _ file ih =>
    cases file with
    | none => exact ih
    | some text => exact indexed_loadLegacyLines (indexed_reset ih) 0 _

/-! ## The tables of the queries -/

/-- The ids and tags of the two maps are those that the tables hold. -/
structure Mirrors (index : AppIndex) (tables : NdApplications) : Prop where
  apps : ∀ id, tables.apps.lookup id =
    (index.apps.lookup id).bind fun a => (index.heap a).map NdApplication.tag
  appTags : ∀ tag, tables.appTags.get tag =
    (index.appTags.get tag).bind fun a => (index.heap a).map NdApplication.id

section
variable {index : AppIndex} {tables : NdApplications} {pton : Pton} {regex : Regex}

theorem mirrors_of_tables {tables' : NdApplications} (mirrors : Mirrors index tables)
    (apps : tables'.apps = tables.apps) (appTags : tables'.appTags = tables.appTags) :
    Mirrors index tables' :=
  ⟨fun id => by rw [apps, mirrors.apps], fun tag => by rw [appTags, mirrors.appTags]⟩

/-- An id or a tag is known to both or to neither. -/
theorem isSome_mirrors (indexed : Indexed index) (mirrors : Mirrors index tables) (id : Nat)
    (tag : List Char) : (tables.apps.lookup id).isSome = (index.apps.lookup id).isSome ∧
      (tables.appTags.get tag).isSome = (index.appTags.get tag).isSome := by
  rw [mirrors.apps, mirrors.appTags]
  constructor
  · cases found : index.apps.lookup id with
    | none => rfl
    | some a =>
      obtain ⟨app, object, -⟩ := indexed.id id a found
      simp [object]
  · cases found : index.appTags.get tag with
    | none => rfl
    | some a =>
      obtain ⟨app, object, -⟩ := indexed.tag tag a found
      simp [object]

theorem mirrors_addApp (indexed : Indexed index) (mirrors : Mirrors index tables) (id : Nat)
    (tag : List Char) : Mirrors (index.addApp id tag).1 (tables.addApp id tag).1 ∧
      (tables.addApp id tag).2 = (index.addApp id tag).2.isSome := by
  obtain ⟨knownId, knownTag⟩ := isSome_mirrors indexed mirrors id tag
  unfold AppIndex.addApp NdApplications.addApp
  rw [knownId, knownTag]
  cases noId : index.apps.lookup id with
  | some app => exact ⟨mirrors, rfl⟩
  | none =>
    cases noTag : index.appTags.get tag with
    | some app => exact ⟨mirrors, rfl⟩
    | none =>
      have elsewhere {a : Nat} {app : NdApplication} (object : index.heap a = some app) :
          a ≠ index.next := Nat.ne_of_lt (indexed.room a app object)
      have absent : ¬ (none : Option Nat).isSome = true := Bool.false_ne_true
      rw [if_neg absent, if_neg absent]
      refine ⟨⟨fun id' => ?_, fun tag' => ?_⟩, rfl⟩ <;> dsimp only
      · by_cases same : id' = id
        · subst same
          rw [AList.lookup_insert, AList.lookup_insert, Option.bind_some, Function.update_self]
          rfl
        · rw [AList.lookup_insert_ne same, AList.lookup_insert_ne same, mirrors.apps]
          cases found : index.apps.lookup id' with
          | none => rfl
          | some a =>
            obtain ⟨app, object, -⟩ := indexed.id id' a found
            simp [Function.update_of_ne (elsewhere object)]
      · by_cases same : tag' = tag
        · subst same
          rw [OrderedMap.get_set_self, OrderedMap.get_set_self, Option.bind_some,
            Function.update_self]
          rfl
        · rw [OrderedMap.get_set_ne same, OrderedMap.get_set_ne same, mirrors.appTags]
          cases found : index.appTags.get tag' with
          | none => rfl
          | some a =>
            obtain ⟨app, object, -⟩ := indexed.tag tag' a found
            simp [Function.update_of_ne (elsewhere object)]

theorem mirrors_reset (index : AppIndex) (tables : NdApplications) :
    Mirrors index.reset tables.reset :=
  ⟨fun id => by simp [AppIndex.reset, NdApplications.reset],
    fun tag => by simp [AppIndex.reset, NdApplications.reset]⟩

/-- A line that names no application leaves the ids and tags of the tables alone. -/
theorem mirrors_loadLine (indexed : Indexed index) (mirrors : Mirrors index tables)
    (line : List Char) : Mirrors (index.loadLine line).1 (tables.loadLine pton regex line).1 ∧
      (tables.loadLine pton regex line).2 = (index.loadLine line).2 := by
  unfold AppIndex.loadLine NdApplications.loadLine
  cases splitLine line with
  | none => exact ⟨mirrors, rfl⟩
  | some parts =>
    obtain ⟨type, rest⟩ := parts
    dsimp only
    cases cutFirst ':' rest with
    | none => exact ⟨mirrors, rfl⟩
    | some fields =>
      obtain ⟨first, rest⟩ := fields
      dsimp only
      by_cases app : type = "app".toList
      · rw [if_pos app, (isSome_mirrors indexed mirrors (appId first) []).1]
        cases known : index.apps.lookup (appId first) with
        | some a =>
          have old : ¬ (type = "app".toList ∧ some a = none) := by
            rintro ⟨-, new⟩
            cases new
          rw [if_pos Option.isSome_some, if_neg old]
          exact ⟨mirrors, rfl⟩
        | none =>
          rw [if_neg (show ¬ (none : Option Nat).isSome = true from Bool.false_ne_true),
            if_pos ⟨app, rfl⟩]
          exact mirrors_addApp indexed mirrors _ _
      · rw [if_neg app, if_neg (fun both => app both.1)]
        split
        · exact ⟨mirrors_of_tables mirrors rfl rfl, rfl⟩
        · split
          · exact ⟨mirrors_of_tables mirrors rfl rfl, rfl⟩
          · split
            · unfold addDomainTransform
              split_ifs
              · exact ⟨mirrors, rfl⟩
              · exact ⟨mirrors, rfl⟩
              · exact ⟨mirrors_of_tables mirrors rfl rfl, rfl⟩
              · exact ⟨mirrors, rfl⟩
            · exact ⟨mirrors, rfl⟩

theorem mirrors_loadLines (indexed : Indexed index) (mirrors : Mirrors index tables) (ac : Nat)
    (ls : List (List Char)) :
    Mirrors (AppIndex.loadLines (index, ac) ls).1 (loadLines pton regex (tables, ac) ls).1 ∧
      (loadLines pton regex (tables, ac) ls).2 = (AppIndex.loadLines (index, ac) ls).2 := by
  induction ls generalizing index tables ac with
  | nil => exact ⟨mirrors, rfl⟩
  | cons line ls ih =>
    obtain ⟨next, added⟩ := @mirrors_loadLine _ _ pton regex indexed mirrors line
    unfold AppIndex.loadLines loadLines at ih ⊢
    rw [List.foldl_cons, List.foldl_cons]
    simp only [added]
    exact ih (indexed_loadLine indexed line) next _

theorem mirrors_legacyEntries (mirrors : Mirrors index tables) (id : Nat)
    (entries : List (List Char)) :
    Mirrors index (entries.foldl (legacyEntry pton id) tables) := by
  induction entries generalizing tables with
  | nil => exact mirrors
  | cons entry entries ih =>
    apply ih
    unfold legacyEntry
    split
    · exact mirrors
    · split
      · simp only
        split
        · exact mirrors
        · exact mirrors_of_tables mirrors rfl rfl
      · split
        · exact mirrors_of_tables mirrors rfl rfl
        · exact mirrors

theorem mirrors_loadLegacyLines (indexed : Indexed index) (mirrors : Mirrors index tables)
    (ac : Nat) (ls : List (List Char)) :
    Mirrors (AppIndex.loadLegacyLines ls index ac).1 (loadLegacyLines pton ls tables ac).1 ∧
      (loadLegacyLines pton ls tables ac).2 = (AppIndex.loadLegacyLines ls index ac).2 := by
  induction ls generalizing index tables ac with
  | nil => exact ⟨mirrors, rfl⟩
  | cons line ls ih =>
    unfold AppIndex.loadLegacyLines loadLegacyLines
    cases legacyApp line with
    | none => exact ih indexed mirrors ac
    | some named =>
      obtain ⟨⟨id, tag⟩, entries⟩ := named
      obtain ⟨known, -⟩ := isSome_mirrors indexed mirrors id tag
      obtain ⟨next, added⟩ := mirrors_addApp indexed mirrors id tag
      have new : (tables.apps.lookup id).isNone = (index.apps.lookup id).isNone := by
        rw [← Option.not_isSome, known, Option.not_isSome]
      dsimp only
      rw [new, added]
      cases present : index.apps.lookup id with
      | some a =>
        have same : index.addApp id tag = (index, some a) := by
          rw [AppIndex.addApp, present]
        rw [same] at next
        simpa using ih indexed (mirrors_legacyEntries next id (pieces ',' entries)) ac
      | none =>
        cases made : (index.addApp id tag).2 with
        | none => exact ⟨next, rfl⟩
        | some a =>
          exact ih (indexed_addApp indexed id tag)
            (mirrors_legacyEntries next id (pieces ',' entries)) (ac + 1)

/-- **Loading** fills the maps and the tables alike. -/
theorem mirrors_load (indexed : Indexed index) (mirrors : Mirrors index tables)
    (file : Option (List Char)) :
    (Mirrors (index.load file).1 (tables.load pton regex file).1 ∧
      (tables.load pton regex file).2 = (index.load file).2) ∧
    Mirrors (index.loadLegacy file).1 (tables.loadLegacy pton file).1 ∧
      (tables.loadLegacy pton file).2 = (index.loadLegacy file).2 := by
  cases file with
  | none => exact ⟨⟨mirrors, rfl⟩, mirrors, rfl⟩
  | some text =>
    have cleared := indexed_reset indexed
    obtain ⟨loaded, ac⟩ := @mirrors_loadLines _ _ pton regex cleared
      (mirrors_reset index tables) 0 (lines text)
    refine ⟨⟨loaded, ?_⟩, mirrors_loadLegacyLines cleared (mirrors_reset index tables) 0 _⟩
    simp only [NdApplications.load, AppIndex.load, ac]

/-- The queries of the tables answer as those of the maps. -/
theorem lookups_mirror (indexed : Indexed index) (mirrors : Mirrors index tables) (id : Nat)
    (tag : List Char) : index.lookup id = some (tables.lookup id) ∧
      index.lookupTag tag = some (tables.lookupTag tag) := by
  constructor
  · unfold AppIndex.lookup NdApplications.lookup
    rw [mirrors.apps]
    cases found : index.apps.lookup id with
    | none => rfl
    | some a =>
      obtain ⟨app, object, -⟩ := indexed.id id a found
      simp [object]
  · unfold AppIndex.lookupTag NdApplications.lookupTag
    rw [mirrors.appTags]
    cases found : index.appTags.get tag with
    | none => rfl
    | some a =>
      obtain ⟨app, object, -⟩ := indexed.tag tag a found
      simp [object]

end

/-! ## The law -/

/-- The maps are coherent in every state that loads lead to. -/
theorem index_coherent {self : AppIndex} (reached : Reached self) : Coherent self :=
  (indexed_reached reached).coherent

/-- A legacy file stops at its second line, which takes the tag of the first. -/
theorem stopped_coherent : ∃ self, Reached self ∧
    self.lookupTag "b".toList = some 2 ∧ self.apps.lookup 3 = none ∧ Coherent self := by
  refine ⟨_, .loadLegacy (.load .fresh (some "app:1:a\napp:2:a\n".toList))
    (some "ip:10.0.0.1@2.b\nip:10.0.0.2@3.b\nip:10.0.0.3@4.d\n".toList), ?_, ?_, ?_⟩
  · decide +kernel
  · decide +kernel
  · exact index_coherent (.loadLegacy (.load .fresh _) _)

end NetifyAgent.ApplicationIndex
