import NetifyAgent.CategoryDirectory

/-! Queries for members, after any loads. The query by category id answers no to
everything, so that it agrees with the query by tag and with the lookup exactly
where the member is in no index that they look at. -/
namespace NetifyAgent.CategoryMembers
open Categories Runs

/-- A call of one of the loaders. -/
inductive CategoryLoad where
  | file (content : Option (List Char))
  | type (type : CategoryType) (jdata : Json)
  | directory (dir : Directory)

/-- The tables after a call that ends, with what it threw caught. -/
def step (pton : Pton) (parse : List Char → Option Json)
    (arrange : List (Nat × Finset (List Char)) → List (Nat × Finset (List Char)))
    (cs : Categories) : CategoryLoad → Option Categories
  | .file content =>
    match load parse cs content with
    | (_, .undefined) => none
    | (cs', _) => some cs'
  | .type type jdata => some (loadType cs type jdata).1
  | .directory dir => (loadDotDirectory pton arrange cs dir).map Prod.fst

/-- A member is in the index of a category. -/
def InIndex (cs : Categories) (type : CategoryType) (catId id : Nat) : Prop :=
  ∃ ci ids, cs.find type = some ci ∧ ci.index.get catId = some ids ∧ id ∈ ids

/-- A tag is known, with its category. -/
def Tagged (cs : Categories) (type : CategoryType) (tag : List Char) (catId : Nat) : Prop :=
  ∃ ci, cs.find type = some ci ∧ ci.tag.get tag = some catId

/-- The query by category id is right, and agrees with that by tag and with the
lookup. -/
structure Agrees (cs : Categories) (type : CategoryType) (tag : List Char) (catId id : Nat) :
    Prop where
  index : cs.isMember type catId id = true ↔ InIndex cs type catId id
  tagged : (∃ known, Tagged cs type tag known) →
    cs.isMemberTag type tag id = cs.isMember type (cs.lookupTag type tag) id
  found : ∀ c, cs.lookup type id = c → c ≠ ndCatUnknown → cs.isMember type c id = true

/-- The member is not in the index of the category, nor in that of the tag, and in
no other index unless it is in that of the unknown category. -/
structure NotIndexed (cs : Categories) (type : CategoryType) (tag : List Char) (catId id : Nat) :
    Prop where
  index : ¬ InIndex cs type catId id
  tagged : ∀ known, Tagged cs type tag known → ¬ InIndex cs type known id
  found : ∀ c, InIndex cs type c id → InIndex cs type ndCatUnknown id

section
variable {cs : Categories} {type : CategoryType}

/-- The query by category id answers no. -/
theorem isMember_false (cs : Categories) (type : CategoryType) (catId id : Nat) :
    cs.isMember type catId id = false := by
  unfold isMember
  split
  · rfl
  · split
    · rfl
    · exact ite_self false

theorem isMemberTag_iff {tag : List Char} {known id : Nat} (tagged : Tagged cs type tag known) :
    cs.isMemberTag type tag id = true ↔ InIndex cs type known id := by
  obtain ⟨ci, here, knows⟩ := tagged
  unfold isMemberTag InIndex
  rw [here]
  simp only [knows, Option.some.injEq, exists_and_left, exists_eq_left']
  cases held : ci.index.get known with
  | none => simp
  | some ids =>
    by_cases member : id ∈ ids
    · simp [member]
    · simp [member]

/-- The lookup answers with the least category whose index has the member. -/
theorem lookup_least {id : Nat} : (cs.lookup type id = ndCatUnknown ∧ ∀ c, ¬ InIndex cs type c id) ∨
    (InIndex cs type (cs.lookup type id) id ∧
      ∀ c, InIndex cs type c id → cs.lookup type id ≤ c) := by
  unfold lookup
  cases here : cs.find type with
  | none =>
    left
    refine ⟨rfl, ?_⟩
    rintro c ⟨ci, ids, there, -⟩
    rw [here] at there
    cases there
  | some ci =>
    simp only
    cases found : ci.index.entries.find? fun it => id ∈ it.2 with
    | none =>
      left
      refine ⟨rfl, ?_⟩
      rintro c ⟨ci', ids, there, held, member⟩
      obtain rfl : ci = ci' := Option.some.inj (here.symm.trans there)
      have absent := List.find?_eq_none.mp found (c, ids) (OrderedMap.mem_entries.mpr held)
      exact absent (decide_eq_true member)
    | some it =>
      right
      obtain ⟨held, member, least⟩ := OrderedMap.find_least found
      refine ⟨⟨ci, it.2, here, held, of_decide_eq_true member⟩, ?_⟩
      rintro c ⟨ci', ids, there, held', member'⟩
      obtain rfl : ci = ci' := Option.some.inj (here.symm.trans there)
      exact least c ids held' (decide_eq_true member')

theorem lookup_unknown_iff {id : Nat} : cs.lookup type id = ndCatUnknown ↔
    ∀ c, InIndex cs type c id → InIndex cs type ndCatUnknown id := by
  rcases @lookup_least cs type id with ⟨unknown, absent⟩ | ⟨inside, least⟩
  · exact ⟨fun _ c inside => absurd inside (absent c), fun _ => unknown⟩
  · constructor
    · intro unknown c _
      exact unknown ▸ inside
    · intro all
      exact Nat.le_zero.mp (least ndCatUnknown (all _ inside))

end

/-- **Membership.** After any loads the queries agree exactly about what is not in
the indexes. -/
theorem isMember_agrees_iff (pton : Pton) (parse : List Char → Option Json)
    (arrange : List (Nat × Finset (List Char)) → List (Nat × Finset (List Char))) :
    ∀ cs, Reaches (step pton parse arrange) Always {} cs → ∀ type tag catId id,
      (Agrees cs type tag catId id ↔ NotIndexed cs type tag catId id) := by
  intro cs _ type tag catId id
  constructor
  · rintro ⟨index, tagged, found⟩
    refine ⟨fun inside => ?_, fun known knows inside => ?_, ?_⟩
    · have no := isMember_false cs type catId id
      rw [index.mpr inside] at no
      cases no
    · have yes := (isMemberTag_iff knows).mpr inside
      rw [tagged ⟨known, knows⟩, isMember_false] at yes
      cases yes
    · apply lookup_unknown_iff.mp
      by_contra known
      have yes := found _ rfl known
      rw [isMember_false] at yes
      cases yes
  · rintro ⟨index, tagged, found⟩
    refine ⟨?_, ?_, ?_⟩
    · rw [isMember_false]
      exact ⟨(fun yes => by cases yes), fun inside => absurd inside index⟩
    · rintro ⟨known, knows⟩
      rw [isMember_false]
      exact Bool.eq_false_iff.mpr fun yes => tagged known knows ((isMemberTag_iff knows).mp yes)
    · intro c same known
      exact absurd (same.symm.trans (lookup_unknown_iff.mpr found)) known

/-! ## One member -/

/-- A file with one category, of tag "a", that has one member. -/
def oneMember : Json :=
  let tags := Json.object [("a".toList, .integer 1)]
  let index := Json.array [.array [.integer 1, .array [.integer 5]]]
  .object [("application_index".toList, index), ("application_tag_index".toList, tags),
    ("protocol_index".toList, .array []), ("protocol_tag_index".toList, .object [])]

/-- The tables after the file is loaded. -/
def oneMemberLoaded : Categories :=
  { app := { tag := (∅ : OrderedMap (List Char) Nat).set "a".toList 1
             index := (∅ : OrderedMap Nat (Finset Nat)).set 1 {5} } }

/-- `inet_pton` that reads nothing. -/
def blindPton : Pton := ⟨fun _ => none, fun _ => none⟩

theorem oneMember_reached :
    Reaches (step blindPton (fun _ => some oneMember) id) Always {} oneMemberLoaded := by
  have done : step blindPton (fun _ => some oneMember) id {} (.file (some [])) =
      some oneMemberLoaded := by decide +kernel
  exact .next .start done trivial

/-- About another member the queries agree. -/
theorem other_member_agrees :
    Reaches (step blindPton (fun _ => some oneMember) id) Always {} oneMemberLoaded ∧
      (Agrees oneMemberLoaded .typeApp "a".toList 1 7 ↔
        NotIndexed oneMemberLoaded .typeApp "a".toList 1 7) :=
  ⟨oneMember_reached, isMember_agrees_iff blindPton (fun _ => some oneMember) id oneMemberLoaded
    oneMember_reached .typeApp "a".toList 1 7⟩

/-- The member that the file gives the category is denied. -/
theorem member_denied :
    Reaches (step blindPton (fun _ => some oneMember) id) Always {} oneMemberLoaded ∧
      ¬ Agrees oneMemberLoaded .typeApp "a".toList 1 5 := by
  refine ⟨oneMember_reached, fun agrees => ?_⟩
  have inside : InIndex oneMemberLoaded .typeApp 1 5 :=
    ⟨oneMemberLoaded.app, {5}, rfl, by decide +kernel, by decide⟩
  have yes := agrees.index.mpr inside
  rw [isMember_false] at yes
  cases yes

end NetifyAgent.CategoryMembers
