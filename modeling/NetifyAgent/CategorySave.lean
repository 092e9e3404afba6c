import Mathlib.Data.Finset.Sort
import NetifyAgent.CategoryMembers

/-! `ndCategories::Save`. Tags are members of an object, and an index is an array of
pairs, since its keys are no strings. What was saved is loaded again in every state that
loads can reach: all ids are in the range of their type. -/
namespace NetifyAgent

namespace NdCategory

/-- `to_json` of an `index_tag`. -/
def tagJson (tag : OrderedMap (List Char) Nat) : Json :=
  .object (tag.entries.map fun e => (e.1, .integer e.2))

/-- `to_json` of an `index_cat`. -/
def indexJson (index : OrderedMap Nat (Finset Nat)) : Json :=
  .array (index.entries.map fun e =>
    .array [.integer e.1, .array (e.2.sort.map fun id : Nat => .integer id)])

end NdCategory

namespace Categories
open NdCategory

/-- The document that `Save` makes, at a time. -/
def document (now : Int) (cs : Categories) : Json :=
  .object [("application_index".toList, indexJson cs.app.index),
    ("application_tag_index".toList, tagJson cs.app.tag), ("last_update".toList, .integer now),
    ("protocol_index".toList, indexJson cs.proto.index),
    ("protocol_tag_index".toList, tagJson cs.proto.tag)]

/-- `ndCategories::Save`: the text of the file afterwards and what it returns. `dump` is
`<<`, with what it has written when it throws. -/
def save (dump : Json → Except (List Char) (List Char)) (now : Int) (opens : Bool)
    (cs : Categories) (file : Option (List Char)) : Option (List Char) × Bool :=
  if opens then
    match dump (cs.document now) with
    | .ok text => (some text, true)
    | .error text => (some text, false)
  else (file, false)

end Categories

namespace CategorySave
open Categories NdCategory Runs CategoryMembers

/-! ## Ids in range -/

section
variable {κ ν : Type} [LinearOrder κ] {p : κ → ν → Prop} {m : OrderedMap κ ν} {k : κ} {v : ν}

/-- All entries of a map are of a kind. -/
def All (p : κ → ν → Prop) (m : OrderedMap κ ν) : Prop := ∀ k v, m.get k = some v → p k v

theorem all_empty : All p ∅ := fun k v none => by cases none

theorem all_set (all : All p m) (here : p k v) : All p (m.set k v) := by
  intro k' v' held
  rw [OrderedMap.get_set] at held
  split at held
  · next same =>
    cases held
    exact same ▸ here
  · exact all k' v' held

theorem all_emplace (all : All p m) (here : p k v) : All p (m.emplace k v) := by
  unfold OrderedMap.emplace
  split
  · exact all
  · exact all_set all here

end

/-- All ids are `unsigned`. -/
structure Ranged (ci : NdCategory) : Prop where
  tags : All (fun _ id => id < 2 ^ 32) ci.tag
  index : All (fun cid ids => cid < 2 ^ 32 ∧ ∀ id ∈ ids, id < 2 ^ 32) ci.index

theorem getUnsigned_lt {j : Json} {n : Nat} (read : j.getUnsigned = some n) : n < 2 ^ 32 := by
  have small (b : Bool) : b.toNat < 2 ^ 32 := by cases b <;> decide
  have wrapped (m : Int) : (m % 2 ^ 32).toNat < 2 ^ 32 := by omega
  cases j <;> simp only [Json.getUnsigned, Option.some.injEq, reduceCtorEq] at read
  · exact read ▸ small _
  · exact read ▸ wrapped _
  · exact read ▸ wrapped _

theorem getSet_lt {j : Json} {ids : Finset Nat} (read : j.getSet = some ids) :
    ∀ id ∈ ids, id < 2 ^ 32 := by
  cases j <;> simp only [Json.getSet, reduceCtorEq] at read
  next elements =>
  obtain ⟨ns, all, rfl⟩ := Option.map_eq_some_iff.mp read
  suffices ∀ id ∈ ns, id < 2 ^ 32 from fun id member => this id (List.mem_toFinset.mp member)
  clear read
  induction elements generalizing ns with
  | nil =>
    cases all
    exact fun id none => by cases none
  | cons j elements ih =>
    rw [List.mapM_cons] at all
    obtain ⟨n, first, all⟩ := Option.bind_eq_some_iff.mp all
    obtain ⟨ns, later, same⟩ := Option.bind_eq_some_iff.mp all
    cases same
    exact List.forall_mem_cons.mpr ⟨getUnsigned_lt first, ih ns later⟩

/-- What every element keeps a fold keeps. -/
theorem foldlM_keeps {α β : Type} {f : β → α → Option β} {I : β → Prop}
    (keeps : ∀ b a b', I b → f b a = some b' → I b') {as : List α} {b b' : β} (start : I b)
    (folds : as.foldlM f b = some b') : I b' := by
  induction as generalizing b with
  | nil =>
    cases folds
    exact start
  | cons a as ih =>
    rw [List.foldlM_cons] at folds
    obtain ⟨next, one, folds⟩ := Option.bind_eq_some_iff.mp folds
    exact ih (keeps b a next start one) folds

theorem getIndexTag_lt {j : Json} {tag : OrderedMap (List Char) Nat}
    (read : j.getIndexTag = some tag) : All (fun _ id => id < 2 ^ 32) tag := by
  cases j <;> simp only [Json.getIndexTag, reduceCtorEq] at read
  refine foldlM_keeps (fun m e m' all one => ?_) all_empty read
  obtain ⟨id, value, rfl⟩ := Option.map_eq_some_iff.mp one
  exact all_emplace all (getUnsigned_lt value)

theorem getIndexCat_lt {j : Json} {index : OrderedMap Nat (Finset Nat)}
    (read : j.getIndexCat = some index) :
    All (fun cid ids => cid < 2 ^ 32 ∧ ∀ id ∈ ids, id < 2 ^ 32) index := by
  cases j <;> simp only [Json.getIndexCat, reduceCtorEq] at read
  refine foldlM_keeps (fun m e m' all one => ?_) all_empty read
  split at one
  · obtain ⟨cid, first, one⟩ := Option.bind_eq_some_iff.mp one
    obtain ⟨ids, second, same⟩ := Option.bind_eq_some_iff.mp one
    cases same
    exact all_emplace all ⟨getUnsigned_lt first, getSet_lt second⟩
  · cases one

/-! ## The loaders -/

theorem ranged_empty : Ranged {} := ⟨all_empty, all_empty⟩

theorem ranged_read {key : String} {jdata : Json} {ci : NdCategory} (ranged : Ranged ci) :
    Ranged (NdCategory.read key jdata ci).1 := by
  unfold NdCategory.read
  split
  · exact ranged
  · next tag first =>
    obtain ⟨j, -, readTag⟩ := Option.bind_eq_some_iff.mp first
    simp only
    split
    · exact ⟨getIndexTag_lt readTag, ranged.index⟩
    · next index second =>
      obtain ⟨j', -, readIndex⟩ := Option.bind_eq_some_iff.mp second
      exact ⟨getIndexTag_lt readTag, getIndexCat_lt readIndex⟩

theorem ranged_readMembers {members : List (List Char × Json)} {id : Nat} {ci : NdCategory}
    (ranged : Ranged ci) (small : id < 2 ^ 32) : Ranged (readMembers members id ci).1 := by
  induction members generalizing id ci with
  | nil => exact ranged
  | cons member members ih =>
    obtain ⟨tag, value⟩ := member
    cases value with
    | array elements =>
      have tagged : Ranged { ci with tag := ci.tag.set tag id } :=
        ⟨all_set ranged.tags small, ranged.index⟩
      simp only [readMembers]
      split
      · exact tagged
      · next ids found =>
        exact ih ⟨tagged.tags, all_set ranged.index ⟨small, getSet_lt found⟩⟩
          (Nat.mod_lt _ (by decide))
    | null => exact ih ranged small
    | boolean b => exact ih ranged small
    | integer n => exact ih ranged small
    | float whole => exact ih ranged small
    | string text => exact ih ranged small
    | object members => exact ih ranged small

theorem ranged_readLegacy {key : String} {jdata : Json} {ci : NdCategory} (ranged : Ranged ci) :
    Ranged (readLegacy key jdata ci).1 := by
  unfold readLegacy
  split
  · split <;> exact ranged
  · exact ranged_readMembers ranged (by decide)
  · exact ranged

theorem ranged_merge {key : String} {entry : Json} {ci ci' : NdCategory} (ranged : Ranged ci)
    (merged : merge key entry ci = some ci') : Ranged ci' := by
  unfold merge at merged
  split at merged
  · cases merged
    exact ranged
  · next category found =>
    obtain ⟨j, -, merged⟩ := Option.bind_eq_some_iff.mp merged
    obtain ⟨id, readId, merged⟩ := Option.bind_eq_some_iff.mp merged
    obtain ⟨j', -, merged⟩ := Option.bind_eq_some_iff.mp merged
    obtain ⟨cid, readCid, merged⟩ := Option.bind_eq_some_iff.mp merged
    obtain ⟨j'', -, merged⟩ := Option.bind_eq_some_iff.mp merged
    obtain ⟨tag, -, same⟩ := Option.bind_eq_some_iff.mp merged
    cases same
    refine ⟨all_emplace ranged.tags (getUnsigned_lt readCid), all_set ranged.index ?_⟩
    refine ⟨getUnsigned_lt readCid, fun member inside => ?_⟩
    rcases Finset.mem_insert.mp inside with rfl | old
    · exact getUnsigned_lt readId
    · cases held : ci.index.get cid with
      | none =>
        rw [held] at old
        cases old
      | some ids =>
        rw [held, Option.getD_some] at old
        exact (ranged.index cid ids held).2 member old

theorem ranged_mergeAll {key : String} {entries : List Json} {ci : NdCategory}
    (ranged : Ranged ci) : Ranged (mergeAll key entries ci).1 := by
  induction entries generalizing ci with
  | nil => exact ranged
  | cons entry entries ih =>
    rw [mergeAll]
    cases merged : merge key entry ci with
    | none => exact ranged
    | some ci' => exact ih (ranged_merge ranged merged)

/-- The ids of both types. -/
structure BothRanged (cs : Categories) : Prop where
  app : Ranged cs.app
  proto : Ranged cs.proto

theorem ranged_readBoth {read : String → NdCategory → NdCategory × LoadEnd}
    (keeps : ∀ key ci, Ranged ci → Ranged (read key ci).1) {cs : Categories}
    (ranged : BothRanged cs) : BothRanged (readBoth read cs).1 := by
  have app := keeps "application" cs.app ranged.app
  have proto := keeps "protocol" cs.proto ranged.proto
  unfold readBoth
  split
  · next ci ok first =>
    rw [first] at app
    exact ⟨app, proto⟩
  · next ci ends other first =>
    rw [first] at app
    exact ⟨app, ranged.proto⟩

theorem ranged_load {parse : List Char → Option Json} {cs : Categories} (ranged : BothRanged cs)
    (file : Option (List Char)) : BothRanged (load parse cs file).1 := by
  have reset : BothRanged cs.resetCategories := ⟨ranged_empty, ranged_empty⟩
  unfold load
  split
  · exact ranged
  · split
    · exact ranged
    · split
      · exact ranged_readBoth (fun key ci => ranged_read) reset
      · exact ranged_readBoth (fun key ci => ranged_readLegacy) reset

theorem types_loadDotDirectory {pton : Pton}
    {arrange : List (Nat × Finset (List Char)) → List (Nat × Finset (List Char))}
    {cs : Categories} {dir : Directory} {r : Categories × Bool}
    (loaded : loadDotDirectory pton arrange cs dir = some r) :
    r.1.app = cs.app ∧ r.1.proto = cs.proto := by
  unfold loadDotDirectory at loaded
  split at loaded
  · cases loaded
    exact ⟨rfl, rfl⟩
  · obtain ⟨cs', files, rfl⟩ := Option.map_eq_some_iff.mp loaded
    refine foldlM_keeps (I := fun cs' => cs'.app = cs.app ∧ cs'.proto = cs.proto)
      (fun b entry b' same one => ?_) ⟨rfl, rfl⟩ files
    unfold loadFile at one
    split at one
    · cases one
      exact same
    · obtain ⟨file, -, rfl⟩ := Option.map_eq_some_iff.mp one
      exact same

/-- **Every state** that loads reach has ids in range. -/
theorem ranged_reached {pton : Pton} {parse : List Char → Option Json}
    {arrange : List (Nat × Finset (List Char)) → List (Nat × Finset (List Char))}
    {cs : Categories} (reached : Reaches (step pton parse arrange) Always {} cs) :
    BothRanged cs := by
  refine reached.invariant ⟨ranged_empty, ranged_empty⟩ fun cs call cs' ranged stepped _ => ?_
  cases call with
  | file content =>
    have loaded := @ranged_load parse cs ranged content
    simp only [step] at stepped
    split at stepped
    · cases stepped
    · next other _ found =>
      cases stepped
      rw [found] at loaded
      exact loaded
  | type type jdata =>
    cases stepped
    cases type with
    | typeApp => exact ⟨ranged_mergeAll ranged.app, ranged.proto⟩
    | typeProto => exact ⟨ranged.app, ranged_mergeAll ranged.proto⟩
    | typeNone => exact ranged
    | typeMax => exact ranged
  | directory dir =>
    obtain ⟨r, loaded, rfl⟩ := Option.map_eq_some_iff.mp stepped
    obtain ⟨app, proto⟩ := types_loadDotDirectory loaded
    exact ⟨app ▸ ranged.app, proto ▸ ranged.proto⟩

/-! ## Reading what is written -/

theorem foldlM_map_some {α β γ : Type} {f : γ → β → Option γ} {g : γ → α → γ} {h : α → β}
    {as : List α} (all : ∀ a ∈ as, ∀ c, f c (h a) = some (g c a)) (c : γ) :
    (as.map h).foldlM f c = some (as.foldl g c) := by
  induction as generalizing c with
  | nil => rfl
  | cons a as ih =>
    rw [List.map_cons, List.foldlM_cons, all a List.mem_cons_self, Option.bind_eq_bind,
      Option.bind_some, ih (fun a member => all a (List.mem_cons_of_mem _ member)), List.foldl_cons]

theorem mapM_map_some {α β γ : Type} {f : β → Option γ} {g : α → γ} {h : α → β} {as : List α}
    (all : ∀ a ∈ as, f (h a) = some (g a)) : (as.map h).mapM f = some (as.map g) := by
  induction as with
  | nil => rfl
  | cons a as ih =>
    rw [List.map_cons, List.mapM_cons, all a List.mem_cons_self,
      ih (fun a member => all a (List.mem_cons_of_mem _ member))]
    rfl

/-- The entries of a map make it again. -/
theorem foldl_emplace_entries {κ ν : Type} [LinearOrder κ] (m : OrderedMap κ ν) :
    m.entries.foldl (fun m e => m.emplace e.1 e.2) ∅ = m := by
  apply OrderedMap.ext_get
  intro k
  rw [OrderedMap.get_foldl_emplace, OrderedMap.get_empty, Option.none_or]

theorem getUnsigned_integer {n : Nat} (small : n < 2 ^ 32) :
    (Json.integer n).getUnsigned = some n := by
  rw [Json.getUnsigned]
  congr 1
  omega

theorem getIndexTag_tagJson {ci : NdCategory} (ranged : Ranged ci) :
    (tagJson ci.tag).getIndexTag = some ci.tag := by
  rw [tagJson, Json.getIndexTag]
  refine (foldlM_map_some (g := fun m e => m.emplace e.1 e.2) (fun e member m => ?_) ∅).trans
    (congrArg some (foldl_emplace_entries ci.tag))
  have small := ranged.tags e.1 e.2 (OrderedMap.mem_entries.mp member)
  rw [getUnsigned_integer small, Option.map_some]

theorem getIndexCat_indexJson {ci : NdCategory} (ranged : Ranged ci) :
    (indexJson ci.index).getIndexCat = some ci.index := by
  rw [indexJson, Json.getIndexCat]
  refine (foldlM_map_some (g := fun m e => m.emplace e.1 e.2) (fun e member m => ?_) ∅).trans
    (congrArg some (foldl_emplace_entries ci.index))
  obtain ⟨small, members⟩ := ranged.index e.1 e.2 (OrderedMap.mem_entries.mp member)
  have set : (Json.array (e.2.sort.map fun id : Nat => .integer id)).getSet = some e.2 := by
    rw [Json.getSet, mapM_map_some (g := fun id => id) fun id inside =>
      getUnsigned_integer (members id ((Finset.mem_sort _).mp inside)), List.map_id',
      Option.map_some, Finset.sort_toFinset]
  simp only [getUnsigned_integer small, set, Option.bind_eq_bind, Option.bind_some]
  rfl

/-- The texts "1" and "2" of a file with one category, and of what is saved of it. -/
def parseTwo (text : List Char) : Option Json :=
  if text = "1".toList then some oneMember
  else if text = "2".toList then some (oneMemberLoaded.document 0)
  else none

end CategorySave
end NetifyAgent
