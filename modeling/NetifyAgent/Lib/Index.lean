import Mathlib.Data.List.AList

/-! A store of objects by key with an index of the keys by object id. The two
tables are coherent if each leads back to the other, so that no id reaches the
object of another id and no object is out of reach. For every operation that
changes both tables it is said exactly when they stay coherent. -/
namespace NetifyAgent.Index

variable {ι κ α : Type} [DecidableEq ι] [DecidableEq κ]

/-- The index and the store lead back to each other. -/
structure Coherent (idOf : α → ι) (index : AList fun _ : ι => κ)
    (store : AList fun _ : κ => α) : Prop where
  indexed : ∀ k a, store.lookup k = some a → index.lookup (idOf a) = some k
  stored : ∀ i k, index.lookup i = some k → ∃ a, store.lookup k = some a ∧ idOf a = i

section
variable {idOf : α → ι} {index : AList fun _ : ι => κ} {store : AList fun _ : κ => α}
  {i j : ι} {k k' : κ} {a b : α}

theorem coherent_empty :
    Coherent idOf (∅ : AList fun _ : ι => κ) (∅ : AList fun _ : κ => α) :=
  ⟨fun _ _ found => by simp at found, fun _ _ found => by simp at found⟩

theorem lookup_insert_cases {K V : Type} [DecidableEq K] {t : AList fun _ : K => V} {x y : K}
    {v w : V} : (t.insert x v).lookup y = some w ↔
      (y = x ∧ w = v) ∨ (y ≠ x ∧ t.lookup y = some w) := by
  by_cases same : y = x
  · subst same
    rw [AList.lookup_insert]
    simp [eq_comm]
  · rw [AList.lookup_insert_ne same]
    simp [same]

theorem lookup_erase_cases {K V : Type} [DecidableEq K] {t : AList fun _ : K => V} {x y : K}
    {w : V} : (t.erase x).lookup y = some w ↔ y ≠ x ∧ t.lookup y = some w := by
  by_cases same : y = x
  · subst same
    rw [AList.lookup_erase]
    simp
  · rw [AList.lookup_erase_ne same]
    simp [same]

/-- What an insertion overwrites need not be erased first. -/
theorem insert_erase {K V : Type} [DecidableEq K] (t : AList fun _ : K => V) (x : K) (v : V) :
    (t.erase x).insert x v = t.insert x v := by
  apply AList.ext
  rw [AList.entries_insert, AList.entries_insert]
  congr 1
  exact List.kerase_of_notMem_keys (List.notMem_keys_kerase x t.nodupKeys)

theorem lookup_ne_none {K V : Type} [DecidableEq K] {t : AList fun _ : K => V} {x : K} :
    t.lookup x ≠ none ↔ x ∈ t.keys := by
  rw [Ne, AList.lookup_eq_none, not_not, AList.mem_keys]

/-- A store with one more entry, or with another object under a key. -/
theorem length_insert {K V : Type} [DecidableEq K] (t : AList fun _ : K => V) (x : K) (v : V) :
    (t.insert x v).keys.length =
      if t.lookup x = none then t.keys.length + 1 else t.keys.length := by
  rw [AList.keys_insert, List.length_cons]
  split
  · rename_i absent
    rw [List.erase_of_not_mem fun here => lookup_ne_none.mpr here absent]
  · rename_i present
    have here := lookup_ne_none.mp present
    have positive := List.length_pos_of_mem here
    rw [List.length_erase_of_mem here]
    omega

theorem length_erase {K V : Type} [DecidableEq K] {t : AList fun _ : K => V} {x : K}
    (present : t.lookup x ≠ none) : (t.erase x).keys.length + 1 = t.keys.length := by
  have here := lookup_ne_none.mp present
  have positive := List.length_pos_of_mem here
  rw [AList.keys_erase, List.length_erase_of_mem here]
  omega

/-- The id of an object is found under no other key. -/
theorem Coherent.key_unique (coherent : Coherent idOf index store)
    (first : store.lookup k = some a) (second : store.lookup k' = some b)
    (same : idOf a = idOf b) : k = k' := by
  have here := coherent.indexed k a first
  rw [same, coherent.indexed k' b second] at here
  exact (Option.some.inj here).symm

/-- **Storing.** An object that is stored and indexed, over what was there
before, leaves coherent tables exactly when its id had no other key and its key
no other id. -/
theorem coherent_put (coherent : Coherent idOf index store) (id : idOf a = i) :
    Coherent idOf (index.insert i k) (store.insert k a) ↔
      (∀ k', index.lookup i = some k' → k' = k) ∧ ∀ b, store.lookup k = some b → idOf b = i := by
  constructor
  · intro after
    refine ⟨fun k' found => ?_, fun b found => ?_⟩
    · by_contra other
      obtain ⟨b, old, owner⟩ := coherent.stored i k' found
      have kept := after.indexed k' b (lookup_insert_cases.mpr (.inr ⟨other, old⟩))
      rw [owner, AList.lookup_insert] at kept
      exact other (Option.some.inj kept).symm
    · by_contra other
      have indexed := coherent.indexed k b found
      obtain ⟨c, here, owner⟩ :=
        after.stored (idOf b) k (lookup_insert_cases.mpr (.inr ⟨other, indexed⟩))
      rw [AList.lookup_insert] at here
      cases here
      exact other (owner.symm.trans id)
  · rintro ⟨free, owned⟩
    refine ⟨fun l b found => ?_, fun j l found => ?_⟩
    · rcases lookup_insert_cases.mp found with ⟨rfl, rfl⟩ | ⟨other, old⟩
      · rw [id, AList.lookup_insert]
      · have indexed := coherent.indexed l b old
        have apart : idOf b ≠ i := fun same => other (free l (same ▸ indexed))
        rw [AList.lookup_insert_ne apart]
        exact indexed
    · rcases lookup_insert_cases.mp found with ⟨rfl, rfl⟩ | ⟨other, old⟩
      · exact ⟨a, AList.lookup_insert _, id⟩
      · obtain ⟨b, here, owner⟩ := coherent.stored j l old
        have apart : l ≠ k := by
          rintro rfl
          exact other (owner.symm.trans (owned b here))
        exact ⟨b, by rw [AList.lookup_insert_ne apart]; exact here, owner⟩

/-- An object may change as long as it keeps its id. -/
theorem Coherent.modify (coherent : Coherent idOf index store) (found : store.lookup k = some b)
    (id : idOf a = idOf b) : Coherent idOf index (store.insert k a) := by
  refine ⟨fun l c here => ?_, fun j l here => ?_⟩
  · rcases lookup_insert_cases.mp here with ⟨rfl, rfl⟩ | ⟨_, old⟩
    · exact id ▸ coherent.indexed l b found
    · exact coherent.indexed l c old
  · obtain ⟨c, old, owner⟩ := coherent.stored j l here
    by_cases same : l = k
    · subst same
      cases found.symm.trans old
      exact ⟨a, AList.lookup_insert _, id.trans owner⟩
    · exact ⟨c, by rw [AList.lookup_insert_ne same]; exact old, owner⟩

/-- Taking an id and its object out. -/
theorem Coherent.remove (coherent : Coherent idOf index store) (found : store.lookup k = some a)
    (id : idOf a = i) : Coherent idOf (index.erase i) (store.erase k) := by
  refine ⟨fun l b here => ?_, fun j l here => ?_⟩
  · obtain ⟨other, old⟩ := lookup_erase_cases.mp here
    refine lookup_erase_cases.mpr ⟨fun same => other ?_, coherent.indexed l b old⟩
    exact coherent.key_unique old found (same.trans id.symm)
  · obtain ⟨other, old⟩ := lookup_erase_cases.mp here
    obtain ⟨b, stored, owner⟩ := coherent.stored j l old
    refine ⟨b, lookup_erase_cases.mpr ⟨?_, stored⟩, owner⟩
    rintro rfl
    cases found.symm.trans stored
    exact other (owner.symm.trans id)

/-- **Moving.** An object that moves to another key leaves coherent tables
exactly when that key was free. -/
theorem coherent_move (coherent : Coherent idOf index store) (found : store.lookup k = some b)
    (id : idOf b = i) (id' : idOf a = i) (other : k' ≠ k) :
    Coherent idOf (index.insert i k') ((store.erase k).insert k' a) ↔
      store.lookup k' = none := by
  constructor
  · intro after
    by_contra taken
    obtain ⟨c, old⟩ := Option.ne_none_iff_exists'.mp taken
    have apart : idOf c ≠ i := fun same =>
      other (coherent.key_unique old found (same.trans id.symm))
    have indexed : (index.insert i k').lookup (idOf c) = some k' := by
      rw [AList.lookup_insert_ne apart]
      exact coherent.indexed k' c old
    obtain ⟨d, here, owner⟩ := after.stored _ _ indexed
    rw [AList.lookup_insert] at here
    cases here
    exact apart (owner.symm.trans id')
  · intro free
    have removed := coherent.remove found id
    have put := (coherent_put (k := k') removed id').mpr
      ⟨fun l here => by simp at here, fun c here => ?_⟩
    · rwa [insert_erase] at put
    · rw [AList.lookup_erase_ne other, free] at here
      cases here

end

end NetifyAgent.Index
