import Mathlib.Data.List.Dedup
import Mathlib.Data.List.Nodup

/-! A bounded map kept as a list of pairs, the pair used last in front. Uses are
counted along a history of keys, newest first: the list is ordered when every
key was used later than those behind it. Insertion drops pairs from the end
once the list has reached its limit. -/
namespace NetifyAgent.Recency

variable {κ ν : Type}

/-! ## Lists of pairs -/

/-- The keys of a list of pairs. -/
def keys (entries : List (κ × ν)) : List κ := entries.map Prod.fst

@[simp] theorem keys_nil : keys ([] : List (κ × ν)) = [] := rfl

@[simp] theorem keys_cons (e : κ × ν) (entries : List (κ × ν)) :
    keys (e :: entries) = e.1 :: keys entries := rfl

@[simp] theorem keys_append (xs ys : List (κ × ν)) : keys (xs ++ ys) = keys xs ++ keys ys :=
  List.map_append

theorem keys_length (entries : List (κ × ν)) : (keys entries).length = entries.length :=
  List.length_map _

theorem mem_keys {entries : List (κ × ν)} {k : κ} :
    k ∈ keys entries ↔ ∃ v, (k, v) ∈ entries := by
  simp [keys]

/-- Drops pairs from the end of a full list. -/
def purge (limit drop : Nat) (entries : List (κ × ν)) : List (κ × ν) :=
  if entries.length = limit then entries.take (limit - drop) else entries

section
variable {entries : List (κ × ν)} {limit drop : Nat}

/-- What a full list drops, and what it keeps. -/
theorem purge_split (limit drop : Nat) (entries : List (κ × ν)) :
    ∃ out, entries = purge limit drop entries ++ out := by
  unfold purge
  split
  · exact ⟨entries.drop (limit - drop), (List.take_append_drop _ _).symm⟩
  · exact ⟨[], (List.append_nil _).symm⟩

theorem purge_length_lt (bounded : entries.length ≤ limit) (positive : 0 < drop)
    (some_left : 0 < limit) : (purge limit drop entries).length < limit := by
  unfold purge
  split
  · rw [List.length_take]
    omega
  · omega

theorem purge_zero : purge limit 0 entries = entries := by
  unfold purge
  split
  · rename_i full
    exact List.take_of_length_le (by omega)
  · rfl

end

section
variable [DecidableEq κ]

/-! ## Uses -/

/-- The last use of `a` is later than that of `b`. -/
def Newer (used : List κ) (a b : κ) : Prop := used.idxOf a < used.idxOf b

instance (used : List κ) (a b : κ) : Decidable (Newer used a b) :=
  inferInstanceAs (Decidable (_ < _))

/-- The keys are known to the history and stand in the order of their last uses. -/
structure Ordered (used keys : List κ) : Prop where
  sorted : keys.Pairwise (Newer used)
  known : ∀ k ∈ keys, k ∈ used

theorem ordered_nil (used : List κ) : Ordered used [] :=
  ⟨.nil, fun _ here => absurd here List.not_mem_nil⟩

section
variable {used keys kept out : List κ} {a b k : κ}

theorem Ordered.nodup (ordered : Ordered used keys) : keys.Nodup :=
  ordered.sorted.imp fun newer same => by
    subst same
    exact Nat.lt_irrefl _ newer

theorem Ordered.sublist (ordered : Ordered used keys) (part : kept.Sublist keys) :
    Ordered used kept :=
  ⟨ordered.sorted.sublist part, fun k here => ordered.known k (part.subset here)⟩

/-- A use of another key changes no order. -/
theorem newer_cons (ha : a ≠ k) (hb : b ≠ k) : Newer (k :: used) a b ↔ Newer used a b := by
  unfold Newer
  rw [List.idxOf_cons_ne _ ha.symm, List.idxOf_cons_ne _ hb.symm]
  exact Nat.succ_lt_succ_iff

theorem newer_front (hb : b ≠ k) : Newer (k :: used) k b := by
  unfold Newer
  rw [List.idxOf_cons_self, List.idxOf_cons_ne _ hb.symm]
  exact Nat.succ_pos _

/-- **Use.** A key that is used comes to the front of an ordered list without it. -/
theorem Ordered.use (ordered : Ordered used keys) (absent : k ∉ keys) :
    Ordered (k :: used) (k :: keys) := by
  have other : ∀ {a}, a ∈ keys → a ≠ k := fun here same => absent (same ▸ here)
  refine ⟨List.pairwise_cons.mpr ⟨fun b here => newer_front (other here), ?_⟩, ?_⟩
  · refine ordered.sorted.imp_of_mem fun ha hb newer => ?_
    exact (newer_cons (other ha) (other hb)).mpr newer
  · intro a here
    cases here with
    | head => exact List.mem_cons_self
    | tail _ here => exact List.mem_cons_of_mem _ (ordered.known a here)

/-- What is cut off the end was used before everything that stays. -/
theorem Ordered.cut (ordered : Ordered used (kept ++ out)) (ha : a ∈ kept) (hb : b ∈ out) :
    Newer used a b :=
  (List.pairwise_append.mp ordered.sorted).2.2 a ha b hb

end

/-! ## The bounded map -/

/-- The value of a key. -/
def fetch (entries : List (κ × ν)) (k : κ) : Option ν :=
  (entries.find? fun e => e.1 = k).map Prod.snd

/-- A new key comes to the front, a known one changes nothing. -/
def push (limit drop : Nat) (entries : List (κ × ν)) (k : κ) (v : ν) : List (κ × ν) :=
  if k ∈ keys entries then entries else (k, v) :: purge limit drop entries

/-- A pair that is read comes to the front. -/
def touch (entries : List (κ × ν)) (k : κ) : List (κ × ν) :=
  match fetch entries k with
  | some v => (k, v) :: entries.filter fun e => e.1 ≠ k
  | none => entries

section
variable {entries : List (κ × ν)} {limit drop : Nat} {k l : κ} {v w : ν} {used : List κ}

theorem fetch_eq_none : fetch entries k = none ↔ k ∉ keys entries := by
  rw [fetch, Option.map_eq_none_iff, List.find?_eq_none, mem_keys]
  constructor
  · rintro absent ⟨v, here⟩
    exact absent _ here (decide_eq_true rfl)
  · intro absent e here same
    exact absent ⟨e.2, of_decide_eq_true same ▸ here⟩

theorem fetch_eq_some (nodup : (keys entries).Nodup) :
    fetch entries k = some v ↔ (k, v) ∈ entries := by
  induction entries with
  | nil => simp [fetch]
  | cons e entries ih =>
    obtain ⟨absent, nodup⟩ := List.nodup_cons.mp nodup
    by_cases same : e.1 = k
    · have other : (k, v) ∉ entries := fun here =>
        absent (same ▸ mem_keys.mpr ⟨v, here⟩)
      rw [List.mem_cons]
      simp [fetch, same, other, Prod.ext_iff, eq_comm]
    · have apart : (k, v) ≠ e := fun equal => same (by rw [← equal])
      have skipped : fetch (e :: entries) k = fetch entries k := by simp [fetch, same]
      rw [skipped, ih nodup, List.mem_cons]
      simp [apart]

theorem keys_filter : keys (entries.filter fun e => e.1 ≠ k) =
    (keys entries).filter fun l => l ≠ k := by
  rw [keys, keys, List.filter_map]
  rfl

/-- A push keeps what it does not drop. -/
theorem fetch_push (nodup : (keys entries).Nodup) (here : k ∈ keys (push limit drop entries l w))
    (found : fetch entries k = some v) : fetch (push limit drop entries l w) k = some v := by
  unfold push at here ⊢
  split at here
  · rename_i known
    rw [if_pos known]
    exact found
  · rename_i absent
    rw [if_neg absent]
    obtain ⟨out, split⟩ := purge_split limit drop entries
    have known : k ∈ keys entries := by
      by_contra unknown
      rw [fetch_eq_none.mpr unknown] at found
      cases found
    have apart : l ≠ k := fun same => absent (same ▸ known)
    have stays : fetch (purge limit drop entries) k = some v := by
      have sub : (keys (purge limit drop entries)).Sublist (keys entries) := by
        conv_rhs => rw [split, keys_append]
        exact List.sublist_append_left _ _
      have key : k ∈ keys (purge limit drop entries) := by
        rw [keys_cons] at here
        cases here with
        | head => exact absurd rfl apart
        | tail _ here => exact here
      obtain ⟨u, here⟩ := mem_keys.mp key
      have mem : (k, u) ∈ entries := by
        rw [split]
        exact List.mem_append_left _ here
      have same : u = v :=
        Option.some.inj (((fetch_eq_some nodup).mpr mem).symm.trans found)
      exact (fetch_eq_some (nodup.sublist sub)).mpr (same ▸ here)
    simp only [fetch, List.find?_cons, apart, decide_false] at stays ⊢
    exact stays

/-- A read changes no value. -/
theorem fetch_touch : fetch (touch entries l) k = fetch entries k := by
  unfold touch
  split
  · rename_i v found
    by_cases same : l = k
    · subst same
      rw [found]
      simp [fetch]
    · simp only [fetch, List.find?_cons, same, decide_false, List.find?_filter]
      congr 2
      funext e
      by_cases here : e.1 = k
      · simp [here, Ne.symm same]
      · simp [here]
  · rfl

/-! ## Both operations keep the order -/

theorem Ordered.purge (ordered : Ordered used (keys entries)) (limit drop : Nat) :
    Ordered used (keys (purge limit drop entries)) := by
  obtain ⟨out, split⟩ := purge_split limit drop entries
  rw [split, keys_append] at ordered
  exact ordered.sublist (List.sublist_append_left _ _)

theorem Ordered.push (ordered : Ordered used (keys entries)) (limit drop : Nat)
    (absent : k ∉ keys entries) (v : ν) :
    Ordered (k :: used) (keys (push limit drop entries k v)) := by
  unfold Recency.push
  rw [if_neg absent, keys_cons]
  apply (ordered.purge limit drop).use
  obtain ⟨out, split⟩ := purge_split limit drop entries
  intro here
  apply absent
  rw [split, keys_append]
  exact List.mem_append_left _ here

theorem Ordered.touch (ordered : Ordered used (keys entries)) (found : fetch entries k = some v) :
    Ordered (k :: used) (keys (touch entries k)) := by
  unfold Recency.touch
  simp only [found, keys_cons]
  apply Ordered.use
  · rw [keys_filter]
    exact ordered.sublist List.filter_sublist
  · simp [keys]

end

end

end NetifyAgent.Recency
