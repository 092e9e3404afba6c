import Mathlib.Data.List.Basic
import Mathlib.Data.List.GetD

/-! Storage shared by the members of a C union. Every byte remembers the member
it was last written through, so that reading a member back can be compared with
how its bytes came to be. A byte is either plain data or a piece of a pointer
that an allocator returned. -/
namespace NetifyAgent.Overlay

/-- One byte of storage. -/
inductive Val where
  | byte (b : UInt8)
  /-- Byte `k` of the object representation of the pointer numbered `ptr`. -/
  | frag (ptr k : Nat)
  deriving DecidableEq, Repr

/-- A byte and the member it was last written through, if any. -/
structure Cell (μ : Type) where
  val : Val
  writer : Option μ
  deriving DecidableEq, Repr

/-- The bytes of the union, by offset. -/
abbrev Area (μ : Type) := Nat → Cell μ

variable {μ : Type}

/-- Storage that was zeroed and not written since. -/
def blank : Area μ := fun _ => ⟨.byte 0, none⟩

/-- Writes consecutive bytes through a member. -/
def store (m : μ) (off : Nat) (vals : List Val) (a : Area μ) : Area μ := fun i =>
  if off ≤ i then
    match vals[i - off]? with
    | some v => ⟨v, some m⟩
    | none => a i
  else a i

@[simp] theorem store_nil (m : μ) (off : Nat) (a : Area μ) : store m off [] a = a := by
  funext i
  simp [store]

theorem store_before {m : μ} {off i : Nat} (vals : List Val) (a : Area μ) (h : i < off) :
    store m off vals a i = a i := by
  simp [store, Nat.not_le.mpr h]

theorem store_after {m : μ} {off i : Nat} {vals : List Val} (a : Area μ)
    (h : off + vals.length ≤ i) : store m off vals a i = a i := by
  have le : off ≤ i := by omega
  have past : vals[i - off]? = none := List.getElem?_eq_none (by omega)
  simp [store, le, past]

theorem store_inside {m : μ} {off i : Nat} {vals : List Val} (a : Area μ) (lo : off ≤ i)
    (hi : i < off + vals.length) :
    store m off vals a i = ⟨vals.get ⟨i - off, by omega⟩, some m⟩ := by
  have bound : i - off < vals.length := by omega
  simp [store, lo, List.getElem?_eq_getElem bound]

/-- A byte was last written through the member that stored it last. -/
theorem store_writer (m : μ) (off i : Nat) (vals : List Val) (a : Area μ) :
    (store m off vals a i).writer =
      if off ≤ i ∧ i < off + vals.length then some m else (a i).writer := by
  by_cases lo : off ≤ i
  · by_cases hi : i < off + vals.length
    · rw [store_inside a lo hi, if_pos ⟨lo, hi⟩]
    · rw [store_after a (by omega), if_neg (by omega)]
  · rw [store_before vals a (by omega), if_neg (by omega)]

/-- Bytes written behind each other are written at once. -/
theorem store_append (m : μ) (off : Nat) (first second : List Val) (a : Area μ) :
    store m (off + first.length) second (store m off first a) = store m off (first ++ second) a := by
  funext i
  by_cases lo : off ≤ i
  · by_cases mid : i - off < first.length
    · rw [store_before second _ (by omega)]
      simp [store, lo, List.getElem?_append_left mid]
    · have rest : i - (off + first.length) = i - off - first.length := by omega
      simp only [store, lo, if_true, (by omega : off + first.length ≤ i), rest,
        List.getElem?_append_right (Nat.not_lt.mp mid),
        List.getElem?_eq_none (Nat.not_lt.mp mid)]
  · rw [store_before second _ (by omega), store_before first _ (by omega),
      store_before _ a (by omega)]

/-- Bytes below `len` were never written through a member other than `m`. -/
def Owned (m : μ) (len : Nat) (a : Area μ) : Prop :=
  ∀ i < len, (a i).writer = none ∨ (a i).writer = some m

instance [DecidableEq μ] (m : μ) (len : Nat) (a : Area μ) : Decidable (Owned m len a) :=
  inferInstanceAs (Decidable (∀ i < len, _))

theorem owned_blank (m : μ) (len : Nat) : Owned m len (blank : Area μ) :=
  fun _ _ => .inl rfl

/-- Writing through the owner keeps it the owner. -/
theorem owned_store {m : μ} {len : Nat} {a : Area μ} (owned : Owned m len a) (off : Nat)
    (vals : List Val) : Owned m len (store m off vals a) := by
  intro i hi
  rw [store_writer]
  split
  · exact .inr rfl
  · exact owned i hi

theorem Owned.mono {m : μ} {len len' : Nat} {a : Area μ} (owned : Owned m len a)
    (le : len' ≤ len) : Owned m len' a := fun i hi => owned i (by omega)

/-- A write through another member shows where it fell: below `len` nothing was
written if the area is still owned. -/
theorem store_foreign {m n : μ} {len off i : Nat} {vals : List Val} {a : Area μ} (other : n ≠ m)
    (owned : Owned m len (store n off vals a)) (hi : i < len) : store n off vals a i = a i := by
  by_cases lo : off ≤ i
  · by_cases inside : i < off + vals.length
    · have writer := owned i hi
      rw [store_writer, if_pos ⟨lo, inside⟩] at writer
      simp [other] at writer
    · exact store_after a (by omega)
  · exact store_before vals a (by omega)

/-- Bytes that were never written are still zero. -/
def Untouched (a : Area μ) : Prop := ∀ i, (a i).writer = none → a i = ⟨.byte 0, none⟩

theorem untouched_blank : Untouched (blank : Area μ) := fun _ _ => rfl

theorem untouched_store {a : Area μ} (untouched : Untouched a) (m : μ) (off : Nat)
    (vals : List Val) : Untouched (store m off vals a) := by
  intro i unwritten
  by_cases lo : off ≤ i
  · by_cases inside : i < off + vals.length
    · rw [store_inside a lo inside] at unwritten
      cases unwritten
    · rw [store_after a (by omega)] at unwritten ⊢
      exact untouched i unwritten
  · rw [store_before vals a (by omega)] at unwritten ⊢
    exact untouched i unwritten

/-- The object representation of a pointer on a machine with 8-byte pointers. -/
def pointerBytes (ptr : Nat) : List Val := (List.range 8).map (Val.frag ptr)

@[simp] theorem pointerBytes_length (ptr : Nat) : (pointerBytes ptr).length = 8 := by
  simp [pointerBytes]

/-- A pointer slot holds the null pointer: eight zero bytes. -/
def IsNull (a : Area μ) (slot : Nat) : Prop := ∀ k < 8, (a (slot + k)).val = .byte 0

instance (a : Area μ) (slot : Nat) : Decidable (IsNull a slot) :=
  inferInstanceAs (Decidable (∀ k < 8, _))

/-- A pointer slot holds the pointer `ptr`, every byte of it written through `m`. -/
def Points (m : μ) (a : Area μ) (slot ptr : Nat) : Prop :=
  ∀ k < 8, a (slot + k) = ⟨.frag ptr k, some m⟩

theorem points_store (m : μ) (a : Area μ) (slot ptr : Nat) :
    Points m (store m slot (pointerBytes ptr) a) slot ptr := by
  intro k hk
  rw [store_inside a (by omega) (by simp; omega)]
  simp [pointerBytes]

theorem Points.congr {m : μ} {a b : Area μ} {slot ptr : Nat} (points : Points m a slot ptr)
    (same : ∀ k < 8, b (slot + k) = a (slot + k)) : Points m b slot ptr := fun k hk =>
  (same k hk).trans (points k hk)

theorem IsNull.congr {a b : Area μ} {slot : Nat} (null : IsNull a slot)
    (same : ∀ k < 8, b (slot + k) = a (slot + k)) : IsNull b slot := fun k hk => by
  rw [same k hk]
  exact null k hk

/-- A slot holds one pointer. -/
theorem Points.unique {m n : μ} {a : Area μ} {slot p q : Nat} (first : Points m a slot p)
    (second : Points n a slot q) : p = q := by
  have cells := (first 0 (by omega)).symm.trans (second 0 (by omega))
  simp only [Cell.mk.injEq, Val.frag.injEq] at cells
  exact cells.1.1

/-- The eight bytes a pointer slot holds. -/
def slotBytes (a : Area μ) (slot : Nat) : List Val := (List.range 8).map fun k => (a (slot + k)).val

theorem Points.slotBytes {m : μ} {a : Area μ} {slot ptr : Nat} (points : Points m a slot ptr) :
    slotBytes a slot = pointerBytes ptr := by
  refine List.map_congr_left fun k hk => ?_
  rw [points k (by simpa using hk)]

theorem Points.not_null {m : μ} {a : Area μ} {slot ptr : Nat} (points : Points m a slot ptr) :
    ¬ IsNull a slot := by
  intro null
  have cell := null 0 (by omega)
  rw [points 0 (by omega)] at cell
  cases cell

end NetifyAgent.Overlay
