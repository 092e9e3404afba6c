import Mathlib.Tactic
import Mathlib.Data.Nat.Digits.Lemmas

/-! Records that begin with their length, each padded to a multiple of four bytes. A loop
over them counts down what is left; where the padding of the last one is not counted,
what is left is less than nothing, and it depends on the type it is kept in whether the
loop stops. -/
namespace NetifyAgent.Records

/-- The bytes of a memory from a position on; `none` outside. -/
def bytesAt (m : List UInt8) (pos n : Nat) : Option (List UInt8) :=
  if pos + n ≤ m.length then some ((m.drop pos).take n) else none

/-- A number in little-endian order. -/
def numberAt (m : List UInt8) (pos n : Nat) : Option Nat :=
  (bytesAt m pos n).map fun bytes => Nat.ofDigits 256 (bytes.map UInt8.toNat)

/-- Up to the next multiple of four. -/
def align (n : Nat) : Nat := (n + 3) / 4 * 4

section
variable {m more : List UInt8} {pos n : Nat}

theorem bytesAt_append {bytes : List UInt8} (inside : bytesAt m pos n = some bytes) :
    bytesAt (m ++ more) pos n = some bytes := by
  unfold bytesAt at inside ⊢
  split at inside
  · next fits =>
    rw [if_pos (by rw [List.length_append]; omega), List.drop_append_of_le_length (by omega),
      List.take_append_of_le_length (by rw [List.length_drop]; omega)]
    exact inside
  · cases inside

theorem numberAt_append {number : Nat} (inside : numberAt m pos n = some number) :
    numberAt (m ++ more) pos n = some number := by
  obtain ⟨bytes, here, rfl⟩ := Option.map_eq_some_iff.mp inside
  rw [numberAt, bytesAt_append here, Option.map_some]

/-- The first of some bytes. -/
theorem bytesAt_take {bytes : List UInt8} (inside : bytesAt m pos n = some bytes) {k : Nat}
    (fewer : k ≤ n) : bytesAt m pos k = some (bytes.take k) := by
  unfold bytesAt at inside ⊢
  split at inside
  · next fits =>
    cases inside
    rw [if_pos (by omega), List.take_take, Nat.min_eq_left fewer]
  · cases inside

theorem numberAt_lt {number : Nat} (read : numberAt m pos n = some number) : number < 256 ^ n := by
  obtain ⟨bytes, inside, rfl⟩ := Option.map_eq_some_iff.mp read
  unfold bytesAt at inside
  split at inside
  · next fits =>
    cases inside
    have length : (((m.drop pos).take n).map UInt8.toNat).length = n := by
      rw [List.length_map, List.length_take, List.length_drop]
      omega
    have below := Nat.ofDigits_lt_base_pow_length (b := 256)
      (l := ((m.drop pos).take n).map UInt8.toNat) (by decide) (by
        intro d member
        obtain ⟨b, -, rfl⟩ := List.mem_map.mp member
        exact b.toNat_lt)
    rwa [length] at below
  · cases inside

theorem numberAt_inside {number : Nat} (read : numberAt m pos n = some number) :
    pos + n ≤ m.length := by
  obtain ⟨bytes, inside, -⟩ := Option.map_eq_some_iff.mp read
  by_contra outside
  rw [bytesAt, if_neg outside] at inside
  cases inside

theorem bytesAt_outside (outside : m.length < pos + n) : bytesAt m pos n = none :=
  if_neg (by omega)

theorem le_align (n : Nat) : n ≤ align n := by
  unfold align
  omega

theorem align_eq_iff : align n = n ↔ n % 4 = 0 := by
  unfold align
  omega

end

section
variable {σ ρ α : Type} {length : Nat → Option Nat} {header : Nat} {wrap : Int → Int}
  {visit : σ → Nat → Option (Except ρ σ)} {holds : Nat → α → Prop} {size : α → Nat}
  {step : σ → α → Except ρ σ} {pos rounds : Nat} {rs : List α}

variable (length header wrap visit) in
/-- The loop, with what is left of the memory it is to cover. It is `none` where it reads
outside of the memory that there is, or needs more rounds. -/
def walk : Nat → Nat → Int → σ → Option (Except ρ σ)
  | 0, _, _, _ => none
  | rounds + 1, pos, left, s =>
    if left < header then some (.ok s)
    else
      (length pos).bind fun n =>
        if n < header ∨ left < n then some (.ok s)
        else
          (visit s pos).bind fun
            | .error r => some (.error r)
            | .ok s => walk rounds (pos + align n) (wrap (left - align n)) s

variable (holds size) in
/-- Records one behind the other. -/
def Laid : Nat → List α → Prop
  | _, [] => True
  | pos, r :: rs => holds pos r ∧ Laid (pos + align (size r)) rs

variable (size) in
/-- What records take up with their padding. -/
def total (rs : List α) : Nat := (rs.map fun r => align (size r)).sum

theorem total_cons (size : α → Nat) (r : α) (rs : List α) :
    total size (r :: rs) = align (size r) + total size rs :=
  rfl

theorem Laid.mono {holds' : Nat → α → Prop} (weaker : ∀ pos r, holds pos r → holds' pos r)
    (laid : Laid holds size pos rs) : Laid holds' size pos rs := by
  induction rs generalizing pos with
  | nil => trivial
  | cons r rs ih => exact ⟨weaker pos r laid.1, ih laid.2⟩

/-- In a memory there are no more records than bytes. -/
theorem Laid.length_le {bound : Nat} (inside : ∀ pos r, holds pos r → pos < bound)
    (positive : ∀ pos r, holds pos r → 0 < size r) (laid : Laid holds size pos rs) :
    rs = [] ∨ pos + rs.length ≤ bound := by
  induction rs generalizing pos with
  | nil => exact .inl rfl
  | cons r rs ih =>
    have here := inside pos r laid.1
    have some := positive pos r laid.1
    have fits := le_align (size r)
    rcases ih laid.2 with rfl | later
    · simp only [List.length_cons, List.length_nil]
      omega
    · simp only [List.length_cons]
      omega

/-- **A loop over padded records** visits one after the other, up to the first at which
it is left. -/
theorem walk_laid (positive : 0 < header)
    (reads : ∀ pos r, holds pos r → length pos = some (size r))
    (large : ∀ pos r, holds pos r → header ≤ size r)
    (visits : ∀ s pos r, holds pos r → visit s pos = some (step s r))
    (exact_ : ∀ n : Nat, n ≤ total size rs → wrap n = n) (laid : Laid holds size pos rs)
    (enough : rs.length < rounds) (s : σ) :
    walk length header wrap visit rounds pos (total size rs) s = some (rs.foldlM step s) := by
  induction rs generalizing pos rounds s with
  | nil =>
    obtain ⟨rounds, rfl⟩ := Nat.exists_eq_succ_of_ne_zero (Nat.ne_of_gt enough)
    have none : ((total size ([] : List α) : Nat) : Int) < header := by
      simpa [total] using positive
    rw [walk, if_pos none]
    rfl
  | cons r rs ih =>
    obtain ⟨rounds, rfl⟩ := Nat.exists_eq_succ_of_ne_zero (Nat.ne_of_gt (by omega : 0 < rounds))
    obtain ⟨here, later⟩ := laid
    have big := large pos r here
    have fits := le_align (size r)
    have sum := total_cons size r rs
    have some : ¬ ((total size (r :: rs) : Nat) : Int) < header := by omega
    have whole : ¬ (size r < header ∨ ((total size (r :: rs) : Nat) : Int) < size r) := by omega
    have rest : ((total size (r :: rs) : Nat) : Int) - align (size r) = (total size rs : Nat) := by
      omega
    rw [walk, if_neg some, reads pos r here, Option.bind_some, if_neg whole, visits s pos r here,
      Option.bind_some, List.foldlM_cons, rest, exact_ _ (by omega)]
    cases step s r with
    | error stop => rfl
    | ok s =>
      exact ih (fun n small => exact_ n (by omega)) later
        (by simp only [List.length_cons] at enough; omega) s

/-- **A loop over records** whose last one may lack its padding stays in a memory that
ends there exactly if it lacks none, where less than nothing is taken for more than a
header. -/
theorem walk_isSome_iff (positive : 0 < header)
    (reads : ∀ pos r, holds pos r → length pos = some (size r))
    (large : ∀ pos r, holds pos r → header ≤ size r) {next : σ → α → σ}
    (visits : ∀ s pos r, holds pos r → visit s pos = some (.ok (next s r))) {last : α}
    (exact_ : ∀ n : Nat, n ≤ total size rs + size last → wrap n = n)
    (negative : ∀ n : Int, -4 < n → n < 0 → (header : Int) ≤ wrap n)
    (laid : Laid holds size pos (rs ++ [last])) (enough : rs.length + 1 < rounds)
    (ends : length (pos + total size (rs ++ [last])) = none) (s : σ) :
    (walk length header wrap visit rounds pos (total size rs + size last : Nat) s).isSome ↔
      size last % 4 = 0 := by
  induction rs generalizing pos rounds s with
  | nil =>
    obtain ⟨rounds, rfl⟩ : ∃ more, rounds = more + 1 + 1 := by
      simp only [List.length_nil] at enough
      exact ⟨rounds - 2, by omega⟩
    obtain ⟨here, -⟩ := laid
    have big := large pos last here
    have fits := le_align (size last)
    have near : align (size last) < size last + 4 := by
      unfold align
      omega
    have left : (total size ([] : List α) + size last : Nat) = size last := Nat.zero_add _
    have some : ¬ ((size last : Nat) : Int) < header := by omega
    have whole : ¬ (size last < header ∨ ((size last : Nat) : Int) < size last) := by omega
    have behind : pos + total size ([] ++ [last]) = pos + align (size last) := by simp [total]
    rw [behind] at ends
    rw [left, walk, if_neg some, reads pos last here, Option.bind_some,
      if_neg whole, visits s pos last here, Option.bind_some]
    show (walk length header wrap visit (rounds + 1) (pos + align (size last))
      (wrap ((size last : Int) - align (size last))) (next s last)).isSome ↔ _
    constructor
    · intro stays
      by_contra unpadded
      have less := negative ((size last : Int) - align (size last)) (by omega) (by
        have apart := mt align_eq_iff.mp unpadded
        omega)
      rw [walk, if_neg (by omega), ends] at stays
      cases stays
    · intro padded
      have same := align_eq_iff.mpr padded
      have zero := exact_ 0 (Nat.zero_le _)
      have none : (size last : Int) - align (size last) = (0 : Nat) := by omega
      rw [walk, none, zero, if_pos (by omega)]
      rfl
  | cons r rs ih =>
    obtain ⟨rounds, rfl⟩ := Nat.exists_eq_succ_of_ne_zero (Nat.ne_of_gt (by omega : 0 < rounds))
    obtain ⟨here, later⟩ := laid
    have big := large pos r here
    have fits := le_align (size r)
    have sum := total_cons size r rs
    have sum' := total_cons size r (rs ++ [last])
    have some : ¬ ((total size (r :: rs) + size last : Nat) : Int) < header := by omega
    have whole : ¬ (size r < header ∨
        ((total size (r :: rs) + size last : Nat) : Int) < size r) := by
      omega
    have rest : ((total size (r :: rs) + size last : Nat) : Int) - align (size r) =
        (total size rs + size last : Nat) := by omega
    rw [List.cons_append] at ends
    rw [sum', ← Nat.add_assoc] at ends
    rw [walk, if_neg some, reads pos r here, Option.bind_some, if_neg whole, visits s pos r here,
      Option.bind_some, rest, exact_ _ (by omega)]
    exact ih (fun n small => exact_ n (by omega)) later
      (by simp only [List.length_cons] at enough; omega) ends (next s r)

end

end NetifyAgent.Records
