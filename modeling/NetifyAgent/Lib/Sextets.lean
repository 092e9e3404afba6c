import Mathlib.Tactic

/-! Bytes written in groups of six bits. Three bytes are four groups; of one or two
bytes at the end the last group is filled up with zeros, and fillers may stand where
groups are missing. A character stands for a group by an index, which different
characters may share. -/
namespace NetifyAgent.Sextets

/-- The groups of some bytes. -/
def groups : List UInt8 → List Nat
  | a :: b :: c :: rest =>
    a.toNat / 4 :: (a.toNat % 4 * 16 + b.toNat / 16) :: (b.toNat % 16 * 4 + c.toNat / 64) ::
      c.toNat % 64 :: groups rest
  | [a, b] => [a.toNat / 4, a.toNat % 4 * 16 + b.toNat / 16, b.toNat % 16 * 4]
  | [a] => [a.toNat / 4, a.toNat % 4 * 16]
  | [] => []

/-- A text of characters that stand for the groups of some bytes, and of no more
fillers than groups are missing. -/
structure Spells {α : Type} (index : α → Nat) (filler : α) (text : List α) (bytes : List UInt8) :
    Prop where
  parts : ∃ body fillers, text = body ++ List.replicate fillers filler ∧ filler ∉ body ∧
    body.map index = groups bytes ∧ fillers ≤ (4 - body.length % 4) % 4

/-! ## Four groups as a number -/

/-- The number that shifted groups are joined to. -/
theorem join_four {i₀ i₁ i₂ i₃ : Nat} (small₁ : i₁ < 64) (small₂ : i₂ < 64) (small₃ : i₃ < 64) :
    i₀ <<< 18 ||| i₁ <<< 12 ||| i₂ <<< 6 ||| i₃ =
      i₀ * 2 ^ 18 + i₁ * 2 ^ 12 + i₂ * 2 ^ 6 + i₃ := by
  have first : i₀ <<< 18 ||| i₁ <<< 12 = (i₀ * 2 ^ 6 + i₁) <<< 12 := by
    rw [← Nat.shiftLeft_add_eq_or_of_lt (by rw [Nat.shiftLeft_eq]; omega)]
    simp only [Nat.shiftLeft_eq]
    omega
  have second : (i₀ * 2 ^ 6 + i₁) <<< 12 ||| i₂ <<< 6 =
      ((i₀ * 2 ^ 6 + i₁) * 2 ^ 6 + i₂) <<< 6 := by
    rw [← Nat.shiftLeft_add_eq_or_of_lt (by rw [Nat.shiftLeft_eq]; omega)]
    simp only [Nat.shiftLeft_eq]
    omega
  rw [first, second, ← Nat.shiftLeft_add_eq_or_of_lt (by omega), Nat.shiftLeft_eq]
  omega

/-- A byte is the eight bits that two or three groups join to. -/
theorem byte_eq {n : Nat} (b : UInt8) (same : n % 256 = b.toNat) : UInt8.ofNat n = b := by
  apply UInt8.toNat.inj
  rw [UInt8.toNat_ofNat', ← same]

/-! ## Groups of joined bytes -/

theorem length_groups (bytes : List UInt8) :
    (groups bytes).length = (4 * bytes.length + 2) / 3 := by
  induction bytes using groups.induct with
  | case1 a b c rest ih =>
    simp only [groups, List.length_cons, ih]
    omega
  | case2 a b => simp [groups]
  | case3 a => simp [groups]
  | case4 => rfl

/-- Whole blocks are written on their own. -/
theorem groups_append {blocks : List UInt8} (whole : blocks.length % 3 = 0) (rest : List UInt8) :
    groups (blocks ++ rest) = groups blocks ++ groups rest := by
  induction blocks using groups.induct with
  | case1 a b c more ih =>
    simp only [List.length_cons] at whole
    simp only [List.cons_append, groups, ih (by omega)]
  | case2 a b => cases whole
  | case3 a => cases whole
  | case4 => rfl

/-- Whole blocks, and one or two bytes behind them. -/
theorem blocks_and_rest (bytes : List UInt8) : ∃ blocks rest, bytes = blocks ++ rest ∧
    blocks.length % 3 = 0 ∧ rest.length < 3 := by
  refine ⟨bytes.take (bytes.length / 3 * 3), bytes.drop (bytes.length / 3 * 3),
    (List.take_append_drop ..).symm, ?_, ?_⟩
  · rw [List.length_take]
    omega
  · rw [List.length_drop]
    omega

end NetifyAgent.Sextets
