import NetifyAgent.Lib.Sextets

/-! The expressions of soft dissectors are kept in base64. `base64_decode` reads the
text that `base64_encode` writes, with or without its fillers and in the letters of
other alphabets too, and it may read the byte behind its data. -/
namespace NetifyAgent
open Sextets

namespace Base64

/-- `base64_table`, without the zero that ends it. -/
def table : List UInt8 :=
  "ABCDEFGHIJKLMNOPQRSTUVWXYZabcdefghijklmnopqrstuvwxyz0123456789+/".toList.map
    fun c => UInt8.ofNat c.toNat

/-- `base64_table[i]`. -/
def letter (i : Nat) : UInt8 := table.getD i 0

/-- `base64_index`. -/
def index : List Nat :=
  [0, 0, 0, 0, 0, 0, 0, 0, 0, 0, 0, 0, 0, 0, 0, 0, 0, 0, 0, 0, 0, 0, 0, 0, 0, 0, 0, 0, 0, 0, 0, 0,
    0, 0, 0, 0, 0, 0, 0, 0, 0, 0, 0, 62, 63, 62, 62, 63, 52, 53, 54, 55, 56, 57, 58, 59, 60, 61, 0,
    0, 0, 0, 0, 0, 0, 0, 1, 2, 3, 4, 5, 6, 7, 8, 9, 10, 11, 12, 13, 14, 15, 16, 17, 18, 19, 20, 21,
    22, 23, 24, 25, 0, 0, 0, 0, 63, 0, 26, 27, 28, 29, 30, 31, 32, 33, 34, 35, 36, 37, 38, 39, 40,
    41, 42, 43, 44, 45, 46, 47, 48, 49, 50, 51]

/-- `base64_index[c]`; what the table leaves out is zero. -/
def indexOf (c : UInt8) : Nat := index.getD c.toNat 0

/-- `'='`. -/
def filler : UInt8 := 61

/-- What the loop of `base64_encode` and the lines behind it write. -/
def written : List UInt8 → List UInt8
  | a :: b :: c :: rest =>
    letter (a.toNat >>> 2) :: letter ((a.toNat &&& 0x03) <<< 4 ||| b.toNat >>> 4) ::
      letter ((b.toNat &&& 0x0f) <<< 2 ||| c.toNat >>> 6) :: letter (c.toNat &&& 0x3f) ::
      written rest
  | [a, b] =>
    [letter (a.toNat >>> 2), letter ((a.toNat &&& 0x03) <<< 4 ||| b.toNat >>> 4),
      letter ((b.toNat &&& 0x0f) <<< 2), filler]
  | [a] => [letter (a.toNat >>> 2), letter ((a.toNat &&& 0x03) <<< 4), filler, filler]
  | [] => []

/-- `*pos++`, and one byte after the other, from the start of a string of a size;
`none` where they do not fit. -/
def fill (size : Nat) (bytes : List UInt8) : Option (List UInt8) :=
  if bytes.length ≤ size then some (bytes ++ List.replicate (size - bytes.length) 0) else none

/-- `str[j] = n`; `none` outside the string. -/
def put (str : List UInt8) (j n : Nat) : Option (List UInt8) :=
  if j < str.length then some (str.set j (UInt8.ofNat n)) else none

/-- `pad` of `base64_decode`. -/
def pad (p : List UInt8) (len : Nat) : Option Nat :=
  if len = 0 then some 0
  else if len % 4 ≠ 0 then some 1
  else p[len - 1]?.map fun c => if c = filler then 1 else 0

/-- The loop of `base64_decode`, with the blocks that are left. -/
def decodeBlocks (p : List UInt8) : Nat → Nat → Nat → List UInt8 → Option (List UInt8)
  | 0, _, _, str => some str
  | blocks + 1, i, j, str => do
    let n := indexOf (← p[i]?) <<< 18 ||| indexOf (← p[i + 1]?) <<< 12 |||
      indexOf (← p[i + 2]?) <<< 6 ||| indexOf (← p[i + 3]?)
    let str ← put str j (n >>> 16)
    let str ← put str (j + 1) (n >>> 8 &&& 0xff)
    let str ← put str (j + 2) (n &&& 0xff)
    decodeBlocks p blocks (i + 4) (j + 3) str

/-- The lines of `base64_decode` behind its loop, which has come to `l`. -/
def decodeRest (p : List UInt8) (len l : Nat) (str : List UInt8) : Option (List UInt8) := do
  let n := indexOf (← p[l]?) <<< 18 ||| indexOf (← p[l + 1]?) <<< 12
  let str ← put str (str.length - 1) (n >>> 16)
  if len > l + 2 then
    let c ← p[l + 2]?
    if c ≠ filler then
      let n := n ||| indexOf c <<< 6
      return str ++ [UInt8.ofNat (n >>> 8 &&& 0xff)]
  return str

end Base64

open Base64

/-- `base64_encode`; `none` if it wrote outside its string. -/
def base64Encode (src : List UInt8) : Option (List UInt8) :=
  let olen := 4 * ((src.length + 2) % 2 ^ 64 / 3) % 2 ^ 64
  if olen < src.length then some [] else fill olen (written src)

/-- `base64_decode` of the `len` bytes at the start of a memory; `none` if it reads or
writes outside. -/
def base64Decode (p : List UInt8) (len : Nat) : Option (List UInt8) := do
  let pad ← pad p len
  let l := ((len + 3) / 4 - pad) * 4
  let str ← decodeBlocks p (l / 4) 0 0 (List.replicate (l / 4 * 3 + pad) 0)
  if pad = 0 then return str
  decodeRest p len l str

namespace Base64

/-! ## Letters -/

theorem indexOf_letter : ∀ i < 64, indexOf (letter i) = i ∧ letter i ≠ filler := by
  decide +kernel

theorem letters_spell {is : List Nat} (small : ∀ i ∈ is, i < 64) :
    filler ∉ is.map letter ∧ (is.map letter).map indexOf = is := by
  constructor
  · intro member
    obtain ⟨i, inside, same⟩ := List.mem_map.mp member
    exact (indexOf_letter i (small i inside)).2 same
  · rw [List.map_map]
    exact (List.map_congr_left fun i inside => (indexOf_letter i (small i inside)).1).trans
      (List.map_id is)

theorem groups_small (bytes : List UInt8) : ∀ i ∈ groups bytes, i < 64 := by
  induction bytes using groups.induct with
  | case1 a b c rest ih =>
    have := a.toNat_lt
    have := b.toNat_lt
    have := c.toNat_lt
    simp only [groups, List.forall_mem_cons]
    exact ⟨by omega, by omega, by omega, by omega, ih⟩
  | case2 a b =>
    have := a.toNat_lt
    have := b.toNat_lt
    simp only [groups, List.forall_mem_cons]
    exact ⟨by omega, by omega, by omega, fun i none => by cases none⟩
  | case3 a =>
    have := a.toNat_lt
    simp only [groups, List.forall_mem_cons]
    exact ⟨by omega, by omega, fun i none => by cases none⟩
  | case4 => exact fun i none => by cases none

/-- The code's masks and shifts cut the groups. -/
theorem cuts (a b c : UInt8) : a.toNat >>> 2 = a.toNat / 4 ∧
    (a.toNat &&& 0x03) <<< 4 ||| b.toNat >>> 4 = a.toNat % 4 * 16 + b.toNat / 16 ∧
    (b.toNat &&& 0x0f) <<< 2 ||| c.toNat >>> 6 = b.toNat % 16 * 4 + c.toNat / 64 ∧
    c.toNat &&& 0x3f = c.toNat % 64 := by
  have := b.toNat_lt
  have := c.toNat_lt
  have low2 : a.toNat &&& 0x03 = a.toNat % 4 := Nat.and_two_pow_sub_one_eq_mod a.toNat 2
  have low4 : b.toNat &&& 0x0f = b.toNat % 16 := Nat.and_two_pow_sub_one_eq_mod b.toNat 4
  have low6 : c.toNat &&& 0x3f = c.toNat % 64 := Nat.and_two_pow_sub_one_eq_mod c.toNat 6
  refine ⟨Nat.shiftRight_eq_div_pow .., ?_, ?_, low6⟩
  · rw [low2, Nat.shiftRight_eq_div_pow, ← Nat.shiftLeft_add_eq_or_of_lt (by omega),
      Nat.shiftLeft_eq]
  · rw [low4, Nat.shiftRight_eq_div_pow, ← Nat.shiftLeft_add_eq_or_of_lt (by omega),
      Nat.shiftLeft_eq]

/-- What is written: a letter for each group, and fillers. -/
theorem written_eq (bytes : List UInt8) : written bytes =
    (groups bytes).map letter ++ List.replicate ((4 - (groups bytes).length % 4) % 4) filler := by
  induction bytes using groups.induct with
  | case1 a b c rest ih =>
    obtain ⟨first, second, third, last⟩ := cuts a b c
    have turn : (4 - ((groups rest).length + 4) % 4) % 4 = (4 - (groups rest).length % 4) % 4 := by
      omega
    simp only [written, groups, List.map_cons, List.length_cons, List.cons_append, first, second,
      third, last, ih]
    rw [turn]
  | case2 a b =>
    obtain ⟨first, second, third, -⟩ := cuts a b 0
    simp only [UInt8.toNat_zero, Nat.zero_shiftRight, Nat.or_zero, Nat.zero_div,
      Nat.add_zero] at third
    simp only [written, groups, first, second, third]
    rfl
  | case3 a =>
    obtain ⟨first, second, -, -⟩ := cuts a 0 0
    simp only [UInt8.toNat_zero, Nat.zero_shiftRight, Nat.or_zero, Nat.zero_div,
      Nat.add_zero] at second
    simp only [written, groups, first, second]
    rfl
  | case4 => rfl

theorem length_written (bytes : List UInt8) :
    (written bytes).length = 4 * ((bytes.length + 2) / 3) := by
  rw [written_eq, List.length_append, List.length_map, List.length_replicate, length_groups]
  omega

theorem spells_written (bytes : List UInt8) : Spells indexOf filler (written bytes) bytes := by
  obtain ⟨others, back⟩ := letters_spell (groups_small bytes)
  refine ⟨(groups bytes).map letter, (4 - (groups bytes).length % 4) % 4, written_eq bytes,
    others, back, ?_⟩
  rw [List.length_map]

/-- **Encoding** fills its string, and spells the bytes. -/
theorem encode_spells {bytes : List UInt8} (fits : 4 * ((bytes.length + 2) / 3) < 2 ^ 64) :
    base64Encode bytes = some (written bytes) := by
  have olen : 4 * ((bytes.length + 2) % 2 ^ 64 / 3) % 2 ^ 64 = 4 * ((bytes.length + 2) / 3) := by
    have short : bytes.length + 2 < 2 ^ 64 := by omega
    rw [Nat.mod_eq_of_lt short, Nat.mod_eq_of_lt fits]
  have room : ¬ 4 * ((bytes.length + 2) / 3) < bytes.length := by omega
  simp only [base64Encode, olen, if_neg room, fill, length_written, le_refl, if_true, Nat.sub_self,
    List.replicate_zero, List.append_nil]

/-! ## The loop -/

theorem put_at (done left : List UInt8) (b : UInt8) (n : Nat) :
    put (done ++ b :: left) done.length n = some (done ++ UInt8.ofNat n :: left) := by
  rw [put, if_pos (by simp), List.set_append_right _ _ (le_refl _), Nat.sub_self, List.set_cons_zero]

/-- Four characters that stand for the groups of three bytes. -/
theorem joined {c₀ c₁ c₂ c₃ : UInt8} {a b c : UInt8}
    (same : [c₀, c₁, c₂, c₃].map indexOf = groups [a, b, c]) {n : Nat}
    (joins : n = indexOf c₀ <<< 18 ||| indexOf c₁ <<< 12 ||| indexOf c₂ <<< 6 ||| indexOf c₃) :
    UInt8.ofNat (n >>> 16) = a ∧ UInt8.ofNat (n >>> 8 &&& 0xff) = b ∧
      UInt8.ofNat (n &&& 0xff) = c := by
  simp only [groups, List.map_cons, List.map_nil, List.cons.injEq, and_true] at same
  obtain ⟨first, second, third, last⟩ := same
  have := a.toNat_lt
  have := b.toNat_lt
  have := c.toNat_lt
  rw [first, second, third, last, join_four (by omega) (by omega) (by omega)] at joins
  have low (m : Nat) : m &&& 0xff = m % 256 := Nat.and_two_pow_sub_one_eq_mod m 8
  rw [low, low, Nat.shiftRight_eq_div_pow, Nat.shiftRight_eq_div_pow]
  exact ⟨byte_eq a (by omega), byte_eq b (by omega), byte_eq c (by omega)⟩

/-- One round of the loop. -/
theorem decodeBlocks_block {p pre behind done left : List UInt8} {c₀ c₁ c₂ c₃ x y z a b c : UInt8}
    (memory : p = pre ++ c₀ :: c₁ :: c₂ :: c₃ :: behind) (blocks : Nat)
    (same : [c₀, c₁, c₂, c₃].map indexOf = groups [a, b, c]) :
    decodeBlocks p (blocks + 1) pre.length done.length (done ++ x :: y :: z :: left) =
      decodeBlocks p blocks (pre.length + 4) (done.length + 3) (done ++ a :: b :: c :: left) := by
  have reads (k : Nat) : p[pre.length + k]? = (c₀ :: c₁ :: c₂ :: c₃ :: behind)[k]? := by
    rw [memory, List.getElem?_append_right (by omega), Nat.add_sub_cancel_left]
  have read := reads 0
  rw [Nat.add_zero] at read
  obtain ⟨isA, isB, isC⟩ := joined same rfl
  have second := put_at (done ++ [a]) (z :: left) y
  have third := put_at (done ++ [a, b]) left z
  simp only [List.append_assoc, List.length_append, List.length_cons, List.length_nil,
    List.cons_append, List.nil_append, Nat.zero_add] at second third
  rw [decodeBlocks]
  simp only [read, reads 1, reads 2, reads 3, List.getElem?_cons_zero, List.getElem?_cons_succ,
    Option.bind_eq_bind, Option.bind_some, put_at, isA, second, isB, third, isC]

/-- **The loop** writes the bytes that the characters spell. -/
theorem decodeBlocks_spells {p pre body behind bytes done left : List UInt8}
    (memory : p = pre ++ body ++ behind) (whole : bytes.length % 3 = 0)
    (spells : body.map indexOf = groups bytes) (room : bytes.length ≤ left.length) :
    decodeBlocks p (bytes.length / 3) pre.length done.length (done ++ left) =
      some (done ++ bytes ++ left.drop bytes.length) := by
  induction bytes using groups.induct generalizing pre body done left with
  | case1 a b c rest ih =>
    have parts := spells.trans (@groups_append [a, b, c] (Nat.mod_self 3) rest)
    obtain ⟨four, body, rfl, first, others⟩ := List.map_eq_append_iff.mp parts
    obtain ⟨c₀, c₁, c₂, c₃, rfl⟩ : ∃ c₀ c₁ c₂ c₃, four = [c₀, c₁, c₂, c₃] := by
      have length : four.length = 3 + 1 := by simpa [groups] using congrArg List.length first
      obtain ⟨c₀, four, rfl⟩ := List.exists_of_length_succ _ length
      obtain ⟨c₁, c₂, c₃, rfl⟩ := List.length_eq_three.mp (Nat.succ.inj length)
      exact ⟨c₀, c₁, c₂, c₃, rfl⟩
    obtain ⟨x, y, z, left, rfl⟩ : ∃ x y z more, left = x :: y :: z :: more := by
      rcases left with _ | ⟨x, _ | ⟨y, _ | ⟨z, more⟩⟩⟩
      · simp at room
      · simp at room
      · simp at room
      · exact ⟨x, y, z, more, rfl⟩
    simp only [List.length_cons] at room whole
    have blocks : (a :: b :: c :: rest).length / 3 = rest.length / 3 + 1 := by
      simp only [List.length_cons]
      omega
    have next := @ih (pre ++ [c₀, c₁, c₂, c₃]) body (done ++ [a, b, c]) left
      (by rw [memory]; simp) (by omega) others (by omega)
    have memory : p = pre ++ c₀ :: c₁ :: c₂ :: c₃ :: (body ++ behind) := by
      rw [memory]
      simp
    rw [blocks, decodeBlocks_block memory _ first]
    simpa using next
  | case2 a b => cases whole
  | case3 a => cases whole
  | case4 =>
    obtain rfl : body = [] := List.map_eq_nil_iff.mp spells
    simp [decodeBlocks]

/-! ## What is decoded -/

/-- Two characters behind the blocks. -/
theorem decodeRest_two {p pre behind str : List UInt8} {c₀ c₁ a : UInt8} {len : Nat}
    (memory : p = pre ++ c₀ :: c₁ :: behind) (same : [c₀, c₁].map indexOf = groups [a])
    (ends : len ≤ pre.length + 2 ∨ behind.head? = some filler) :
    decodeRest p len pre.length (str ++ [0]) = some (str ++ [a]) := by
  have reads (k : Nat) : p[pre.length + k]? = (c₀ :: c₁ :: behind)[k]? := by
    rw [memory, List.getElem?_append_right (by omega), Nat.add_sub_cancel_left]
  have read := reads 0
  rw [Nat.add_zero] at read
  simp only [groups, List.map_cons, List.map_nil, List.cons.injEq, and_true] at same
  obtain ⟨first, second⟩ := same
  have := a.toNat_lt
  have joins := @join_four (indexOf c₀) (indexOf c₁) 0 0 (by omega) (by omega) (by omega)
  have isA : UInt8.ofNat ((indexOf c₀ <<< 18 ||| indexOf c₁ <<< 12) >>> 16) = a := by
    apply byte_eq
    simp only [Nat.zero_shiftLeft, Nat.or_zero] at joins
    rw [joins, Nat.shiftRight_eq_div_pow]
    omega
  have size : (str ++ [(0 : UInt8)]).length - 1 = str.length := by simp
  simp only [decodeRest, read, reads 1, List.getElem?_cons_zero, List.getElem?_cons_succ,
    Option.bind_eq_bind, Option.bind_some, size, put_at, isA]
  split
  · rcases ends with short | filled
    · omega
    · rw [reads 2, List.getElem?_cons_succ, List.getElem?_cons_succ, ← List.head?_eq_getElem?,
        filled]
      simp
  · rfl

/-- Three characters behind the blocks. -/
theorem decodeRest_three {p pre behind str : List UInt8} {c₀ c₁ c₂ a b : UInt8} {len : Nat}
    (memory : p = pre ++ c₀ :: c₁ :: c₂ :: behind)
    (same : [c₀, c₁, c₂].map indexOf = groups [a, b]) (long : pre.length + 2 < len)
    (other : c₂ ≠ filler) :
    decodeRest p len pre.length (str ++ [0]) = some (str ++ [a, b]) := by
  have reads (k : Nat) : p[pre.length + k]? = (c₀ :: c₁ :: c₂ :: behind)[k]? := by
    rw [memory, List.getElem?_append_right (by omega), Nat.add_sub_cancel_left]
  have read := reads 0
  rw [Nat.add_zero] at read
  simp only [groups, List.map_cons, List.map_nil, List.cons.injEq, and_true] at same
  obtain ⟨first, second, third⟩ := same
  have := a.toNat_lt
  have := b.toNat_lt
  have joins := @join_four (indexOf c₀) (indexOf c₁) 0 0 (by omega) (by omega) (by omega)
  have joins' := @join_four (indexOf c₀) (indexOf c₁) (indexOf c₂) 0 (by omega) (by omega)
    (by omega)
  simp only [Nat.zero_shiftLeft, Nat.or_zero, Nat.add_zero] at joins joins'
  have low (m : Nat) : m &&& 0xff = m % 256 := Nat.and_two_pow_sub_one_eq_mod m 8
  have isA : UInt8.ofNat ((indexOf c₀ <<< 18 ||| indexOf c₁ <<< 12) >>> 16) = a := by
    apply byte_eq
    rw [joins, Nat.shiftRight_eq_div_pow]
    omega
  have isB : UInt8.ofNat ((indexOf c₀ <<< 18 ||| indexOf c₁ <<< 12 ||| indexOf c₂ <<< 6) >>> 8
      &&& 0xff) = b := by
    apply byte_eq
    rw [low, joins', Nat.shiftRight_eq_div_pow]
    omega
  have size : (str ++ [(0 : UInt8)]).length - 1 = str.length := by simp
  simp only [decodeRest, read, reads 1, reads 2, List.getElem?_cons_zero, List.getElem?_cons_succ,
    Option.bind_eq_bind, Option.bind_some, size, put_at, isA, if_pos long, other, isB, ne_eq,
    not_false_eq_true, if_true]
  simp

/-- The loop over a text that begins with whole blocks. -/
theorem decodeBlocks_text {first behind blocks : List UInt8} (pad : Nat)
    (whole : blocks.length % 3 = 0) (same : first.map indexOf = groups blocks) :
    decodeBlocks (first ++ behind) (blocks.length / 3) 0 0
      (List.replicate (blocks.length / 3 * 3 + pad) 0) = some (blocks ++ List.replicate pad 0) := by
  have length : blocks.length / 3 * 3 + pad = blocks.length + pad := by omega
  have loop := @decodeBlocks_spells (first ++ behind) [] first behind blocks []
    (List.replicate (blocks.length + pad) 0) rfl whole same (by simp)
  rw [length]
  simpa [List.drop_replicate] using loop

/-- A text that is padded, or should be. -/
theorem decode_padded {first behind blocks : List UInt8} {len : Nat}
    (whole : blocks.length % 3 = 0) (same : first.map indexOf = groups blocks)
    (more : first.length < len) (few : len ≤ first.length + 4)
    (padded : len = first.length + 4 → (first ++ behind)[len - 1]? = some filler) :
    base64Decode (first ++ behind) len =
      decodeRest (first ++ behind) len first.length (blocks ++ [0]) := by
  have firstLength := congrArg List.length same
  rw [List.length_map, length_groups] at firstLength
  have isPadded : pad (first ++ behind) len = some 1 := by
    rw [pad, if_neg (by omega)]
    split
    · rfl
    · rw [padded (by omega), Option.map_some, if_pos rfl]
  have start : ((len + 3) / 4 - 1) * 4 = first.length := by omega
  have count : first.length / 4 = blocks.length / 3 := by omega
  have loop := @decodeBlocks_text first behind blocks 1 whole same
  simp only [base64Decode, isPadded, Option.bind_eq_bind, Option.bind_some, start, count, loop,
    if_neg Nat.one_ne_zero, List.replicate_one]

/-- **Decoding** gives the bytes that a text spells. -/
theorem decode_spelled {text bytes : List UInt8} (spells : Spells indexOf filler text bytes) :
    base64Decode (text ++ [0]) text.length = some bytes := by
  obtain ⟨body, fillers, rfl, others, same, few⟩ := spells
  obtain ⟨blocks, rest, rfl, whole, short⟩ := blocks_and_rest bytes
  rw [groups_append whole] at same
  obtain ⟨first, second, rfl, firstSame, secondSame⟩ := List.map_eq_append_iff.mp same
  have firstLength := congrArg List.length firstSame
  rw [List.length_map, length_groups] at firstLength
  have blockCount : first.length = blocks.length / 3 * 4 := by omega
  match rest, short with
  | [], _ =>
    obtain rfl := List.map_eq_nil_iff.mp secondSame
    obtain rfl : fillers = 0 := by
      simp only [List.append_nil] at few
      omega
    simp only [List.append_nil, List.replicate_zero] at others ⊢
    have unpadded : pad (first ++ [0]) first.length = some 0 := by
      by_cases none : first.length = 0
      · rw [pad, if_pos none]
      · have last : (first ++ [0])[first.length - 1]? = some first[first.length - 1] := by
          rw [List.getElem?_append_left (by omega), List.getElem?_eq_getElem (by omega)]
        have other : first[first.length - 1] ≠ filler := fun is =>
          others (is ▸ List.getElem_mem (by omega))
        rw [pad, if_neg none, if_neg (by omega), last, Option.map_some, if_neg other]
    have length : ((first.length + 3) / 4 - 0) * 4 / 4 = blocks.length / 3 := by omega
    have loop := @decodeBlocks_text first [0] blocks 0 whole firstSame
    simp only [base64Decode, unpadded, Option.bind_eq_bind, Option.bind_some, length, loop, if_true]
    simp
  | [a], _ =>
    obtain ⟨c₀, c₁, rfl⟩ : ∃ c₀ c₁, second = [c₀, c₁] := by
      have length := congrArg List.length secondSame
      rw [List.length_map] at length
      match second, length with
      | [c₀, c₁], _ => exact ⟨c₀, c₁, rfl⟩
    have two : fillers ≤ 2 := by
      simp only [List.length_append, List.length_cons, List.length_nil] at few
      omega
    have memory : first ++ [c₀, c₁] ++ List.replicate fillers filler ++ [0] =
        first ++ c₀ :: c₁ :: (List.replicate fillers filler ++ [0]) := by simp
    have length : (first ++ [c₀, c₁] ++ List.replicate fillers filler).length =
        first.length + 2 + fillers := by
      simp
      omega
    rw [memory, length, decode_padded whole firstSame (by omega) (by omega) ?_]
    · refine decodeRest_two rfl secondSame ?_
      cases fillers with
      | zero => exact .inl (le_refl _)
      | succ n => exact .inr rfl
    · intro four
      obtain rfl : fillers = 2 := by omega
      rw [List.getElem?_append_right (by omega), Nat.add_assoc, Nat.add_sub_assoc (by omega),
        Nat.add_sub_cancel_left]
      rfl
  | [a, b], _ =>
    obtain ⟨c₀, c₁, c₂, rfl⟩ : ∃ c₀ c₁ c₂, second = [c₀, c₁, c₂] := by
      have length := congrArg List.length secondSame
      rw [List.length_map] at length
      match second, length with
      | [c₀, c₁, c₂], _ => exact ⟨c₀, c₁, c₂, rfl⟩
    have one : fillers ≤ 1 := by
      simp only [List.length_append, List.length_cons, List.length_nil] at few
      omega
    have other : c₂ ≠ filler := by
      rintro rfl
      exact others (by simp)
    have memory : first ++ [c₀, c₁, c₂] ++ List.replicate fillers filler ++ [0] =
        first ++ c₀ :: c₁ :: c₂ :: (List.replicate fillers filler ++ [0]) := by simp
    have length : (first ++ [c₀, c₁, c₂] ++ List.replicate fillers filler).length =
        first.length + 3 + fillers := by
      simp
      omega
    rw [memory, length, decode_padded whole firstSame (by omega) (by omega) ?_]
    · exact decodeRest_three rfl secondSame (by omega) other
    · intro four
      obtain rfl : fillers = 1 := by omega
      rw [List.getElem?_append_right (by omega), Nat.add_assoc, Nat.add_sub_assoc (by omega),
        Nat.add_sub_cancel_left]
      rfl

theorem decodeBlocks_some {p str : List UInt8} {blocks i j : Nat}
    (reads : i + 4 * blocks ≤ p.length) (writes : j + 3 * blocks ≤ str.length) :
    ∃ str', decodeBlocks p blocks i j str = some str' ∧ str'.length = str.length := by
  induction blocks generalizing i j str with
  | zero => exact ⟨str, rfl, rfl⟩
  | succ blocks ih =>
    have read (k : Nat) (inside : k < 4) : ∃ c, p[i + k]? = some c :=
      ⟨_, List.getElem?_eq_getElem (by omega)⟩
    obtain ⟨c₀, at0⟩ := read 0 (by decide)
    obtain ⟨c₁, at1⟩ := read 1 (by decide)
    obtain ⟨c₂, at2⟩ := read 2 (by decide)
    obtain ⟨c₃, at3⟩ := read 3 (by decide)
    rw [Nat.add_zero] at at0
    rw [decodeBlocks]
    simp only [at0, at1, at2, at3, Option.bind_eq_bind, Option.bind_some, put]
    rw [if_pos (by omega), Option.bind_some, if_pos (by rw [List.length_set]; omega),
      Option.bind_some, if_pos (by rw [List.length_set, List.length_set]; omega), Option.bind_some]
    obtain ⟨str', found, length⟩ := @ih (((str.set j _).set (j + 1) _).set (j + 2) _) (i + 4)
      (j + 3) (by omega) (by simp only [List.length_set]; omega)
    exact ⟨str', found, by rw [length]; simp only [List.length_set]⟩

theorem decodeRest_some {p str : List UInt8} {len l : Nat} (reads : l + 1 < p.length)
    (inside : len ≤ p.length) (writes : 0 < str.length) :
    ∃ str', decodeRest p len l str = some str' ∧ str'.length ≤ str.length + 1 := by
  have at0 : p[l]? = some p[l] := List.getElem?_eq_getElem (by omega)
  have at1 : p[l + 1]? = some p[l + 1] := List.getElem?_eq_getElem reads
  have room : str.length - 1 < str.length := by omega
  simp only [decodeRest, at0, at1, Option.bind_eq_bind, Option.bind_some, put, if_pos room]
  split
  · have at2 : p[l + 2]? = some p[l + 2] := List.getElem?_eq_getElem (by omega)
    rw [at2, Option.bind_some]
    split
    · exact ⟨_, rfl, by simp⟩
    · exact ⟨_, rfl, by simp⟩
  · exact ⟨_, rfl, by simp⟩

theorem pad_some {p : List UInt8} {len : Nat} (inside : len ≤ p.length) :
    (pad p len = some 0 ∧ len % 4 = 0) ∨ (pad p len = some 1 ∧ 0 < len) := by
  by_cases none : len = 0
  · exact .inl ⟨if_pos none, by omega⟩
  · by_cases whole : len % 4 = 0
    · have last : p[len - 1]? = some p[len - 1] := List.getElem?_eq_getElem (by omega)
      by_cases filled : p[len - 1] = filler
      · exact .inr ⟨by simp [pad, none, whole, last, filled], by omega⟩
      · exact .inl ⟨by simp [pad, none, whole, last, filled], whole⟩
    · exact .inr ⟨by simp [pad, none, whole], by omega⟩

/-- Decoding ends where the memory holds the data, and one byte more behind a single
character. -/
theorem decode_some {p : List UInt8} {len : Nat} (inside : len ≤ p.length)
    (behind : len % 4 = 1 → len < p.length) :
    ∃ str, base64Decode p len = some str ∧ str.length ≤ 3 * ((len + 3) / 4) := by
  rcases pad_some inside with ⟨unpadded, whole⟩ | ⟨padded, some⟩
  · obtain ⟨str, loop, length⟩ := @decodeBlocks_some p
      (List.replicate (((len + 3) / 4 - 0) * 4 / 4 * 3 + 0) 0) (((len + 3) / 4 - 0) * 4 / 4) 0 0
      (by omega) (by rw [List.length_replicate]; omega)
    rw [List.length_replicate] at length
    refine ⟨str, ?_, by omega⟩
    simp only [base64Decode, unpadded, Option.bind_eq_bind, Option.bind_some, loop, if_true]
    rfl
  · obtain ⟨str, loop, length⟩ := @decodeBlocks_some p
      (List.replicate (((len + 3) / 4 - 1) * 4 / 4 * 3 + 1) 0) (((len + 3) / 4 - 1) * 4 / 4) 0 0
      (by omega) (by rw [List.length_replicate]; omega)
    rw [List.length_replicate] at length
    obtain ⟨str', rest, length'⟩ := @decodeRest_some p str len (((len + 3) / 4 - 1) * 4) (by omega)
      inside (by omega)
    refine ⟨str', ?_, by omega⟩
    simp only [base64Decode, padded, Option.bind_eq_bind, Option.bind_some, loop,
      if_neg Nat.one_ne_zero, rest]

/-- **The memory of a text**: with the zero behind a C string every text is decoded
inside it, and without it those whose last block is not a single character. -/
theorem decode_reads (data : List UInt8) :
    (∃ str, base64Decode (data ++ [0]) data.length = some str ∧
      str.length ≤ 3 * ((data.length + 3) / 4)) ∧
    ((base64Decode data data.length).isSome ↔ data.length % 4 ≠ 1) := by
  refine ⟨decode_some (by simp) (by simp), fun decoded single => ?_, fun more => ?_⟩
  · have padded : pad data data.length = some 1 := by
      rw [pad, if_neg (by omega), if_pos (by omega)]
    obtain ⟨str, loop, -⟩ := @decodeBlocks_some data
      (List.replicate (((data.length + 3) / 4 - 1) * 4 / 4 * 3 + 1) 0)
      (((data.length + 3) / 4 - 1) * 4 / 4) 0 0 (by omega) (by rw [List.length_replicate]; omega)
    have stops : data[((data.length + 3) / 4 - 1) * 4 + 1]? = none :=
      List.getElem?_eq_none (by omega)
    have here : data[((data.length + 3) / 4 - 1) * 4]? =
        some data[((data.length + 3) / 4 - 1) * 4] := List.getElem?_eq_getElem (by omega)
    have never : base64Decode data data.length = none := by
      simp only [base64Decode, padded, Option.bind_eq_bind, Option.bind_some, loop,
        if_neg Nat.one_ne_zero, decodeRest, here, stops, Option.bind_none]
    rw [never] at decoded
    cases decoded
  · obtain ⟨str, decoded, -⟩ := @decode_some data data.length (le_refl _) fun single =>
      absurd single more
    rw [decoded]
    rfl

example : base64Encode [102, 111] = some [90, 109, 56, 61] := by decide

end Base64
end NetifyAgent
