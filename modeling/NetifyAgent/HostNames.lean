import Mathlib.Data.List.DropRight
import Mathlib.Data.List.TakeWhile
import NetifyAgent.Dns

/-! Host names that are sanitised. The overload for a string keeps a name without trailing
dots, except for those in front of a NUL that it keeps as well; the one for a buffer copies
as many bytes as the string has, and relies on the buffer for the terminator. -/
namespace NetifyAgent.HostNames
open NetifyAgent.Bytes Dns

/-- `nd_set_hostname(string &dst, src, length, strict)`. -/
def setHostnameString (src : Memory) (length : Nat) (strict : Bool) : List UInt8 :=
  if strict then setHostname (slice src 0 length) length
  else setHostnameLoose (slice src 0 length)

/-- The bytes of a string in front of its first NUL. -/
def upToNul (s : List UInt8) : List UInt8 := s.takeWhile (· ≠ 0)

/-- `strncpy` from `c_str()`: the text, then zeros up to the length. -/
def strncpy (dst : Memory) (s : List UInt8) (n : Nat) : Memory := fun i =>
  if i < n then (upToNul s).getD i 0 else dst i

/-- `nd_set_hostname(char *dst, src, length, strict)`. -/
def setHostnameChars (dst src : Memory) (length : Nat) (strict : Bool) : Memory :=
  let buffer := setHostnameString src length strict
  strncpy dst buffer (min length buffer.length)

/-! ## The law -/

/-- A NUL-terminated string in memory. -/
structure IsString (m : Memory) (s : List UInt8) : Prop where
  solid : (0 : UInt8) ∉ s
  bytes : slice m 0 s.length = s
  terminated : m s.length = 0

/-- What the two modes keep. -/
def alphabet (strict : Bool) (b : UInt8) : Bool :=
  if strict then hostnameByte b && toLower b == b else printable b

/-- Both overloads yield one name, which is short, clean and stays as it is. -/
structure Sanitised (dst src : Memory) (length : Nat) (strict : Bool) : Prop where
  copied : IsString (setHostnameChars dst src length strict)
    (upToNul (setHostnameString src length strict))
  undotted : (upToNul (setHostnameString src length strict)).getLast? ≠ some 46
  short : (upToNul (setHostnameString src length strict)).length ≤ length
  clean : ∀ b ∈ upToNul (setHostnameString src length strict), alphabet strict b = true
  stable : ∀ m length', IsString m (upToNul (setHostnameString src length strict)) →
    (upToNul (setHostnameString src length strict)).length ≤ length' →
    upToNul (setHostnameString m length' strict) = upToNul (setHostnameString src length strict)

/-- The bytes of the source that are kept in one way or another. -/
def accepted (src : Memory) (length : Nat) (strict : Bool) : List UInt8 :=
  if strict then (slice src 0 length).takeWhile hostnameByte else slice src 0 length

/-- A NUL is kept behind a name without trailing dots, or the destination has one where
the kept bytes without their trailing dots end. -/
def Terminates (dst src : Memory) (length : Nat) (strict : Bool) : Prop :=
  if strict = false ∧ (0 : UInt8) ∈ slice src 0 length then
    (upToNul (slice src 0 length)).getLast? ≠ some 46
  else dst ((accepted src length strict).rdropWhile (· == 46)).length = 0

instance (dst src : Memory) (length : Nat) (strict : Bool) :
    Decidable (Terminates dst src length strict) := by
  unfold Terminates
  infer_instance

/-! ## Bytes -/

/-- What takes the place of a byte in the lenient mode. -/
def replaced (b : UInt8) : UInt8 := if printable b || b == 0 then b else 95

theorem replaced_eq {b c : UInt8} (other : c ≠ 95) (kept : (printable c || c == 0) = true) :
    replaced b = c ↔ b = c := by
  unfold replaced
  split
  · exact Iff.rfl
  · rename_i unprintable
    constructor
    · intro same
      exact absurd same.symm other
    · rintro rfl
      exact absurd kept unprintable

theorem replaced_dot (b : UInt8) : replaced b = 46 ↔ b = 46 :=
  replaced_eq (by decide) (by decide)

theorem replaced_printable {b : UInt8} (solid : b ≠ 0) : printable (replaced b) = true := by
  unfold replaced
  split
  · rename_i kept
    simpa [solid] using kept
  · decide

theorem replaced_self {b : UInt8} (kept : printable b = true) : replaced b = b := by
  unfold replaced
  rw [kept]
  rfl

theorem toLower_dot (b : UInt8) : toLower b = 46 ↔ b = 46 := by
  unfold toLower
  split
  · rename_i upper
    simp only [Bool.and_eq_true, decide_eq_true_eq, UInt8.le_iff_toNat_le] at upper
    have low := upper.1
    have high := upper.2
    constructor
    · intro same
      have := congrArg UInt8.toNat same
      rw [UInt8.toNat_add] at this
      simp at this low high
      omega
    · rintro rfl
      exact absurd low (by decide)
  · exact Iff.rfl

theorem lower_alphabet {b : UInt8} (name : hostnameByte b = true) :
    alphabet true (toLower b) = true := by
  have all : ∀ n < 256, hostnameByte (UInt8.ofNat n) = true →
      alphabet true (toLower (UInt8.ofNat n)) = true := by
    decide +kernel
  have here := all b.toNat b.toNat_lt
  rw [UInt8.ofNat_toNat] at here
  exact here name

theorem alphabet_solid {strict : Bool} {b : UInt8} (member : alphabet strict b = true) : b ≠ 0 := by
  rintro rfl
  cases strict <;> exact absurd member (by decide)

/-! ## The string -/

theorem upToNul_self {s : List UInt8} (solid : (0 : UInt8) ∉ s) : upToNul s = s := by
  refine List.takeWhile_eq_self_iff.mpr fun b member => decide_eq_true ?_
  rintro rfl
  exact solid member

theorem nul_notMem_upToNul (s : List UInt8) : (0 : UInt8) ∉ upToNul s := by
  intro member
  have solid := List.mem_takeWhile_imp member
  simp at solid

/-- The bytes in front of a terminator. -/
theorem upToNul_terminated {s : List UInt8} (solid : (0 : UInt8) ∉ s) (rest : List UInt8) :
    upToNul (s ++ 0 :: rest) = s := by
  unfold upToNul
  rw [List.takeWhile_append_of_pos]
  · simp
  · intro b member
    refine decide_eq_true ?_
    rintro rfl
    exact solid member

theorem untilZero_eq (s : List UInt8) :
    untilZero s = if (0 : UInt8) ∈ s then upToNul s ++ [0] else s := by
  induction s with
  | nil => rfl
  | cons b rest ih =>
    unfold untilZero upToNul
    by_cases nul : b = 0
    · simp [nul]
    · rw [if_neg nul, ih]
      simp only [List.mem_cons, Ne.symm nul, false_or, List.takeWhile_cons, ne_eq, nul,
        not_false_eq_true, decide_true, if_true]
      split <;> rfl

theorem rdropWhile_map {f : UInt8 → UInt8} (dots : ∀ b, f b = 46 ↔ b = 46) (s : List UInt8) :
    (s.map f).rdropWhile (· == 46) = (s.rdropWhile (· == 46)).map f := by
  have same : (fun b => b == 46) ∘ f = fun b : UInt8 => b == 46 := by
    funext b
    by_cases dot : b = 46
    · simp [dot, (dots 46).mpr rfl]
    · simp [dot, mt (dots b).mp dot]
  unfold List.rdropWhile
  rw [← List.map_reverse, List.dropWhile_map, List.map_reverse, same]

/-- What becomes of a byte. -/
def kept (strict : Bool) : UInt8 → UInt8 := if strict then toLower else replaced

theorem kept_dot (strict : Bool) (b : UInt8) : kept strict b = 46 ↔ b = 46 := by
  cases strict
  · exact replaced_dot b
  · exact toLower_dot b

section
variable {dst src m : Memory} {length : Nat} {strict : Bool}

/-- A name with no NUL behind it. -/
theorem string_plain (plain : ¬ (strict = false ∧ (0 : UInt8) ∈ slice src 0 length)) :
    setHostnameString src length strict =
      ((accepted src length strict).rdropWhile (· == 46)).map (kept strict) := by
  cases strict with
  | true =>
    show setHostname (slice src 0 length) length = _
    rw [setHostname, List.take_of_length_le (Nat.le_of_eq (slice_length ..)),
      rdropWhile_map toLower_dot]
    rfl
  | false =>
    have solid : (0 : UInt8) ∉ slice src 0 length := fun member => plain ⟨rfl, member⟩
    show setHostnameLoose (slice src 0 length) = _
    rw [setHostnameLoose, untilZero_eq, if_neg solid]
    exact rdropWhile_map replaced_dot _

/-- A name with a NUL behind it. -/
theorem string_nul (nul : (0 : UInt8) ∈ slice src 0 length) :
    setHostnameString src length false = (upToNul (slice src 0 length)).map replaced ++ [0] := by
  show setHostnameLoose (slice src 0 length) = _
  rw [setHostnameLoose, untilZero_eq, if_pos nul, List.map_append]
  exact List.rdropWhile_concat_neg _ _ _ (by decide)

/-- The bytes of the source that make the name. -/
def front (src : Memory) (length : Nat) (strict : Bool) : List UInt8 :=
  if strict = false ∧ (0 : UInt8) ∈ slice src 0 length then upToNul (slice src 0 length)
  else (accepted src length strict).rdropWhile (· == 46)

theorem front_alphabet {b : UInt8} (member : b ∈ front src length strict) :
    alphabet strict (kept strict b) = true := by
  unfold front at member
  split at member
  · rename_i nul
    obtain ⟨rfl, -⟩ := nul
    refine replaced_printable ?_
    rintro rfl
    exact nul_notMem_upToNul _ member
  · rename_i plain
    have inside : b ∈ accepted src length strict := by
      have start := List.rdropWhile_prefix (fun b => b == 46) (accepted src length strict)
      exact start.subset member
    cases strict with
    | true => exact lower_alphabet (List.mem_takeWhile_imp inside)
    | false =>
      refine replaced_printable ?_
      rintro rfl
      exact plain ⟨rfl, inside⟩

theorem front_solid : (0 : UInt8) ∉ (front src length strict).map (kept strict) := by
  intro member
  obtain ⟨b, inside, nul⟩ := List.mem_map.mp member
  exact alphabet_solid (front_alphabet inside) nul

theorem front_short : (front src length strict).length ≤ length := by
  have all := slice_length src 0 length
  unfold front
  split
  · exact ((List.takeWhile_prefix _).length_le).trans_eq all
  · have trimmed := (List.rdropWhile_prefix (fun b => b == 46) (accepted src length strict)).length_le
    refine trimmed.trans ?_
    unfold accepted
    split
    · exact ((List.takeWhile_prefix _).length_le).trans_eq all
    · exact Nat.le_of_eq all

/-- **The string** is the name, with a NUL behind it where the lenient mode meets one. -/
theorem string_eq : setHostnameString src length strict =
    (front src length strict).map (kept strict) ++
      if strict = false ∧ (0 : UInt8) ∈ slice src 0 length then [0] else [] := by
  unfold front
  split
  · rename_i nul
    obtain ⟨rfl, nul⟩ := nul
    exact string_nul nul
  · rename_i plain
    rw [List.append_nil]
    exact string_plain plain

theorem name_eq : upToNul (setHostnameString src length strict) =
    (front src length strict).map (kept strict) := by
  rw [string_eq]
  split
  · exact upToNul_terminated front_solid []
  · rw [List.append_nil]
    exact upToNul_self front_solid

/-- A name ends in a dot only in front of a NUL. -/
theorem name_undotted : (upToNul (setHostnameString src length strict)).getLast? ≠ some 46 ↔
    (strict = false ∧ (0 : UInt8) ∈ slice src 0 length →
      (upToNul (slice src 0 length)).getLast? ≠ some 46) := by
  have last (s : List UInt8) : (s.map (kept strict)).getLast? ≠ some 46 ↔ s.getLast? ≠ some 46 := by
    rw [List.getLast?_map]
    cases s.getLast? with
    | none => simp
    | some b => simp [kept_dot]
  rw [name_eq, last]
  unfold front
  split
  · rename_i nul
    exact ⟨fun undotted _ => undotted, fun undotted => undotted nul⟩
  · rename_i plain
    refine iff_of_true ?_ fun nul => absurd nul plain
    intro dotted
    have nonempty : (accepted src length strict).rdropWhile (· == 46) ≠ [] := by
      intro empty
      rw [empty] at dotted
      cases dotted
    have undotted := List.rdropWhile_last_not _ _ nonempty
    rw [List.getLast?_eq_some_getLast nonempty] at dotted
    exact undotted (beq_iff_eq.mpr (Option.some.inj dotted))

/-! ## Sanitising again -/

/-- A source that starts with a terminated string. -/
theorem slice_string {s : List UInt8} (string : IsString m s) {length' : Nat}
    (covers : s.length ≤ length') :
    slice m 0 length' = s ∨ ∃ rest, slice m 0 length' = s ++ 0 :: rest := by
  obtain ⟨more, rfl⟩ := Nat.exists_eq_add_of_le covers
  rw [slice_add, string.bytes, Nat.zero_add]
  cases more with
  | zero =>
    left
    rw [slice, List.append_nil]
  | succ more =>
    right
    refine ⟨slice m (s.length + 1) more, ?_⟩
    rw [slice, string.terminated]

/-- **A clean name without a trailing dot stays as it is.** -/
theorem name_stable {s : List UInt8} (string : IsString m s)
    (clean : ∀ b ∈ s, alphabet strict b = true) (undotted : s.getLast? ≠ some 46) {length' : Nat}
    (covers : s.length ≤ length') : upToNul (setHostnameString m length' strict) = s := by
  have same : s.map (kept strict) = s := by
    refine (List.map_congr_left fun b member => ?_).trans (List.map_id s)
    have here := clean b member
    cases strict with
    | true => exact beq_iff_eq.mp (Bool.and_eq_true_iff.mp here).2
    | false => exact replaced_self here
  have trimmed : s.rdropWhile (· == 46) = s := by
    refine List.rdropWhile_eq_self_iff.mpr fun nonempty dot => undotted ?_
    rw [List.getLast?_eq_some_getLast nonempty, beq_iff_eq.mp dot]
  rw [name_eq]
  suffices here : front m length' strict = s by rw [here, same]
  have cut := slice_string string covers
  unfold front
  cases strict with
  | true =>
    rw [if_neg (by simp)]
    have names : ∀ b ∈ s, hostnameByte b = true := fun b member =>
      (Bool.and_eq_true_iff.mp (clean b member)).1
    have whole : accepted m length' true = s := by
      show (slice m 0 length').takeWhile hostnameByte = s
      rcases cut with all | ⟨rest, all⟩
      · rw [all]
        exact List.takeWhile_eq_self_iff.mpr names
      · rw [all, List.takeWhile_append_of_pos names, List.takeWhile_cons_of_neg (by decide),
          List.append_nil]
    rw [whole, trimmed]
  | false =>
    rcases cut with all | ⟨rest, all⟩
    · rw [if_neg, accepted, if_neg (by simp), all, trimmed]
      rintro ⟨-, nul⟩
      rw [all] at nul
      exact string.solid nul
    · rw [if_pos ⟨rfl, by simp [all]⟩, all, upToNul_terminated string.solid]

/-! ## The buffer -/

theorem string_short : (setHostnameString src length strict).length ≤ length := by
  have short : (front src length strict).length ≤ length := front_short
  rw [string_eq, List.length_append, List.length_map]
  split
  · rename_i nul
    have whole : upToNul (slice src 0 length) ++ (slice src 0 length).dropWhile (· ≠ 0) =
        slice src 0 length := List.takeWhile_append_dropWhile
    have behind : (slice src 0 length).dropWhile (· ≠ 0) ≠ [] := by
      intro empty
      rw [empty, List.append_nil] at whole
      exact nul_notMem_upToNul _ (whole ▸ nul.2)
    have total := congrArg List.length whole
    have positive := List.length_pos_iff.mpr behind
    rw [List.length_append, slice_length] at total
    rw [front, if_pos nul, List.length_singleton]
    omega
  · exact short

/-- The bytes of the name are copied, and the NUL that is kept behind them. -/
theorem chars_eq (dst : Memory) (i : Nat) : setHostnameChars dst src length strict i =
    if i < (setHostnameString src length strict).length then
      ((front src length strict).map (kept strict)).getD i 0
    else dst i := by
  unfold setHostnameChars strncpy
  simp only [Nat.min_eq_right string_short, name_eq]

theorem slice_getD (s : List UInt8) : slice (fun i => s.getD i 0) 0 s.length = s := by
  induction s with
  | nil => rfl
  | cons b rest ih =>
    rw [List.length_cons, slice]
    refine congrArg₂ List.cons rfl ?_
    exact (slice_congr fun i _ => by simp [Nat.add_comm]).trans ih

/-- The name is terminated by the NUL that is kept, or by what the buffer held there. -/
theorem copied_iff : IsString (setHostnameChars dst src length strict)
      (upToNul (setHostnameString src length strict)) ↔
    (¬ (strict = false ∧ (0 : UInt8) ∈ slice src 0 length) →
      dst ((accepted src length strict).rdropWhile (· == 46)).length = 0) := by
  have inside : ((front src length strict).map (kept strict)).length ≤
      (setHostnameString src length strict).length := by
    rw [string_eq, List.length_append]
    exact Nat.le_add_right ..
  have bytes : slice (setHostnameChars dst src length strict) 0
      ((front src length strict).map (kept strict)).length =
        (front src length strict).map (kept strict) := by
    refine (slice_congr fun i below => ?_).trans (slice_getD _)
    rw [Nat.zero_add, chars_eq, if_pos (Nat.lt_of_lt_of_le below inside)]
  have stop : setHostnameChars dst src length strict
      ((front src length strict).map (kept strict)).length = 0 ↔
        (¬ (strict = false ∧ (0 : UInt8) ∈ slice src 0 length) →
          dst ((accepted src length strict).rdropWhile (· == 46)).length = 0) := by
    rw [chars_eq, string_eq, List.length_append]
    by_cases nul : strict = false ∧ (0 : UInt8) ∈ slice src 0 length
    · rw [if_pos nul, if_pos (by simp)]
      refine iff_of_true ?_ fun plain => absurd nul plain
      exact List.getD_eq_default _ _ (Nat.le_refl _)
    · rw [if_neg nul, if_neg (by simp), List.length_map, front, if_neg nul]
      exact ⟨fun zero _ => zero, fun zero => zero nul⟩
  rw [name_eq]
  constructor
  · intro string
    exact stop.mp string.terminated
  · intro zero
    exact ⟨front_solid, bytes, stop.mpr zero⟩

/-- **Sanitising** obeys the law exactly where the name is terminated and the NUL that it keeps
does not hide a dot. -/
theorem sanitised_iff (dst src : Memory) (length : Nat) (strict : Bool) :
    Sanitised dst src length strict ↔ Terminates dst src length strict := by
  have clean : ∀ b ∈ upToNul (setHostnameString src length strict), alphabet strict b = true := by
    rw [name_eq]
    intro b member
    obtain ⟨c, inside, rfl⟩ := List.mem_map.mp member
    exact front_alphabet inside
  constructor
  · intro sanitised
    unfold Terminates
    split
    · rename_i nul
      exact name_undotted.mp sanitised.undotted nul
    · rename_i plain
      exact copied_iff.mp sanitised.copied plain
  · intro terminates
    have undotted : (upToNul (setHostnameString src length strict)).getLast? ≠ some 46 := by
      refine name_undotted.mpr fun nul => ?_
      rwa [Terminates, if_pos nul] at terminates
    refine ⟨copied_iff.mpr fun plain => ?_, undotted, ?_, clean, ?_⟩
    · rwa [Terminates, if_neg plain] at terminates
    · rw [name_eq, List.length_map]
      exact front_short
    · intro m length' string covers
      exact name_stable string clean undotted covers

end

/-- A text in a buffer of zeros. -/
def source (text : String) : Memory := fun i => text.toUTF8.toList.getD i 0

/-- A buffer that held a longer name keeps its end, and a dot stays in front of a NUL. -/
theorem unterminated_dotted :
    ¬ Sanitised (source "www.example.com") (source "example.org") 11 true ∧
      ¬ Sanitised (source "") (source "printer.local.") 80 false := by
  constructor
  · intro sanitised
    exact absurd (copied_iff.mp sanitised.copied) (by decide +kernel)
  · intro sanitised
    exact absurd (name_undotted.mp sanitised.undotted) (by decide +kernel)

end NetifyAgent.HostNames
