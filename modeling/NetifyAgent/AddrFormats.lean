import NetifyAgent.NetworkTexts

/-! The texts that `ndAddr::Create` takes. The numbers in them are read by `stoul`,
which passes over white space, signs and what stands behind the digits, and are cut
to eight bits before they are compared with the width. -/
namespace NetifyAgent.AddrFormats
open NumberTexts Lines ApplicationNetworks

/-! ## Formats -/

/-- A decimal numeral and nothing else. -/
def Numeral (digits : List Char) (n : Nat) : Prop :=
  digits ≠ [] ∧ (∀ c ∈ digits, c.isDigit) ∧ Nat.ofDigitChars 10 digits 0 = n

/-- The value of two hexadecimal digits. -/
def hexOctet : List Char → Option Nat
  | [c, d] =>
    match digitValue c, digitValue d with
    | some h, some l => if h < 16 ∧ l < 16 then some (16 * h + l) else none
    | _, _ => none
  | _ => none

/-- A text in one of the formats, and the address that is written in it. -/
inductive Written (pton : Pton) : List Char → Addr → Prop
  | inet {host : List Char} {bytes : List UInt8} (plain : '/' ∉ host)
      (read : pton.inet host = some bytes) :
      Written pton host { family := .inet, sinAddr := bytes }
  | inetPrefix {host digits : List Char} {bytes : List UInt8} {n : Nat} (plain : '/' ∉ host)
      (read : pton.inet host = some bytes) (numeral : Numeral digits n) (fits : n ≤ 32) :
      Written pton (host ++ '/' :: digits) { family := .inet, sinAddr := bytes, prefixLen := n }
  | inet6 {host : List Char} {bytes : List UInt8} (plain : '/' ∉ host)
      (read : pton.inet6 host = some bytes) :
      Written pton host { family := .inet6, sin6Addr := bytes }
  | inet6Prefix {host digits : List Char} {bytes : List UInt8} {n : Nat} (plain : '/' ∉ host)
      (read : pton.inet6 host = some bytes) (numeral : Numeral digits n) (fits : n ≤ 128) :
      Written pton (host ++ '/' :: digits) { family := .inet6, sin6Addr := bytes, prefixLen := n }
  | mac {octets : List (List Char)} {values : List Nat} (six : octets.length = 6)
      (hex : octets.mapM hexOctet = some values) :
      Written pton ([':'].intercalate octets) (({} : Addr).createHw (values.map UInt8.ofNat))

/-- The formats have no text in common. -/
structure Apart (pton : Pton) : Prop where
  inet : ∀ host bytes, pton.inet host = some bytes → pton.inet6 host = none
  mac : ∀ octets values, octets.length = 6 → octets.mapM hexOctet = some values →
    pton.inet ([':'].intercalate octets) = none ∧ pton.inet6 ([':'].intercalate octets) = none

/-- `Create` succeeds exactly on the formats, with the address that is written, and
leaves a new address alone where it fails. -/
structure TakesFormats (pton : Pton) (s : List Char) : Prop where
  exact : ∀ a, Addr.createText pton {} s = (a, true) ↔ Written pton s a
  fails : (Addr.createText pton {} s).2 = false → (Addr.createText pton {} s).1.isValid = false ∧
    (Addr.createText pton {} s).1.prefixLen = 0

/-- `Create` reads a text as a hardware address. -/
def ReadAsMac (s : List Char) : Prop :=
  s.length = 17 ∧ (fields ':' 6 s).length = 6 ∧ ∀ octet ∈ fields ':' 6 s, (stoul 16 octet).isSome

/-- The numbers of a text are written in digits only, and what is no address has a
multiple of 256 behind a slash. -/
structure WellWritten (pton : Pton) (s : List Char) : Prop where
  inet : ∀ host digits n, s = host ++ '/' :: digits → '/' ∉ host → stoul 10 digits = some n →
    (pton.inet host).isSome → Numeral digits n ∧ n ≤ 32
  inet6 : ∀ host digits n, s = host ++ '/' :: digits → '/' ∉ host → stoul 10 digits = some n →
    (pton.inet6 host).isSome → Numeral digits n ∧ n ≤ 128
  other : ∀ host digits n, s = host ++ '/' :: digits → '/' ∉ host → stoul 10 digits = some n →
    pton.inet host = none → pton.inet6 host = none → n % 256 = 0 ∧ ¬ ReadAsMac s
  mac : '/' ∉ s → pton.inet s = none → pton.inet6 s = none → ReadAsMac s →
    ∀ octet ∈ fields ':' 6 s, (hexOctet octet).isSome

/-! ## Numerals -/

section
variable {digits : List Char} {n : Nat}

/-- A digit of any base is no space, sign or separator. -/
theorem plain_of_digitValue {c : Char} {d : Nat} (value : digitValue c = some d) :
    isSpace c = false ∧ c ∉ "-+:/".toList := by
  have least : '0' ≤ c := by
    unfold digitValue at value
    split at value
    case isTrue digit => exact digit.1
    case isFalse =>
      split at value
      case isTrue lower => exact Char.le_trans (by decide) lower.1
      case isFalse =>
        split at value
        case isTrue upper => exact Char.le_trans (by decide) upper.1
        case isFalse => cases value
  constructor
  · unfold isSpace
    rw [Bool.or_eq_false_iff, beq_eq_false_iff_ne, Bool.and_eq_false_iff]
    refine ⟨?_, .inr (decide_eq_false fun most => absurd (Char.le_trans least most) (by decide))⟩
    rintro rfl
    exact absurd least (by decide)
  · intro member
    have none : ∀ c ∈ "-+:/".toList, digitValue c = none := by
      simp
      decide
    rw [none c member] at value
    cases value

theorem digitValue_isDigit {c : Char} (digit : c.isDigit) :
    digitValue c = some (c.toNat - '0'.toNat) := by
  unfold Char.isDigit at digit
  simp only [Bool.and_eq_true, decide_eq_true_eq] at digit
  unfold digitValue
  rw [if_pos]
  exact digit

theorem leadingDigits_isDigit (all : ∀ c ∈ digits, c.isDigit) :
    leadingDigits 10 digits = digits.map fun c => c.toNat - '0'.toNat := by
  induction digits with
  | nil => rfl
  | cons c digits ih =>
    have digit := all c (List.mem_cons_self ..)
    have small : c.toNat - '0'.toNat < 10 := by
      unfold Char.isDigit at digit
      simp only [Bool.and_eq_true, decide_eq_true_eq] at digit
      have most : c.toNat ≤ 57 := digit.2
      have zero : '0'.toNat = 48 := rfl
      omega
    rw [leadingDigits, digitValue_isDigit digit, List.map_cons,
      ← ih fun other member => all other (List.mem_cons_of_mem _ member)]
    simp only [if_pos small]

theorem ofDigits_reverse (ds : List Nat) (init : Nat) :
    10 ^ ds.length * init + Nat.ofDigits 10 ds.reverse = ds.foldl (fun n d => 10 * n + d) init := by
  induction ds generalizing init with
  | nil => simp
  | cons d ds ih =>
    rw [List.foldl_cons, ← ih, List.reverse_cons, Nat.ofDigits_append, List.length_reverse,
      List.length_cons, Nat.ofDigits_singleton, Nat.pow_succ]
    ring

/-- A numeral is read as it is written. -/
theorem stoul_numeral (numeral : Numeral digits n) (small : n < 2 ^ 64) :
    stoul 10 digits = some n := by
  obtain ⟨nonempty, all, value⟩ := numeral
  obtain ⟨c, rest, rfl⟩ := List.exists_cons_of_ne_nil nonempty
  obtain ⟨visible, plain⟩ := plain_of_digitValue (digitValue_isDigit (all c (List.mem_cons_self ..)))
  have minus : ¬ some c = some '-' := by
    rintro ⟨⟩
    simp at plain
  have plus : ¬ some c = some '+' := by
    rintro ⟨⟩
    simp at plain
  have number : Nat.ofDigits 10 (leadingDigits 10 (c :: rest)).reverse = n := by
    have folded := ofDigits_reverse ((c :: rest).map fun c => c.toNat - '0'.toNat) 0
    rw [Nat.mul_zero, Nat.zero_add, List.foldl_map] at folded
    rw [leadingDigits_isDigit all, folded, ← value, Nat.ofDigitChars]
  have present : leadingDigits 10 (c :: rest) ≠ [] := by
    rw [leadingDigits_isDigit all, List.map_cons]
    exact List.cons_ne_nil _ _
  have start : (c :: rest).dropWhile isSpace = c :: rest :=
    List.dropWhile_cons_of_neg (by simp [visible])
  have base : ¬ (10 : Nat) = 16 := by decide
  simp only [stoul, start, List.head?_cons, minus, plus, base, false_and, or_self, if_false, number,
    present, false_or, if_neg (Nat.not_le.mpr small)]

end

/-! ## Octets -/

theorem hexOctet_cases {octet : List Char} {value : Nat} (hex : hexOctet octet = some value) :
    ∃ c d h l, octet = [c, d] ∧ digitValue c = some h ∧ digitValue d = some l ∧ h < 16 ∧ l < 16 ∧
      value = 16 * h + l := by
  unfold hexOctet at hex
  split at hex
  case h_1 c d =>
    split at hex
    case h_1 h l first second =>
      split at hex
      case isTrue small =>
        exact ⟨c, d, h, l, rfl, first, second, small.1, small.2, (Option.some.inj hex).symm⟩
      case isFalse => cases hex
    case h_2 => cases hex
  case h_2 => cases hex

/-- What two hexadecimal digits are to `Create`. -/
theorem hexOctet_read {octet : List Char} {value : Nat} (hex : hexOctet octet = some value) :
    stoul 16 octet = some value ∧ octet.length = 2 ∧ ':' ∉ octet ∧ '/' ∉ octet := by
  obtain ⟨c, d, h, l, rfl, first, second, high, low, rfl⟩ := hexOctet_cases hex
  obtain ⟨visible, plain⟩ := plain_of_digitValue first
  obtain ⟨-, plain'⟩ := plain_of_digitValue second
  have minus : ¬ some c = some '-' := by
    rintro ⟨⟩
    simp at plain
  have plus : ¬ some c = some '+' := by
    rintro ⟨⟩
    simp at plain
  have start : [c, d].dropWhile isSpace = [c, d] := List.dropWhile_cons_of_neg (by simp [visible])
  have noHex : ¬ (True ∧ some c = some '0' ∧ ([c, d][1]? = some 'x' ∨ [c, d][1]? = some 'X') ∧
      leadingDigits 16 ([c, d].drop 2) ≠ []) := by
    rintro ⟨-, -, -, digits⟩
    exact digits rfl
  have digits : leadingDigits 16 [c, d] = [h, l] := by
    simp only [leadingDigits, first, second, if_pos high, if_pos low]
  have number : Nat.ofDigits 16 [h, l].reverse = 16 * h + l := by
    rw [List.reverse_cons, List.reverse_singleton, List.singleton_append, Nat.ofDigits_cons,
      Nat.ofDigits_singleton]
    omega
  refine ⟨?_, rfl, ?_, ?_⟩
  · simp only [stoul, start, List.head?_cons, minus, plus, or_self, if_false, noHex, digits, number,
      if_neg (show ¬ ([h, l] = [] ∨ 2 ^ 64 ≤ 16 * h + l) by simp; omega)]
  · intro member
    rcases List.mem_pair.mp member with rfl | rfl
    · simp at plain
    · simp at plain'
  · intro member
    rcases List.mem_pair.mp member with rfl | rfl
    · simp at plain
    · simp at plain'

section
variable {separator : Char}

/-- As many fields as were joined are those that were joined. -/
theorem fields_intercalate {texts : List (List Char)} (some : texts ≠ [])
    (free : ∀ text ∈ texts, separator ∉ text) :
    fields separator texts.length ([separator].intercalate texts) = texts := by
  induction texts with
  | nil => exact absurd rfl some
  | cons text texts ih =>
    have all (c : Char) (member : c ∈ text) : decide (c ≠ separator) = true :=
      decide_eq_true fun same => free text (List.mem_cons_self ..) (same ▸ member)
    cases texts with
    | nil =>
      rw [List.intercalate_singleton, List.length_singleton, fields,
        List.takeWhile_eq_self_iff.mpr all,
        List.dropWhile_eq_nil_iff.mpr all]
    | cons next texts =>
      have later := ih (List.cons_ne_nil _ _) fun other member =>
        free other (List.mem_cons_of_mem _ member)
      rw [intercalate_cons, List.length_cons, fields, List.takeWhile_append_of_pos all,
        List.dropWhile_append_of_pos all, List.takeWhile_cons_of_neg (by simp),
        List.dropWhile_cons_of_neg (by simp), List.append_nil]
      simp only [later]

/-- The fields of a text are joined in front of what is left of it. -/
theorem intercalate_fields (n : Nat) (text : List Char) :
    [separator].intercalate (fields separator (n + 1) text) <+: text := by
  induction n generalizing text with
  | zero =>
    have first : fields separator 1 text = [text.takeWhile (· ≠ separator)] := by
      rw [fields]
      split <;> rfl
    rw [first, List.intercalate_singleton]
    exact List.takeWhile_prefix _
  | succ n ih =>
    have parts := List.takeWhile_append_dropWhile (p := (· ≠ separator)) (l := text)
    rw [fields]
    split
    case h_1 =>
      rw [List.intercalate_singleton]
      exact List.takeWhile_prefix _
    case h_2 c rest dropped =>
      obtain rfl : c = separator := by
        have head := List.head?_dropWhile_not (· ≠ separator) text
        rw [dropped] at head
        simpa using head
      obtain ⟨left, whole⟩ := ih rest
      rw [dropped] at parts
      have more : fields c (n + 1) rest ≠ [] := by
        rw [fields]
        exact List.cons_ne_nil _ _
      obtain ⟨next, others, same⟩ := List.exists_cons_of_ne_nil more
      rw [same] at whole ⊢
      rw [intercalate_cons]
      refine ⟨left, ?_⟩
      rw [List.append_assoc, List.cons_append, whole]
      exact parts

theorem length_intercalate {n : Nat} {texts : List (List Char)} (some : texts ≠ [])
    (each : ∀ text ∈ texts, text.length = n) :
    ([separator].intercalate texts).length = (n + 1) * texts.length - 1 := by
  induction texts with
  | nil => exact absurd rfl some
  | cons text texts ih =>
    have here := each text (List.mem_cons_self ..)
    cases texts with
    | nil =>
      rw [List.intercalate_singleton, here, List.length_singleton, Nat.mul_one,
        Nat.add_sub_cancel]
    | cons next texts =>
      have later := ih (List.cons_ne_nil _ _) fun other member =>
        each other (List.mem_cons_of_mem _ member)
      rw [intercalate_cons, List.length_append, List.length_cons, later, here]
      have split := Nat.mul_add (n + 1) (next :: texts).length 1
      have positive : 0 < (n + 1) * (next :: texts).length := by
        rw [List.length_cons]
        positivity
      rw [@List.length_cons _ text, split]
      omega

end

/-- Six octets between colons. -/
theorem readAsMac_hex {octets : List (List Char)} (six : octets.length = 6)
    (hex : ∀ octet ∈ octets, (hexOctet octet).isSome) :
    ReadAsMac ([':'].intercalate octets) ∧ fields ':' 6 ([':'].intercalate octets) = octets ∧
      '/' ∉ [':'].intercalate octets := by
  have read (octet : List Char) (member : octet ∈ octets) : (stoul 16 octet).isSome ∧
      octet.length = 2 ∧ ':' ∉ octet ∧ '/' ∉ octet := by
    obtain ⟨value, same⟩ := Option.isSome_iff_exists.mp (hex octet member)
    obtain ⟨number, length, colon, slash⟩ := hexOctet_read same
    exact ⟨by rw [number]; rfl, length, colon, slash⟩
  have some : octets ≠ [] := by
    rintro rfl
    cases six
  have back := fields_intercalate some fun octet member => (read octet member).2.2.1
  have length := @length_intercalate ':' 2 octets some fun octet member => (read octet member).2.1
  rw [six] at back length
  refine ⟨⟨length, by rw [back, six], ?_⟩, back, ?_⟩
  · rw [back]
    exact fun octet member => (read octet member).1
  · intro slash
    rcases mem_intercalate slash with same | ⟨octet, member, inside⟩
    · cases same
    · exact (read octet member).2.2.2 inside

/-- A text of 17 characters whose six fields are octets is made of them. -/
theorem intercalate_of_readAsMac {s : List Char} (read : ReadAsMac s)
    (hex : ∀ octet ∈ fields ':' 6 s, (hexOctet octet).isSome) :
    [':'].intercalate (fields ':' 6 s) = s := by
  obtain ⟨size, six, -⟩ := read
  have some : fields ':' 6 s ≠ [] := by
    intro none
    rw [none] at six
    cases six
  have length := @length_intercalate ':' 2 (fields ':' 6 s) some fun octet member => by
    obtain ⟨value, same⟩ := Option.isSome_iff_exists.mp (hex octet member)
    exact (hexOctet_read same).2.1
  rw [six] at length
  exact (intercalate_fields 5 s).eq_of_length (by rw [length, size])

theorem mapM_isSome {α β : Type} {f : α → Option β} {l : List α} :
    (l.mapM f).isSome ↔ ∀ a ∈ l, (f a).isSome := by
  induction l with
  | nil => simp
  | cons a l ih =>
    rw [List.mapM_cons, List.forall_mem_cons, ← ih]
    cases f a with
    | none => simp
    | some b =>
      cases l.mapM f with
      | none => simp
      | some bs => simp

/-- Octets are read as they are written. -/
theorem mapM_hexOctet {octets : List (List Char)} {values : List Nat}
    (hex : octets.mapM hexOctet = some values) : octets.mapM (stoul 16) = some values := by
  induction octets generalizing values with
  | nil => exact hex
  | cons octet octets ih =>
    rw [List.mapM_cons] at hex ⊢
    obtain ⟨value, first, hex⟩ := Option.bind_eq_some_iff.mp hex
    obtain ⟨rest, others, hex⟩ := Option.bind_eq_some_iff.mp hex
    rw [(hexOctet_read first).1, ih others]
    exact hex

/-! ## What is written -/

section
variable {pton : Pton} {s host digits : List Char} {a : Addr}

theorem cut_unique {host' digits' : List Char} (plain : '/' ∉ host) (plain' : '/' ∉ host')
    (same : host ++ '/' :: digits = host' ++ '/' :: digits') : host = host' ∧ digits = digits' := by
  have first := cutFirst_append plain digits
  rw [same, cutFirst_append plain' digits'] at first
  obtain ⟨rfl, rfl⟩ := Prod.mk.inj (Option.some.inj first)
  exact ⟨rfl, rfl⟩

/-- What is written without a slash. -/
theorem written_plain (plain : '/' ∉ s) : Written pton s a ↔
    (∃ bytes, pton.inet s = some bytes ∧ a = { family := .inet, sinAddr := bytes }) ∨
      (∃ bytes, pton.inet6 s = some bytes ∧ a = { family := .inet6, sin6Addr := bytes }) ∨
      ∃ octets values, octets.length = 6 ∧ octets.mapM hexOctet = some values ∧
        s = [':'].intercalate octets ∧ a = ({} : Addr).createHw (values.map UInt8.ofNat) := by
  constructor
  · intro written
    cases written with
    | inet _ read => exact .inl ⟨_, read, rfl⟩
    | inetPrefix => simp at plain
    | inet6 _ read => exact .inr (.inl ⟨_, read, rfl⟩)
    | inet6Prefix => simp at plain
    | mac six hex => exact .inr (.inr ⟨_, _, six, hex, rfl, rfl⟩)
  · rintro (⟨bytes, read, rfl⟩ | ⟨bytes, read, rfl⟩ | ⟨octets, values, six, hex, rfl, rfl⟩)
    · exact .inet plain read
    · exact .inet6 plain read
    · exact .mac six hex

/-- What is written with a slash. -/
theorem written_slash (plain : '/' ∉ host) : Written pton (host ++ '/' :: digits) a ↔
    (∃ bytes n, pton.inet host = some bytes ∧ Numeral digits n ∧ n ≤ 32 ∧
        a = { family := .inet, sinAddr := bytes, prefixLen := n }) ∨
      ∃ bytes n, pton.inet6 host = some bytes ∧ Numeral digits n ∧ n ≤ 128 ∧
        a = { family := .inet6, sin6Addr := bytes, prefixLen := n } := by
  constructor
  · generalize whole : host ++ '/' :: digits = s
    intro written
    have slash : '/' ∈ s := by
      rw [← whole]
      simp
    cases written with
    | inet free => exact absurd slash free
    | inetPrefix free read numeral fits =>
      obtain ⟨rfl, rfl⟩ := cut_unique plain free whole
      exact .inl ⟨_, _, read, numeral, fits, rfl⟩
    | inet6 free => exact absurd slash free
    | inet6Prefix free read numeral fits =>
      obtain ⟨rfl, rfl⟩ := cut_unique plain free whole
      exact .inr ⟨_, _, read, numeral, fits, rfl⟩
    | mac six hex =>
      have all := mapM_isSome.mp (Option.isSome_iff_exists.mpr ⟨_, hex⟩)
      exact absurd slash (readAsMac_hex six all).2.2
  · rintro (⟨bytes, n, read, numeral, fits, rfl⟩ | ⟨bytes, n, read, numeral, fits, rfl⟩)
    · exact .inetPrefix plain read numeral fits
    · exact .inet6Prefix plain read numeral fits

/-! ## What is read -/

/-- What `Create` makes of a host and the prefix length that it has read. -/
theorem create_inet {prefixLen : Nat} {bytes : List UInt8}
    (length : suffixLength (s.dropWhile (· ≠ '/')) = some prefixLen)
    (read : pton.inet (s.takeWhile (· ≠ '/')) = some bytes) : Addr.createText pton {} s =
      if 32 < prefixLen then ({ sinAddr := bytes, prefixLen }, false)
      else ({ family := .inet, sinAddr := bytes, prefixLen }, true) := by
  have same : (if s.dropWhile (· ≠ '/') = [] then some ({} : Addr).prefixLen
      else (stoul 10 (s.dropWhile (· ≠ '/')).tail).map (· % 256)) = some prefixLen := length
  unfold Addr.createText
  simp only [same, read]

theorem create_inet6 {prefixLen : Nat} {bytes : List UInt8}
    (length : suffixLength (s.dropWhile (· ≠ '/')) = some prefixLen)
    (other : pton.inet (s.takeWhile (· ≠ '/')) = none)
    (read : pton.inet6 (s.takeWhile (· ≠ '/')) = some bytes) : Addr.createText pton {} s =
      if 128 < prefixLen then ({ sin6Addr := bytes, prefixLen }, false)
      else ({ family := .inet6, sin6Addr := bytes, prefixLen }, true) := by
  have same : (if s.dropWhile (· ≠ '/') = [] then some ({} : Addr).prefixLen
      else (stoul 10 (s.dropWhile (· ≠ '/')).tail).map (· % 256)) = some prefixLen := length
  unfold Addr.createText
  simp only [same, other, read]

/-- What is no IP address may be a hardware address. -/
theorem create_other {prefixLen : Nat}
    (length : suffixLength (s.dropWhile (· ≠ '/')) = some prefixLen)
    (other : pton.inet (s.takeWhile (· ≠ '/')) = none)
    (other6 : pton.inet6 (s.takeWhile (· ≠ '/')) = none) :
    (ReadAsMac s → ∃ hwAddr, (fields ':' 6 s).mapM (stoul 16) = some hwAddr ∧
      Addr.createText pton {} s =
        (({ prefixLen } : Addr).createHw (hwAddr.map UInt8.ofNat), true)) ∧
    (¬ ReadAsMac s → Addr.createText pton {} s = ({ prefixLen }, false)) := by
  have same : (if s.dropWhile (· ≠ '/') = [] then some ({} : Addr).prefixLen
      else (stoul 10 (s.dropWhile (· ≠ '/')).tail).map (· % 256)) = some prefixLen := length
  unfold Addr.createText
  simp only [same, other, other6]
  constructor
  · rintro ⟨size, six, read⟩
    obtain ⟨hwAddr, octets⟩ := Option.isSome_iff_exists.mp (mapM_isSome.mpr read)
    simp only [octets, if_pos (And.intro size six)]
    exact ⟨hwAddr, rfl, rfl⟩
  · intro unread
    cases octets : (fields ':' 6 s).mapM (stoul 16) with
    | none => rfl
    | some hwAddr =>
      have read := mapM_isSome.mp (Option.isSome_iff_exists.mpr ⟨hwAddr, octets⟩)
      simp only
      rw [if_neg]
      rintro ⟨size, six⟩
      exact unread ⟨size, six, read⟩

/-- Without a number behind the slash nothing is written. -/
theorem create_unnumbered (length : suffixLength (s.dropWhile (· ≠ '/')) = none) :
    Addr.createText pton {} s = ({}, false) := by
  have same : (if s.dropWhile (· ≠ '/') = [] then some ({} : Addr).prefixLen
      else (stoul 10 (s.dropWhile (· ≠ '/')).tail).map (· % 256)) = none := length
  unfold Addr.createText
  simp only [same]

/-! ## Both -/

theorem suffixLength_digits (digits : List Char) :
    suffixLength ('/' :: digits) = (stoul 10 digits).map (· % 256) := by
  unfold suffixLength
  rw [if_neg (by simp), List.tail_cons]

/-- Without a slash only the octets of a hardware address may be misread. -/
theorem takes_plain_iff (apart : Apart pton) (plain : '/' ∉ s) : TakesFormats pton s ↔
    (pton.inet s = none → pton.inet6 s = none → ReadAsMac s →
      ∀ octet ∈ fields ':' 6 s, (hexOctet octet).isSome) := by
  obtain ⟨whole, gone⟩ := cut_host plain
  have length : suffixLength (s.dropWhile (· ≠ '/')) = some 0 := by
    rw [gone]
    rfl
  have noMac {octets : List (List Char)} {values : List Nat} (six : octets.length = 6)
      (hex : octets.mapM hexOctet = some values) (same : s = [':'].intercalate octets) :
      pton.inet s = none ∧ pton.inet6 s = none := by
    rw [same]
    exact apart.mac octets values six hex
  cases read : pton.inet s with
  | some bytes =>
    have made := @create_inet pton s 0 bytes length (by rw [whole, read])
    rw [if_neg (by decide)] at made
    refine iff_of_true ⟨fun a => ?_, fun failed => ?_⟩ fun none => by cases none
    · rw [made, written_plain plain]
      constructor
      · rintro ⟨⟩
        exact .inl ⟨bytes, read, rfl⟩
      · rintro (⟨bytes', read', rfl⟩ | ⟨bytes', read', -⟩ | ⟨octets, values, six, hex, same, -⟩)
        · rw [read] at read'
          cases read'
          rfl
        · rw [apart.inet s bytes read] at read'
          cases read'
        · rw [(noMac six hex same).1] at read
          cases read
    · rw [made] at failed
      cases failed
  | none =>
    cases read6 : pton.inet6 s with
    | some bytes =>
      have made := @create_inet6 pton s 0 bytes length (by rw [whole, read]) (by rw [whole, read6])
      rw [if_neg (by decide)] at made
      refine iff_of_true ⟨fun a => ?_, fun failed => ?_⟩ fun _ none => by cases none
      · rw [made, written_plain plain]
        constructor
        · rintro ⟨⟩
          exact .inr (.inl ⟨bytes, read6, rfl⟩)
        · rintro (⟨bytes', read', -⟩ | ⟨bytes', read', rfl⟩ | ⟨octets, values, six, hex, same, -⟩)
          · rw [read] at read'
            cases read'
          · rw [read6] at read'
            cases read'
            rfl
          · rw [(noMac six hex same).2] at read6
            cases read6
      · rw [made] at failed
        cases failed
    | none =>
      obtain ⟨mac, other⟩ := @create_other pton s 0 length (by rw [whole, read])
        (by rw [whole, read6])
      have only (a : Addr) : Written pton s a ↔ ∃ octets values, octets.length = 6 ∧
          octets.mapM hexOctet = some values ∧ s = [':'].intercalate octets ∧
            a = ({} : Addr).createHw (values.map UInt8.ofNat) := by
        rw [written_plain plain, read, read6]
        simp
      by_cases macs : ReadAsMac s
      · obtain ⟨hwAddr, octets, made⟩ := mac macs
        constructor
        · intro takes _ _ _ octet member
          obtain ⟨octets', values, six, hex, same, -⟩ :=
            (only _).mp ((takes.exact _).mp made)
          have all := mapM_isSome.mp (Option.isSome_iff_exists.mpr ⟨_, hex⟩)
          rw [same, (readAsMac_hex six all).2.1] at member
          exact all octet member
        · intro hex
          have all := hex rfl rfl macs
          obtain ⟨values, valued⟩ := Option.isSome_iff_exists.mp (mapM_isSome.mpr all)
          have same : values = hwAddr := by
            have read := mapM_hexOctet valued
            rw [octets] at read
            exact (Option.some.inj read).symm
          subst same
          refine ⟨fun a => ?_, fun failed => ?_⟩
          · rw [made, only]
            constructor
            · rintro ⟨⟩
              exact ⟨_, values, macs.2.1, valued, (intercalate_of_readAsMac macs all).symm, rfl⟩
            · rintro ⟨octets', values', six, hex', same, rfl⟩
              have all' := mapM_isSome.mp (Option.isSome_iff_exists.mpr ⟨_, hex'⟩)
              rw [same, (readAsMac_hex six all').2.1, hex'] at valued
              cases valued
              rfl
          · rw [made] at failed
            cases failed
      · refine iff_of_true ⟨fun a => ?_, fun _ => ?_⟩ fun _ _ read => absurd read macs
        · rw [other macs, only]
          refine iff_of_false (by rintro ⟨⟩) ?_
          rintro ⟨octets, values, six, hex, rfl, -⟩
          have all := mapM_isSome.mp (Option.isSome_iff_exists.mpr ⟨_, hex⟩)
          exact macs (readAsMac_hex six all).1
        · rw [other macs]
          exact ⟨rfl, rfl⟩

/-- Behind a slash a number is taken by itself. -/
theorem numeral_unique {n m : Nat} (numeral : Numeral digits n) (fits : n ≤ 128)
    (number : stoul 10 digits = some m) : n = m := by
  rw [stoul_numeral numeral (by omega)] at number
  exact Option.some.inj number

/-- With a slash the number must be written in digits only. -/
theorem takes_slash_iff (apart : Apart pton) (plain : '/' ∉ host) :
    TakesFormats pton (host ++ '/' :: digits) ↔ ∀ n, stoul 10 digits = some n →
      ((pton.inet host).isSome → Numeral digits n ∧ n ≤ 32) ∧
      ((pton.inet6 host).isSome → Numeral digits n ∧ n ≤ 128) ∧
      (pton.inet host = none → pton.inet6 host = none →
        n % 256 = 0 ∧ ¬ ReadAsMac (host ++ '/' :: digits)) := by
  obtain ⟨front, behind⟩ := cut_slash digits plain
  cases number : stoul 10 digits with
  | none =>
    have made := @create_unnumbered pton (host ++ '/' :: digits)
      (by rw [behind, suffixLength_digits, number]; rfl)
    refine iff_of_true ⟨fun a => ?_, fun _ => by rw [made]; exact ⟨rfl, rfl⟩⟩
      fun n none => by cases none
    rw [made, written_slash plain]
    refine iff_of_false (by rintro ⟨⟩) ?_
    rintro (⟨bytes, n, -, numeral, fits, -⟩ | ⟨bytes, n, -, numeral, fits, -⟩)
    · rw [stoul_numeral numeral (by omega)] at number
      cases number
    · rw [stoul_numeral numeral (by omega)] at number
      cases number
  | some m =>
    have length : suffixLength ((host ++ '/' :: digits).dropWhile (· ≠ '/')) = some (m % 256) := by
      rw [behind, suffixLength_digits, number]
      rfl
    have one {P : Nat → Prop} : (∀ n, some m = some n → P n) ↔ P m := by
      constructor
      · intro all
        exact all m rfl
      · rintro here n ⟨⟩
        exact here
    rw [one]
    cases read : pton.inet host with
    | some bytes =>
      have read6 := apart.inet host bytes read
      have made := @create_inet pton (host ++ '/' :: digits) (m % 256) bytes length
        (by rw [front, read])
      rw [read6]
      simp only [Option.isSome_some, forall_const, Option.isSome_none, Bool.false_eq_true,
        false_implies, reduceCtorEq, and_true]
      constructor
      · intro takes
        by_cases wide : 32 < m % 256
        · rw [if_pos wide] at made
          have kept := (takes.fails (by rw [made])).2
          rw [made] at kept
          simp only at kept
          omega
        · rw [if_neg wide] at made
          rcases (written_slash plain).mp ((takes.exact _).mp made) with
            ⟨bytes', n, -, numeral, fits, -⟩ | ⟨bytes', n, read', -⟩
          · obtain rfl := numeral_unique numeral (by omega) number
            exact ⟨numeral, fits⟩
          · rw [read6] at read'
            cases read'
      · rintro ⟨numeral, fits⟩
        have small : m % 256 = m := Nat.mod_eq_of_lt (by omega)
        rw [small, if_neg (Nat.not_lt.mpr fits)] at made
        refine ⟨fun a => ?_, fun failed => by rw [made] at failed; cases failed⟩
        rw [made, written_slash plain]
        constructor
        · rintro ⟨⟩
          exact .inl ⟨bytes, m, read, numeral, fits, rfl⟩
        · rintro (⟨bytes', n, read', numeral', fits', rfl⟩ | ⟨bytes', n, read', -⟩)
          · rw [read] at read'
            cases read'
            rw [numeral_unique numeral' (by omega) number]
          · rw [read6] at read'
            cases read'
    | none =>
      cases read6 : pton.inet6 host with
      | some bytes =>
        have made := @create_inet6 pton (host ++ '/' :: digits) (m % 256) bytes length
          (by rw [front, read]) (by rw [front, read6])
        simp only [Option.isSome_some, forall_const, Option.isSome_none, Bool.false_eq_true,
          false_implies, reduceCtorEq, and_true, true_and]
        constructor
        · intro takes
          by_cases wide : 128 < m % 256
          · rw [if_pos wide] at made
            have kept := (takes.fails (by rw [made])).2
            rw [made] at kept
            simp only at kept
            omega
          · rw [if_neg wide] at made
            rcases (written_slash plain).mp ((takes.exact _).mp made) with
              ⟨bytes', n, read', -⟩ | ⟨bytes', n, -, numeral, fits, -⟩
            · rw [read] at read'
              cases read'
            · obtain rfl := numeral_unique numeral fits number
              exact ⟨numeral, fits⟩
        · rintro ⟨numeral, fits⟩
          have small : m % 256 = m := Nat.mod_eq_of_lt (by omega)
          rw [small, if_neg (Nat.not_lt.mpr fits)] at made
          refine ⟨fun a => ?_, fun failed => by rw [made] at failed; cases failed⟩
          rw [made, written_slash plain]
          constructor
          · rintro ⟨⟩
            exact .inr ⟨bytes, m, read6, numeral, fits, rfl⟩
          · rintro (⟨bytes', n, read', -⟩ | ⟨bytes', n, read', numeral', fits', rfl⟩)
            · rw [read] at read'
              cases read'
            · rw [read6] at read'
              cases read'
              rw [numeral_unique numeral' fits' number]
      | none =>
        obtain ⟨mac, other⟩ := @create_other pton (host ++ '/' :: digits) (m % 256) length
          (by rw [front, read]) (by rw [front, read6])
        simp only [forall_const, Option.isSome_none, Bool.false_eq_true, false_implies, true_and]
        have never (a : Addr) : ¬ Written pton (host ++ '/' :: digits) a := by
          rw [written_slash plain]
          rintro (⟨bytes, n, read', -⟩ | ⟨bytes, n, read', -⟩)
          · rw [read] at read'
            cases read'
          · rw [read6] at read'
            cases read'
        constructor
        · intro takes
          by_cases macs : ReadAsMac (host ++ '/' :: digits)
          · obtain ⟨hwAddr, -, made⟩ := mac macs
            exact absurd ((takes.exact _).mp made) (never _)
          · have kept := (takes.fails (by rw [other macs])).2
            rw [other macs] at kept
            exact ⟨kept, macs⟩
        · rintro ⟨zero, macs⟩
          rw [zero] at other
          refine ⟨fun a => ?_, fun _ => by rw [other macs]; exact ⟨rfl, rfl⟩⟩
          rw [other macs]
          exact iff_of_false (by rintro ⟨⟩) (never a)

/-- **Create** takes the formats, and only them, exactly if the numbers of a text are
well written. -/
theorem takesFormats_iff (apart : Apart pton) (s : List Char) :
    TakesFormats pton s ↔ WellWritten pton s := by
  by_cases slash : '/' ∈ s
  · obtain ⟨host, digits, rfl, plain⟩ := List.eq_append_cons_of_mem slash
    rw [takes_slash_iff apart plain]
    constructor
    · intro each
      refine ⟨?_, ?_, ?_, fun free => absurd slash free⟩
      · intro host' digits' n same plain' number read
        obtain ⟨rfl, rfl⟩ := cut_unique plain plain' same
        exact (each n number).1 read
      · intro host' digits' n same plain' number read
        obtain ⟨rfl, rfl⟩ := cut_unique plain plain' same
        exact (each n number).2.1 read
      · intro host' digits' n same plain' number
        obtain ⟨rfl, rfl⟩ := cut_unique plain plain' same
        exact (each n number).2.2
    · intro well n number
      exact ⟨well.inet host digits n rfl plain number, well.inet6 host digits n rfl plain number,
        well.other host digits n rfl plain number⟩
  · rw [takes_plain_iff apart slash]
    constructor
    · intro octets
      have split {host digits : List Char} (same : s = host ++ '/' :: digits) : False :=
        slash (by rw [same]; simp)
      exact ⟨fun _ _ _ same => (split same).elim, fun _ _ _ same => (split same).elim,
        fun _ _ _ same => (split same).elim, fun _ => octets⟩
    · intro well
      exact well.mac slash

end

/-! ## Plain forms -/

theorem hexOctet_undotted {octet : List Char} {value : Nat} (hex : hexOctet octet = some value) :
    '.' ∉ octet := by
  obtain ⟨c, d, h, l, rfl, first, second, -⟩ := hexOctet_cases hex
  intro member
  have none : digitValue '.' = none := rfl
  rcases List.mem_pair.mp member with rfl | rfl
  · rw [none] at first
    cases first
  · rw [none] at second
    cases second

/-- The plain forms have no text in common. -/
theorem apart_plain : Apart NetworkTexts.plainPton where
  inet host bytes read := by
    cases read6 : NetworkTexts.plainPton.inet6 host with
    | none => rfl
    | some other =>
      obtain ⟨-, rfl⟩ := NetworkTexts.readColoned_text read6
      have none : NetworkTexts.plainPton.inet (NetworkTexts.coloned other) = none :=
        NetworkTexts.readDotted_none fun dot => NetworkTexts.coloned_chars dot (by decide)
      rw [none] at read
      cases read
  mac octets values six hex := by
    have each (octet : List Char) (member : octet ∈ octets) :
        octet ≠ [] ∧ ':' ∉ octet ∧ '.' ∉ octet := by
      obtain ⟨value, same⟩ := Option.isSome_iff_exists.mp
        (mapM_isSome.mp (Option.isSome_iff_exists.mpr ⟨_, hex⟩) octet member)
      obtain ⟨-, two, colon, -⟩ := hexOctet_read same
      refine ⟨?_, colon, hexOctet_undotted same⟩
      rintro rfl
      cases two
    constructor
    · apply NetworkTexts.readDotted_none
      intro dot
      rcases mem_intercalate dot with same | ⟨octet, member, inside⟩
      · cases same
      · exact (each octet member).2.2 inside
    · -- eight words are not six octets
      cases read : NetworkTexts.plainPton.inet6 ([':'].intercalate octets) with
      | none => rfl
      | some bytes =>
        obtain ⟨width, same⟩ := NetworkTexts.readColoned_text read
        have pieces := congrArg (pieces ':') same
        rw [NetworkTexts.coloned, NetworkTexts.pieces_digits (by decide) (by decide) (by decide),
          pieces_intercalate fun octet member => ⟨(each octet member).1, (each octet member).2.1⟩]
          at pieces
        have lengths := congrArg List.length pieces
        rw [List.length_map, six, NetworkTexts.length_words, width] at lengths
        cases lengths

/-- 10.0.0.0/8 is taken as it is written. -/
theorem ten_taken : TakesFormats NetworkTexts.plainPton "10.0.0.0/8".toList := by
  apply (takesFormats_iff apart_plain _).mpr
  have split {host digits : List Char} (same : "10.0.0.0/8".toList = host ++ '/' :: digits)
      (plain : '/' ∉ host) : "10.0.0.0".toList = host ∧ "8".toList = digits :=
    cut_unique (by decide) plain same
  refine ⟨?_, ?_, ?_, fun free => absurd (by decide) free⟩
  · intro host digits n same plain number _
    obtain ⟨rfl, rfl⟩ := split same plain
    obtain rfl : 8 = n := Option.some.inj number
    exact ⟨⟨by decide, by simp, by decide⟩, by decide⟩
  · intro host digits n same plain number _
    obtain ⟨rfl, rfl⟩ := split same plain
    obtain rfl : 8 = n := Option.some.inj number
    exact ⟨⟨by decide, by simp, by decide⟩, by decide⟩
  · intro host digits n same plain _ none
    obtain ⟨rfl, rfl⟩ := split same plain
    exact absurd none (by decide +kernel)

/-- A prefix length of 264 is cut to 8, and one of 40 is kept though it is refused. -/
theorem numbers_cut : ¬ TakesFormats NetworkTexts.plainPton "10.0.0.0/264".toList ∧
    ¬ TakesFormats NetworkTexts.plainPton "10.0.0.0/40".toList := by
  constructor
  · intro takes
    have made : Addr.createText NetworkTexts.plainPton {} "10.0.0.0/264".toList =
        ({ family := .inet, sinAddr := [10, 0, 0, 0], prefixLen := 8 }, true) := by
      decide +kernel
    have written := (takes.exact _).mp made
    have text : "10.0.0.0/264".toList = "10.0.0.0".toList ++ '/' :: "264".toList := by decide
    rw [text, written_slash (by decide)] at written
    rcases written with ⟨bytes, n, -, ⟨-, -, value⟩, fits, -⟩ | ⟨bytes, n, -, -, -, other⟩
    · have number : Nat.ofDigitChars 10 "264".toList 0 = 264 := by decide
      omega
    · cases other
  · intro takes
    have failed : (Addr.createText NetworkTexts.plainPton {} "10.0.0.0/40".toList).2 = false := by
      decide +kernel
    have kept := (takes.fails failed).2
    have stored : (Addr.createText NetworkTexts.plainPton {}
        "10.0.0.0/40".toList).1.prefixLen = 40 := by
      decide +kernel
    rw [stored] at kept
    cases kept

end NetifyAgent.AddrFormats
