import NetifyAgent.NdAddrType
import NetifyAgent.NumberTexts
import NetifyAgent.RadixRewinds

/-! Networks as they are printed. `ndAddr::MakeString` prints a host with
`inet_ntop`, a parameter here, and leaves out a prefix length that is the width;
what it prints of an entry names the network of the entry. -/
namespace NetifyAgent

/-- `inet_ntop` for `AF_INET` and for `AF_INET6`: the text, if it succeeds. -/
structure Ntop where
  inet : List UInt8 → Option (List Char)
  inet6 : List UInt8 → Option (List Char)

/-- `ndAddr::mfALL`, which is `mfPREFIX` and `mfPORT`. -/
def mfAll : Nat := 0x3

/-- What follows a host: its prefix length unless it is the width, and its port. -/
def Addr.suffix (flags width : Nat) (a : Addr) : List Char :=
  (if flags.testBit 0 ∧ 0 < a.prefixLen ∧ a.prefixLen ≠ width then '/' :: Nat.toDigits 10 a.prefixLen
    else []) ++
  (if flags.testBit 1 ∧ a.port ≠ 0 then ':' :: Nat.toDigits 10 (ntohs a.port) else [])

/-- `ndAddr::MakeString`. -/
def Addr.makeString (ntop : Ntop) (flags : Nat) (a : Addr) : Option (List Char) :=
  match a.family with
  | .unspec => none
  | .packet =>
    -- `sll_hatype`, `sll_halen` and `sll_addr`
    if a.sin6Addr.take 2 = [1, 0] then
      let halen := (a.sin6Addr.getD 3 0).toNat
      some ([':'].intercalate (((a.sin6Addr.drop 4).take halen).map hexByte))
    else none
  | .inet => (ntop.inet a.sinAddr).map (· ++ a.suffix flags 32)
  | .inet6 => (ntop.inet6 a.sin6Addr).map (· ++ a.suffix flags 128)

/-- `htonl` to four bytes of storage. -/
def htonl (n : Nat) : List UInt8 :=
  [UInt8.ofNat (n / 2 ^ 24), UInt8.ofNat (n / 2 ^ 16), UInt8.ofNat (n / 2 ^ 8), UInt8.ofNat n]

namespace RadixNetworkEntry

/-- `ndRadixNetworkEntry::GetString` for `AF_INET`. -/
def getString4 (ntop : Ntop) (entry : RadixNetworkEntry 32) : Option (List Char) :=
  Addr.makeString ntop mfAll
    { family := .inet, sinAddr := htonl entry.addr.toNat, prefixLen := entry.prefixLen % 256 }

/-- `s6_addr32`, whose words are written from the last one to the first. -/
def sin6Words (addr : BitVec 128) : List UInt8 :=
  let word (i : Nat) := htonl (addr.extractLsb' (i * 32) 32).toNat
  word 3 ++ word 2 ++ word 1 ++ word 0

/-- `ndRadixNetworkEntry::GetString` for `AF_INET6`. -/
def getString6 (ntop : Ntop) (entry : RadixNetworkEntry 128) : Option (List Char) :=
  Addr.makeString ntop mfAll
    { family := .inet6, sin6Addr := sin6Words entry.addr, prefixLen := entry.prefixLen % 256 }

end RadixNetworkEntry

namespace NetworkTexts
open NumberTexts ApplicationNetworks RadixNetworks RadixKeys RadixRewinds RadixNetworkEntry

/-! ## Bytes -/

/-- Words of storage stand for the bits of the number. -/
theorem getD_htonl (n : Nat) {i : Nat} (inside : i < 32) :
    (bitsOf (htonl n)).getD i false = n.testBit (31 - i) := by
  have parts : number (htonl n) = n % 2 ^ 32 := by
    simp only [number, htonl, List.foldl_cons, List.foldl_nil, UInt8.toNat_ofNat']
    omega
  have bit := @testBit_number (htonl n) i inside
  rw [← bit, parts, Nat.testBit_mod_two_pow]
  have here : 8 * (htonl n).length - 1 - i = 31 - i := rfl
  rw [here, decide_eq_true (by omega), Bool.true_and]

section
variable {key : List Bool}

/-- Bytes whose bits are those of a key as far as it goes. -/
theorem take_bitsOf {N : Nat} {bytes : List UInt8} (width : (bitsOf bytes).length = N)
    (fits : key.length ≤ N) (same : ∀ i < N, (bitsOf bytes).getD i false = key.getD i false) :
    (bitsOf bytes).take key.length = key := by
  apply List.ext_getElem
  · rw [List.length_take]
    omega
  · intro i first second
    have bit := same i (by omega)
    rw [List.getElem_take, ← List.getD_eq_getElem _ false, bit, List.getD_eq_getElem]

theorem take_sinAddr (fits : key.length ≤ 32) :
    (bitsOf (htonl (ofBits 32 key).addr.toNat)).take key.length = key := by
  have width : (bitsOf (htonl (ofBits 32 key).addr.toNat)).length = 32 := length_bitsOf _
  refine take_bitsOf width fits fun i inside => ?_
  rw [getD_htonl _ inside, ← getMsbD_ofBits fits, BitVec.getMsbD_eq_getLsbD,
    decide_eq_true inside, Bool.true_and]
  rfl

theorem take_sin6Addr (fits : key.length ≤ 128) :
    (bitsOf (sin6Words (ofBits 128 key).addr)).take key.length = key := by
  have width : (bitsOf (sin6Words (ofBits 128 key).addr)).length = 128 := length_bitsOf _
  refine take_bitsOf width fits fun i inside => ?_
  obtain ⟨k, j, rfl, first, small⟩ : ∃ k j, i = 32 * k + j ∧ k < 4 ∧ j < 32 :=
    ⟨i / 32, i % 32, by omega, by omega, by omega⟩
  have word : ((sin6Words (ofBits 128 key).addr).drop (4 * k)).take 4 =
      htonl ((ofBits 128 key).addr.extractLsb' ((3 - k) * 32) 32).toNat := by
    obtain rfl | rfl | rfl | rfl : k = 0 ∨ k = 1 ∨ k = 2 ∨ k = 3 := by omega
    all_goals rfl
  rw [getD_words _ (by show 4 * k + 4 ≤ 16; omega) small, word, getD_htonl _ small,
    ← getMsbD_ofBits fits, BitVec.getMsbD_eq_getLsbD, decide_eq_true inside, Bool.true_and,
    BitVec.testBit_toNat, BitVec.getLsbD_extractLsb', decide_eq_true (by omega), Bool.true_and]
  congr 1
  omega

end

/-! ## Printing -/

/-- `inet_pton` reads what `inet_ntop` prints of the bytes of an address, and only
what is not an IPv4 address as an IPv6 address. -/
structure Inverse (ntop : Ntop) (pton : Pton) : Prop where
  width : ∀ host bytes, pton.inet host = some bytes → bytes.length = 4
  width6 : ∀ host bytes, pton.inet6 host = some bytes → bytes.length = 16
  inet : ∀ bytes, bytes.length = 4 → ∃ host, ntop.inet bytes = some host ∧
    pton.inet host = some bytes ∧ '/' ∉ host ∧ '\n' ∉ host
  inet6 : ∀ bytes, bytes.length = 16 → ∃ host, ntop.inet6 bytes = some host ∧
    pton.inet host = none ∧ pton.inet6 host = some bytes ∧ '/' ∉ host ∧ '\n' ∉ host

section
variable {ntop : Ntop} {pton : Pton} {key : List Bool}

/-- A prefix length is printed unless it is the width. -/
theorem suffix_eq {a : Addr} {width : Nat} (port : a.port = 0) (positive : 0 < a.prefixLen) :
    a.suffix mfAll width =
      if a.prefixLen = width then [] else '/' :: Nat.toDigits 10 a.prefixLen := by
  unfold Addr.suffix
  rw [if_neg (show ¬ (mfAll.testBit 1 = true ∧ a.port ≠ 0) from fun both => both.2 port),
    List.append_nil]
  split
  case isTrue shown => rw [if_neg shown.2.2]
  case isFalse hidden =>
    rw [if_pos]
    by_contra other
    exact hidden ⟨rfl, positive, other⟩

theorem newline_suffix {host : List Char} (free : '\n' ∉ host) (n : Nat) :
    '\n' ∉ host ++ '/' :: Nat.toDigits 10 n := by
  intro member
  rcases List.mem_append.mp member with inside | behind
  · exact free inside
  · rcases List.mem_cons.mp behind with slash | digit
    · cases slash
    · have plain := (digit_plain (by decide) (by decide) digit).2
      simp at plain

/-- What is printed of an IPv4 entry names its network. -/
theorem getString4_names (inverse : Inverse ntop pton) (nonempty : key ≠ []) (fits : key.length ≤ 32) :
    ∃ ip, getString4 ntop (ofBits 32 key) = some ip ∧ '\n' ∉ ip ∧ Names pton ip (.inet, key) := by
  have taken := take_sinAddr fits
  generalize bits : htonl (ofBits 32 key).addr.toNat = bytes at taken
  have width : bytes.length = 4 := by
    rw [← bits]
    rfl
  obtain ⟨host, printed, read, plain, free⟩ := inverse.inet bytes width
  have positive := List.length_pos_iff.mpr nonempty
  have length : (ofBits 32 key).prefixLen % 256 = key.length := by
    show key.length % 256 = key.length
    omega
  have text : getString4 ntop (ofBits 32 key) =
      some (host ++ if key.length = 32 then [] else '/' :: Nat.toDigits 10 key.length) := by
    rw [getString4, bits, length, Addr.makeString]
    simp only
    rw [printed, Option.map_some, suffix_eq rfl positive]
  refine ⟨_, text, ?_⟩
  split
  case isTrue whole =>
    rw [List.append_nil]
    refine ⟨free, ?_⟩
    have names := @Names.host pton _ _ plain read width
    have bits : bitsOf bytes = key := by
      rwa [List.take_of_length_le (by rw [length_bitsOf, width, whole])] at taken
    rwa [bits] at names
  case isFalse part =>
    refine ⟨newline_suffix free _, ?_⟩
    have names := @Names.inet pton _ _ _ _ plain read width
      (stoul_toDigits (by decide) (by decide) (by omega)) positive fits
    rwa [taken] at names

/-- What is printed of an IPv6 entry names its network. -/
theorem getString6_names (inverse : Inverse ntop pton) (nonempty : key ≠ [])
    (fits : key.length ≤ 128) :
    ∃ ip, getString6 ntop (ofBits 128 key) = some ip ∧ '\n' ∉ ip ∧ Names pton ip (.inet6, key) := by
  have taken := take_sin6Addr fits
  generalize bits : sin6Words (ofBits 128 key).addr = bytes at taken
  have width : bytes.length = 16 := by
    rw [← bits]
    rfl
  obtain ⟨host, printed, other, read, plain, free⟩ := inverse.inet6 bytes width
  have positive := List.length_pos_iff.mpr nonempty
  have length : (ofBits 128 key).prefixLen % 256 = key.length := by
    show key.length % 256 = key.length
    omega
  have text : getString6 ntop (ofBits 128 key) =
      some (host ++ if key.length = 128 then [] else '/' :: Nat.toDigits 10 key.length) := by
    rw [getString6, bits, length, Addr.makeString]
    simp only
    rw [printed, Option.map_some, suffix_eq rfl positive]
  refine ⟨_, text, ?_⟩
  split
  case isTrue whole =>
    rw [List.append_nil]
    refine ⟨free, ?_⟩
    have names := @Names.host6 pton _ _ plain other read width
    have bits : bitsOf bytes = key := by
      rwa [List.take_of_length_le (by rw [length_bitsOf, width, whole])] at taken
    rwa [bits] at names
  case isFalse part =>
    refine ⟨newline_suffix free _, ?_⟩
    have names := @Names.inet6 pton _ _ _ _ plain other read width
      (stoul_toDigits (by decide) (by decide) (by omega)) positive fits
    rwa [taken] at names

end

/-! ## Adding -/

section
variable {ntop : Ntop} {pton : Pton} {key : List Bool} {apps : Applications} {id : Nat}
  {text : List Char}

/-- `AddNetwork` of an IPv4 network assigns to its table. -/
theorem addNetwork_inet (stands : Stands (Addr.ofText pton text) (.inet, key)) :
    (apps.addNetwork pton id text).1 =
      { apps with networks4 := assignTo apps.networks4 (ofBits 32 key, id) } := by
  obtain ⟨family, -, entry⟩ := stands.inet rfl
  unfold Applications.addNetwork assignTo
  simp only [Addr.isValid, Addr.isIP, Addr.isIPv4, family, entry, Option.map_some]
  cases apps.networks4.assign (ofBits 32 key) id <;> rfl

/-- `AddNetwork` of an IPv6 network assigns to its table. -/
theorem addNetwork_inet6 (stands : Stands (Addr.ofText pton text) (.inet6, key)) :
    (apps.addNetwork pton id text).1 =
      { apps with networks6 := assignTo apps.networks6 (ofBits 128 key, id) } := by
  obtain ⟨family, -, entry⟩ := stands.inet6 rfl
  unfold Applications.addNetwork assignTo
  simp only [Addr.isValid, Addr.isIP, Addr.isIPv4, family, entry, Option.map_some]
  cases apps.networks6.assign (ofBits 128 key) id <;> rfl

/-- A text that is read as an IP address stands for a network. -/
theorem stands_ofText (inverse : Inverse ntop pton) (ip : (Addr.ofText pton text).isIP = true) :
    ∃ network, Stands (Addr.ofText pton text) network := by
  have other {a : Addr} (same : Addr.ofText pton text = a) (none : a.isIP = false) :
      ∃ network, Stands (Addr.ofText pton text) network := by
    rw [same, none] at ip
    cases ip
  have fits {N length : Nat} (positive : 0 < N) (within : ¬ N < length) :
      entryLength N length ≤ N := by
    unfold entryLength
    split <;> omega
  unfold Addr.ofText Addr.createText at other ⊢
  simp only at other ⊢
  split
  case h_1 unread =>
    simp only [unread] at other
    exact other rfl rfl
  case h_2 prefixLen read =>
    simp only [read] at other
    split
    case h_1 bytes host =>
      simp only [host] at other
      split
      case isTrue wide =>
        simp only [if_pos wide] at other
        exact other rfl rfl
      case isFalse within =>
        exact ⟨_, stands_inet _ rfl (inverse.width _ _ host) (fits (by decide) within)⟩
    case h_2 host =>
      simp only [host] at other
      split
      case h_1 bytes host6 =>
        simp only [host6] at other
        split
        case isTrue wide =>
          simp only [if_pos wide] at other
          exact other rfl rfl
        case isFalse within =>
          exact ⟨_, stands_inet6 _ rfl (inverse.width6 _ _ host6) (fits (by decide) within)⟩
      case h_2 host6 =>
        simp only [host6] at other
        split
        case h_1 hwAddr octets =>
          simp only [octets] at other
          split
          case isTrue six =>
            simp only [if_pos six] at other
            exact other rfl rfl
          case isFalse six =>
            simp only [if_neg six] at other
            exact other rfl rfl
        case h_2 octets =>
          simp only [octets] at other
          exact other rfl rfl

/-- Tables that are made by assignment, with ids of their type. -/
structure Made (apps : Applications) : Prop where
  kept4 : RadixRewinds.Kept apps.networks4
  kept6 : RadixRewinds.Kept apps.networks6
  id4 : ∀ e ∈ apps.networks4.values, e.2 < 2 ^ 32
  id6 : ∀ e ∈ apps.networks6.values, e.2 < 2 ^ 32

theorem made_empty : Made {} where
  kept4 := kept_empty
  kept6 := kept_empty
  id4 _ member := by cases member
  id6 _ member := by cases member

/-- **`AddNetwork`** keeps the tables. -/
theorem made_addNetwork (inverse : Inverse ntop pton) (made : Made apps) (small : id < 2 ^ 32)
    (text : List Char) : Made (apps.addNetwork pton id text).1 := by
  by_cases ip : (Addr.ofText pton text).isIP = true
  · obtain ⟨⟨family, key⟩, stands⟩ := stands_ofText inverse ip
    rcases stands.ip with inet | inet6
    · obtain rfl : family = .inet := inet
      have network : OfNetwork (ofBits 32 key) :=
        ⟨key, stands.nonempty, (stands.inet rfl).2.1, rfl⟩
      obtain ⟨kept, values⟩ := kept_assignTo (by decide) made.kept4 network id
      rw [addNetwork_inet stands]
      refine ⟨kept, made.kept6, fun e member => ?_, made.id6⟩
      rcases values e member with old | rfl
      · exact made.id4 e old
      · exact small
    · obtain rfl : family = .inet6 := inet6
      have network : OfNetwork (ofBits 128 key) :=
        ⟨key, stands.nonempty, (stands.inet6 rfl).2.1, rfl⟩
      obtain ⟨kept, values⟩ := kept_assignTo (by decide) made.kept6 network id
      rw [addNetwork_inet6 stands]
      refine ⟨made.kept4, kept, made.id4, fun e member => ?_⟩
      rcases values e member with old | rfl
      · exact made.id6 e old
      · exact small
  · have refused : (apps.addNetwork pton id text).1 = apps := by
      unfold Applications.addNetwork
      simp only
      rw [if_pos (.inr ip)]
    rwa [refused]

end

/-! ## Dotted addresses -/

/-- Four numbers between dots. -/
def dotted (bytes : List UInt8) : List Char :=
  ['.'].intercalate (bytes.map fun b => Nat.toDigits 10 b.toNat)

/-- The words of an address. -/
def words : List UInt8 → List Nat
  | a :: b :: rest => (a.toNat * 256 + b.toNat) :: words rest
  | _ => []

/-- Words between colons, none of them left out. -/
def coloned (bytes : List UInt8) : List Char :=
  [':'].intercalate ((words bytes).map (Nat.toDigits 16))

/-- The bytes of words. -/
def wordBytes (ws : List Nat) : List UInt8 :=
  ws.flatMap fun w => [UInt8.ofNat (w / 256), UInt8.ofNat w]

/-- The bytes that are printed in this way. -/
def readDotted (host : List Char) : Option (List UInt8) :=
  (((Lines.pieces '.' host).mapM (stoul 10)).map (·.map UInt8.ofNat)).filter fun bytes =>
    bytes.length = 4 ∧ dotted bytes = host

/-- The bytes that are printed as words. -/
def readColoned (host : List Char) : Option (List UInt8) :=
  (((Lines.pieces ':' host).mapM (stoul 16)).map wordBytes).filter fun bytes =>
    bytes.length = 16 ∧ coloned bytes = host

/-- `inet_ntop`, without the short forms of an IPv6 address. -/
def plainNtop : Ntop where
  inet bytes := if bytes.length = 4 then some (dotted bytes) else none
  inet6 bytes := if bytes.length = 16 then some (coloned bytes) else none

/-- `inet_pton`, without the short forms of an IPv6 address. -/
def plainPton : Pton where
  inet := readDotted
  inet6 := readColoned

theorem mapM_stoul {base : Nat} (large : 1 < base) (fits : base ≤ 16) {ns : List Nat}
    (small : ∀ n ∈ ns, n < 2 ^ 64) : (ns.map (Nat.toDigits base)).mapM (stoul base) = some ns := by
  induction ns with
  | nil => rfl
  | cons n ns ih =>
    rw [List.map_cons, List.mapM_cons,
      stoul_toDigits large fits (small n (List.mem_cons_self ..)),
      ih fun m member => small m (List.mem_cons_of_mem _ member)]
    rfl

theorem pieces_digits {base : Nat} (large : 1 < base) (fits : base ≤ 16) {separator : Char}
    (sign : separator ∈ "-+:/.\n".toList) (ns : List Nat) :
    Lines.pieces separator ([separator].intercalate (ns.map (Nat.toDigits base))) =
      ns.map (Nat.toDigits base) := by
  apply Lines.pieces_intercalate
  intro text member
  obtain ⟨n, -, rfl⟩ := List.mem_map.mp member
  refine ⟨Nat.toDigits_ne_nil, fun inside => ?_⟩
  exact (digit_plain large fits inside).2 sign

/-- What is printed are digits and separators. -/
theorem mem_joined {base : Nat} {separator c : Char} {ns : List Nat}
    (member : c ∈ [separator].intercalate (ns.map (Nat.toDigits base))) :
    c = separator ∨ ∃ n, c ∈ Nat.toDigits base n := by
  rcases Lines.mem_intercalate member with same | ⟨text, inside, found⟩
  · exact .inl same
  · obtain ⟨n, -, rfl⟩ := List.mem_map.mp inside
    exact .inr ⟨n, found⟩

theorem words_lt (bytes : List UInt8) : ∀ w ∈ words bytes, w < 2 ^ 64 := by
  fun_induction words bytes with
  | case1 a b rest ih =>
    intro w member
    rcases List.mem_cons.mp member with rfl | later
    · have first := a.toNat_lt
      have second := b.toNat_lt
      omega
    · exact ih w later
  | case2 bytes short =>
    intro w member
    cases member

theorem length_words (bytes : List UInt8) : (words bytes).length = bytes.length / 2 := by
  fun_induction words bytes with
  | case1 a b rest ih =>
    simp only [List.length_cons, ih]
    omega
  | case2 bytes short =>
    match bytes, short with
    | [], _ => rfl
    | [_], _ => simp
    | a :: b :: rest, short => exact absurd rfl (short a b rest)

theorem wordBytes_words {bytes : List UInt8} (even : bytes.length % 2 = 0) :
    wordBytes (words bytes) = bytes := by
  fun_induction words bytes with
  | case1 a b rest ih =>
    have later := ih (by simp only [List.length_cons] at even; omega)
    have split : wordBytes ((a.toNat * 256 + b.toNat) :: words rest) =
        UInt8.ofNat ((a.toNat * 256 + b.toNat) / 256) ::
          UInt8.ofNat (a.toNat * 256 + b.toNat) :: wordBytes (words rest) := rfl
    have second := b.toNat_lt
    have high : (a.toNat * 256 + b.toNat) / 256 = a.toNat := by omega
    rw [split, later, high, UInt8.ofNat_toNat]
    congr 2
    apply UInt8.toNat_inj.mp
    rw [UInt8.toNat_ofNat']
    omega
  | case2 bytes short =>
    match bytes, short, even with
    | [], _, _ => rfl
    | a :: b :: rest, short, _ => exact absurd rfl (short a b rest)

/-- What is read is what is printed of the bytes. -/
theorem readDotted_text {host : List Char} {bytes : List UInt8}
    (read : readDotted host = some bytes) : bytes.length = 4 ∧ dotted bytes = host := by
  obtain ⟨-, same⟩ := Option.filter_eq_some_iff.mp read
  exact of_decide_eq_true same

theorem readColoned_text {host : List Char} {bytes : List UInt8}
    (read : readColoned host = some bytes) : bytes.length = 16 ∧ coloned bytes = host := by
  obtain ⟨-, same⟩ := Option.filter_eq_some_iff.mp read
  exact of_decide_eq_true same

theorem coloned_chars {bytes : List UInt8} {c : Char} (member : c ∈ coloned bytes) :
    c ∉ "/.\n".toList := by
  rcases mem_joined member with rfl | ⟨n, digit⟩
  · decide
  · have plain := (digit_plain (by decide) (by decide) digit).2
    simp at plain ⊢
    exact ⟨plain.2.2.2.1, plain.2.2.2.2.1, plain.2.2.2.2.2⟩

/-- A dotted text has dots, so that one without is not read as one. -/
theorem readDotted_none {host : List Char} (free : '.' ∉ host) : readDotted host = none := by
  cases read : readDotted host with
  | none => rfl
  | some bytes =>
    obtain ⟨four, rfl⟩ := readDotted_text read
    obtain ⟨a, b, c, d, rfl⟩ := List.length_eq_four.mp four
    exact absurd (by simp [dotted]) free

/-- **Printing and reading** of the plain forms. -/
theorem inverse_plain : Inverse plainNtop plainPton where
  width host bytes read := (readDotted_text read).1
  width6 host bytes read := (readColoned_text read).1
  inet bytes width := by
    have numbers : dotted bytes =
        ['.'].intercalate ((bytes.map UInt8.toNat).map (Nat.toDigits 10)) := by
      rw [dotted, List.map_map]
      rfl
    have chars {c : Char} (member : c ∈ dotted bytes) : c ∉ "/\n".toList := by
      rw [numbers] at member
      rcases mem_joined member with rfl | ⟨n, digit⟩
      · decide
      · have plain := (digit_plain (by decide) (by decide) digit).2
        simp at plain ⊢
        exact ⟨plain.2.2.2.1, plain.2.2.2.2.2⟩
    refine ⟨dotted bytes, if_pos width, ?_, fun slash => ?_, fun newline => ?_⟩
    · have small : ∀ n ∈ bytes.map UInt8.toNat, n < 2 ^ 64 := by
        intro n member
        obtain ⟨b, -, rfl⟩ := List.mem_map.mp member
        have := b.toNat_lt
        omega
      have back : (bytes.map UInt8.toNat).map UInt8.ofNat = bytes := by
        simp [Function.comp_def]
      refine Option.filter_eq_some_iff.mpr ⟨?_, decide_eq_true ⟨width, rfl⟩⟩
      rw [numbers, pieces_digits (by decide) (by decide) (by decide),
        mapM_stoul (by decide) (by decide) small, Option.map_some, back]
    · exact chars slash (by decide)
    · exact chars newline (by decide)
  inet6 bytes width := by
    refine ⟨coloned bytes, if_pos width, ?_, ?_, fun slash => ?_, fun newline => ?_⟩
    · exact readDotted_none fun dot => coloned_chars dot (by decide)
    · refine Option.filter_eq_some_iff.mpr ⟨?_, decide_eq_true ⟨width, rfl⟩⟩
      rw [coloned, pieces_digits (by decide) (by decide) (by decide),
        mapM_stoul (by decide) (by decide) (words_lt bytes), Option.map_some,
        wordBytes_words (by omega)]
    · exact coloned_chars slash (by decide)
    · exact coloned_chars newline (by decide)

end NetworkTexts
end NetifyAgent
