import NetifyAgent.AddrFormats
import NetifyAgent.FlowParser
import NetifyAgent.NdAddrOrder
import NetifyAgent.ReloadAddresses

/-! Addresses in flow expressions. A network is looked up in a radix tree of its own, a
prefix length of zero counts as none, and the address of the flow is read into the entry
that holds the network. -/
namespace NetifyAgent.FlowExprAddrs
open AddrFormats ApplicationNetworks NdAddrOrder RadixKeys RadixNetworks RadixNetworkEntry
open RadixTable

/-! ## Literals -/

/-- `inet_pton` of a family. -/
def reads (pton : Pton) : Family → List Char → Option (List UInt8)
  | .inet => pton.inet
  | .inet6 => pton.inet6
  | _ => fun _ => none

def width : Family → Nat
  | .inet => 32
  | .inet6 => 128
  | _ => 0

/-- A text writes an address, alone or with a prefix length. -/
inductive Literal (pton : Pton) (family : Family) (bytes : List UInt8) :
    List Char → Option Nat → Prop
  | host {host : List Char} (plain : '/' ∉ host) (read : reads pton family host = some bytes) :
      Literal pton family bytes host none
  | network {host digits : List Char} {n : Nat} (plain : '/' ∉ host)
      (read : reads pton family host = some bytes) (numeral : Numeral digits n) :
      Literal pton family bytes (host ++ '/' :: digits) (some n)

/-- The bits of two addresses agree from one place to another. -/
def Agree (a b : List UInt8) (first last : Nat) : Prop :=
  ∀ i, first ≤ i → i < last → (bitsOf a).getD i false = (bitsOf b).getD i false

/-- The families agree, and so do the bits of the prefix that is written. -/
def Contains (pton : Pton) (text : List Char) (flowAddr : Addr) : Prop :=
  ∃ family bytes written, Literal pton family bytes text written ∧ flowAddr.family = family ∧
    Agree flowAddr.getAddress bytes 0 (written.getD (width family))

/-- No prefix is longer than an address. -/
def Fits (pton : Pton) (text : List Char) : Prop :=
  ∀ family bytes n, Literal pton family bytes text (some n) → n ≤ width family

/-- The bit of the last word of a network that is carried to a place of the first one. -/
def carried (bytes : List UInt8) (n i : Nat) : Bool :=
  decide (96 + i < n) && (bitsOf bytes).getD (96 + i) false

/-- A prefix of length zero is compared with the address itself alone, and the bits that
are carried to the first word of an address decide nothing there. -/
structure Undisturbed (pton : Pton) (text : List Char) (flowAddr : Addr) : Prop where
  zero : ∀ family bytes, Literal pton family bytes text (some 0) → flowAddr.family = family →
    flowAddr.getAddress = bytes
  inside : ∀ bytes n, Literal pton .inet6 bytes text (some n) → 96 < n → n < 128 →
    flowAddr.family = .inet6 → Agree flowAddr.getAddress bytes 0 n →
      ∀ i < 32, carried bytes n i → (bitsOf bytes).getD i false
  outside : ∀ bytes n, Literal pton .inet6 bytes text (some n) → 96 < n → n < 128 →
    flowAddr.family = .inet6 → Agree flowAddr.getAddress bytes 32 n →
      ¬ Agree flowAddr.getAddress bytes 0 32 →
      ∃ i < 32, ((bitsOf flowAddr.getAddress).getD i false || carried bytes n i) ≠
        (bitsOf bytes).getD i false

/-! ## Bits -/

/-- Two addresses that agree in all bits are one. -/
theorem agree_whole {a b : List UInt8} (size : a.length = b.length) {n : Nat}
    (whole : n = 8 * a.length) : Agree a b 0 n ↔ a = b := by
  constructor
  · intro agree
    apply bitsOf_injective
    apply List.ext_getElem
    · rw [length_bitsOf, length_bitsOf, size]
    · intro i first second
      have bit := agree i (Nat.zero_le i) (by rw [length_bitsOf] at first; omega)
      rwa [List.getD_eq_getElem _ _ first, List.getD_eq_getElem _ _ second] at bit
  · rintro rfl i _ _
    rfl

/-- The start of some bits is one of others if they agree there. -/
theorem take_prefix_iff {bits query : List Bool} {n : Nat} (size : bits.length = query.length)
    (fits : n ≤ bits.length) :
    bits.take n <+: query ↔ ∀ i < n, query.getD i false = bits.getD i false := by
  rw [List.prefix_iff_eq_take, List.length_take, Nat.min_eq_left fits]
  constructor
  · intro same i inside
    have bit := congrArg (fun l => l.getD i false) same
    simp only [List.getD_eq_getElem?_getD, List.getElem?_take_of_lt inside] at bit ⊢
    exact bit.symm
  · intro agree
    apply List.ext_getElem
    · rw [List.length_take, List.length_take, size]
    · intro i first second
      rw [List.length_take] at first
      have bit := agree i (by omega)
      rw [List.getD_eq_getElem _ _ (by omega), List.getD_eq_getElem _ _ (by omega)] at bit
      rw [List.getElem_take, List.getElem_take, bit]

/-! ## Networks -/

/-- The last word of the entry lies over the first one of the address. -/
theorem requery6_bits (old : BitVec 128) (addr : Addr) (i : Nat) :
    (requery6 old addr).getMsbD i = (old.getMsbD (i + 96) || (read6 addr).getMsbD i) := by
  unfold requery6 read6
  simp only [shl, Nat.reduceLT, if_true, BitVec.getMsbD_or, BitVec.getMsbD_shiftLeft,
    Nat.add_assoc, Nat.reduceAdd, Bool.or_assoc]

/-- What is searched for an address of IPv6. -/
def queryBits (bytes flow : List UInt8) (n : Nat) : List Bool :=
  (List.range 128).map fun i => (bitsOf flow).getD i false || carried bytes n i

theorem getD_queryBits (bytes flow : List UInt8) (n : Nat) {i : Nat} (inside : i < 128) :
    (queryBits bytes flow n).getD i false =
      ((bitsOf flow).getD i false || carried bytes n i) := by
  unfold queryBits
  simp [List.getD_eq_getElem?_getD, inside]

/-- A tree of one network contains what the network does. -/
theorem matchesNetwork_iff {N : Nat} (small : N < 2 ^ 31) {read : Addr → BitVec N}
    {requery : BitVec N → Addr → BitVec N} {flowAddr addr : Addr} {net query : List Bool}
    (entry : create read addr = some (ofBits N net)) (nonempty : net ≠ [])
    (fits : net.length ≤ N) (full : query.length = N)
    (asked : createQuery (requery (ofBits N net).addr) flowAddr = some (ofBits N query)) :
    matchesNetwork read requery flowAddr addr = true ↔ net <+: query := by
  obtain ⟨tree, assigned, stores⟩ := stores_assign small stores_empty nonempty fits
    (RadixInsert.not_eclipsed fun _ => rfl) true
  have longest := (stores_longest small stores full).unique (isLongest_single net query true)
  unfold matchesNetwork
  simp only [entry, assigned, asked, Option.bind_some]
  by_cases inside : net <+: query
  · rw [if_pos inside] at longest
    obtain ⟨found, match', -⟩ := Option.map_eq_some_iff.mp longest
    exact iff_of_true (by rw [match']; rfl) inside
  · rw [if_neg inside, Option.map_eq_none_iff] at longest
    exact iff_of_false (by rw [longest]; rintro ⟨⟩) inside

section
variable {addr flowAddr : Addr}

/-- A network of IPv4 contains the addresses that start as it does. -/
theorem network_inet (valid : addr.isValid = true) (asked : flowAddr.isValid = true)
    (size : addr.sinAddr.length = 4) (size' : flowAddr.sinAddr.length = 4)
    (positive : 0 < addr.prefixLen) (fits : addr.prefixLen ≤ 32) :
    matchesNetwork read4 (fun _ => read4) flowAddr addr = true ↔
      ∀ i < addr.prefixLen, (bitsOf flowAddr.sinAddr).getD i false =
        (bitsOf addr.sinAddr).getD i false := by
  have length := entryLength_pos (N := 32) positive
  have bits : (bitsOf addr.sinAddr).length = 32 := by rw [length_bitsOf, size]
  have bits' : (bitsOf flowAddr.sinAddr).length = 32 := by rw [length_bitsOf, size']
  have entry := create_bits valid bits (length.trans_le fits) (by omega) fun i inside =>
    read4_bits size inside
  have query := createQuery_bits asked bits' fun i inside => read4_bits size' inside
  have taken : ((bitsOf addr.sinAddr).take addr.prefixLen).length = addr.prefixLen := by
    rw [List.length_take]
    omega
  rw [length] at entry
  rw [matchesNetwork_iff (by omega) entry (List.length_pos_iff.mp (by omega)) (by omega) bits'
    query]
  exact take_prefix_iff (by omega) (by omega)

/-- A network of IPv6 contains the addresses that start as it does once its last word is
laid over their first one. -/
theorem network_inet6 (valid : addr.isValid = true) (asked : flowAddr.isValid = true)
    (size : addr.sin6Addr.length = 16) (size' : flowAddr.sin6Addr.length = 16)
    (positive : 0 < addr.prefixLen) (fits : addr.prefixLen ≤ 128) :
    matchesNetwork read6 requery6 flowAddr addr = true ↔
      ∀ i < addr.prefixLen, ((bitsOf flowAddr.sin6Addr).getD i false ||
        carried addr.sin6Addr addr.prefixLen i) = (bitsOf addr.sin6Addr).getD i false := by
  have length := entryLength_pos (N := 128) positive
  have bits : (bitsOf addr.sin6Addr).length = 128 := by rw [length_bitsOf, size]
  have entry := create_bits valid bits (length.trans_le fits) (by omega) fun i inside =>
    read6_bits size inside
  have taken : ((bitsOf addr.sin6Addr).take addr.prefixLen).length = addr.prefixLen := by
    rw [List.length_take]
    omega
  rw [length] at entry
  have full : (queryBits addr.sin6Addr flowAddr.sin6Addr addr.prefixLen).length = 128 := by
    simp [queryBits]
  have query := @createQuery_bits 128
    (requery6 (ofBits 128 ((bitsOf addr.sin6Addr).take addr.prefixLen)).addr) flowAddr _ asked full
    fun i inside => by
      rw [requery6_bits, getMsbD_ofBits (by omega), read6_bits size' inside,
        getD_queryBits _ _ _ inside, Bool.or_comm, carried, Nat.add_comm i 96]
      by_cases before : 96 + i < addr.prefixLen
      · simp [List.getD_eq_getElem?_getD, List.getElem?_take_of_lt, before]
      · simp [List.getD_eq_getElem?_getD, before]
  rw [matchesNetwork_iff (by omega) entry (List.length_pos_iff.mp (by omega)) (by omega) full
    query, take_prefix_iff (by omega) (by omega)]
  refine forall_congr' fun i => forall_congr' fun inside => ?_
  rw [getD_queryBits _ _ _ (by omega)]

end

/-! ## Both -/

section
variable {pton : Pton} {text : List Char} {bytes : List UInt8} {written : Option Nat}

/-- A literal is cut at its slash, and both parts are read. -/
theorem parts_of_literal {family : Family} (literal : Literal pton family bytes text written)
    (fits : written.getD 0 ≤ 128) :
    reads pton family (text.takeWhile (· ≠ '/')) = some bytes ∧
      suffixLength (text.dropWhile (· ≠ '/')) = some (written.getD 0) := by
  cases literal with
  | host plain read =>
    obtain ⟨whole, gone⟩ := cut_host plain
    rw [whole, gone]
    exact ⟨read, rfl⟩
  | @network host digits n plain read numeral =>
    obtain ⟨whole, left⟩ := cut_slash digits plain
    have small : n ≤ 128 := fits
    rw [whole, left]
    exact ⟨read, suffixLength_slash (stoul_numeral numeral (by omega)) small⟩

/-- What `ndAddr` makes of a literal. -/
theorem ofText_literal (literal : Literal pton .inet bytes text written)
    (fits : written.getD 0 ≤ 32) : Addr.ofText pton text =
      { family := .inet, sinAddr := bytes, prefixLen := written.getD 0 } := by
  obtain ⟨read, length⟩ := parts_of_literal literal (by omega)
  exact ofText_inet length read fits

theorem ofText_literal6 (apart : Apart pton) (literal : Literal pton .inet6 bytes text written)
    (fits : written.getD 0 ≤ 128) : Addr.ofText pton text =
      { family := .inet6, sin6Addr := bytes, prefixLen := written.getD 0 } := by
  obtain ⟨read, length⟩ := parts_of_literal literal fits
  refine ofText_inet6 length ?_ read fits
  cases read4 : pton.inet (text.takeWhile (· ≠ '/')) with
  | none => rfl
  | some bytes' =>
    rw [reads, apart.inet _ bytes' read4] at read
    cases read

end

section
variable {s : ExprServices} {flowAddr addr : Addr} {text : List Char}

/-- A prefix between nothing and the whole address makes a network. -/
theorem isNetwork_iff {a : Addr} (ip : a.isIP = true) :
    a.isNetwork = true ↔ 0 < a.prefixLen ∧ a.prefixLen < width a.family := by
  unfold Addr.isNetwork Addr.hasValidPrefix
  cases kind : a.family with
  | inet =>
    simp [width]
    omega
  | inet6 =>
    simp [width]
    omega
  | unspec => simp [Addr.isIP, kind] at ip
  | packet => simp [Addr.isIP, kind] at ip

/-- Without a network the addresses are compared. -/
theorem isAddrEqual_whole (made : Addr.ofText s.pton text = addr)
    (ip : addr.isIP = true) (whole : addr.isNetwork = false) :
    isAddrEqual s flowAddr text = true ↔
      flowAddr.family = addr.family ∧ addr.getAddress = flowAddr.getAddress := by
  unfold isAddrEqual
  rw [made]
  cases kind : addr.family <;> cases kind' : flowAddr.family <;>
    simp [Addr.isValid, Addr.isIP, Addr.isIPv4, Addr.isIPv6, Addr.getAddress, kind, kind',
      whole] at ip ⊢

/-- A network is looked up. -/
theorem isAddrEqual_network (made : Addr.ofText s.pton text = addr) (inet : addr.family = .inet)
    (network : addr.isNetwork = true) : isAddrEqual s flowAddr text = true ↔
      flowAddr.family = .inet ∧ matchesNetwork read4 (fun _ => read4) flowAddr addr = true := by
  unfold isAddrEqual
  rw [made]
  cases kind : flowAddr.family <;>
    simp [Addr.isValid, Addr.isIP, Addr.isIPv4, Addr.isIPv6, inet, kind, network]

theorem isAddrEqual_network6 (made : Addr.ofText s.pton text = addr) (inet6 : addr.family = .inet6)
    (network : addr.isNetwork = true) : isAddrEqual s flowAddr text = true ↔
      flowAddr.family = .inet6 ∧ matchesNetwork read6 requery6 flowAddr addr = true := by
  unfold isAddrEqual
  rw [made]
  cases kind : flowAddr.family <;>
    simp [Addr.isValid, Addr.isIP, Addr.isIPv4, Addr.isIPv6, inet6, kind, network]

/-- What is no IP address is equal to none. -/
theorem isAddrEqual_other (other : s.pton.inet (text.takeWhile (· ≠ '/')) = none)
    (other6 : s.pton.inet6 (text.takeWhile (· ≠ '/')) = none) :
    isAddrEqual s flowAddr text = false := by
  have noIp : (Addr.ofText s.pton text).isIP = false := by
    unfold Addr.ofText
    cases length : suffixLength (text.dropWhile (· ≠ '/')) with
    | none =>
      rw [create_unnumbered length]
      rfl
    | some prefixLen =>
      obtain ⟨mac, none⟩ := create_other length other other6
      by_cases read : ReadAsMac text
      · obtain ⟨hwAddr, -, made⟩ := mac read
        rw [made]
        rfl
      · rw [none read]
        rfl
  unfold isAddrEqual
  simp [noIp]

end

/-! ## Tokens -/

theorem plain_of_part {p : Char → Bool} {text : List Char} (other : p '/' = false)
    (behind : '/' ∉ text.drop (text.takeWhile p).length) : '/' ∉ text := by
  intro slash
  rw [← List.prefix_iff_eq_append.mp (List.takeWhile_prefix (l := text) p)] at slash
  rcases List.mem_append.mp slash with first | last
  · have taken := List.mem_takeWhile_imp first
    rw [other] at taken
    cases taken
  · exact behind last

theorem plain_of_addrIpv4 {n : Nat} {text : List Char} (accepted : FlowTokens.addrIpv4 n text) :
    '/' ∉ text := by
  induction n generalizing text with
  | zero => cases accepted
  | succ n ih =>
    unfold FlowTokens.addrIpv4 at accepted
    simp only [Bool.and_eq_true] at accepted
    apply plain_of_part (p := FlowTokens.digit) (by decide)
    intro slash
    have left := accepted.2
    cases behind : text.drop (text.takeWhile FlowTokens.digit).length with
    | nil =>
      rw [behind] at slash
      cases slash
    | cons c rest =>
      rw [behind] at slash left
      simp only [Bool.and_eq_true, beq_iff_eq] at left
      obtain ⟨rfl, more⟩ := left
      rcases List.mem_cons.mp slash with same | later
      · cases same
      · exact ih more later

theorem plain_of_addrIpv6 {text : List Char} (accepted : FlowTokens.addrIpv6 text) :
    '/' ∉ text := by
  unfold FlowTokens.addrIpv6 at accepted
  simp only [Bool.and_eq_true] at accepted
  apply plain_of_part (p := FlowTokens.hexDigit) (by decide)
  intro slash
  have left := accepted.2
  cases behind : text.drop (text.takeWhile FlowTokens.hexDigit).length with
  | nil =>
    rw [behind] at slash
    cases slash
  | cons c rest =>
    rw [behind] at slash left
    simp only [Bool.and_eq_true, beq_iff_eq, List.all_eq_true] at left
    obtain ⟨rfl, more⟩ := left
    rcases List.mem_cons.mp slash with same | later
    · cases same
    · exact absurd (more _ later) (by decide)

/-- What stands behind the slash of a token are digits. -/
theorem digits_of_withPrefix {addr : List Char → Bool} {host digits : List Char}
    (plain : '/' ∉ host) (accepted : FlowTokens.withPrefix addr (host ++ '/' :: digits)) :
    digits ≠ [] ∧ ∀ c ∈ digits, c.isDigit := by
  have other : (fun c => c != '/') = fun c => decide (c ≠ '/') := by
    funext c
    rw [bne, beq_eq_decide, decide_not]
  unfold FlowTokens.withPrefix at accepted
  rw [other, (cut_slash digits plain).1] at accepted
  simp only [List.drop_left, List.tail_cons, Bool.and_eq_true, bne_iff_ne,
    List.all_eq_true] at accepted
  refine ⟨accepted.1.2, fun c member => ?_⟩
  have digit := accepted.2 c member
  unfold FlowTokens.digit at digit
  simpa [Char.isDigit, Char.le_def] using digit

/-- What an address token writes. -/
theorem addrIp_of_mem {text found : List Char}
    (mem : .value (.addrIp found) ∈ flowTokens text) : '/' ∉ found ∨
      FlowTokens.withPrefix (FlowTokens.addrIpv4 4) found ∨
      FlowTokens.withPrefix FlowTokens.addrIpv6 found := by
  have spelled : ∀ entry ∈ FlowTokens.words, entry.2 ≠ .value (.addrIp found) := by
    simp [FlowTokens.words]
  rcases accepted_of_mem mem spelled with ⟨b, is⟩ | ⟨pattern, listed, text, accepts, is⟩
  · cases is
  · simp only [List.mem_cons, List.not_mem_nil, or_false] at listed
    rcases listed with rfl | rfl | rfl | rfl | rfl | rfl | rfl | rfl | rfl
    all_goals first | cases is; done | skip
    · cases is
      exact .inr (.inl accepts)
    · cases is
      exact .inl (plain_of_addrIpv4 accepts)
    · cases is
      obtain rfl := eq_of_beq accepts
      exact .inl (by decide)
    · cases is
      exact .inr (.inr accepts)
    · cases is
      exact .inl (plain_of_addrIpv6 accepts)

/-! ## Comparison -/

section
variable {pton : Pton} {text : List Char} {family : Family} {bytes : List UInt8}
  {written : Option Nat}

theorem reads_unique (apart : Apart pton) {host : List Char} {family' : Family}
    {bytes' : List UInt8} (read : reads pton family host = some bytes)
    (read' : reads pton family' host = some bytes') : family = family' ∧ bytes = bytes' := by
  cases family <;> cases family' <;> simp only [reads] at read read'
  all_goals first | cases read | cases read' | skip
  · rw [read] at read'
    exact ⟨rfl, Option.some.inj read'⟩
  · rw [apart.inet host bytes read] at read'
    cases read'
  · rw [apart.inet host bytes' read'] at read
    cases read
  · rw [read] at read'
    exact ⟨rfl, Option.some.inj read'⟩

/-- A text writes one address, with one prefix. -/
theorem literal_unique (apart : Apart pton) {family' : Family} {bytes' : List UInt8}
    {written' : Option Nat} (first : Literal pton family bytes text written)
    (second : Literal pton family' bytes' text written') :
    family = family' ∧ bytes = bytes' ∧ written = written' := by
  obtain ⟨plain, read⟩ | ⟨plain, read, numeral⟩ := first
  · cases second with
    | host plain' read' =>
      obtain ⟨rfl, rfl⟩ := reads_unique apart read read'
      exact ⟨rfl, rfl, rfl⟩
    | network plain' read' numeral' => exact absurd (by simp) plain
  · generalize whole : _ ++ '/' :: _ = text at second
    obtain ⟨plain', read'⟩ | ⟨plain', read', numeral'⟩ := second
    · rw [← whole] at plain'
      exact absurd (by simp) plain'
    · obtain ⟨rfl, rfl⟩ := cut_unique plain plain' whole
      obtain ⟨rfl, rfl⟩ := reads_unique apart read read'
      exact ⟨rfl, rfl, congrArg some (numeral.2.2.symm.trans numeral'.2.2)⟩

theorem ip_of_literal (literal : Literal pton family bytes text written) :
    family = .inet ∨ family = .inet6 := by
  have some {host : List Char} (read : reads pton family host = some bytes) :
      family = .inet ∨ family = .inet6 := by
    cases family with
    | inet => exact .inl rfl
    | inet6 => exact .inr rfl
    | unspec => cases read
    | packet => cases read
  cases literal with
  | host plain read => exact some read
  | network plain read numeral => exact some read

theorem made_literal (apart : Apart pton) (literal : Literal pton family bytes text written)
    (fits : written.getD 0 ≤ width family) : (Addr.ofText pton text).family = family ∧
      (Addr.ofText pton text).prefixLen = written.getD 0 ∧
      (Addr.ofText pton text).getAddress = bytes := by
  rcases ip_of_literal literal with rfl | rfl
  · rw [ofText_literal literal fits]
    exact ⟨rfl, rfl, rfl⟩
  · rw [ofText_literal6 apart literal fits]
    exact ⟨rfl, rfl, rfl⟩

theorem length_of_reads (sizes : pton.Sized) {host : List Char}
    (read : reads pton family host = some bytes) : 8 * bytes.length = width family := by
  cases family with
  | inet => rw [sizes.inet host bytes read, width]
  | inet6 => rw [sizes.inet6 host bytes read, width]
  | unspec => cases read
  | packet => cases read

theorem length_of_literal (sizes : pton.Sized)
    (literal : Literal pton family bytes text written) : 8 * bytes.length = width family := by
  cases literal with
  | host plain read => exact length_of_reads sizes read
  | network plain read numeral => exact length_of_reads sizes read

theorem length_of_sized {addr : Addr} (sized : Sized addr) (ip : addr.isIP = true) :
    8 * addr.getAddress.length = width addr.family := by
  unfold Addr.getAddress width
  cases kind : addr.family with
  | inet => simp [sized.1 kind]
  | inet6 => simp [sized.2 kind]
  | unspec => simp [Addr.isIP, kind] at ip
  | packet => simp [Addr.isIP, kind] at ip

end

section
variable {s : ExprServices} {text : List Char} {family : Family} {bytes : List UInt8}
  {written : Option Nat} {flowAddr : Addr} (apart : Apart s.pton) (sizes : s.pton.Sized)
  (sized : Sized flowAddr)
include apart

/-- A whole address is compared, also where the prefix length is zero. -/
theorem equal_whole (literal : Literal s.pton family bytes text written)
    (fits : written.getD 0 ≤ width family)
    (whole : written.getD 0 = 0 ∨ written.getD 0 = width family) :
    isAddrEqual s flowAddr text = true ↔
      flowAddr.family = family ∧ flowAddr.getAddress = bytes := by
  obtain ⟨made, length, address⟩ := made_literal apart literal fits
  have ip : (Addr.ofText s.pton text).isIP = true := by
    unfold Addr.isIP
    rw [made]
    rcases ip_of_literal literal with rfl | rfl <;> rfl
  have single : (Addr.ofText s.pton text).isNetwork = false := by
    rw [← Bool.not_eq_true, isNetwork_iff ip, length, made]
    omega
  rw [isAddrEqual_whole rfl ip single, made, address]
  exact and_congr_right' eq_comm

include sizes sized

theorem equal_inet {n : Nat} (literal : Literal s.pton .inet bytes text (some n))
    (positive : 0 < n) (less : n < 32) : isAddrEqual s flowAddr text = true ↔
      flowAddr.family = .inet ∧ Agree flowAddr.getAddress bytes 0 n := by
  have made := ofText_literal literal (Nat.le_of_lt less)
  have network : (Addr.ofText s.pton text).isNetwork = true := by
    rw [isNetwork_iff (by rw [made]; rfl), made]
    exact ⟨positive, less⟩
  rw [isAddrEqual_network made rfl (made ▸ network)]
  refine and_congr_right fun inet => ?_
  have size : bytes.length = 4 := by
    have bits := length_of_literal sizes literal
    rw [width] at bits
    omega
  rw [network_inet rfl (by rw [Addr.isValid, inet]; rfl) size
    (sized.1 inet) positive (Nat.le_of_lt less), Addr.getAddress, inet]
  exact ⟨fun agree i _ => agree i, fun agree i => agree i (Nat.zero_le i)⟩

theorem equal_inet6 {n : Nat} (literal : Literal s.pton .inet6 bytes text (some n))
    (positive : 0 < n) (less : n < 128) : isAddrEqual s flowAddr text = true ↔
      flowAddr.family = .inet6 ∧ ∀ i < n,
        ((bitsOf flowAddr.getAddress).getD i false || carried bytes n i) =
          (bitsOf bytes).getD i false := by
  have made := ofText_literal6 apart literal (Nat.le_of_lt less)
  have network : (Addr.ofText s.pton text).isNetwork = true := by
    rw [isNetwork_iff (by rw [made]; rfl), made]
    exact ⟨positive, less⟩
  rw [isAddrEqual_network6 made rfl (made ▸ network)]
  refine and_congr_right fun inet6 => ?_
  have size : bytes.length = 16 := by
    have bits := length_of_literal sizes literal
    rw [width] at bits
    omega
  rw [network_inet6 rfl (by rw [Addr.isValid, inet6]; rfl) size
    (sized.2 inet6) positive (Nat.le_of_lt less), Addr.getAddress, inet6]
  rfl

omit sizes sized in
/-- Where no bit is carried a prefix of length zero decides. -/
theorem undisturbed_of (literal : Literal s.pton family bytes text written)
    (zero : written = some 0 → flowAddr.family = family → flowAddr.getAddress = bytes)
    (narrow : ∀ n, family = .inet6 → written = some n → flowAddr.family = .inet6 →
      n ≤ 96 ∨ 128 ≤ n) : Undisturbed s.pton text flowAddr := by
  refine ⟨?_, ?_, ?_⟩
  · intro family' bytes' literal' kind
    obtain ⟨rfl, rfl, same⟩ := literal_unique apart literal' literal
    exact zero same.symm kind
  · intro bytes' n' literal' wide less inet6
    obtain ⟨rfl, rfl, same⟩ := literal_unique apart literal' literal
    have := narrow n' rfl same.symm inet6
    omega
  · intro bytes' n' literal' wide less inet6
    obtain ⟨rfl, rfl, same⟩ := literal_unique apart literal' literal
    have := narrow n' rfl same.symm inet6
    omega

/-- Between nothing and a whole address, the bits that are carried decide. -/
theorem undisturbed_inet6 {n : Nat} (literal : Literal s.pton .inet6 bytes text (some n))
    (positive : 0 < n) (less : n < 128) (inet6 : flowAddr.family = .inet6) :
    (isAddrEqual s flowAddr text = true ↔ Agree flowAddr.getAddress bytes 0 n) ↔
      Undisturbed s.pton text flowAddr := by
  rw [equal_inet6 apart sizes sized literal positive less]
  have only {bytes' : List UInt8} {n' : Nat}
      (literal' : Literal s.pton .inet6 bytes' text (some n')) : bytes' = bytes ∧ n' = n := by
    obtain ⟨-, rfl, same⟩ := literal_unique apart literal' literal
    exact ⟨rfl, Option.some.inj same⟩
  have zero : ∀ family bytes, Literal s.pton family bytes text (some 0) →
      flowAddr.family = family → flowAddr.getAddress = bytes := by
    intro family' bytes' literal' _
    obtain ⟨-, -, same⟩ := literal_unique apart literal' literal
    cases same
    cases positive
  have behind (i : Nat) (high : 32 ≤ i) : carried bytes n i = false := by
    unfold carried
    rw [decide_eq_false (by omega), Bool.false_and]
  constructor
  · intro same
    refine ⟨zero, ?_, ?_⟩
    · intro bytes' n' literal' wide _ _ agree i inside carry
      obtain ⟨rfl, rfl⟩ := only literal'
      have bit := (same.mpr agree).2 i (by omega)
      rw [← bit, carry, Bool.or_true]
    · intro bytes' n' literal' wide _ _ agree differ
      obtain ⟨rfl, rfl⟩ := only literal'
      by_contra none
      push Not at none
      apply differ
      have contained := same.mp ⟨inet6, fun i inside => ?_⟩
      · exact fun i first last => contained i first (by omega)
      · by_cases low : i < 32
        · exact none i low
        · rw [behind i (by omega), Bool.or_false]
          exact agree i (by omega) inside
  · intro undisturbed
    constructor
    · rintro ⟨-, laid⟩
      have agree : Agree flowAddr.getAddress bytes 32 n := by
        intro i high inside
        have bit := laid i inside
        rwa [behind i high, Bool.or_false] at bit
      by_cases wide : 96 < n
      · have first : Agree flowAddr.getAddress bytes 0 32 := by
          by_contra differ
          obtain ⟨i, low, other⟩ := undisturbed.outside bytes n literal wide less inet6 agree differ
          exact other (laid i (by omega))
        intro i _ inside
        by_cases low : i < 32
        · exact first i (Nat.zero_le i) low
        · exact agree i (by omega) inside
      · intro i _ inside
        have bit := laid i inside
        rwa [carried, decide_eq_false (by omega), Bool.false_and, Bool.or_false] at bit
    · intro agree
      refine ⟨inet6, fun i inside => ?_⟩
      rw [agree i (Nat.zero_le i) inside]
      by_cases carry : carried bytes n i = true
      · have wide : 96 < n := by
          unfold carried at carry
          simp only [Bool.and_eq_true, decide_eq_true_eq] at carry
          omega
        have low : i < 32 := by
          by_contra high
          rw [behind i (by omega)] at carry
          cases carry
        rw [undisturbed.inside bytes n literal wide less inet6 agree i low carry, Bool.true_or]
      · rw [Bool.not_eq_true] at carry
        rw [carry, Bool.or_false]

end

/-- **Comparison** with a literal finds exactly the addresses that it contains if and only
if neither a prefix of length zero nor a carried bit decides. -/
theorem contains_iff {s : ExprServices} (apart : Apart s.pton) (sizes : s.pton.Sized)
    {flowAddr : Addr} (sized : Sized flowAddr) {expression text : List Char}
    (token : .value (.addrIp text) ∈ flowTokens expression) (fits : Fits s.pton text) :
    (isAddrEqual s flowAddr text = true ↔ Contains s.pton text flowAddr) ↔
      Undisturbed s.pton text flowAddr := by
  by_cases named : ∃ family bytes written, Literal s.pton family bytes text written
  · obtain ⟨family, bytes, written, literal⟩ := named
    have contains : Contains s.pton text flowAddr ↔ flowAddr.family = family ∧
        Agree flowAddr.getAddress bytes 0 (written.getD (width family)) := by
      constructor
      · rintro ⟨family', bytes', written', literal', kind, agree⟩
        obtain ⟨rfl, rfl, rfl⟩ := literal_unique apart literal' literal
        exact ⟨kind, agree⟩
      · rintro ⟨kind, agree⟩
        exact ⟨family, bytes, written, literal, kind, agree⟩
    have whole (kind : flowAddr.family = family) :
        Agree flowAddr.getAddress bytes 0 (width family) ↔ flowAddr.getAddress = bytes := by
      have size := length_of_literal sizes literal
      have ip : flowAddr.isIP = true := by
        unfold Addr.isIP
        rw [kind]
        rcases ip_of_literal literal with rfl | rfl <;> rfl
      have size' := length_of_sized sized ip
      rw [kind] at size'
      exact agree_whole (by omega) size'.symm
    rw [contains]
    cases written with
    | none =>
      rw [equal_whole apart literal (Nat.zero_le _) (.inl rfl), Option.getD_none]
      refine iff_of_true (and_congr_right fun kind => (whole kind).symm) ?_
      exact undisturbed_of apart literal (by rintro ⟨⟩) (by rintro n - ⟨⟩)
    | some n =>
      have fits := fits family bytes n literal
      rw [Option.getD_some]
      by_cases zero : n = 0
      · subst zero
        rw [equal_whole apart literal (Nat.zero_le _) (.inl rfl)]
        constructor
        · intro same
          refine undisturbed_of apart literal (fun _ kind => ?_) ?_
          · exact (same.mpr ⟨kind, fun i _ less => absurd less (Nat.not_lt_zero i)⟩).2
          · rintro n - ⟨⟩ -
            exact .inl (Nat.zero_le 96)
        · intro undisturbed
          refine and_congr_right fun kind => iff_of_true ?_ fun i _ less =>
            absurd less (Nat.not_lt_zero i)
          exact undisturbed.zero family bytes literal kind
      · have nonzero : some n = some 0 → flowAddr.family = family →
            flowAddr.getAddress = bytes := fun same => absurd (Option.some.inj same) zero
        by_cases full : n = width family
        · rw [equal_whole apart literal fits (.inr full), full]
          refine iff_of_true (and_congr_right fun kind => (whole kind).symm) ?_
          refine undisturbed_of apart literal nonzero ?_
          rintro n' rfl ⟨⟩ -
          exact .inr (Nat.le_of_eq full.symm)
        · rcases ip_of_literal literal with rfl | rfl
          · rw [equal_inet apart sizes sized literal (by omega) (by simp only [width] at *; omega)]
            refine iff_of_true Iff.rfl (undisturbed_of apart literal nonzero ?_)
            rintro n' ⟨⟩
          · have less : n < 128 := by
              simp only [width] at *
              omega
            by_cases inet6 : flowAddr.family = .inet6
            · rw [← undisturbed_inet6 apart sizes sized literal (by omega) less inet6,
                and_iff_right inet6]
            · rw [equal_inet6 apart sizes sized literal (by omega) less]
              refine iff_of_true ?_ (undisturbed_of apart literal nonzero fun n' _ _ kind =>
                absurd kind inet6)
              exact iff_of_false (fun both => inet6 both.1) fun both => inet6 both.1
  · -- what writes no address is no address
    have free {family : Family} {bytes : List UInt8} {written : Option Nat}
        (literal : Literal s.pton family bytes text written) : False :=
      named ⟨_, _, _, literal⟩
    have other (family : Family) : reads s.pton family (text.takeWhile (· ≠ '/')) = none := by
      cases read : reads s.pton family (text.takeWhile (· ≠ '/')) with
      | none => rfl
      | some bytes =>
        exfalso
        by_cases slash : '/' ∈ text
        · obtain ⟨host, digits, rfl, plain⟩ := List.eq_append_cons_of_mem slash
          rw [(cut_slash digits plain).1] at read
          have numeral : digits ≠ [] ∧ ∀ c ∈ digits, c.isDigit := by
            rcases addrIp_of_mem token with bare | accepted | accepted
            · exact absurd slash bare
            · exact digits_of_withPrefix plain accepted
            · exact digits_of_withPrefix plain accepted
          exact free (.network plain read ⟨numeral.1, numeral.2, rfl⟩)
        · rw [(cut_host slash).1] at read
          exact free (.host slash read)
    rw [isAddrEqual_other (other .inet) (other .inet6)]
    refine iff_of_true (iff_of_false (by rintro ⟨⟩) ?_) ⟨?_, ?_, ?_⟩
    · rintro ⟨family, bytes, written, literal, -⟩
      exact free literal
    · exact fun family bytes literal => (free literal).elim
    · exact fun bytes n literal => (free literal).elim
    · exact fun bytes n literal => (free literal).elim

/-! ## Plain forms -/

/-- The services of an agent that reads the plain forms of addresses. -/
def plainServices : ExprServices := { sampleServices with pton := NetworkTexts.plainPton }

theorem plain_sized : NetworkTexts.plainPton.Sized where
  inet _ _ read := (NetworkTexts.readDotted_text read).1
  inet6 _ _ read := (NetworkTexts.readColoned_text read).1

def tenHost : Addr := { family := .inet, sinAddr := [10, 1, 2, 3] }

/-- 10.1.2.3 is found in 10.0.0.0/8, where it is. -/
theorem ten_contains : isAddrEqual plainServices tenHost "10.0.0.0/8".toList = true ↔
    Contains NetworkTexts.plainPton "10.0.0.0/8".toList tenHost := by
  have ten : Literal plainServices.pton .inet [10, 0, 0, 0] "10.0.0.0/8".toList (some 8) :=
    @Literal.network _ _ _ "10.0.0.0".toList "8".toList 8 (by decide) (by decide +kernel)
      ⟨by decide, by simp, by decide⟩
  apply (@contains_iff plainServices apart_plain plain_sized tenHost
    ⟨fun _ => rfl, by rintro ⟨⟩⟩ "local_ip == 10.0.0.0/8;".toList _ (by decide +kernel) ?_).mpr
  · exact undisturbed_of apart_plain ten (by rintro ⟨⟩) (by rintro n ⟨⟩)
  · intro family bytes n literal
    obtain ⟨rfl, -, same⟩ := literal_unique apart_plain literal ten
    obtain rfl := Option.some.inj same
    decide

/-- 2001:db8::ffff:5 in full. -/
def dbHost : Addr :=
  { family := .inet6, sin6Addr := [32, 1, 13, 184, 0, 0, 0, 0, 0, 0, 0, 0, 255, 255, 0, 5] }

/-- 0.0.0.0/0 does not contain 10.1.2.3, and 2001:db8::ffff:0/112 not 2001:db8::ffff:5. -/
theorem networks_missed : ¬ (isAddrEqual plainServices tenHost "0.0.0.0/0".toList = true ↔
      Contains NetworkTexts.plainPton "0.0.0.0/0".toList tenHost) ∧
    ¬ (isAddrEqual plainServices dbHost "2001:db8:0:0:0:0:ffff:0/112".toList = true ↔
      Contains NetworkTexts.plainPton "2001:db8:0:0:0:0:ffff:0/112".toList dbHost) := by
  constructor
  · intro same
    have missed : isAddrEqual plainServices tenHost "0.0.0.0/0".toList = false := by
      decide +kernel
    have found := same.mpr ⟨.inet, [0, 0, 0, 0], some 0,
      @Literal.network _ _ _ "0.0.0.0".toList "0".toList 0 (by decide) (by decide +kernel)
        ⟨by decide, by simp, by decide⟩,
      rfl, fun i _ less => absurd less (Nat.not_lt_zero i)⟩
    rw [missed] at found
    cases found
  · intro same
    have missed : isAddrEqual plainServices dbHost
        "2001:db8:0:0:0:0:ffff:0/112".toList = false := by
      decide +kernel
    have bits : ∀ i < 112, (bitsOf dbHost.getAddress).getD i false =
        (bitsOf [32, 1, 13, 184, 0, 0, 0, 0, 0, 0, 0, 0, 255, 255, 0, 0]).getD i false := by
      decide +kernel
    have found := same.mpr ⟨.inet6, [32, 1, 13, 184, 0, 0, 0, 0, 0, 0, 0, 0, 255, 255, 0, 0],
      some 112, @Literal.network _ _ _ "2001:db8:0:0:0:0:ffff:0".toList "112".toList 112
        (by decide) (by decide +kernel) ⟨by decide, by simp, by decide⟩,
      rfl, fun i _ inside => bits i inside⟩
    rw [missed] at found
    cases found

end NetifyAgent.FlowExprAddrs
