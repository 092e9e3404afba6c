import NetifyAgent.RadixNetworks
import NetifyAgent.RadixTable
import Mathlib.Data.List.TakeWhile

/-! The network tables of `ndApplications`. Calls of `AddNetwork` are read as
updates of one map from networks to application ids; `Find` answers with the
longest stored network that contains an address, as long as no call adds a
network that is eclipsed by those inside it. -/
namespace NetifyAgent

/-- `ND_APP_UNKNOWN`. -/
def ndAppUnknown : Nat := 0

/-- `app_networks4` and `app_networks6` of `ndApplications`. -/
structure Applications where
  networks4 : RadixTree 32 Nat := {}
  networks6 : RadixTree 128 Nat := {}
  deriving DecidableEq

namespace Applications
open RadixNetworkEntry

/-- `ndApplications::AddNetwork` and what it returns. -/
def addNetwork (pton : Pton) (apps : Applications) (id : Nat) (network : List Char) :
    Applications × Bool :=
  let addr := Addr.ofText pton network
  if ¬ addr.isValid ∨ ¬ addr.isIP then (apps, false)
  else if addr.isIPv4 then
    match (create read4 addr).map (apps.networks4.assign · id) with
    | some (.ok networks4) => ({ apps with networks4 }, true)
    | _ => (apps, false)
  else
    match (create read6 addr).map (apps.networks6.assign · id) with
    | some (.ok networks6) => ({ apps with networks6 }, true)
    | _ => (apps, false)

/-- `ndApplications::Find` of an address. -/
def find (apps : Applications) (addr : Addr) : Nat :=
  if ¬ addr.isValid ∨ ¬ addr.isIP then ndAppUnknown
  else
    let found :=
      if addr.isIPv4 then (createQuery read4 addr).bind apps.networks4.longestMatch |>.map Prod.snd
      else none
    let found :=
      if found = none ∧ addr.isIPv6 then
        (createQuery read6 addr).bind apps.networks6.longestMatch |>.map Prod.snd
      else found
    found.getD ndAppUnknown

end Applications

/-! ## Networks and calls -/

namespace ApplicationNetworks
open RadixNetworkEntry RadixNetworks RadixKeys RadixInsert RadixTable Trie

/-- A network: its family and the bits of its prefix. -/
abbrev Network := Family × List Bool

/-- A text names a network: a host that `inet_pton` reads, alone or with a prefix
length from one up to the width. -/
inductive Names (pton : Pton) : List Char → Network → Prop
  | host {host : List Char} {bytes : List UInt8} (plain : '/' ∉ host)
      (read : pton.inet host = some bytes) (width : bytes.length = 4) :
      Names pton host (.inet, bitsOf bytes)
  | inet {host digits : List Char} {bytes : List UInt8} {length : Nat} (plain : '/' ∉ host)
      (read : pton.inet host = some bytes) (width : bytes.length = 4)
      (number : stoul 10 digits = some length) (positive : 0 < length) (fits : length ≤ 32) :
      Names pton (host ++ '/' :: digits) (.inet, (bitsOf bytes).take length)
  | host6 {host : List Char} {bytes : List UInt8} (plain : '/' ∉ host)
      (other : pton.inet host = none) (read : pton.inet6 host = some bytes)
      (width : bytes.length = 16) : Names pton host (.inet6, bitsOf bytes)
  | inet6 {host digits : List Char} {bytes : List UInt8} {length : Nat} (plain : '/' ∉ host)
      (other : pton.inet host = none) (read : pton.inet6 host = some bytes)
      (width : bytes.length = 16) (number : stoul 10 digits = some length) (positive : 0 < length)
      (fits : length ≤ 128) : Names pton (host ++ '/' :: digits) (.inet6, (bitsOf bytes).take length)

/-- A call of `AddNetwork` and the network that its text names. -/
structure Call where
  id : Nat
  text : List Char
  network : Network

/-- The id last stored for each network. -/
def lastStored (calls : List Call) : Network → Option Nat :=
  calls.foldl (fun stored call => Function.update stored call.network (some call.id)) fun _ => none

/-- The tables after some calls. -/
def run (pton : Pton) (calls : List Call) : Applications :=
  calls.foldl (fun apps call => (apps.addNetwork pton call.id call.text).1) {}

/-- What is stored for the networks of an address's family. -/
def family (stored : Network → Option Nat) (addr : Addr) : List Bool → Option Nat :=
  fun start => stored (addr.family, start)

/-- The calls all succeed, and `Find` answers with the longest match. -/
structure Matches (pton : Pton) (calls : List Call) : Prop where
  succeed : ∀ before call after, calls = before ++ call :: after →
    ((run pton before).addNetwork pton call.id call.text).2 = true
  finds : ∀ addr, Sized addr → ∃ found,
    IsLongest (family (lastStored calls) addr) (bitsOf addr.getAddress) found ∧
      (run pton calls).find addr = found.getD ndAppUnknown
  unknown : ∀ addr, Sized addr → ((run pton calls).find addr = ndAppUnknown ↔
    ∀ start, start <+: bitsOf addr.getAddress → family (lastStored calls) addr start = none)

/-- No call stores the unknown id, and none adds a network that is eclipsed by
those stored before. -/
def Clear (calls : List Call) : Prop :=
  ∀ before call after, calls = before ++ call :: after → call.id ≠ ndAppUnknown ∧
    ¬ Eclipsed fun x => lastStored before (call.network.1, call.network.2 ++ x)

/-! ## Texts -/

section
variable {pton : Pton} {host digits : List Char}

theorem cut_host (plain : '/' ∉ host) :
    host.takeWhile (· ≠ '/') = host ∧ host.dropWhile (· ≠ '/') = [] := by
  have all (c : Char) (member : c ∈ host) : decide (c ≠ '/') = true :=
    decide_eq_true fun same => plain (same ▸ member)
  exact ⟨List.takeWhile_eq_self_iff.mpr all, List.dropWhile_eq_nil_iff.mpr all⟩

theorem cut_slash (digits : List Char) (plain : '/' ∉ host) :
    (host ++ '/' :: digits).takeWhile (· ≠ '/') = host ∧
      (host ++ '/' :: digits).dropWhile (· ≠ '/') = '/' :: digits := by
  have all (c : Char) (member : c ∈ host) : decide (c ≠ '/') = true :=
    decide_eq_true fun same => plain (same ▸ member)
  rw [List.takeWhile_append_of_pos all, List.dropWhile_append_of_pos all]
  simp

/-- An address that stands for a network of its family. -/
structure Stands (addr : Addr) (network : Network) : Prop where
  nonempty : network.2 ≠ []
  inet : network.1 = .inet → addr.family = .inet ∧ network.2.length ≤ 32 ∧
    create read4 addr = some (ofBits 32 network.2)
  inet6 : network.1 = .inet6 → addr.family = .inet6 ∧ network.2.length ≤ 128 ∧
    create read6 addr = some (ofBits 128 network.2)
  ip : network.1 = .inet ∨ network.1 = .inet6

theorem stands_inet (addr : Addr) (family : addr.family = .inet) (width : addr.sinAddr.length = 4)
    (fits : entryLength 32 addr.prefixLen ≤ 32) :
    Stands addr (.inet, (bitsOf addr.sinAddr).take (entryLength 32 addr.prefixLen)) := by
  have valid : addr.isValid = true := by
    unfold Addr.isValid
    rw [family]
    rfl
  have bits : (bitsOf addr.sinAddr).length = 32 := by rw [length_bitsOf, width]
  have entry := create_bits valid bits fits (by omega) fun i inside => read4_bits width inside
  refine ⟨?_, fun _ => ⟨family, ?_, entry⟩, (fun other => by cases other), .inl rfl⟩
  · have positive : 0 < entryLength 32 addr.prefixLen := by
      unfold entryLength
      split <;> omega
    rw [← List.length_pos_iff, List.length_take, bits]
    omega
  · rw [List.length_take]
    omega

theorem stands_inet6 (addr : Addr) (family : addr.family = .inet6)
    (width : addr.sin6Addr.length = 16) (fits : entryLength 128 addr.prefixLen ≤ 128) :
    Stands addr (.inet6, (bitsOf addr.sin6Addr).take (entryLength 128 addr.prefixLen)) := by
  have valid : addr.isValid = true := by
    unfold Addr.isValid
    rw [family]
    rfl
  have bits : (bitsOf addr.sin6Addr).length = 128 := by rw [length_bitsOf, width]
  have entry := create_bits valid bits fits (by omega) fun i inside => read6_bits width inside
  refine ⟨?_, (fun other => by cases other), fun _ => ⟨family, ?_, entry⟩, .inr rfl⟩
  · have positive : 0 < entryLength 128 addr.prefixLen := by
      unfold entryLength
      split <;> omega
    rw [← List.length_pos_iff, List.length_take, bits]
    omega
  · rw [List.length_take]
    omega

/-- The prefix length that `Create` reads. -/
def suffixLength (slash : List Char) : Option Nat :=
  if slash = [] then some 0 else (stoul 10 slash.tail).map (· % 256)

theorem ofText_inet {text : List Char} {bytes : List UInt8} {prefixLen : Nat}
    (length : suffixLength (text.dropWhile (· ≠ '/')) = some prefixLen)
    (read : pton.inet (text.takeWhile (· ≠ '/')) = some bytes) (fits : prefixLen ≤ 32) :
    Addr.ofText pton text = { sinAddr := bytes, prefixLen, family := .inet } := by
  have same : (if text.dropWhile (· ≠ '/') = [] then some ({} : Addr).prefixLen
      else (stoul 10 (text.dropWhile (· ≠ '/')).tail).map (· % 256)) = some prefixLen := length
  unfold Addr.ofText Addr.createText
  simp only [same, read]
  rw [if_neg (Nat.not_lt.mpr fits)]

theorem ofText_inet6 {text : List Char} {bytes : List UInt8} {prefixLen : Nat}
    (length : suffixLength (text.dropWhile (· ≠ '/')) = some prefixLen)
    (other : pton.inet (text.takeWhile (· ≠ '/')) = none)
    (read : pton.inet6 (text.takeWhile (· ≠ '/')) = some bytes) (fits : prefixLen ≤ 128) :
    Addr.ofText pton text = { sin6Addr := bytes, prefixLen, family := .inet6 } := by
  have same : (if text.dropWhile (· ≠ '/') = [] then some ({} : Addr).prefixLen
      else (stoul 10 (text.dropWhile (· ≠ '/')).tail).map (· % 256)) = some prefixLen := length
  unfold Addr.ofText Addr.createText
  simp only [same, other, read]
  rw [if_neg (Nat.not_lt.mpr fits)]

theorem suffixLength_slash {length : Nat} (number : stoul 10 digits = some length)
    (fits : length ≤ 128) : suffixLength ('/' :: digits) = some length := by
  unfold suffixLength
  rw [if_neg (by simp), List.tail_cons, number, Option.map_some, Nat.mod_eq_of_lt (by omega)]

theorem entryLength_pos {N length : Nat} (positive : 0 < length) : entryLength N length = length :=
  if_neg (by omega)

/-- A text that names a network is read as an address that stands for it. -/
theorem stands_names {text : List Char} {network : Network} (names : Names pton text network) :
    Stands (Addr.ofText pton text) network := by
  cases names with
  | host plain read width =>
    obtain ⟨whole, gone⟩ := cut_host plain
    rw [ofText_inet (by rw [gone]; rfl) (by rwa [whole]) (Nat.zero_le 32)]
    have stands := stands_inet { sinAddr := _, prefixLen := 0, family := .inet } rfl width
      (Nat.le_refl 32)
    rwa [List.take_of_length_le (by rw [length_bitsOf, width]; exact Nat.le_refl 32)] at stands
  | host6 plain other read width =>
    obtain ⟨whole, gone⟩ := cut_host plain
    rw [ofText_inet6 (by rw [gone]; rfl) (by rwa [whole]) (by rwa [whole]) (Nat.zero_le 128)]
    have stands := stands_inet6 { sin6Addr := _, prefixLen := 0, family := .inet6 } rfl
      width (Nat.le_refl 128)
    rwa [List.take_of_length_le (by rw [length_bitsOf, width]; exact Nat.le_refl 128)] at stands
  | @inet host digits bytes length plain read width number positive fits =>
    obtain ⟨whole, left⟩ := cut_slash digits plain
    rw [ofText_inet (by rw [left]; exact suffixLength_slash number (by omega)) (by rwa [whole]) fits]
    have same := entryLength_pos (N := 32) positive
    have stands := stands_inet { sinAddr := bytes, prefixLen := length, family := .inet } rfl width
      (same.trans_le fits)
    rwa [same] at stands
  | @inet6 host digits bytes length plain other read width number positive fits =>
    obtain ⟨whole, left⟩ := cut_slash digits plain
    rw [ofText_inet6 (by rw [left]; exact suffixLength_slash number fits) (by rwa [whole])
      (by rwa [whole]) fits]
    have same := entryLength_pos (N := 128) positive
    have stands := stands_inet6 { sin6Addr := bytes, prefixLen := length, family := .inet6 } rfl width
      (same.trans_le fits)
    rwa [same] at stands

end

/-! ## Calls -/

/-- The tables store the networks of their families. -/
structure Holds (apps : Applications) (stored : Network → Option Nat) : Prop where
  inet : Stores apps.networks4 fun start => stored (.inet, start)
  inet6 : Stores apps.networks6 fun start => stored (.inet6, start)
  other : ∀ network, network.1 ≠ .inet → network.1 ≠ .inet6 → stored network = none

theorem update_same {V : Type} (stored : Network → Option V) (family : Family) (start : List Bool)
    (v : Option V) : (fun s => Function.update stored (family, start) v (family, s)) =
      Function.update (fun s => stored (family, s)) start v := by
  funext s
  by_cases same : s = start
  · rw [same, Function.update_self, Function.update_self]
  · rw [Function.update_of_ne same, Function.update_of_ne]
    exact fun pair => same (Prod.mk.inj pair).2

theorem update_other {V : Type} (stored : Network → Option V) {family family' : Family}
    (other : family' ≠ family) (start : List Bool) (v : Option V) :
    (fun s => Function.update stored (family, start) v (family', s)) =
      fun s => stored (family', s) := by
  funext s
  rw [Function.update_of_ne]
  exact fun pair => other (Prod.mk.inj pair).1

/-- A call whose network is not eclipsed succeeds and stores it. -/
theorem holds_addNetwork {pton : Pton} {apps : Applications} {stored : Network → Option Nat}
    (holds : Holds apps stored) {text : List Char} {network : Network}
    (names : Names pton text network)
    (visible : ¬ Eclipsed fun x => stored (network.1, network.2 ++ x)) (id : Nat) :
    (apps.addNetwork pton id text).2 = true ∧
      Holds (apps.addNetwork pton id text).1 (Function.update stored network (some id)) := by
  have stands := stands_names names
  obtain ⟨fam, start⟩ := network
  have others : ∀ other : Network, other.1 ≠ .inet → other.1 ≠ .inet6 →
      Function.update stored (fam, start) (some id) other = none := by
    intro other notInet notInet6
    rw [Function.update_of_ne, holds.other other notInet notInet6]
    rintro rfl
    exact stands.ip.elim notInet notInet6
  rcases stands.ip with inet | inet6
  · obtain rfl : fam = .inet := inet
    obtain ⟨family, fits, entry⟩ := stands.inet rfl
    obtain ⟨tree, assigned, stores⟩ := stores_assign (by omega) holds.inet stands.nonempty fits
      visible id
    have added : apps.addNetwork pton id text = ({ apps with networks4 := tree }, true) := by
      unfold Applications.addNetwork
      simp [Addr.isValid, Addr.isIP, Addr.isIPv4, family, entry, assigned]
    rw [added]
    refine ⟨rfl, ?_, ?_, others⟩
    · rw [update_same]
      exact stores
    · rw [update_other stored (by decide)]
      exact holds.inet6
  · obtain rfl : fam = .inet6 := inet6
    obtain ⟨family, fits, entry⟩ := stands.inet6 rfl
    obtain ⟨tree, assigned, stores⟩ := stores_assign (by omega) holds.inet6 stands.nonempty fits
      visible id
    have added : apps.addNetwork pton id text = ({ apps with networks6 := tree }, true) := by
      unfold Applications.addNetwork
      simp [Addr.isValid, Addr.isIP, Addr.isIPv4, family, entry, assigned]
    rw [added]
    refine ⟨rfl, ?_, ?_, others⟩
    · rw [update_other stored (by decide)]
      exact holds.inet
    · rw [update_same]
      exact stores

/-- `Find` answers with the longest match. -/
theorem find_holds {apps : Applications} {stored : Network → Option Nat} (holds : Holds apps stored)
    {addr : Addr} (sized : Sized addr) :
    ∃ found, IsLongest (family stored addr) (bitsOf addr.getAddress) found ∧
      apps.find addr = found.getD ndAppUnknown := by
  cases kind : addr.family with
  | inet =>
    have width := sized.1 kind
    have bits : (bitsOf addr.sinAddr).length = 32 := by rw [length_bitsOf, width]
    have query := createQuery_bits (by simp [Addr.isValid, kind]) bits fun i inside =>
      read4_bits width inside
    have longest := stores_longest (by omega) holds.inet bits
    have address : family stored addr = (fun start => stored (.inet, start)) ∧
        addr.getAddress = addr.sinAddr := by
      unfold family Addr.getAddress
      rw [kind]
      exact ⟨rfl, rfl⟩
    rw [address.1, address.2]
    refine ⟨_, longest, ?_⟩
    unfold Applications.find
    simp [Addr.isValid, Addr.isIP, Addr.isIPv4, Addr.isIPv6, kind, query]
  | inet6 =>
    have width := sized.2 kind
    have bits : (bitsOf addr.sin6Addr).length = 128 := by rw [length_bitsOf, width]
    have query := createQuery_bits (by simp [Addr.isValid, kind]) bits fun i inside =>
      read6_bits width inside
    have longest := stores_longest (by omega) holds.inet6 bits
    have address : family stored addr = (fun start => stored (.inet6, start)) ∧
        addr.getAddress = addr.sin6Addr := by
      unfold family Addr.getAddress
      rw [kind]
      exact ⟨rfl, rfl⟩
    rw [address.1, address.2]
    refine ⟨_, longest, ?_⟩
    unfold Applications.find
    simp [Addr.isValid, Addr.isIP, Addr.isIPv4, Addr.isIPv6, kind, query]
  | unspec =>
    refine ⟨none, .inl ⟨rfl, fun start _ => ?_⟩, by simp [Applications.find, Addr.isValid, kind]⟩
    exact holds.other (addr.family, start) (by simp [kind]) (by simp [kind])
  | packet =>
    refine ⟨none, .inl ⟨rfl, fun start _ => ?_⟩, by simp [Applications.find, Addr.isIP, kind]⟩
    exact holds.other (addr.family, start) (by simp [kind]) (by simp [kind])

theorem lastStored_snoc (calls : List Call) (call : Call) : lastStored (calls ++ [call]) =
    Function.update (lastStored calls) call.network (some call.id) := by
  unfold lastStored
  rw [List.foldl_append]
  rfl

theorem run_snoc (pton : Pton) (calls : List Call) (call : Call) :
    run pton (calls ++ [call]) = ((run pton calls).addNetwork pton call.id call.text).1 := by
  unfold run
  rw [List.foldl_append]
  rfl

theorem clear_start {calls more : List Call} (clear : Clear (calls ++ more)) : Clear calls := by
  intro before call after split
  exact clear before call (after ++ more) (by rw [split]; simp)

/-- After calls of which none adds an eclipsed network the tables store what was
last stored. -/
theorem holds_run {pton : Pton} (calls : List Call)
    (names : ∀ call ∈ calls, Names pton call.text call.network) (clear : Clear calls) :
    Holds (run pton calls) (lastStored calls) := by
  induction calls using List.reverseRecOn with
  | nil => exact ⟨stores_empty, stores_empty, fun _ _ _ => rfl⟩
  | append_singleton calls call ih =>
    have before := ih (fun call member => names call (List.mem_append_left _ member))
      (clear_start clear)
    rw [run_snoc, lastStored_snoc]
    exact (holds_addNetwork before (names call (by simp)) (clear calls call [] rfl).2 call.id).2

/-- A stored id is one of those that were given. -/
theorem lastStored_known {calls : List Call} (clear : Clear calls) {network : Network} {id : Nat}
    (stored : lastStored calls network = some id) : id ≠ ndAppUnknown := by
  induction calls using List.reverseRecOn with
  | nil => cases stored
  | append_singleton calls call ih =>
    rw [lastStored_snoc] at stored
    by_cases same : network = call.network
    · rw [same, Function.update_self] at stored
      exact Option.some.inj stored ▸ (clear calls call [] rfl).1
    · rw [Function.update_of_ne same] at stored
      exact ih (clear_start clear) stored

/-- **Longest-prefix match of the network tables.** -/
theorem addNetwork_matches (pton : Pton) (calls : List Call)
    (names : ∀ call ∈ calls, Names pton call.text call.network) (clear : Clear calls) :
    Matches pton calls := by
  have holds := holds_run calls names clear
  refine ⟨?_, fun addr sized => find_holds holds sized, fun addr sized => ?_⟩
  · intro before call after split
    subst split
    have first := holds_run before (fun call member => names call (List.mem_append_left _ member))
      (clear_start clear)
    exact (holds_addNetwork first (names call (by simp)) (clear before call after rfl).2 call.id).1
  · obtain ⟨found, longest, answer⟩ := find_holds holds sized
    rw [answer]
    rcases longest with ⟨rfl, absent⟩ | ⟨start, inside, stored, some, _⟩
    · exact ⟨fun _ => absent, fun _ => rfl⟩
    · obtain ⟨id, rfl⟩ := Option.ne_none_iff_exists'.mp some
      constructor
      · intro unknown
        exact absurd unknown (lastStored_known clear stored)
      · intro absent
        rw [absent start inside] at stored
        cases stored

/-! ## Two networks of one address -/

/-- `inet_pton` of one host. -/
def tenPton : Pton where
  inet host := if host = "10.0.0.0".toList then some [10, 0, 0, 0] else none
  inet6 _ := none

/-- 10.0.0.0/16. -/
def narrow : Call := ⟨1, "10.0.0.0/16".toList, .inet, (bitsOf [10, 0, 0, 0]).take 16⟩

/-- 10.0.0.0/8. -/
def wide : Call := ⟨2, "10.0.0.0/8".toList, .inet, (bitsOf [10, 0, 0, 0]).take 8⟩

theorem narrow_names : Names tenPton narrow.text narrow.network := by
  show Names tenPton ("10.0.0.0".toList ++ '/' :: "16".toList)
    (.inet, (bitsOf [10, 0, 0, 0]).take 16)
  exact .inet (by decide) rfl rfl rfl (by decide) (by decide)

theorem wide_names : Names tenPton wide.text wide.network := by
  show Names tenPton ("10.0.0.0".toList ++ '/' :: "8".toList) (.inet, (bitsOf [10, 0, 0, 0]).take 8)
  exact .inet (by decide) rfl rfl rfl (by decide) (by decide)

/-- The narrow network after the wide one is stored. -/
theorem wide_then_narrow : Matches tenPton [wide, narrow] := by
  apply addNetwork_matches
  · intro call member
    rcases List.mem_pair.mp member with rfl | rfl
    · exact wide_names
    · exact narrow_names
  · intro before call after split
    cases before with
    | nil =>
      cases split
      exact ⟨by decide, not_eclipsed fun x => rfl⟩
    | cons first before =>
      cases before with
      | nil =>
        cases split
        refine ⟨by decide, not_eclipsed fun x => ?_⟩
        have apart : (narrow.network.1, narrow.network.2 ++ x) ≠ wide.network := by
          intro same
          have lengths := congrArg (fun network => network.2.length) same
          simp [narrow, wide] at lengths
          omega
        exact Function.update_of_ne apart (some wide.id) fun _ => none
      | cons second before => simp at split

/-- The wide network after the narrow one is not found for 10.1.0.1. -/
theorem narrow_then_wide :
    (∀ call ∈ [narrow, wide], Names tenPton call.text call.network) ∧
      ¬ Matches tenPton [narrow, wide] := by
  refine ⟨?_, fun matching => ?_⟩
  · intro call member
    rcases List.mem_pair.mp member with rfl | rfl
    · exact narrow_names
    · exact wide_names
  · have lost := matching.unknown { family := .inet, sinAddr := [10, 1, 0, 1] }
      ⟨fun _ => rfl, fun other => by cases other⟩
    have unknown : (run tenPton [narrow, wide]).find
        { family := .inet, sinAddr := [10, 1, 0, 1] } = ndAppUnknown := by
      decide +kernel
    have none := lost.mp unknown wide.network.2 (by decide)
    exact absurd none (by decide)

end ApplicationNetworks

end NetifyAgent
