import NetifyAgent.NdAddrType
import NetifyAgent.RadixTable
import NetifyAgent.Lib.FirstMatch

/-! `Classify` asks the tables of the interfaces one after the other and takes the
first match. Each table answers with its longest match, but no table's match is
compared with another's: the result is that of the most specific network, in
every order of traversal, exactly if all tables that match report the same. -/
namespace NetifyAgent.NdAddrOrder
open NdAddrType RadixNetworkEntry RadixNetworks RadixKeys RadixTable FirstMatch Trie

/-- The interfaces with a table of the family, in their order of traversal. -/
def names (self : NdAddrType) : Family → List (List Char)
  | .inet => self.ipv4Iface.names
  | .inet6 => self.ipv6Iface.names
  | _ => []

/-- The same tables, traversed in another order. -/
def traversed (self : NdAddrType) (order : List (List Char)) : Family → NdAddrType
  | .inet => { self with ipv4Iface := { self.ipv4Iface with names := order } }
  | .inet6 => { self with ipv6Iface := { self.ipv6Iface with names := order } }
  | _ => self

/-- The longest match in the table of one interface. -/
def ifaceAnswer (self : NdAddrType) (addr : Addr) (ifname : List Char) : Option AddrType :=
  match addr.family with
  | .inet =>
    ((createQuery read4 addr).bind (self.ipv4Iface.table ifname).longestMatch).map Prod.snd
  | .inet6 =>
    ((createQuery read6 addr).bind (self.ipv6Iface.table ifname).longestMatch).map Prod.snd
  | _ => none

/-- The longest match in the table without an interface. -/
def reservedAnswer (self : NdAddrType) (addr : Addr) : Option AddrType :=
  match addr.family with
  | .inet => ((createQuery read4 addr).bind self.ipv4Reserved.longestMatch).map Prod.snd
  | .inet6 => ((createQuery read6 addr).bind self.ipv6Reserved.longestMatch).map Prod.snd
  | _ => none

/-- The addresses that are classified before any table is asked. -/
def special (addr : Addr) : Option AddrType :=
  if addr.family = .inet ∧ addr.sinAddr = [0, 0, 0, 0] then some .atLocal
  else if addr.family = .inet ∧ addr.sinAddr = [0xff, 0xff, 0xff, 0xff] then some .atBroadcast
  else none

/-- What the tables say about an address in the order of traversal. -/
def asked (self : NdAddrType) (addr : Addr) : AddrType :=
  ((first (ifaceAnswer self addr) (report addr) (names self addr.family)).or
    ((reservedAnswer self addr).map (report addr))).getD .atOther

theorem longestMatch_first {N : Nat} (tables : IfaceTables N) (entry : Option (RadixNetworkEntry N))
    (addr : Addr) : (entry.bind tables.longestMatch).map (report addr) =
      first (fun ifname => (entry.bind (tables.table ifname).longestMatch).map Prod.snd)
        (report addr) tables.names := by
  cases entry with
  | some entry => rfl
  | none =>
    have nothing : tables.names.findSome? (fun _ => (none : Option AddrType)) = none :=
      List.findSome?_eq_none_iff.mpr fun _ _ => rfl
    exact (congrArg (Option.map (report addr)) nothing).symm

/-- Behind the special addresses the tables decide. -/
theorem classify_ip (self : NdAddrType) {addr : Addr} (ip : addr.isIP = true) :
    self.classify addr = (special addr).getD (asked self addr) := by
  unfold classify special asked ifaceAnswer reservedAnswer names
  cases kind : addr.family with
  | unspec => simp [Addr.isIP, kind] at ip
  | packet => simp [Addr.isIP, kind] at ip
  | inet =>
    simp only [Addr.isValid, Addr.isEthernet, Addr.isIPv4, kind]
    by_cases zero : addr.sinAddr = [0, 0, 0, 0]
    · simp [zero]
    · by_cases ones : addr.sinAddr = [0xff, 0xff, 0xff, 0xff]
      · simp [ones]
      · simp [zero, ones, Option.map_or, longestMatch_first, -Option.map_bind]
  | inet6 =>
    simp [Addr.isValid, Addr.isEthernet, Addr.isIPv4, Addr.isIPv6, kind, Option.map_or,
      longestMatch_first, -Option.map_bind]

/-! ## The most specific network -/

/-- The type of the most specific network, over all interfaces, that contains an
address. -/
def MostSpecific (stored : List Char → List Bool → Option AddrType) (names : List (List Char))
    (bits : List Bool) (type : AddrType) : Prop :=
  ∃ ifname ∈ names, ∃ start, start <+: bits ∧ stored ifname start = some type ∧
    ∀ other ∈ names, ∀ start', start' <+: bits → stored other start' ≠ none →
      start'.length ≤ start.length

/-- In every order of traversal an address has the same type, that of the most
specific network that contains it. -/
def OrderFree (self : NdAddrType) (stored : List Char → List Bool → Option AddrType) (addr : Addr) :
    Prop :=
  ∀ order, order.Perm (names self addr.family) →
    (traversed self order addr.family).classify addr = self.classify addr ∧
      ∀ type, MostSpecific stored (names self addr.family) (bitsOf addr.getAddress) type →
        (traversed self order addr.family).classify addr = report addr type

/-- The most specific network has the type that a special address gets, or all
interfaces with a network that contains the address report the same. -/
def Unanimous (self : NdAddrType) (stored : List Char → List Bool → Option AddrType) (addr : Addr) :
    Prop :=
  match special addr with
  | some fixed => ∀ type, MostSpecific stored (names self addr.family) (bitsOf addr.getAddress) type →
      report addr type = fixed
  | none => ∀ ifname ∈ names self addr.family, ∀ ifname' ∈ names self addr.family, ∀ type type',
      IsLongest (stored ifname) (bitsOf addr.getAddress) (some type) →
      IsLongest (stored ifname') (bitsOf addr.getAddress) (some type') →
        report addr type = report addr type'

section
variable {self : NdAddrType} {stored : List Char → List Bool → Option AddrType} {addr : Addr}

/-- The most specific network is the longest match of its interface. -/
theorem mostSpecific_longest {names : List (List Char)} {bits : List Bool} {type : AddrType}
    (most : MostSpecific stored names bits type) :
    ∃ ifname ∈ names, IsLongest (stored ifname) bits (some type) := by
  obtain ⟨ifname, member, start, inside, here, longest⟩ := most
  refine ⟨ifname, member, .inr ⟨start, inside, here, by simp, fun longer inside' here' => ?_⟩⟩
  exact longest ifname member longer inside' here'

theorem asked_traversed (order : List (List Char)) (ip : addr.isIP = true) :
    asked (traversed self order addr.family) addr =
      ((first (ifaceAnswer self addr) (report addr) order).or
        ((reservedAnswer self addr).map (report addr))).getD .atOther := by
  unfold asked ifaceAnswer reservedAnswer names traversed
  cases kind : addr.family with
  | unspec => simp [Addr.isIP, kind] at ip
  | packet => simp [Addr.isIP, kind] at ip
  | inet => rfl
  | inet6 => rfl

/-- What a match reports is what the address is classified as. -/
theorem asked_first {order : List (List Char)} {type : AddrType} (ip : addr.isIP = true)
    (found : first (ifaceAnswer self addr) (report addr) order = some type) :
    asked (traversed self order addr.family) addr = type := by
  rw [asked_traversed order ip, found]
  rfl

/-- **Order of the interfaces.** Given that each table answers with its longest
match, the result is that of the most specific network in every order, exactly
if the interfaces are unanimous. -/
theorem orderFree_iff (ip : addr.isIP = true)
    (answers : ∀ ifname ∈ names self addr.family,
      IsLongest (stored ifname) (bitsOf addr.getAddress) (ifaceAnswer self addr ifname)) :
    OrderFree self stored addr ↔ Unanimous self stored addr := by
  have classified (order : List (List Char)) :
      (traversed self order addr.family).classify addr =
        (special addr).getD (asked (traversed self order addr.family) addr) := classify_ip _ ip
  have answer {ifname : List Char} (member : ifname ∈ names self addr.family) {type : AddrType}
      (longest : IsLongest (stored ifname) (bitsOf addr.getAddress) (some type)) :
      ifaceAnswer self addr ifname = some type := (answers ifname member).unique longest
  unfold OrderFree Unanimous
  rw [classify_ip self ip]
  cases fixed : special addr with
  | some type =>
    simp only [classified, fixed, Option.getD_some]
    constructor
    · intro free type' most
      exact ((free _ (List.Perm.refl _)).2 type' most).symm
    · intro same order perm
      exact ⟨trivial, fun type' most => (same type' most).symm⟩
  | none =>
    simp only [classified, fixed, Option.getD_none]
    constructor
    · intro free ifname member ifname' member' type type' longest longest'
      obtain ⟨order, perm, here⟩ := first_of_order (report addr) member
        (answer member longest)
      obtain ⟨order', perm', there⟩ := first_of_order (report addr) member'
        (answer member' longest')
      have equal := (free order perm).1.trans (free order' perm').1.symm
      rwa [asked_first ip here, asked_first ip there] at equal
    · intro same order perm
      have agree : Agree (ifaceAnswer self addr) (report addr) (names self addr.family) := by
        intro ifname member ifname' member' type type' here there
        refine same ifname member ifname' member' type type' ?_ ?_
        · exact here ▸ answers ifname member
        · exact there ▸ answers ifname' member'
      have kept := (agree_iff_order [] (by simp)).mp agree order perm
      refine ⟨?_, fun type most => ?_⟩
      · rw [asked_traversed order ip, kept]
        rfl
      · obtain ⟨ifname, member, longest⟩ := mostSpecific_longest most
        exact asked_first ip (agree.first_eq (fun a inside _ => perm.mem_iff.mp inside)
          (perm.mem_iff.mpr member) (answer member longest))

end

/-! ## A network and a broadcast address on two interfaces -/

/-- 10.0.0.0/8. -/
def lan : Addr := { family := .inet, sinAddr := [10, 0, 0, 0], prefixLen := 8 }

/-- 10.0.0.255. -/
def lanBroadcast : Addr := { family := .inet, sinAddr := [10, 0, 0, 255] }

/-- 10.0.0.1. -/
def lanHost : Addr := { family := .inet, sinAddr := [10, 0, 0, 1] }

def eth0 : List Char := "eth0".toList

def eth1 : List Char := "eth1".toList

/-- The network on one interface, the broadcast address on the other. -/
def twoInterfaces : NdAddrType :=
  ((({} : NdAddrType).addAddress [eth0] .atLocal lan eth0).1.addAddress [eth0, eth1] .atBroadcast
    lanBroadcast eth1).1

/-- What is stored for the interfaces. -/
def twoStored (ifname : List Char) : List Bool → Option AddrType :=
  if ifname = eth0 then
    Function.update (fun _ => none) ((bitsOf [10, 0, 0, 0]).take 8) (some .atLocalNet)
  else Function.update (fun _ => none) (bitsOf [10, 0, 0, 255]) (some .atBroadcast)

/-- The longest match where one network is stored. -/
theorem isLongest_single {V : Type} (key bits : List Bool) (v : V) :
    IsLongest (Function.update (fun _ => none) key (some v)) bits
      (if key <+: bits then some v else none) := by
  by_cases inside : key <+: bits
  · rw [if_pos inside]
    refine .inr ⟨key, inside, Function.update_self .., by simp, fun longer inside' stored => ?_⟩
    by_cases same : longer = key
    · rw [same]
    · rw [Function.update_of_ne same] at stored
      exact absurd rfl stored
  · rw [if_neg inside]
    refine .inl ⟨rfl, fun start inside' => Function.update_of_ne ?_ ..⟩
    rintro rfl
    exact inside inside'

theorem two_names : names twoInterfaces .inet = [eth0, eth1] := by decide +kernel

/-- Both tables answer with their longest match. -/
theorem two_answers (addr : Addr) (inet : addr.family = .inet)
    (first : ifaceAnswer twoInterfaces addr eth0 =
      if (bitsOf [10, 0, 0, 0]).take 8 <+: bitsOf addr.sinAddr then some .atLocalNet else none)
    (second : ifaceAnswer twoInterfaces addr eth1 =
      if bitsOf [10, 0, 0, 255] <+: bitsOf addr.sinAddr then some .atBroadcast else none) :
    ∀ ifname ∈ names twoInterfaces addr.family,
      IsLongest (twoStored ifname) (bitsOf addr.getAddress)
        (ifaceAnswer twoInterfaces addr ifname) := by
  have address : addr.getAddress = addr.sinAddr := by
    unfold Addr.getAddress
    rw [inet]
  rw [inet, two_names, address]
  intro ifname member
  rcases List.mem_pair.mp member with rfl | rfl
  · rw [first]
    exact isLongest_single _ _ _
  · rw [second]
    exact isLongest_single _ _ _

/-- For a host of the network one interface has a match. -/
theorem two_free : OrderFree twoInterfaces twoStored lanHost := by
  apply (orderFree_iff (by decide)
    (two_answers lanHost rfl (by decide +kernel) (by decide +kernel))).mpr
  have fixed : special lanHost = none := by decide
  unfold Unanimous
  rw [fixed]
  have only {ifname : List Char} (member : ifname ∈ names twoInterfaces lanHost.family)
      {type : AddrType} (longest : IsLongest (twoStored ifname) (bitsOf lanHost.getAddress)
        (some type)) : type = .atLocalNet := by
    have same := (two_answers lanHost rfl (by decide +kernel) (by decide +kernel) ifname
      member).unique longest
    rcases List.mem_pair.mp (two_names ▸ member) with rfl | rfl
    · have here : ifaceAnswer twoInterfaces lanHost eth0 = some .atLocalNet := by decide +kernel
      exact (Option.some.inj (here.symm.trans same)).symm
    · have there : ifaceAnswer twoInterfaces lanHost eth1 = none := by decide +kernel
      cases there.symm.trans same
  intro ifname member ifname' member' type type' longest longest'
  rw [only member longest, only member' longest']

/-- The broadcast address is local if the network comes first. -/
theorem two_ordered :
    (∀ ifname ∈ names twoInterfaces lanBroadcast.family, IsLongest (twoStored ifname)
      (bitsOf lanBroadcast.getAddress) (ifaceAnswer twoInterfaces lanBroadcast ifname)) ∧
    ¬ OrderFree twoInterfaces twoStored lanBroadcast := by
  refine ⟨two_answers lanBroadcast rfl (by decide +kernel) (by decide +kernel), fun free => ?_⟩
  have swapped : [eth1, eth0].Perm (names twoInterfaces lanBroadcast.family) := by decide +kernel
  have same := (free [eth1, eth0] swapped).1
  have apart : (traversed twoInterfaces [eth1, eth0] lanBroadcast.family).classify lanBroadcast ≠
      twoInterfaces.classify lanBroadcast := by
    decide +kernel
  exact apart same

end NetifyAgent.NdAddrOrder
