import NetifyAgent.Flow
import NetifyAgent.RadixNetworks
import Mathlib.Logic.Function.Basic

/-! `ndAddrType`: a map of hardware addresses, two tables of reserved networks and
one table for each interface and family. The maps of the interfaces are
unordered: their order of traversal is kept explicitly, and an insertion may
change it as it likes. The lock is left out. -/
namespace NetifyAgent

/-- `ndAddr::IsEthernet`: `ARPHRD_ETHER` and `ETH_ALEN`. -/
def Addr.isEthernet (a : Addr) : Bool :=
  a.family == .packet && a.sin6Addr.take 2 == [1, 0] && a.sin6Addr[3]? == some 6

/-- `%02hhx`. -/
def hexByte (b : UInt8) : List Char := [Nat.digitChar (b.toNat / 16), Nat.digitChar (b.toNat % 16)]

/-- `ndAddr::GetString` of a hardware address. -/
def Addr.macString (a : Addr) : List Char := [':'].intercalate (a.sllAddr.map hexByte)

/-- `unordered_map<string, radix_tree>`: the names in their order of traversal and
the table of each; a name without a table has the empty one. -/
structure IfaceTables (N : Nat) where
  names : List (List Char) := []
  table : List Char → RadixTree N AddrType := fun _ => {}

namespace IfaceTables
variable {N : Nat}

/-- A table takes its place; if the name is new, the names come in another
order. -/
def put (tables : IfaceTables N) (order : List (List Char)) (ifname : List Char)
    (tree : RadixTree N AddrType) : IfaceTables N where
  names := if ifname ∈ tables.names then tables.names else order
  table := Function.update tables.table ifname tree

/-- `tables[ifname][entry] = type`, and whether nothing is thrown. -/
def assign (tables : IfaceTables N) (order : List (List Char)) (ifname : List Char)
    (entry : RadixNetworkEntry N) (type : AddrType) : IfaceTables N × Bool :=
  match (tables.table ifname).assign entry type with
  | .ok tree => (tables.put order ifname tree, true)
  | .error _ => (tables.put order ifname (tables.table ifname), false)

/-- `tables.find(ifname)`, and `erase(entry)` if there is such a table. -/
def erase (tables : IfaceTables N) (ifname : List Char) (entry : RadixNetworkEntry N) :
    IfaceTables N × Bool :=
  if ifname ∈ tables.names then
    let erased := (tables.table ifname).erase entry
    (tables.put tables.names ifname erased.1, erased.2)
  else (tables, false)

/-- The loop of `Classify` over the interfaces. -/
def longestMatch (tables : IfaceTables N) (entry : RadixNetworkEntry N) : Option AddrType :=
  tables.names.findSome? fun ifname => ((tables.table ifname).longestMatch entry).map Prod.snd

end IfaceTables

/-- `ndAddrType`. -/
structure NdAddrType where
  etherReserved : List Char → Option AddrType := fun _ => none
  ipv4Reserved : RadixTree 32 AddrType := {}
  ipv6Reserved : RadixTree 128 AddrType := {}
  ipv4Iface : IfaceTables 32 := {}
  ipv6Iface : IfaceTables 128 := {}

namespace NdAddrType
open RadixNetworkEntry

/-- `AddAddress` and what it returns. The argument `order` is the order in which
the interfaces are traversed if the address belongs to a new one. -/
def addAddress (self : NdAddrType) (order : List (List Char)) (type : AddrType) (addr : Addr)
    (ifname : List Char) : NdAddrType × Bool :=
  if ¬ addr.isValid then (self, false)
  else if addr.isEthernet then
    let mac := addr.macString
    match self.etherReserved mac with
    | some _ => (self, false)
    | none => ({ self with etherReserved := Function.update self.etherReserved mac (some type) }, true)
  else
    let type := if type = .atLocal ∧ addr.isNetwork then .atLocalNet else type
    match if addr.isIPv4 ∧ ifname = [] then create read4 addr else none with
    | some entry =>
      match self.ipv4Reserved.assign entry type with
      | .ok ipv4Reserved => ({ self with ipv4Reserved }, true)
      | .error _ => (self, false)
    | none =>
      match if addr.isIPv6 ∧ ifname = [] then create read6 addr else none with
      | some entry =>
        match self.ipv6Reserved.assign entry type with
        | .ok ipv6Reserved => ({ self with ipv6Reserved }, true)
        | .error _ => (self, false)
      | none =>
        match if addr.isIPv4 ∧ ifname ≠ [] then create read4 addr else none with
        | some entry =>
          let assigned := self.ipv4Iface.assign order ifname entry type
          ({ self with ipv4Iface := assigned.1 }, assigned.2)
        | none =>
          match if addr.isIPv6 ∧ ifname ≠ [] then create read6 addr else none with
          | some entry =>
            let assigned := self.ipv6Iface.assign order ifname entry type
            ({ self with ipv6Iface := assigned.1 }, assigned.2)
          | none => (self, false)

/-- `RemoveAddress` and what it returns. The third test is that of the first one
again, so that no network of `ipv4_iface` is ever removed. -/
def removeAddress (self : NdAddrType) (addr : Addr) (ifname : List Char) : NdAddrType × Bool :=
  if ¬ addr.isValid then (self, false)
  else if addr.isEthernet then
    let mac := addr.macString
    match self.etherReserved mac with
    | some _ => ({ self with etherReserved := Function.update self.etherReserved mac none }, true)
    | none => (self, false)
  else
    match if addr.isIPv4 ∧ ifname = [] then create read4 addr else none with
    | some entry =>
      let erased := self.ipv4Reserved.erase entry
      ({ self with ipv4Reserved := erased.1 }, erased.2)
    | none =>
      match if addr.isIPv6 ∧ ifname = [] then create read6 addr else none with
      | some entry =>
        let erased := self.ipv6Reserved.erase entry
        ({ self with ipv6Reserved := erased.1 }, erased.2)
      | none =>
        match if addr.isIPv4 ∧ ifname = [] then create read4 addr else none with
        | some entry =>
          let erased := self.ipv4Iface.erase ifname entry
          ({ self with ipv4Iface := erased.1 }, erased.2)
        | none =>
          match if addr.isIPv6 ∧ ifname ≠ [] then create read6 addr else none with
          | some entry =>
            let erased := self.ipv6Iface.erase ifname entry
            ({ self with ipv6Iface := erased.1 }, erased.2)
          | none => (self, false)

/-- A type as `Classify` reports it: an address of a local network is local. -/
def report (addr : Addr) (type : AddrType) : AddrType :=
  if type = .atLocalNet ∧ ¬ addr.isNetwork then .atLocal else type

/-- `Classify` of a hardware address. -/
def classifyEthernet (self : NdAddrType) (addr : Addr) : AddrType :=
  let first := (addr.sllAddr.headD 0).toNat
  if [1, 3, 5, 7, 9, 11, 13, 15].any fun i => i &&& first == i then .atMulticast
  else if addr.sllAddr = List.replicate 6 0xff then .atBroadcast
  else if addr.sllAddr = List.replicate 6 0 then .atNone
  else (self.etherReserved addr.macString).getD .atOther

/-- `Classify`. -/
def classify (self : NdAddrType) (addr : Addr) : AddrType :=
  if ¬ addr.isValid then .atError
  else if addr.isEthernet then self.classifyEthernet addr
  else if addr.isIPv4 then
    if addr.sinAddr = [0, 0, 0, 0] then .atLocal
    else if addr.sinAddr = [0xff, 0xff, 0xff, 0xff] then .atBroadcast
    else
      let entry := createQuery read4 addr
      let found := (entry.bind self.ipv4Iface.longestMatch).or
        ((entry.bind self.ipv4Reserved.longestMatch).map Prod.snd)
      (found.map (report addr)).getD .atOther
  else if addr.isIPv6 then
    let entry := createQuery read6 addr
    let found := (entry.bind self.ipv6Iface.longestMatch).or
      ((entry.bind self.ipv6Reserved.longestMatch).map Prod.snd)
    (found.map (report addr)).getD .atOther
  else .atOther

/-- The calls of the constructor. -/
def reservedNetworks : List (AddrType × String) := [
  (.atReserved, "127.0.0.0/8"), (.atReserved, "10.0.0.0/8"), (.atReserved, "100.64.0.0/10"),
  (.atReserved, "172.16.0.0/12"), (.atReserved, "192.168.0.0/16"), (.atReserved, "::1/128"),
  (.atReserved, "fc00::/7"), (.atReserved, "fd00::/8"), (.atReserved, "fe80::/10"),
  (.atMulticast, "224.0.0.0/4"), (.atMulticast, "ff00::/8"), (.atBroadcast, "169.254.255.255")]

/-- The constructor. -/
def construct (pton : Pton) : NdAddrType :=
  reservedNetworks.foldl (fun self call =>
    (self.addAddress [] call.1 (Addr.ofText pton call.2.toList) []).1) {}

end NdAddrType

end NetifyAgent
