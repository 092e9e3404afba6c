import NetifyAgent.InterfaceAddresses
import NetifyAgent.Lib.Records

/-! `ndNetlink::ProcessEvent`: datagrams of messages, and in a message of a route or an
address a header and attributes. What is left of a datagram is kept in a signed number,
and what is left of a message in an unsigned one. -/
namespace NetifyAgent
open Records InterfaceAddresses

/-- What the agent asks of the system: `if_indextoname`, with no name where it fails, and
the order in which the tables are traversed if an interface is new. -/
structure NetlinkHost where
  ifIndexToName : Nat → List Char
  order : NdAddrType → List (List Char)

namespace Netlink

/-- A conversion to `size_t`. -/
def toSize (n : Int) : Int := n % 2 ^ 64

/-- `sa_family_t`: `AF_INET` and `AF_INET6`. -/
def familyOf (code : Nat) : Family :=
  if code = 2 then .inet else if code = 10 then .inet6 else .unspec

/-- `rta_type` of an address message: `IFA_ADDRESS`, `IFA_LOCAL` and `IFA_BROADCAST`. -/
def rtaTypeOf (code : Nat) : RtaType :=
  if code = 1 then .ifaAddress
  else if code = 2 then .ifaLocal
  else if code = 4 then .ifaBroadcast
  else .other code

/-- `ndAddr::Create` from an address of a family with a prefix. -/
def createAddr (family : Family) (dst : Addr) (src : List UInt8) (prefixLen : Nat) : Addr :=
  match family with
  | .inet =>
    if 32 < prefixLen then dst
    else { dst.createIn src with prefixLen := if prefixLen = 0 then 32 else prefixLen }
  | .inet6 =>
    if 128 < prefixLen then dst
    else { dst.createIn6 src with prefixLen := if prefixLen = 0 then 128 else prefixLen }
  | _ => dst

/-- The bytes that `CopyAddress` reads. -/
def addrSize : Family → Nat → Nat
  | .inet, prefixLen => if 32 < prefixLen then 0 else 4
  | .inet6, prefixLen => if 128 < prefixLen then 0 else 16
  | _, _ => 0

variable (host : NetlinkHost) (m : List UInt8)

/-- `CopyAddress` from a position. -/
def copyAddress (family : Nat) (dst : Addr) (src prefixLen : Nat) : Option Addr :=
  (bytesAt m src (addrSize (familyOf family) prefixLen)).map fun bytes =>
    createAddr (familyOf family) dst bytes prefixLen

/-- `addr` and `ifname` of `AddRemoveNetwork` after an attribute: `RTA_DST` or `RTA_OIF`. -/
def readRoute (rtm : Nat) (read : Addr × List Char) (rta : Nat) :
    Option (Except Empty (Addr × List Char)) := do
  let rtaType ← numberAt m (rta + 2) 2
  if rtaType = 1 then
    let addr ← copyAddress m (← numberAt m rtm 1) read.1 (rta + 4) (← numberAt m (rtm + 1) 1)
    return .ok (addr, read.2)
  else if rtaType = 4 then
    let ifname := host.ifIndexToName (← numberAt m (rta + 4) 4)
    return .ok (read.1, if ifname = [] then read.2 else ifname)
  else return .ok read

/-- `addr` and `type` of `AddRemoveAddress` after an attribute. -/
def readAddr (addrm : Nat) (read : Addr × AddrType) (rta : Nat) :
    Option (Except Empty (Addr × AddrType)) := do
  match rtaTypeOf (← numberAt m (rta + 2) 2) with
  | .ifaAddress | .ifaLocal =>
    let addr ← copyAddress m (← numberAt m addrm 1) read.1 (rta + 4) 0
    return .ok (addr, read.2)
  | .ifaBroadcast =>
    let addr ← copyAddress m (← numberAt m addrm 1) read.1 (rta + 4) 0
    return .ok (addr, .atBroadcast)
  | .other _ => return .ok read

/-- The loop over the attributes from a position on, with `offset`. -/
def attributes {σ : Type} (read : σ → Nat → Option (Except Empty σ)) (rta : Nat) (offset : Int)
    (s : σ) : Option σ :=
  (walk (fun rta => numberAt m rta 2) 4 toSize read (m.length + 1) rta offset s).bind fun
    | .ok s => some s

/-- What both functions do in the end. -/
def change (types : NdAddrType) (add : Bool) (type : AddrType) (addr : Addr)
    (ifname : List Char) : NdAddrType × Bool :=
  if addr.isValid ∧ ifname ≠ [] then
    if add then types.addAddress (host.order types) type addr ifname
    else types.removeAddress addr ifname
  else (types, false)

/-- `AddRemoveNetwork` of the message at a position, and what it returns; `none` where it
reads outside of the memory. -/
def addRemoveNetwork (types : NdAddrType) (nlh : Nat) (add : Bool) :
    Option (NdAddrType × Bool) := do
  let rtm := nlh + 16
  let offset := toSize ((← numberAt m nlh 4) - 28)
  if (← numberAt m (rtm + 7) 1) ≠ 1 then return (types, false)
  let (addr, ifname) ← attributes m (readRoute host m rtm) (rtm + 12) offset ({}, [])
  return change host types add .atLocal addr ifname

/-- `AddRemoveAddress` of the message at a position. -/
def addRemoveAddress (types : NdAddrType) (nlh : Nat) (add : Bool) :
    Option (NdAddrType × Bool) := do
  let addrm := nlh + 16
  let offset := toSize ((← numberAt m nlh 4) - 24)
  let ifname := host.ifIndexToName (← numberAt m (addrm + 4) 4)
  let (addr, type) ← attributes m (readAddr m addrm) (addrm + 8) offset ({}, .atLocal)
  return change host types add type addr ifname

/-- The tables and whether they were changed. -/
abbrev Changes := NdAddrType × Bool

def Changes.and (s : Changes) (next : NdAddrType × Bool) : Changes := (next.1, s.2 || next.2)

/-- The `switch` over the type of the message at a position. It is an error where
`ProcessEvent` returns false at once. -/
def message (s : Changes) (nlh : Nat) : Option (Except NdAddrType Changes) := do
  let nlmsgType ← numberAt m (nlh + 4) 2
  if nlmsgType = 24 then return .ok (s.and (← addRemoveNetwork host m s.1 nlh true))
  else if nlmsgType = 25 then return .ok (s.and (← addRemoveNetwork host m s.1 nlh false))
  else if nlmsgType = 20 then return .ok (s.and (← addRemoveAddress host m s.1 nlh true))
  else if nlmsgType = 21 then return .ok (s.and (← addRemoveAddress host m s.1 nlh false))
  else if nlmsgType = 2 then
    if (← numberAt m (nlh + 16) 4) ≠ 0 then return .error s.1
    else return .ok s
  else if nlmsgType = 4 then return .error s.1
  else return .ok s

end Netlink

open Netlink

/-- `ND_NETLINK_BUFSIZ`. -/
def ndNetlinkBufsiz : Nat := 4096

/-- `ProcessEvent` with what `recv` gives, one datagram after the other, and the buffer
before; the tables afterwards and what it returns. -/
def processEvent (host : NetlinkHost) :
    List UInt8 → List (List UInt8) → Changes → Option (NdAddrType × Bool)
  | _, [], s => some s
  | buffer, datagram :: rest, s =>
    let buffer := datagram ++ buffer.drop datagram.length
    (walk (fun nlh => numberAt buffer nlh 4) 16 id (message host buffer) (buffer.length + 1) 0
      datagram.length s).bind fun
        | .error types => some (types, false)
        | .ok s => processEvent host buffer rest s

end NetifyAgent
