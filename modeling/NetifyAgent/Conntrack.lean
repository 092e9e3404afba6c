import Mathlib.Data.List.AList
import NetifyAgent.Flow

/-! `ndConntrackThread`: the kernel's connection tracking, kept in two tables.
One maps the id of a connection to a digest of its reply tuple, the other a
digest to the flow object. The capture side makes the same digest of a captured
flow to see whether the connection is translated. -/
namespace NetifyAgent
open NetifyAgent.Bytes

/-- `AF_INET` and `AF_INET6`. -/
def afInet : UInt16 := 2
def afInet6 : UInt16 := 10

/-- The two ends of a tuple: `ndCT_DIR_SRC` and `ndCT_DIR_DST`. -/
structure Ends (α : Type) where
  src : α
  dst : α
  deriving DecidableEq, Repr

/-! ## Events -/

/-- The attributes of one direction of an `nf_conntrack` object that are set.
Ports are in network byte order, as they are stored. -/
structure NfTuple where
  ipv4 : Ends (Option (Vector UInt8 4)) := ⟨none, none⟩
  ipv6 : Ends (Option (Vector UInt8 16)) := ⟨none, none⟩
  port : Ends (Option UInt16) := ⟨none, none⟩
  deriving DecidableEq, Repr

/-- `struct nf_conntrack`. `nfct_get_attr` of an attribute that is not set is
zero. -/
structure NfConntrack where
  id : Option UInt32 := none
  mark : Option UInt32 := none
  l3Proto : Option UInt8 := none
  l4Proto : Option UInt8 := none
  orig : NfTuple := {}
  repl : NfTuple := {}
  deriving DecidableEq, Repr

/-- `enum nf_conntrack_msg_type`. -/
inductive MsgType where
  | new
  | update
  | destroy
  | other (type : Nat)
  deriving DecidableEq, Repr

/-! ## Flow objects -/

/-- The part of a `sockaddr_storage` that its IPv4 and IPv6 members use. -/
structure SockAddr where
  /-- `ss_family`. -/
  family : UInt16 := 0
  port : UInt16 := 0
  /-- Bytes 4 to 7: `sin_addr`, which is `sin6_flowinfo`. -/
  sinAddr : Vector UInt8 4 := Vector.replicate 4 0
  /-- Bytes 8 to 23: `sin6_addr`; `sin_zero` is the first half. -/
  sin6Addr : Vector UInt8 16 := Vector.replicate 16 0
  /-- Bytes 24 to 27: `sin6_scope_id`. -/
  scopeId : UInt32 := 0
  deriving DecidableEq, Repr

/-- `CopyAddress` of an IPv4 address. -/
def SockAddr.copy4 (addr : Vector UInt8 4) : SockAddr := { family := afInet, sinAddr := addr }

/-- `CopyAddress` of an IPv6 address. -/
def SockAddr.copy6 (addr : Vector UInt8 16) : SockAddr := { family := afInet6, sin6Addr := addr }

/-- The bytes of `struct sockaddr_in`, for `memcmp`. -/
def SockAddr.in4 (a : SockAddr) : UInt16 × UInt16 × Vector UInt8 4 × List UInt8 :=
  (a.family, a.port, a.sinAddr, a.sin6Addr.toList.take 8)

/-- `ndConntrackFlow`. -/
structure ConntrackFlow where
  id : UInt32
  mark : UInt32 := 0
  updatedAt : Nat := 0
  digest : List UInt8 := []
  l3Proto : UInt16 := 0
  l4Proto : UInt8 := 0
  origPort : Ends UInt16 := ⟨0, 0⟩
  replPort : Ends UInt16 := ⟨0, 0⟩
  origAddrValid : Ends Bool := ⟨false, false⟩
  replAddrValid : Ends Bool := ⟨false, false⟩
  origAddr : Ends SockAddr
  replAddr : Ends SockAddr
  deriving DecidableEq, Repr

namespace ConntrackFlow

/-- The endpoints that are hashed: the reply addresses where they are valid. -/
def hashedEnds (f : ConntrackFlow) : Ends SockAddr where
  src := if f.replAddrValid.src then f.replAddr.src else f.origAddr.src
  dst := if f.replAddrValid.dst then f.replAddr.dst else f.origAddr.dst

/-- The addresses that are hashed. The family is that of the original source,
and an unknown one hashes no addresses. -/
def hashedAddrs (f : ConntrackFlow) : Ends (List UInt8) :=
  let family := f.origAddr.src.family
  if family = afInet then
    ⟨f.hashedEnds.src.sinAddr.toList, f.hashedEnds.dst.sinAddr.toList⟩
  else if family = afInet6 then
    ⟨f.hashedEnds.src.sin6Addr.toList, f.hashedEnds.dst.sin6Addr.toList⟩
  else ⟨[], []⟩

/-- The bytes `ndConntrackFlow::Hash` feeds to SHA-1, in order. -/
def hashStream (f : ConntrackFlow) : List UInt8 :=
  let addrs := f.hashedAddrs
  let ports := f.replPort
  leBytes16 f.l3Proto.toNat ++ ([f.l4Proto] ++
    if memcmp addrs.src addrs.dst < 0 then
      addrs.src ++ (addrs.dst ++ (leBytes16 ports.src.toNat ++ leBytes16 ports.dst.toNat))
    else addrs.dst ++ (addrs.src ++ (leBytes16 ports.dst.toNat ++ leBytes16 ports.src.toNat)))

/-- `ndConntrackFlow::Hash`. -/
def hash (sha1 : List UInt8 → List UInt8) (f : ConntrackFlow) : ConntrackFlow :=
  { f with digest := sha1 f.hashStream }

/-- One direction of `Update`: the addresses of the family that are set. -/
def copyAddrs (af : UInt8) (tuple : NfTuple) (addr : Ends SockAddr) : Ends SockAddr × Ends Bool :=
  if af = 2 then
    (⟨(tuple.ipv4.src.map SockAddr.copy4).getD addr.src,
      (tuple.ipv4.dst.map SockAddr.copy4).getD addr.dst⟩,
      ⟨tuple.ipv4.src.isSome, tuple.ipv4.dst.isSome⟩)
  else
    (⟨(tuple.ipv6.src.map SockAddr.copy6).getD addr.src,
      (tuple.ipv6.dst.map SockAddr.copy6).getD addr.dst⟩,
      ⟨tuple.ipv6.src.isSome, tuple.ipv6.dst.isSome⟩)

/-- The ports that are set; the others stay. -/
def copyPorts (tuple : NfTuple) (port : Ends UInt16) : Ends UInt16 :=
  ⟨tuple.port.src.getD port.src, tuple.port.dst.getD port.dst⟩

/-- `Update` from the first copied address on. -/
def copyTuples (af : UInt8) (ct : NfConntrack) (f : ConntrackFlow) : ConntrackFlow :=
  { f with
    origAddr := (copyAddrs af ct.orig f.origAddr).1
    origAddrValid := (copyAddrs af ct.orig f.origAddr).2
    origPort := copyPorts ct.orig f.origPort
    replAddr := (copyAddrs af ct.repl f.replAddr).1
    replAddrValid := (copyAddrs af ct.repl f.replAddr).2
    replPort := copyPorts ct.repl f.replPort }

/-- `ndConntrackFlow::Update`: the object afterwards, and what it throws. -/
def update (sha1 : List UInt8 → List UInt8) (now : Nat) (ct : NfConntrack) (f : ConntrackFlow) :
    ConntrackFlow × Option String :=
  let f := { f with
    updatedAt := now
    mark := ct.mark.getD 0
    origAddrValid := ⟨false, false⟩
    replAddrValid := ⟨false, false⟩ }
  match ct.l3Proto with
  | none => (f, some "ATTR_ORIG_L3PROTO not set")
  | some af =>
    let f := { f with l3Proto := af.toUInt16 }
    if af ≠ 2 ∧ af ≠ 10 then (f, some "Unsupported address family")
    else
      match ct.l4Proto with
      | none => (f, some "ATTR_ORIG_L4PROTO not set")
      | some l4 =>
        let f := { f with l4Proto := l4 }
        if (ct.orig.ipv4.src = none ∧ ct.orig.ipv6.src = none) ∨
            (ct.orig.ipv4.dst = none ∧ ct.orig.ipv6.dst = none) then
          (f, some "ATTR_ORIG_SRC/DST not set")
        else ((copyTuples af ct f).hash sha1, none)

/-- The addresses of a new object before anything is stored in them. -/
abbrev Raw := Ends SockAddr × Ends SockAddr

/-- `ndConntrackFlow(id, ct)`. The addresses are not initialised. -/
def construct (sha1 : List UInt8 → List UInt8) (now : Nat) (raw : Raw) (ct : NfConntrack) :
    ConntrackFlow × Option String :=
  update sha1 now ct { id := ct.id.getD 0, origAddr := raw.1, replAddr := raw.2 }

/-- `_ND_CT_FLOW_TTL`. -/
def ttl : Nat := 900

/-- `HasExpired`. -/
def hasExpired (now : Nat) (f : ConntrackFlow) : Bool := f.updatedAt + ttl ≤ now

end ConntrackFlow

/-! ## The thread -/

/-- `nd_ct_id_map`. -/
abbrev CtIdMap := AList fun _ : UInt32 => List UInt8

/-- `nd_ct_flow_map`. A flow object belongs to the one entry that points to it. -/
abbrev CtFlowMap := AList fun _ : List UInt8 => ConntrackFlow

/-- `ndConntrackThread`. -/
structure ConntrackThread where
  ctIdMap : CtIdMap := ∅
  ctFlowMap : CtFlowMap := ∅
  /-- Flow objects that were not deleted when their entry was overwritten. -/
  leaked : List ConntrackFlow := []
  /-- `Lock()` without an `Unlock()` since. -/
  locked : Bool := false

namespace ConntrackThread

/-- `NFCT_T_NEW`: an object under the same digest is deleted. -/
def processNew (sha1 : List UInt8 → List UInt8) (now : Nat) (raw : ConntrackFlow.Raw)
    (ct : NfConntrack) (t : ConntrackThread) : ConntrackThread :=
  match ConntrackFlow.construct sha1 now raw ct with
  | (_, some _) => t
  | (ctFlow, none) =>
    { t with
      ctIdMap := t.ctIdMap.insert (ct.id.getD 0) ctFlow.digest
      ctFlowMap := t.ctFlowMap.insert ctFlow.digest ctFlow }

/-- `NFCT_T_UPDATE`: the thread afterwards, and what `Update` throws. -/
def processUpdate (sha1 : List UInt8 → List UInt8) (now : Nat) (ct : NfConntrack)
    (t : ConntrackThread) : ConntrackThread × Option String :=
  let id := ct.id.getD 0
  match t.ctIdMap.lookup id with
  | none => (t, none)
  | some digest =>
    match t.ctFlowMap.lookup digest with
    | none => ({ t with ctIdMap := t.ctIdMap.erase id }, none)
    | some old =>
      match old.update sha1 now ct with
      | (ctFlow, some thrown) =>
        ({ t with ctFlowMap := t.ctFlowMap.insert digest ctFlow }, some thrown)
      | (ctFlow, none) =>
        if ctFlow.digest = digest then
          ({ t with ctFlowMap := t.ctFlowMap.insert digest ctFlow }, none)
        else
          let rest := t.ctFlowMap.erase digest
          ({ t with
            ctFlowMap := rest.insert ctFlow.digest ctFlow
            ctIdMap := t.ctIdMap.insert id ctFlow.digest
            leaked := (rest.lookup ctFlow.digest).toList ++ t.leaked }, none)

/-- `NFCT_T_DESTROY`. -/
def processDestroy (ct : NfConntrack) (t : ConntrackThread) : ConntrackThread :=
  let id := ct.id.getD 0
  match t.ctIdMap.lookup id with
  | none => t
  | some digest =>
    { t with ctIdMap := t.ctIdMap.erase id, ctFlowMap := t.ctFlowMap.erase digest }

/-- What `ProcessConntrackEvent` does while it holds the lock. An exception that
leaves it is not caught on the way to `Unlock()`. -/
def processEvent (sha1 : List UInt8 → List UInt8) (now : Nat) (raw : ConntrackFlow.Raw)
    (type : MsgType) (ct : NfConntrack) (t : ConntrackThread) : ConntrackThread × Option String :=
  match type with
  | .new => (processNew sha1 now raw ct t, none)
  | .update => processUpdate sha1 now ct t
  | .destroy => (processDestroy ct t, none)
  | .other _ => (t, none)

/-- `ndConntrackThread::ProcessConntrackEvent`: the thread afterwards, and the
exception it ends with. -/
def processConntrackEvent (sha1 : List UInt8 → List UInt8) (now : Nat) (raw : ConntrackFlow.Raw)
    (type : MsgType) (ct : NfConntrack) (t : ConntrackThread) : ConntrackThread × Option String :=
  match processEvent sha1 now raw type ct t with
  | (t, none) => ({ t with locked := false }, none)
  | (t, some thrown) => ({ t with locked := true }, some thrown)

/-- One entry of the loop of `PurgeFlows`. -/
def purgeEntry (clock : List UInt8 → Nat) (t : ConntrackThread)
    (entry : Sigma fun _ : List UInt8 => ConntrackFlow) : ConntrackThread :=
  if entry.2.hasExpired (clock entry.1) then
    { t with ctIdMap := t.ctIdMap.erase entry.2.id, ctFlowMap := t.ctFlowMap.erase entry.1 }
  else t

/-- `ndConntrackThread::PurgeFlows`. The clock is read at every entry. -/
def purgeFlows (clock : List UInt8 → Nat) (t : ConntrackThread) : ConntrackThread :=
  t.ctFlowMap.entries.foldl (purgeEntry clock) t

/-- The bytes `ndConntrackThread::UpdateFlow` feeds to SHA-1, in order. -/
def flowStream (flow : Flow) : List UInt8 :=
  leBytes16 (if flow.ipVersion = 4 then afInet else afInet6).toNat ++
    ([UInt8.ofNat flow.ipProtocol] ++ (flow.lowerAddr.getAddress ++ (flow.upperAddr.getAddress ++
      (leBytes16 flow.lowerAddr.getPortRaw ++ leBytes16 flow.upperAddr.getPortRaw))))

/-- The entry of a captured flow: `UpdateFlow` goes on only if both reply
addresses are valid. -/
def findFlow (sha1 : List UInt8 → List UInt8) (flow : Flow) (t : ConntrackThread) :
    Option ConntrackFlow :=
  (t.ctFlowMap.lookup (sha1 (flowStream flow))).filter fun f =>
    f.replAddrValid.src && f.replAddrValid.dst

/-- `ip_nat`: the reply does not come back the way the original went. -/
def translated (f : ConntrackFlow) : Bool :=
  if f.l3Proto = afInet then
    f.origAddr.src.in4 ≠ f.replAddr.dst.in4 || f.origAddr.dst.in4 ≠ f.replAddr.src.in4
  else if f.l3Proto = afInet6 then
    f.origAddr.src ≠ f.replAddr.dst || f.origAddr.dst ≠ f.replAddr.src
  else false

/-- `ndConntrackThread::UpdateFlow`: the thread afterwards, and whether it sets
`ip_nat`. -/
def updateFlow (sha1 : List UInt8 → List UInt8) (now : Nat) (flow : Flow) (t : ConntrackThread) :
    ConntrackThread × Bool :=
  match findFlow sha1 flow t with
  | none => (t, false)
  | some f =>
    ({ t with ctFlowMap :=
        t.ctFlowMap.insert (sha1 (flowStream flow)) { f with updatedAt := now } }, translated f)

end ConntrackThread

/-- What happens to a conntrack thread, one thing after another. -/
inductive ConntrackAction where
  | event (now : Nat) (raw : ConntrackFlow.Raw) (type : MsgType) (ct : NfConntrack)
  | purge (clock : List UInt8 → Nat)
  /-- Another thread looks a captured flow up. -/
  | look (now : Nat) (flow : Flow)

/-- One step. Every method takes the lock first, so nothing happens after an
exception that left it taken. -/
def ConntrackThread.step (sha1 : List UInt8 → List UInt8) (t : ConntrackThread)
    (action : ConntrackAction) : Option ConntrackThread :=
  if t.locked then none
  else match action with
    | .event now raw type ct => some (t.processConntrackEvent sha1 now raw type ct).1
    | .purge clock => some (t.purgeFlows clock)
    | .look now flow => some (t.updateFlow sha1 now flow).1

end NetifyAgent
