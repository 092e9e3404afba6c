import NetifyAgent.Flow
import NetifyAgent.Lib.Dissection

/-! The link layer of `ndCaptureThread::ProcessPacket`: the fixed header of the
datalink type, then the loop over VLAN tags, MPLS labels and PPPoE headers. A
dissection logs every range of the packet it reads, every counter it bumps and
every field of the flow template it assigns; it never reads the template. -/
namespace NetifyAgent
open NetifyAgent.Bytes NetifyAgent.Dissection

/-! ## What a dissection does -/

/-- The two endpoints of a flow. -/
inductive Side where
  | lower
  | upper
  deriving DecidableEq, Repr

def Flow.editAddr (flow : Flow) (f : Addr → Addr) : Side → Flow
  | .lower => { flow with lowerAddr := f flow.lowerAddr }
  | .upper => { flow with upperAddr := f flow.upperAddr }

def Flow.editMac (flow : Flow) (f : Addr → Addr) : Side → Flow
  | .lower => { flow with lowerMac := f flow.lowerMac }
  | .upper => { flow with upperMac := f flow.upperMac }

/-- An assignment to the template `flow` of a capture thread. -/
inductive Assign where
  | vlanId (v : Nat)
  | tunnelNone
  | ipVersion (v : Nat)
  | ipProtocol (v : UInt8)
  | createIn (side : Side) (inAddr : List UInt8)
  | createIn6 (side : Side) (in6Addr : List UInt8)
  | createHw (side : Side) (hwAddr : List UInt8)
  | setPort (side : Side) (port : Nat)
  /-- The outermost GTP tunnel: the addresses so far are the tunnel's. -/
  | enterGtp (version : Nat)
  deriving DecidableEq, Repr

def Assign.apply (flow : Flow) : Assign → Flow
  | .vlanId v => { flow with vlanId := v }
  | .tunnelNone => { flow with tunnelType := .none }
  | .ipVersion v => { flow with ipVersion := v }
  | .ipProtocol v => { flow with ipProtocol := v.toNat }
  | .createIn side inAddr => flow.editAddr (·.createIn inAddr) side
  | .createIn6 side in6Addr => flow.editAddr (·.createIn6 in6Addr) side
  | .createHw side hwAddr => flow.editMac (·.createHw hwAddr) side
  | .setPort side port => flow.editAddr (·.setPort port) side
  | .enterGtp version =>
    if flow.tunnelType = .none then
      { flow with
        tunnelType := .gtp
        gtp := { flow.gtp with
          version
          ipVersion := flow.ipVersion
          lowerAddr := flow.lowerAddr
          upperAddr := flow.upperAddr } }
    else flow

/-- One action of a dissection. -/
inductive Op where
  /-- The bytes of `packet->data` from `off` on are read. -/
  | read (off len : Nat)
  | count (c : Counter)
  /-- The packet is counted as discarded, and dissection goes on. -/
  | discard
  /-- The packet is counted as discarded, and `ProcessPacket` returns. -/
  | reject
  | set (a : Assign)
  deriving DecidableEq, Repr

/-- A read stays inside the capture length. -/
def Inside (p : Packet) : Op → Prop
  | .read off len => off + len ≤ p.cap
  | _ => True

instance (p : Packet) : DecidablePred (Inside p)
  | .read off len => inferInstanceAs (Decidable (off + len ≤ p.cap))
  | .count _ => .isTrue trivial
  | .discard => .isTrue trivial
  | .reject => .isTrue trivial
  | .set _ => .isTrue trivial

def discardIf (c : Prop) [Decidable c] : Dissect Op Unit := emits (if c then [.discard] else [])

def reject {α : Type} : Dissect Op α := ⟨.left, [.reject]⟩

def rejectIf (c : Prop) [Decidable c] : Dissect Op Unit := if c then reject else pure ()

def readIf (c : Prop) [Decidable c] (off len : Nat) : Dissect Op Unit :=
  emits (if c then [.read off len] else [])

section
variable {α β : Type} (c : Prop) [Decidable c]

@[simp] theorem discardIf_bind (f : Unit → Dissect Op β) : discardIf c >>= f =
    ⟨(f ()).outcome, (if c then [.discard] else []) ++ (f ()).log⟩ := rfl

@[simp] theorem readIf_bind (off len : Nat) (f : Unit → Dissect Op β) : readIf c off len >>= f =
    ⟨(f ()).outcome, (if c then [.read off len] else []) ++ (f ()).log⟩ := rfl

@[simp] theorem reject_outcome : (reject : Dissect Op α).outcome = .left := rfl
@[simp] theorem reject_log : (reject : Dissect Op α).log = [.reject] := rfl
@[simp] theorem reject_bind (f : α → Dissect Op β) : reject >>= f = reject := rfl

@[simp] theorem rejectIf_bind (f : Unit → Dissect Op β) :
    rejectIf c >>= f = if c then reject else f () := by
  unfold rejectIf
  split
  · rfl
  · exact pure_bind () f

end

/-! ## The fixed header -/

/-- `dl_type`. -/
inductive Datalink where
  | null
  | en10mb
  | linuxSll
  | raw
  | ipv4
  | ipv6
  | other (dlt : Nat)
  deriving DecidableEq, Repr

namespace EtherType

def ip : Nat := 0x0800
def ipv6 : Nat := 0x86dd
def vlan : Nat := 0x8100
def mplsUc : Nat := 0x8847
def mplsMc : Nat := 0x8848
def pppoe : Nat := 0x8864
def pppoeDisc : Nat := 0x8863

end EtherType

/-- The local variables of the loop. -/
structure Link where
  type : Nat
  l2Len : Nat
  vlanPacket : Bool := false
  deriving DecidableEq, Repr

/-- A hardware address in the range of the bridge protocols. -/
def stpAddr (p : Packet) (off : Nat) : Bool := slice p.data off 3 = [0x01, 0x80, 0xc2]

/-- `switch (dl_type)`. -/
def datalink (dl : Datalink) (p : Packet) : Dissect Op Link :=
  match dl with
  | .null => do
    rejectIf (p.cap < 4)
    emit (.read 0 4)
    let family := be32 p.data 0
    if family = 2 then pure { type := EtherType.ip, l2Len := 4 }
    else if family = 24 ∨ family = 28 ∨ family = 30 then
      pure { type := EtherType.ipv6, l2Len := 4 }
    else leave
  | .en10mb => do
    rejectIf (p.cap < 14)
    emits [.read 12 2, .count .eth, .read 6 3, .read 0 3]
    rejectIf (stpAddr p 6 = true ∨ stpAddr p 0 = true)
    pure { type := be16 p.data 12, l2Len := 14 }
  | .linuxSll => do
    rejectIf (p.cap < 16)
    emit (.read 14 2)
    -- sll_protocol is not converted from network byte order
    pure { type := le16 p.data 14, l2Len := 16 }
  | .raw | .ipv4 | .ipv6 => pure { type := 0, l2Len := 0 }
  | .other _ => reject

/-! ## Tags -/

/-- The bottom-of-stack bit of the MPLS label at an offset. -/
def mplsBottom (p : Packet) (off : Nat) : Bool := (p.data (off + 2)).toNat % 2 = 1

def PPP_IP : Nat := 0x21
def PPP_IPV6 : Nat := 0x57

/-- `while (! mpls.mpls.s)`. -/
def labels (p : Packet) : Nat → Bool → Nat → Dissect Op Nat
  | 0, _, _ => spin
  | fuel + 1, s, l2Len =>
    if s then pure l2Len
    else do
      let l2Len := (l2Len + 4) % 65536
      discardIf (p.cap < l2Len)
      emit (.read l2Len 4)
      labels p fuel (mplsBottom p l2Len) l2Len

/-- `while (true)`: one tag after the other. -/
def decapsulate (p : Packet) : Nat → Link → Dissect Op Link
  | 0, _ => spin
  | fuel + 1, link =>
    if link.type = EtherType.vlan then do
      discardIf (p.cap < link.l2Len + 4)
      emits [.read link.l2Len 2, .set (.vlanId (be16 p.data link.l2Len % 4096)),
        .read (link.l2Len + 2) 2]
      decapsulate p fuel
        { type := be16 p.data (link.l2Len + 2)
          l2Len := (link.l2Len + 4) % 65536
          vlanPacket := true }
    else if link.type = EtherType.mplsUc ∨ link.type = EtherType.mplsMc then do
      emits [.count .mpls, .read link.l2Len 4]
      let l2Len := (link.l2Len + 4) % 65536
      discardIf (p.cap < l2Len)
      let l2Len ← labels p fuel (mplsBottom p link.l2Len) l2Len
      decapsulate p fuel { link with type := EtherType.ip, l2Len }
    else if link.type = EtherType.pppoe then do
      emit (.count .pppoe)
      discardIf (p.cap < link.l2Len + 6)
      emit (.read (link.l2Len + 6) 2)
      let pppProto := be16 p.data (link.l2Len + 6)
      rejectIf (pppProto ≠ PPP_IP ∧ pppProto ≠ PPP_IPV6)
      let l2Len := (link.l2Len + 8) % 65536
      discardIf (p.cap < l2Len)
      decapsulate p fuel { link with type := EtherType.ip, l2Len }
    else if link.type = EtherType.pppoeDisc then do
      emit (.count .pppoe)
      reject
    else pure link

/-- The link layer: `l2_len` where the IP header starts. -/
def linkLayer (dl : Datalink) (p : Packet) (fuel : Nat) : Dissect Op Nat := do
  let link ← datalink dl p
  discardIf (p.cap < link.l2Len)
  let link ← decapsulate p fuel link
  emits (if link.vlanPacket then [.count .vlan, .set .tunnelNone] else [.set .tunnelNone])
  pure link.l2Len

end NetifyAgent
