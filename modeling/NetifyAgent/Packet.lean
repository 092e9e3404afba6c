import NetifyAgent.Lib.Bytes

/-! `ndPacket` and the packet statistics of a capture thread. A packet's buffer
is memory from its first byte on: the capture length says how much of it was
captured, and a read past it returns whatever the heap holds there. -/
namespace NetifyAgent
open NetifyAgent.Bytes

/-- `ndPacket`. -/
structure Packet where
  /-- The wire length. -/
  length : UInt16
  /-- The number of captured bytes in `data`. -/
  caplen : UInt16
  data : Memory
  tvSec : Nat := 0
  tvUsec : Nat := 0

/-- The capture length as a number. -/
def Packet.cap (p : Packet) : Nat := p.caplen.toNat

theorem Packet.cap_lt (p : Packet) : p.cap < 65536 := p.caplen.toNat_lt

/-- A packet whose buffer starts with these bytes, all of them captured, and is
followed by zero bytes. -/
def Packet.ofBytes (bytes : List UInt8) : Packet where
  length := UInt16.ofNat bytes.length
  caplen := UInt16.ofNat bytes.length
  data := fun i => bytes.getD i 0

/-- `ndPacketStats`: the members of `pkt_t` that `ProcessPacket` counts, and
`flow_t::dropped`. -/
structure PacketStats where
  raw : Nat := 0
  eth : Nat := 0
  mpls : Nat := 0
  pppoe : Nat := 0
  vlan : Nat := 0
  frags : Nat := 0
  discard : Nat := 0
  maxlen : Nat := 0
  ip : Nat := 0
  ip4 : Nat := 0
  ip6 : Nat := 0
  icmp : Nat := 0
  igmp : Nat := 0
  tcp : Nat := 0
  tcpSeqErrors : Nat := 0
  tcpResets : Nat := 0
  udp : Nat := 0
  ipBytes : Nat := 0
  ip4Bytes : Nat := 0
  ip6Bytes : Nat := 0
  wireBytes : Nat := 0
  discardBytes : Nat := 0
  flowDropped : Nat := 0
  deriving DecidableEq, Repr

/-- The counters that are bumped by themselves. -/
inductive Counter where
  | eth
  | mpls
  | pppoe
  | vlan
  | frags
  | tcp
  | udp
  | icmp
  | igmp
  deriving DecidableEq, Repr

/-- `stats.pkt.<counter>++`. -/
def PacketStats.count (s : PacketStats) : Counter → PacketStats
  | .eth => { s with eth := s.eth + 1 }
  | .mpls => { s with mpls := s.mpls + 1 }
  | .pppoe => { s with pppoe := s.pppoe + 1 }
  | .vlan => { s with vlan := s.vlan + 1 }
  | .frags => { s with frags := s.frags + 1 }
  | .tcp => { s with tcp := s.tcp + 1 }
  | .udp => { s with udp := s.udp + 1 }
  | .icmp => { s with icmp := s.icmp + 1 }
  | .igmp => { s with igmp := s.igmp + 1 }

/-- `stats.pkt.discard++; stats.pkt.discard_bytes += packet->length`. -/
def PacketStats.discarded (s : PacketStats) (length : Nat) : PacketStats :=
  { s with discard := s.discard + 1, discardBytes := s.discardBytes + length }

/-- What packet accounting looks at. -/
structure Accounts where
  raw : Nat
  ip : Nat
  ipBytes : Nat
  discard : Nat
  discardBytes : Nat
  deriving DecidableEq, Repr

def PacketStats.accounts (s : PacketStats) : Accounts :=
  ⟨s.raw, s.ip, s.ipBytes, s.discard, s.discardBytes⟩

@[simp] theorem PacketStats.count_accounts (s : PacketStats) (c : Counter) :
    (s.count c).accounts = s.accounts := by
  cases c <;> rfl

@[simp] theorem PacketStats.discarded_accounts (s : PacketStats) (length : Nat) :
    (s.discarded length).accounts =
      { s.accounts with
        discard := s.accounts.discard + 1
        discardBytes := s.accounts.discardBytes + length } := rfl

end NetifyAgent
