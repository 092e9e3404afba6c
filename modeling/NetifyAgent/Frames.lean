import NetifyAgent.Capture

/-! Packets written down by their headers, for running a capture thread on.
Lengths are filled in, checksums are left zero: nothing looks at them. -/
namespace NetifyAgent.Frames

def be (n : Nat) : List UInt8 := [UInt8.ofNat (n / 256), UInt8.ofNat n]

/-- An Ethernet frame. -/
def ethernet (dst src : List UInt8) (type : Nat) (payload : List UInt8) : List UInt8 :=
  dst ++ src ++ be type ++ payload

/-- A VLAN tag in front of what the EtherType announces. -/
def vlan (vlanId type : Nat) (payload : List UInt8) : List UInt8 := be vlanId ++ be type ++ payload

def ipv4 (protocol : UInt8) (src dst payload : List UInt8) : List UInt8 :=
  [0x45, 0] ++ be (20 + payload.length) ++ [0, 0, 0, 0, 64, protocol, 0, 0] ++ src ++ dst ++ payload

def ipv6 (nextHeader : UInt8) (src dst payload : List UInt8) : List UInt8 :=
  [0x60, 0, 0, 0] ++ be payload.length ++ [nextHeader, 64] ++ src ++ dst ++ payload

def udp (sport dport : Nat) (payload : List UInt8) : List UInt8 :=
  be sport ++ be dport ++ be (8 + payload.length) ++ [0, 0] ++ payload

def tcp (sport dport : Nat) (flags : UInt8) (payload : List UInt8) : List UInt8 :=
  be sport ++ be dport ++ List.replicate 8 0 ++ [0x50, flags, 0, 0, 0, 0, 0, 0] ++ payload

/-- A host on the test network. -/
def host (n : UInt8) : List UInt8 := [192, 168, 1, n]

/-- The hardware address of a host. -/
def mac (n : UInt8) : List UInt8 := [2, 0, 0, 0, 0, n]

/-- A UDP packet from one host to another over Ethernet. -/
def udpFrame (src dst : UInt8) (sport dport : Nat) (payload : List UInt8) : Packet :=
  .ofBytes (ethernet (mac dst) (mac src) 0x0800
    (ipv4 17 (host src) (host dst) (udp sport dport payload)))

/-- The same packet behind a VLAN tag. -/
def vlanFrame (vlanId : Nat) (src dst : UInt8) (sport dport : Nat) (payload : List UInt8) :
    Packet :=
  .ofBytes (ethernet (mac dst) (mac src) 0x8100 (vlan vlanId 0x0800
    (ipv4 17 (host src) (host dst) (udp sport dport payload))))

/-- A capture thread on the interface of that name. -/
def eth0 (dlType : Datalink) : CaptureConfig where
  dlType := dlType
  tag := [0x65, 0x74, 0x68, 0x30]

/-- A capture thread on a file that was opened at second 10. -/
def replay : CaptureConfig := { eth0 .en10mb with offline := true, tvEpoch := 10 }

/-- The digests of the flows between port 4000 of the first host and port 53 of
the second, without a VLAN id and on VLAN 5, and of the two flows that have one
stream. -/
def sha1 (stream : List UInt8) : List UInt8 :=
  if stream = [101, 116, 104, 48, 4, 17, 0, 0, 192, 168, 1, 1, 192, 168, 1, 2, 15, 160, 0, 53] then
    [0xfa, 0x3d, 0xd8, 0xef, 0xbb, 0x2b, 0x8d, 0xfd, 0x8e, 0xa3, 0x71, 0x87, 0xd6, 0xdc, 0xa8, 0x0d,
      0xe3, 0x39, 0x22, 0xc6]
  else if stream =
      [101, 116, 104, 48, 4, 17, 5, 0, 192, 168, 1, 1, 192, 168, 1, 2, 15, 160, 0, 53] then
    [0x93, 0x43, 0x08, 0x17, 0xef, 0x3b, 0xc6, 0x1a, 0x0e, 0x38, 0x4f, 0xbb, 0x73, 0xbf, 0xaa, 0x41,
      0xa5, 0x74, 0x7e, 0x3d]
  else if stream = [101, 116, 104, 48, 6, 17, 1, 1, 32, 1, 13, 184, 1, 1, 1, 1, 1, 1, 1, 1, 1, 1, 1,
      1, 32, 1, 13, 184, 4, 17, 0, 0, 192, 168, 1, 1, 192, 168, 1, 2, 15, 160, 0, 53] then
    [0xd0, 0x88, 0x19, 0x83, 0xf5, 0x30, 0x4a, 0x30, 0x86, 0xca, 0x3f, 0xb6, 0xd2, 0x7e, 0x93, 0x3c,
      0x7d, 0xe6, 0xaa, 0x85]
  else []

/-- Libraries for those packets: they have no extension headers, and no DNS
message is read. -/
def services : CaptureServices where
  sha1 := sha1
  extensions := .none
  nsInitparse := fun _ _ => none
  pointerByte := fun _ _ => 0
  dnsFuel := 0

end NetifyAgent.Frames
