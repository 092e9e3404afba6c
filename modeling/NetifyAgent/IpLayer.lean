import NetifyAgent.LinkLayer

/-! The IP and transport headers of `ndCaptureThread::ProcessPacket`. Dissection
of an IP header starts over behind a GTP-U header, with the local variables as
the outer headers left them. What is left at the end is all that the rest of
`ProcessPacket` knows about the packet. -/
namespace NetifyAgent
open NetifyAgent.Bytes NetifyAgent.Dissection

/-! ## The walk over IPv6 extension headers -/

/-- What `ndpi_handle_ipv6_extension_headers` makes of its arguments. -/
structure Walked where
  /-- It returned an error. -/
  failed : Bool
  /-- `*l4ptr` advances by as many bytes as `*l4len` shrinks. -/
  skipped : Nat
  nextHeader : UInt8
  /-- The bytes it read, by their distance from `*l4ptr`. -/
  reads : List Nat
  deriving DecidableEq, Repr

/-- `ndpi_handle_ipv6_extension_headers`, which is part of nDPI: it skips whole
headers inside the payload, and the bytes it reads determine what it does. -/
structure ExtensionWalker where
  walk : Memory → (l3Len l4 l4Len : Nat) → UInt8 → Walked
  skipped_le : ∀ {m l3Len l4 l4Len proto}, (walk m l3Len l4 l4Len proto).failed = false →
    (walk m l3Len l4 l4Len proto).skipped ≤ l4Len
  reads_skipped : ∀ {m l3Len l4 l4Len proto}, (walk m l3Len l4 l4Len proto).failed = false →
    ∀ r ∈ (walk m l3Len l4 l4Len proto).reads, r < (walk m l3Len l4 l4Len proto).skipped
  local_ : ∀ {m m' l3Len l4 l4Len proto},
    (∀ r ∈ (walk m l3Len l4 l4Len proto).reads, m' (l4 + r) = m (l4 + r)) →
    walk m' l3Len l4 l4Len proto = walk m l3Len l4 l4Len proto

/-- The walk over a payload that has no extension headers. -/
def ExtensionWalker.none : ExtensionWalker where
  walk _ _ _ _ proto := { failed := false, skipped := 0, nextHeader := proto, reads := [] }
  skipped_le _ := Nat.zero_le _
  reads_skipped _ _ member := by cases member
  local_ _ := rfl

/-! ## The IP header -/

/-- The local variables that the jump back to `nd_process_ip` keeps. -/
structure Locals where
  fragOff : Nat := 0
  addrCmp : Int := 0
  /-- `hdr_gtpv1`, by its offset. -/
  gtpv1 : Option Nat := none
  deriving DecidableEq, Repr

/-- What the code at `nd_process_ip` finds out about an IP header. -/
structure IpHeader where
  l2Len : Nat
  ipVersion : Nat
  ipProtocol : UInt8
  l3Len : Nat
  /-- `l4`, by its offset. -/
  l4 : Nat
  l4Len : Nat
  fragOff : Nat
  addrCmp : Int
  deriving DecidableEq, Repr

/-- `ip_v`. -/
def ipV (p : Packet) (l2Len : Nat) : Nat := (p.data l2Len).toNat / 16

/-- `ip_hl * 4`. -/
def ipHl (p : Packet) (l2Len : Nat) : Nat := (p.data l2Len).toNat % 16 * 4

/-- `ntohs(hdr_ip->ip_len) - l3_len`, a `uint16_t`. -/
def ip4L4Len (p : Packet) (l2Len : Nat) : Nat :=
  (be16 p.data (l2Len + 2) + 65536 - ipHl p l2Len) % 65536

/-- `frag_off`, which is not assigned where the header lies behind the capture. -/
def ip4FragOff (p : Packet) (l2Len fragOff : Nat) : Nat :=
  if l2Len ≤ p.cap then be16 p.data (l2Len + 6) else fragOff

/-- Two values in the order of an address comparison. -/
def ordered {α : Type} (addrCmp : Int) (src dst : α) : α × α :=
  if addrCmp < 0 then (src, dst) else (dst, src)

/-- The address and, on Ethernet, the hardware address of both endpoints. -/
def assignAddrs (create : Side → List UInt8 → Assign) (dl : Datalink) (p : Packet)
    (addrCmp : Int) (src dst : List UInt8) : List Op :=
  let addrs := ordered addrCmp src dst
  let macs := ordered addrCmp (slice p.data 6 6) (slice p.data 0 6)
  [.set (create .lower addrs.1), .set (create .upper addrs.2)] ++
    if dl = .en10mb then
      [.read 6 6, .read 0 6, .set (.createHw .lower macs.1), .set (.createHw .upper macs.2)]
    else []

/-- `flow.ip_version == 4`. -/
def ip4Header (dl : Datalink) (p : Packet) (l2Len : Nat) (kept : Locals) : Dissect Op IpHeader := do
  let l3Len := ipHl p l2Len
  let l4Len := ip4L4Len p l2Len
  let ipProtocol := p.data (l2Len + 9)
  emits [.read (l2Len + 2) 2, .read (l2Len + 9) 1, .set (.ipProtocol ipProtocol)]
  readIf (l2Len ≤ p.cap) (l2Len + 6) 2
  let fragOff := ip4FragOff p l2Len kept.fragOff
  rejectIf (((p.cap : Int) - l2Len) % 4294967296 < 20)
  if fragOff % 0x4000 ≠ 0 then do
    emit (.count .frags)
    reject
  else if fragOff % 0x2000 ≠ 0 then do
    emit (.count .frags)
    reject
  else do
    rejectIf ((p.cap : Int) - l2Len < l3Len)
    let src := slice p.data (l2Len + 12) 4
    let dst := slice p.data (l2Len + 16) 4
    let addrCmp := memcmp src dst
    emits (.read (l2Len + 12) 4 :: .read (l2Len + 16) 4 ::
      assignAddrs .createIn dl p addrCmp src dst)
    pure { l2Len, ipVersion := 4, ipProtocol, l3Len, l4 := l2Len + l3Len, l4Len, fragOff, addrCmp }

/-- The loop that compares IPv6 addresses word by word, until it finds two that
differ. It is entered with addresses that do. -/
def compareWords (m : Memory) (src dst : Nat) : Nat → Int
  | 0 => 0
  | words + 1 =>
    let addrCmp := memcmp (slice m src 4) (slice m dst 4)
    if addrCmp = 0 then compareWords m (src + 4) (dst + 4) words else addrCmp

/-- `flow.ip_version == 6`. -/
def ip6Header (W : ExtensionWalker) (dl : Datalink) (p : Packet) (l2Len : Nat) (kept : Locals) :
    Dissect Op IpHeader := do
  let plen := be16 p.data (l2Len + 4)
  let walked := W.walk p.data 40 (l2Len + 40) plen (p.data (l2Len + 6))
  emits ([.read (l2Len + 4) 2, .read (l2Len + 6) 1, .set (.ipProtocol (p.data (l2Len + 6)))] ++
    walked.reads.map (fun r => .read (l2Len + 40 + r) 1) ++ [.set (.ipProtocol walked.nextHeader)])
  rejectIf (walked.failed = true)
  let src := slice p.data (l2Len + 8) 16
  let dst := slice p.data (l2Len + 24) 16
  let addrCmp :=
    if memcmp src dst ≠ 0 then compareWords p.data (l2Len + 8) (l2Len + 24) 4 else kept.addrCmp
  emits (.read (l2Len + 8) 16 :: .read (l2Len + 24) 16 ::
    assignAddrs .createIn6 dl p addrCmp src dst)
  pure { l2Len, ipVersion := 6, ipProtocol := walked.nextHeader, l3Len := 40,
         l4 := l2Len + 40 + walked.skipped, l4Len := plen - walked.skipped,
         fragOff := kept.fragOff, addrCmp }

/-- The branch on `flow.ip_version`. -/
def ipVersionHeader (W : ExtensionWalker) (dl : Datalink) (p : Packet) (l2Len : Nat)
    (kept : Locals) : Dissect Op IpHeader :=
  if ipV p l2Len = 4 then ip4Header dl p l2Len kept
  else if ipV p l2Len = 6 then ip6Header W dl p l2Len kept
  else reject

/-- One pass over the code at `nd_process_ip`, up to the check of the lengths. -/
def ipHeader (W : ExtensionWalker) (dl : Datalink) (p : Packet) (l2Len : Nat) (kept : Locals) :
    Dissect Op IpHeader := do
  discardIf (p.cap < l2Len + 20)
  emits [.read l2Len 1, .set (.ipVersion (ipV p l2Len))]
  let ip ← ipVersionHeader W dl p l2Len kept
  rejectIf (p.cap < l2Len + ip.l3Len + ip.l4Len)
  pure ip

/-! ## GTP -/

def GTP_U_PORT : Nat := 2152
def GTP_G_PDU : Nat := 0xff

/-- `flags.version` of the GTP header at an offset. -/
def gtpVersion (p : Packet) (off : Nat) : Nat := (p.data off).toNat / 32

/-- The `l2_len` behind a GTPv1 header. -/
def gtpInner (p : Packet) (off : Nat) : Nat :=
  let flags := (p.data off).toNat
  (off + 8 + flags / 4 % 2 + flags / 2 % 2 * 4 + flags % 2) % 65536

/-- Looks for a tunnel: `hdr_gtpv1` afterwards, and the `l2_len` of the inner
header where dissection starts over. -/
def gtp (p : Packet) (ip : IpHeader) (gtpv1 : Option Nat) :
    Dissect Op (Option Nat × Option Nat) :=
  if 8 < ip.l4Len ∧ ip.ipProtocol = 17 then do
    emit (.read ip.l4 2)
    readIf (be16 p.data ip.l4 ≠ GTP_U_PORT) (ip.l4 + 2) 2
    if be16 p.data ip.l4 = GTP_U_PORT ∨ be16 p.data (ip.l4 + 2) = GTP_U_PORT then do
      let hdr := ip.l4 + 8
      emit (.read hdr 1)
      if gtpVersion p hdr = 1 then do
        emits [.set (.enterGtp 1), .read (hdr + 1) 1]
        if (p.data (hdr + 1)).toNat = GTP_G_PDU then pure (some hdr, some (gtpInner p hdr))
        else pure (some hdr, none)
      else pure (some hdr, none)
    else pure (gtpv1, none)
  else pure (gtpv1, none)

/-- From `nd_process_ip` to the header that carries the flow, with `hdr_gtpv1`. -/
def processIp (W : ExtensionWalker) (dl : Datalink) (p : Packet) :
    Nat → Nat → Locals → Dissect Op (IpHeader × Option Nat)
  | 0, _, _ => spin
  | fuel + 1, l2Len, kept => do
    let ip ← ipHeader W dl p l2Len kept
    let tunnel ← gtp p ip kept.gtpv1
    match tunnel.2 with
    | some inner =>
      processIp W dl p fuel inner
        { fragOff := ip.fragOff, addrCmp := ip.addrCmp, gtpv1 := tunnel.1 }
    | none => pure (ip, tunnel.1)

/-! ## Transport -/

def IPPROTO_ICMP : UInt8 := 1
def IPPROTO_IGMP : UInt8 := 2
def IPPROTO_TCP : UInt8 := 6
def IPPROTO_UDP : UInt8 := 17
def IPPROTO_ICMPV6 : UInt8 := 58
def IPPROTO_SCTP : UInt8 := 132
def IPPROTO_UDPLITE : UInt8 := 136

/-- The ports at `l4`, lower endpoint first. Between equal addresses they decide
the order, as they are stored. -/
def orderedPorts (p : Packet) (ip : IpHeader) : Nat × Nat :=
  let sport := le16 p.data ip.l4
  let dport := le16 p.data (ip.l4 + 2)
  if ip.addrCmp < 0 then (sport, dport)
  else if 0 < ip.addrCmp then (dport, sport)
  else if sport < dport then (sport, dport)
  else (dport, sport)

def assignPorts (p : Packet) (ip : IpHeader) : List Op :=
  [.read ip.l4 2, .read (ip.l4 + 2) 2, .set (.setPort .lower (orderedPorts p ip).1),
    .set (.setPort .upper (orderedPorts p ip).2)]

/-- `th_off * 4`. -/
def thOff (p : Packet) (l4 : Nat) : Nat := (p.data (l4 + 12)).toNat / 16 * 4

/-- `case IPPROTO_TCP`: where the payload starts and its length. -/
def tcpHeader (p : Packet) (ip : IpHeader) : Dissect Op (Option (Nat × Nat)) := do
  emit (.count .tcp)
  rejectIf (ip.l4Len < 20)
  emit (.read (ip.l4 + 12) 1)
  let hdrSize := thOff p ip.l4
  rejectIf (hdrSize < 20 ∨ ip.l4Len < hdrSize)
  emits (assignPorts p ip)
  pure (some (ip.l4 + hdrSize, ip.l4Len - hdrSize))

/-- `case IPPROTO_UDP`. -/
def udpHeader (p : Packet) (ip : IpHeader) : Dissect Op (Option (Nat × Nat)) := do
  emit (.count .udp)
  rejectIf (ip.l4Len < 8)
  emits (assignPorts p ip ++ [.read (ip.l4 + 4) 2])
  let ulen := be16 p.data (ip.l4 + 4)
  rejectIf (ulen ≠ ip.l4Len)
  pure (some (ip.l4 + 8, ulen - 8))

/-- `switch (flow.ip_protocol)`; other protocols have no payload to look at. -/
def transport (p : Packet) (ip : IpHeader) : Dissect Op (Option (Nat × Nat)) :=
  if ip.ipProtocol = IPPROTO_TCP then tcpHeader p ip
  else if ip.ipProtocol = IPPROTO_UDP then udpHeader p ip
  else if ip.ipProtocol = IPPROTO_ICMP ∨ ip.ipProtocol = IPPROTO_ICMPV6 then do
    emit (.count .icmp)
    pure none
  else if ip.ipProtocol = IPPROTO_IGMP then do
    emit (.count .igmp)
    pure none
  else pure none

/-- What dissection knows about a packet when it calls `flow.Hash`. -/
structure Headers where
  ip : IpHeader
  gtpv1 : Option Nat
  /-- `pkt` and `pkt_len`. -/
  payload : Option (Nat × Nat)
  deriving DecidableEq, Repr

/-- `ProcessPacket` up to `flow.Hash`. -/
def dissect (W : ExtensionWalker) (dl : Datalink) (p : Packet) (fuel : Nat) :
    Dissect Op Headers := do
  let l2Len ← linkLayer dl p fuel
  let ip ← processIp W dl p fuel l2Len {}
  let payload ← transport p ip.1
  pure { ip := ip.1, gtpv1 := ip.2, payload }

end NetifyAgent
