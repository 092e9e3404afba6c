import Mathlib.Logic.Function.Basic
import NetifyAgent.FlowQueue
import NetifyAgent.IpLayer

/-! `ndCaptureThread::ProcessPacket`. The thread owns a flow template, its
statistics and a round-robin counter; the flow map and the count of flows are
shared with other threads, which may change them between two packets. The packet
is dissected into the template, the template is hashed, and the flow under that
digest is updated and queued for detection. -/
namespace NetifyAgent
open NetifyAgent.Bytes NetifyAgent.Dissection

/-- Everything that is fixed while a capture thread runs. -/
structure CaptureConfig where
  dlType : Datalink
  tag : List UInt8
  /-- The capture type is `ndCT_PCAP_OFFLINE`. -/
  offline : Bool := false
  tvEpoch : Nat := 0
  maxFlows : Nat := 0
  synScanProtection : Bool := false
  maxDetectionPkts : Nat := 32
  /-- `dhc != NULL`. -/
  dnsHints : Bool := false
  /-- `threads_dpi.size()`; the threads are numbered from zero. -/
  threadsDpi : Nat := 1

/-- The libraries a capture thread calls. -/
structure CaptureServices where
  sha1 : List UInt8 → List UInt8
  extensions : ExtensionWalker
  /-- `ns_initparse` on a payload of some length. -/
  nsInitparse : Memory → Nat → Option NsMsg
  pointerByte : Nat → Nat → UInt8
  /-- How long `ProcessDNSPacket` may follow one compressed name. -/
  dnsFuel : Nat

/-- A packet that `QueuePacket` handed to a detection thread. -/
structure Queued where
  digest : List UInt8
  thread : Int
  /-- The IP header and the bytes from there on. -/
  l2Len : Nat
  len : Int
  deriving DecidableEq, Repr

/-- `ndCaptureThread`, with what it shares. -/
structure CaptureThread where
  /-- The template `flow`. -/
  flow : Flow := {}
  stats : PacketStats := {}
  /-- `ndi.flow_buckets`. -/
  flowBuckets : List UInt8 → Option Flow := fun _ => none
  /-- `ndi.status.flows`. -/
  flows : Nat := 0
  dpiThreadId : Nat := 0
  tsPktFirst : Nat := 0
  tsPktLast : Nat := 0
  queue : List Queued := []
  /-- `ndCaptureThreadException("detection thread ID not found!")`. -/
  thrown : Bool := false

namespace CaptureThread

/-- The packet's time in `ND_DETECTION_TICKS`; replayed packets are moved to the
start of the replay and never go back in time. -/
def tsPkt (cfg : CaptureConfig) (p : Packet) (t : CaptureThread) : CaptureThread :=
  let ts := (p.tvSec * 1000 + p.tvUsec / 1000) % 2 ^ 64
  if cfg.offline then
    let first := if t.tsPktFirst = 0 then ts else t.tsPktFirst
    let moved := (ts + 2 ^ 64 - first + cfg.tvEpoch * 1000) % 2 ^ 64
    { t with tsPktFirst := first, tsPktLast := if moved < t.tsPktLast then t.tsPktLast else moved }
  else { t with tsPktLast := ts }

/-- `stats.pkt.raw++` and `stats.pkt.maxlen`. -/
def arrived (p : Packet) (t : CaptureThread) : CaptureThread :=
  { t with stats := { t.stats with
      raw := t.stats.raw + 1
      maxlen := max t.stats.maxlen p.length.toNat } }

/-- One action of the dissection. -/
def perform (p : Packet) (t : CaptureThread) : Op → CaptureThread
  | .read _ _ => t
  | .count c => { t with stats := t.stats.count c }
  | .discard | .reject => { t with stats := t.stats.discarded p.length.toNat }
  | .set a => { t with flow := a.apply t.flow }

/-! ## The flow -/

/-- `hdr_tcp->th_flags`. -/
def thFlags (p : Packet) (h : Headers) : Nat := (p.data (h.ip.l4 + 13)).toNat

def thFin (p : Packet) (h : Headers) : Bool := thFlags p h % 2 = 1
def thSyn (p : Packet) (h : Headers) : Bool := thFlags p h / 2 % 2 = 1
def thRst (p : Packet) (h : Headers) : Bool := thFlags p h / 4 % 2 = 1
def thAck (p : Packet) (h : Headers) : Bool := thFlags p h / 16 % 2 = 1

/-- `hdr_tcp->th_seq`, as it is stored. -/
def thSeq (p : Packet) (h : Headers) : Nat := le32 p.data (h.ip.l4 + 4)

/-- `hdr_gtpv1->teid`, as it is stored. -/
def teid (p : Packet) (hdr : Nat) : Nat := le32 p.data (hdr + 4)

/-- The origin of a new flow: the side seen first, then the higher port, then
the side that opened the TCP connection. -/
def origin (p : Packet) (h : Headers) (nf : Flow) : Origin :=
  let seen : Origin := if h.ip.addrCmp < 0 then .lower else .upper
  let other : Origin := if h.ip.addrCmp < 0 then .upper else .lower
  let refined : Origin :=
    if nf.ipProtocol ∈ [IPPROTO_TCP, IPPROTO_SCTP, IPPROTO_UDP, IPPROTO_UDPLITE].map UInt8.toNat then
      if nf.lowerAddr.getPort < nf.upperAddr.getPort then .upper
      else if nf.upperAddr.getPort < nf.lowerAddr.getPort then .lower
      else seen
    else seen
  if nf.ipProtocol = IPPROTO_TCP.toNat ∧ thSyn p h = true then
    if thAck p h then other else seen
  else refined

/-- `nf->gtp.lower_teid` or `nf->gtp.upper_teid`. -/
def setTeid (side : Side) (id : Nat) (nf : Flow) : Flow :=
  match side with
  | .lower => { nf with gtp := { nf.gtp with lowerTeid := id } }
  | .upper => { nf with gtp := { nf.gtp with upperTeid := id } }

/-- A flow that exists: a packet in the other direction of a tunnel tells the
other tunnel endpoint. -/
def known (p : Packet) (h : Headers) (nf : Flow) : Flow :=
  match h.gtpv1 with
  | some hdr =>
    if nf.direction ≠ h.ip.addrCmp ∧ gtpVersion p hdr = 1 ∧ nf.tunnelType = .gtp then
      match nf.origin with
      | .lower => setTeid .upper (teid p hdr) nf
      | .upper => setTeid .lower (teid p hdr) nf
      | .unknown => nf
    else nf
  | none => nf

/-- A new flow. -/
def fresh (p : Packet) (h : Headers) (t : CaptureThread) : Flow :=
  let nf := { t.flow.copy with direction := h.ip.addrCmp, tsFirstSeen := t.tsPktLast }
  let nf := { nf with origin := origin p h nf }
  match nf.tunnelType, h.gtpv1 with
  | .gtp, some hdr =>
    setTeid (if nf.origin = .lower then .lower else .upper) (teid p hdr) nf
  | _, _ => nf

/-- `nf->stats`. -/
def FlowStats.seen (s : FlowStats) (addrCmp : Int) (length : Nat) : FlowStats :=
  let s := { s with totalPackets := s.totalPackets + 1, totalBytes := s.totalBytes + length }
  if addrCmp < 0 then
    { s with lowerPackets := s.lowerPackets + 1, lowerBytes := s.lowerBytes + length }
  else { s with upperPackets := s.upperPackets + 1, upperBytes := s.upperBytes + length }

/-- `stats.pkt.ip` and the counters next to it. -/
def PacketStats.accepted (s : PacketStats) (ipVersion length : Nat) : PacketStats :=
  let s := { s with
    wireBytes := s.wireBytes + length + 24
    ip := s.ip + 1
    ipBytes := s.ipBytes + length }
  if ipVersion = 4 then { s with ip4 := s.ip4 + 1, ip4Bytes := s.ip4Bytes + length }
  else { s with ip6 := s.ip6 + 1, ip6Bytes := s.ip6Bytes + length }

/-- The TCP header of a packet of the flow. -/
def tcpSeen (p : Packet) (h : Headers) (nf : Flow) (stats : PacketStats) : Flow × PacketStats :=
  if nf.ipProtocol = IPPROTO_TCP.toNat then
    let late := thSeq p h ≤ nf.tcpLastSeq
    let nf := if late then { nf with tcpLastSeq := thSeq p h } else nf
    let stats := if late then { stats with tcpSeqErrors := stats.tcpSeqErrors + 1 } else stats
    let nf :=
      if thFin p h = true ∧ thAck p h = true then
        { nf with flags := { nf.flags with tcpFinAck := nf.flags.tcpFinAck + 1 } }
      else nf
    (nf, if thRst p h then { stats with tcpResets := stats.tcpResets + 1 } else stats)
  else (nf, stats)

/-- The DNS flavour of a flow by its ports. -/
def dnsProto (nf : Flow) : Option ProtoId :=
  let lport := nf.lowerAddr.getPort
  let uport := nf.upperAddr.getPort
  if lport = 53 ∨ uport = 53 then some Proto.dns
  else if lport = 5353 ∨ uport = 5353 then some Proto.mdns
  else if lport = 5355 ∨ uport = 5355 then some Proto.llmnr
  else none

/-- A DNS message is read; a query starts the flow over once it was detected. -/
def dnsSeen (cfg : CaptureConfig) (s : CaptureServices) (p : Packet) (h : Headers) (nf : Flow) :
    Flow :=
  match h.payload, dnsProto nf with
  | some (pkt, pktLen), some proto =>
    if cfg.dnsHints = true ∧ 12 < pktLen ∧ p.caplen = p.length then
      let payload : Memory := fun i => p.data (pkt + i)
      let read := processDnsPacket s.pointerByte s.dnsFuel (s.nsInitparse payload pktLen) payload
        pktLen proto ⟨nf, []⟩
      if read.2 = true ∧ read.1.flow.flags.detectionComplete = true then read.1.flow.restart
      else read.1.flow
    else nf
  | _, _ => nf

/-- Stores the flow and queues the packet for its detection thread. -/
def queuePacket (cfg : CaptureConfig) (p : Packet) (h : Headers) (nf : Flow) (t : CaptureThread) :
    CaptureThread :=
  let digest := t.flow.digestLower
  if wantsPacket cfg.maxDetectionPkts nf then
    let assigned := nf.dpiThreadId < 0
    let id : Int := if assigned then t.dpiThreadId else nf.dpiThreadId
    let next := if t.dpiThreadId + 1 = cfg.threadsDpi then 0 else t.dpiThreadId + 1
    let t := { t with
      flowBuckets := Function.update t.flowBuckets digest (some { nf with dpiThreadId := id })
      dpiThreadId := if assigned then next else t.dpiThreadId }
    if 0 ≤ id ∧ id < cfg.threadsDpi then
      { t with queue := t.queue ++ [⟨digest, id, h.ip.l2Len, (p.cap : Int) - h.ip.l2Len⟩] }
    else { t with thrown := true }
  else { t with flowBuckets := Function.update t.flowBuckets digest (some nf) }

/-- A packet of a flow that is in the map by now. -/
def seen (cfg : CaptureConfig) (s : CaptureServices) (p : Packet) (h : Headers) (nf : Flow)
    (t : CaptureThread) : CaptureThread :=
  let length := p.length.toNat
  let stats := PacketStats.accepted t.stats nf.ipVersion length
  let nf := { nf with
    stats := FlowStats.seen nf.stats h.ip.addrCmp length
    tsLastSeen := t.tsPktLast }
  let tcp := tcpSeen p h nf stats
  queuePacket cfg p h (dnsSeen cfg s p h tcp.1) { t with stats := tcp.2 }

/-- The packet is discarded and its flow is not created. -/
def dropped (p : Packet) (t : CaptureThread) : CaptureThread :=
  { t with stats := { t.stats.discarded p.length.toNat with
      flowDropped := t.stats.flowDropped + 1 } }

/-- From `flow.Hash` on. -/
def hashed (cfg : CaptureConfig) (s : CaptureServices) (p : Packet) (h : Headers)
    (t : CaptureThread) : CaptureThread :=
  let t := { t with flow := t.flow.hash s.sha1 cfg.tag }
  match t.flowBuckets t.flow.digestLower with
  | some nf => seen cfg s p h (known p h nf) t
  | none =>
    if 0 < cfg.maxFlows ∧ cfg.maxFlows < t.flows + 1 then dropped p t
    else if cfg.synScanProtection = true ∧ h.ip.ipProtocol = IPPROTO_TCP ∧ thFlags p h ≠ 0x12 then
      dropped p t
    else seen cfg s p h (fresh p h t) { t with flows := t.flows + 1 }

/-- `ndCaptureThread::ProcessPacket`, if its loops end within the fuel. -/
def processPacket (cfg : CaptureConfig) (s : CaptureServices) (fuel : Nat) (p : Packet)
    (t : CaptureThread) : Option CaptureThread :=
  let dissected := dissect s.extensions cfg.dlType p fuel
  let t := dissected.log.foldl (perform p) (arrived p (tsPkt cfg p t))
  match dissected.outcome with
  | .ok h => some (hashed cfg s p h t)
  | .left => some t
  | .spun => none

end CaptureThread

/-- What happens around a capture thread, one thing after another. -/
inductive CaptureAction where
  | packet (fuel : Nat) (p : Packet)
  /-- Other threads change the flow map. -/
  | share (flowBuckets : List UInt8 → Option Flow) (flows : Nat)
  /-- `GetCaptureStats`: `stats.AddAndReset`. -/
  | collect

/-- One step of a capture thread; nothing happens after an exception. -/
def CaptureThread.step (cfg : CaptureConfig) (s : CaptureServices) (t : CaptureThread) :
    CaptureAction → Option CaptureThread
  | .packet fuel p => if t.thrown then none else t.processPacket cfg s fuel p
  | .share flowBuckets flows => some { t with flowBuckets, flows }
  | .collect => some { t with stats := {} }

end NetifyAgent
