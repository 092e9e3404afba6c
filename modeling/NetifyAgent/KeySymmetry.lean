import Mathlib.Data.Sym.Sym2
import NetifyAgent.Frames
import NetifyAgent.KeyHistory
import NetifyAgent.Mirror

/-! The two directions of a conversation have one key, and the key tells
conversations apart. The first half walks over a packet and its mirror image
side by side; the second reads a key back from the bytes that are hashed. -/
namespace NetifyAgent.KeySymmetry
open NetifyAgent.Bytes NetifyAgent.Dissection NetifyAgent.Runs NetifyAgent.KeyHistory

/-! ## Both directions -/

section
variable {cfg : CaptureConfig} {s : CaptureServices} {W : ExtensionWalker} {dl : Datalink}
  {p p' : Packet} {fuel : Nat} {h : Headers}

/-- The headers of a packet in the other direction. -/
theorem reached_mirrored {link last : Link} (mirrored : Mirrored W dl p p')
    (reached : Reached W dl p fuel link last h) :
    ∃ h', Reached W dl p' fuel link last h' ∧ decapsulate p' fuel link = decapsulate p fuel link ∧
      ∀ vlanId, (packetKey dl p' h'.ip vlanId).lower = (packetKey dl p h.ip vlanId).lower ∧
        (packetKey dl p' h'.ip vlanId).upper = (packetKey dl p h.ip vlanId).upper ∧
        (packetKey dl p' h'.ip vlanId).encode = (packetKey dl p h.ip vlanId).encode := by
  have framed : frame dl p' = some link :=
    (frame_mirrored mirrored.caplen mirrored.link).trans reached.framed
  obtain ⟨l2Len, tags, headers⟩ := mirrored.headers link reached.framed
  have alike : decapsulate p' fuel link = decapsulate p fuel link :=
    decapsulate_mirrored mirrored.caplen tags fuel link.vlanPacket
  cases stop_of_reached reached tags
  have turned : ({} : Locals).addrCmp = -({} : Locals).addrCmp := rfl
  obtain ⟨ip', ended, opposite, header⟩ :=
    processIp_mirrored mirrored.caplen headers turned reached.headers
  obtain ⟨found, kept, accepted, _, same⟩ := processIp_last reached.headers
  simp only at same opposite header
  rw [same] at opposite header
  have version : ipV p found = 4 ∨ ipV p found = 6 := accepted.1.imp (·.1) (·.1)
  have transport' : (transport p' ip'.1).outcome = .ok h.payload := by
    rw [transport_mirrored opposite header.tcp header.udp, ← same]
    exact reached.transport
  refine ⟨⟨ip'.1, ip'.2, h.payload⟩, ⟨framed, ?_, ended, transport'⟩, alike, fun vlanId => ?_⟩
  · rw [alike]
    exact reached.tags
  · rw [same]
    exact packetKey_mirrored opposite
      (addrs_mirrored header version rfl opposite.l2Len opposite.ipVersion)
      (ports_mirrored opposite header.ports) addrCmp_consistent mirrored.link

theorem processPacket_of_ok {t : CaptureThread}
    (ended : (dissect s.extensions cfg.dlType p fuel).outcome = .ok h) :
    ∃ t', CaptureThread.processPacket cfg s fuel p t = some t' := by
  unfold CaptureThread.processPacket
  simp only [ended]
  exact ⟨_, rfl⟩

/-- **One key for both directions.** -/
theorem both_directions {t t' after : CaptureThread} (fresh : t.flow = {}) (fresh' : t'.flow = {})
    (mirrored : Mirrored s.extensions cfg.dlType p p')
    (ended : (dissect s.extensions cfg.dlType p fuel).outcome = .ok h)
    (taken : CaptureThread.processPacket cfg s fuel p t = some after) :
    ∃ h' after', (dissect s.extensions cfg.dlType p' fuel).outcome = .ok h' ∧
      CaptureThread.processPacket cfg s fuel p' t' = some after' ∧
      after'.flow.lowerAddr.endpoint = after.flow.lowerAddr.endpoint ∧
      after'.flow.upperAddr.endpoint = after.flow.upperAddr.endpoint ∧
      after'.flow.digestLower = after.flow.digestLower := by
  obtain ⟨link, last, reached⟩ := reached_of_dissect ended
  obtain ⟨h', reached', alike, keys⟩ := reached_mirrored mirrored reached
  have ended' := dissect_of_reached reached'
  obtain ⟨after', taken'⟩ := processPacket_of_ok (t := t') ended'
  have template : Template cfg.dlType t.flow := fresh ▸ template_start cfg.dlType
  have template' : Template cfg.dlType t'.flow := fresh' ▸ template_start cfg.dlType
  obtain ⟨key, stream, digest⟩ := processPacket_key template reached ended taken
  obtain ⟨key', stream', digest'⟩ := processPacket_key template' reached' ended' taken'
  rw [alike, fresh', ← fresh] at key'
  obtain ⟨lower, upper, encode⟩ := keys (assigned t.flow (decapsulate p fuel link).log).vlanId
  rw [← key, ← key'] at lower upper encode
  refine ⟨h', after', ended', taken', lower, upper, ?_⟩
  rw [digest, digest', stream, stream', encode]

end

/-! ## One digest, one conversation -/

/-- The two endpoints of a packet in no order, with the ports as they are
stored, and zero where the protocol has none. -/
def endpoints (p : Packet) (ip : IpHeader) : Sym2 (List UInt8 × Nat) :=
  if ip.ipProtocol = IPPROTO_TCP ∨ ip.ipProtocol = IPPROTO_UDP then
    s((ip.src p, le16 p.data ip.l4), (ip.dst p, le16 p.data (ip.l4 + 2)))
  else s((ip.src p, 0), (ip.dst p, 0))

section
variable {dl : Datalink} {p : Packet}

/-- A key holds the endpoints of its packet. -/
theorem endpoints_of_key {ip : IpHeader} (vlanId : Nat)
    (consistent : ip.addrCmp = 0 → ip.src p = ip.dst p) :
    s((packetKey dl p ip vlanId).lower, (packetKey dl p ip vlanId).upper) = endpoints p ip := by
  unfold packetKey endpoints IpHeader.addrs IpHeader.ports orderedPorts ordered
  simp only
  rcases Int.lt_trichotomy ip.addrCmp 0 with less | equal | greater
  · simp only [if_pos less]
    split <;> rfl
  · rw [equal, consistent equal]
    simp only [lt_irrefl, if_false]
    split
    · split
      · rfl
      · exact Sym2.eq_swap
    · rfl
  · have notLess : ¬ ip.addrCmp < 0 := by omega
    simp only [if_neg notLess, if_pos greater]
    split <;> exact Sym2.eq_swap

theorem packetKey_valid {ip : IpHeader} {vlanId : Nat}
    (version : ip.ipVersion = 4 ∨ ip.ipVersion = 6) (small : vlanId < 65536) :
    (packetKey dl p ip vlanId).Valid := by
  have width : (ip.src p).length = (if ip.ipVersion = 4 then 4 else 16) ∧
      (ip.dst p).length = (if ip.ipVersion = 4 then 4 else 16) := by
    unfold IpHeader.src IpHeader.dst
    split <;> simp
  have addrs : (ip.addrs p).1.length = (if ip.ipVersion = 4 then 4 else 16) ∧
      (ip.addrs p).2.length = (if ip.ipVersion = 4 then 4 else 16) := by
    unfold IpHeader.addrs ordered
    split
    · exact width
    · exact width.symm
  have ports : (ip.ports p).1 < 65536 ∧ (ip.ports p).2 < 65536 := by
    have first := le16_lt p.data ip.l4
    have second := le16_lt p.data (ip.l4 + 2)
    unfold IpHeader.ports orderedPorts
    split
    · simp only
      split_ifs <;> exact ⟨by assumption, by assumption⟩
    · exact ⟨by decide, by decide⟩
  refine ⟨version, UInt8.toNat_lt _, small, ⟨addrs.1, ports.1⟩, ⟨addrs.2, ports.2⟩, ?_⟩
  show (ip.lowerMac dl p).length = 6
  unfold IpHeader.lowerMac ordered
  split
  · split <;> simp
  · rfl

end

/-- SHA-1 has no collision between two strings. -/
def CollisionFree (sha1 : List UInt8 → List UInt8) (stream stream' : List UInt8) : Prop :=
  sha1 stream = sha1 stream' → stream = stream'

/-- A packet reaches `flow.Hash` on a thread that started with a fresh template. -/
def Hashes (cfg : CaptureConfig) (s : CaptureServices) (p : Packet) (h : Headers)
    (after : CaptureThread) : Prop :=
  ∃ start before fuel, start.flow = {} ∧
    Reaches (CaptureThread.step cfg s) Always start before ∧
    (dissect s.extensions cfg.dlType p fuel).outcome = .ok h ∧
    CaptureThread.processPacket cfg s fuel p before = some after

/-- Two hashed packets agree on what the key stands for, with the lower hardware
address as far as it is hashed. -/
structure Agree (cfg cfg' : CaptureConfig) (p p' : Packet) (h h' : Headers)
    (flow flow' : Flow) : Prop where
  tag : cfg.tag = cfg'.tag
  ipVersion : h.ip.ipVersion = h'.ip.ipVersion
  ipProtocol : h.ip.ipProtocol = h'.ip.ipProtocol
  vlanId : flow.vlanId = flow'.vlanId
  endpoints : endpoints p h.ip = endpoints p' h'.ip
  mac : flow.key.mac = flow'.key.mac

section
variable {cfg cfg' : CaptureConfig} {s : CaptureServices} {p p' : Packet} {h h' : Headers}
  {after after' : CaptureThread}

/-- What is hashed of a packet. -/
theorem key_of_hashes (hashes : Hashes cfg s p h after) :
    (∃ vlanId, after.flow.key = packetKey cfg.dlType p h.ip vlanId) ∧ after.flow.key.Valid ∧
      s(after.flow.key.lower, after.flow.key.upper) = endpoints p h.ip ∧
      after.flow.hashStream cfg.tag = cfg.tag ++ after.flow.key.encode ∧
      after.flow.digestLower = s.sha1 (after.flow.hashStream cfg.tag) := by
  obtain ⟨start, before, fuel, fresh, history, ended, taken⟩ := hashes
  obtain ⟨link, last, reached⟩ := reached_of_dissect ended
  obtain ⟨_, kept, accepted, _, same⟩ := processIp_last reached.headers
  simp only at same
  have template := template_of_history fresh history
  obtain ⟨key, stream, digest⟩ := processPacket_key template reached ended taken
  have small := (template.assigned (tame_decapsulate (p := p) fuel link)).vlanId
  refine ⟨⟨_, key⟩, ?_, ?_, stream, digest⟩
  · rw [key, same]
    exact packetKey_valid (accepted.1.imp (·.1) (·.1)) (by omega)
  · rw [key, same]
    exact endpoints_of_key _ addrCmp_consistent

/-- **One digest, one conversation.** -/
theorem one_conversation (hashes : Hashes cfg s p h after) (hashes' : Hashes cfg' s p' h' after')
    (free : CollisionFree s.sha1 (after.flow.hashStream cfg.tag) (after'.flow.hashStream cfg'.tag))
    (apart : h.ip.ipVersion = 4 → h'.ip.ipVersion = 6 → ¬ FlowKey.Shifted cfg.tag cfg'.tag)
    (apart' : h'.ip.ipVersion = 4 → h.ip.ipVersion = 6 → ¬ FlowKey.Shifted cfg'.tag cfg.tag)
    (same : after.flow.digestLower = after'.flow.digestLower) :
    Agree cfg cfg' p p' h h' after.flow after'.flow := by
  obtain ⟨⟨_, key⟩, valid, ends, stream, digest⟩ := key_of_hashes hashes
  obtain ⟨⟨_, key'⟩, valid', ends', stream', digest'⟩ := key_of_hashes hashes'
  have version : after.flow.key.ipVersion = h.ip.ipVersion := by rw [key]; rfl
  have version' : after'.flow.key.ipVersion = h'.ip.ipVersion := by rw [key']; rfl
  have protocol : after.flow.key.ipProtocol = h.ip.ipProtocol.toNat := by rw [key]; rfl
  have protocol' : after'.flow.key.ipProtocol = h'.ip.ipProtocol.toNat := by rw [key']; rfl
  rw [digest, digest'] at same
  have streams := free same
  rw [stream, stream'] at streams
  obtain ⟨tag, encode⟩ := FlowKey.stream_inj valid valid' (version ▸ version' ▸ apart)
    (version ▸ version' ▸ apart') streams
  obtain ⟨sameVersion, sameProtocol, vlanId, lower, upper, mac⟩ :=
    FlowKey.encode_inj valid valid' encode
  refine ⟨tag, ?_, ?_, vlanId, ?_, mac⟩
  · rw [← version, ← version', sameVersion]
  · rw [protocol, protocol'] at sameProtocol
    exact UInt8.toNat_inj.mp sameProtocol
  · rw [← ends, ← ends', lower, upper]

end

/-- An IPv6 packet on VLAN 257. -/
def wideFrame : Packet :=
  .ofBytes (Frames.ethernet (Frames.mac 2) (Frames.mac 1) 0x8100 (Frames.vlan 257 0x86dd
    (Frames.ipv6 17 ([0x20, 1, 0x0d, 0xb8] ++ List.replicate 12 1)
      ([0x20, 1, 0x0d, 0xb8, 4, 17, 0, 0] ++ Frames.host 1 ++ Frames.host 2)
      (Frames.udp 4000 53 []))))

/-- A thread whose tag goes on like the key of that packet. -/
def longTag : CaptureConfig where
  dlType := .en10mb
  tag := (Frames.eth0 .en10mb).tag ++ ([6, 17, 1, 1, 0x20, 1, 0x0d, 0xb8] ++ List.replicate 12 1 ++
    [0x20, 1, 0x0d, 0xb8])

/-- What is hashed of that packet on the interface eth0. -/
def wideStream : List UInt8 :=
  longTag.tag ++ ([4, 17, 0, 0] ++ Frames.host 1 ++ Frames.host 2 ++ [0x0f, 0xa0, 0, 53])

/-- What is hashed of a DNS question on the interface eth0. -/
def udpStream : List UInt8 :=
  (Frames.eth0 .en10mb).tag ++
    ([4, 17, 0, 0] ++ Frames.host 1 ++ Frames.host 2 ++ [0x0f, 0xa0, 0, 53])

theorem udpFrame_mirrored : Mirrored .none .en10mb (Frames.udpFrame 1 2 4000 53 [])
    (Frames.udpFrame 2 1 53 4000 []) := by
  refine ⟨by decide, ⟨by decide, by decide⟩, fun link framed => ?_⟩
  have same : frame .en10mb (Frames.udpFrame 1 2 4000 53 []) = some ⟨0x0800, 14, false⟩ := by
    decide
  cases same.symm.trans framed
  refine ⟨14, .done (by decide), .last ?_ (by decide)⟩
  constructor <;> decide

end NetifyAgent.KeySymmetry
