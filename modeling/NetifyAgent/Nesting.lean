import NetifyAgent.Frames
import NetifyAgent.IpWalk
import NetifyAgent.LinkBounds

/-! The headers of a packet that reaches `flow.Hash`. The checks on the way bound
an IPv4 packet by the capture length, but they let a header length below twenty
pass, they count an IPv6 payload without its extension headers, and they look at
the type of a GTP header that may not be there. A packet is nested soundly
exactly when it has none of these defects and its tags are where they are read. -/
namespace NetifyAgent.Nesting
open NetifyAgent.Bytes NetifyAgent.Dissection NetifyAgent.LinkBounds

/-- The size of the fixed IP header. -/
def fixedLen (ipVersion : Nat) : Nat := if ipVersion = 4 then 20 else 40

/-- The header nesting is sound. -/
structure Sound (p : Packet) (x : Dissect Op Headers) (h : Headers) : Prop where
  /-- The fixed IP header lies inside the capture. -/
  fixed : h.ip.l2Len + fixedLen h.ip.ipVersion ≤ p.cap
  /-- The transport header lies behind it. -/
  behind : h.ip.l2Len + fixedLen h.ip.ipVersion ≤ h.ip.l4
  tcp : h.ip.ipProtocol = IPPROTO_TCP → h.ip.l4 + thOff p h.ip.l4 ≤ p.cap
  udp : h.ip.ipProtocol = IPPROTO_UDP → h.ip.l4 + 8 ≤ p.cap
  payload : ∀ pkt pktLen, h.payload = some (pkt, pktLen) → pkt + pktLen ≤ p.cap
  /-- Nothing was read outside the capture. -/
  inside : Every (Inside p) x

/-! ## Tags where they are read -/

/-- A tag lies inside the capture where the code reads it. -/
def ReadInside (p : Packet) : Tag → Nat → Prop
  | .vlan, off | .mpls, off => off + 4 ≤ p.cap
  | .label, off => off % 65536 + 4 ≤ p.cap
  | .pppoe, off => off + 8 ≤ p.cap
  | .session, _ => True

section
variable {W : ExtensionWalker} {dl : Datalink} {p : Packet}

theorem allOps_inside (tag : Tag) (off : Nat) :
    AllOps (Inside p) p tag off ↔ ReadInside p tag off := by
  unfold AllOps
  cases tag <;> simp only [Tag.ops, ReadInside] <;> split <;> simp [Inside] <;> omega

/-! ## One IP header -/

/-- The condition on an IP header. -/
structure Nested (W : ExtensionWalker) (p : Packet) (l2Len : Nat) : Prop where
  /-- The extension headers lie inside the capture where they are read. -/
  extensions : ipV p l2Len ≠ 4 → ∀ r ∈ (walkedAt W p l2Len).reads, l2Len + 40 + r < p.cap
  /-- So does the type of a GTPv1 header. -/
  gtpType : tunnelled p (segment W p l2Len) → gtpVersion p ((segment W p l2Len).l4 + 8) = 1 →
    (segment W p l2Len).l4 + 10 ≤ p.cap
  /-- The header that carries the flow is at least as long as its fixed part. -/
  headerLen : inner W p l2Len = none → ipV p l2Len = 4 → 20 ≤ ipHl p l2Len
  /-- Its TCP or UDP segment lies inside the capture. -/
  segmentFits : inner W p l2Len = none →
    (segment W p l2Len).protocol = IPPROTO_TCP ∨ (segment W p l2Len).protocol = IPPROTO_UDP →
    (segment W p l2Len).l4 + (segment W p l2Len).l4Len ≤ p.cap

/-- The conditions that only the header that carries the flow has to meet. -/
def LastNested (p : Packet) (ip : IpHeader) : Prop :=
  (ip.ipVersion = 4 → 20 ≤ ip.l3Len) ∧
    (ip.ipProtocol = IPPROTO_TCP ∨ ip.ipProtocol = IPPROTO_UDP → ip.l4 + ip.l4Len ≤ p.cap)

theorem assignAddrs_inside {create : Side → List UInt8 → Assign} {addrCmp : Int}
    {src dst : List UInt8} (long : dl.headerLen ≤ p.cap) :
    ∀ w ∈ assignAddrs create dl p addrCmp src dst, Inside p w := by
  intro w member
  simp only [assignAddrs, List.mem_append, List.mem_cons, List.not_mem_nil, or_false] at member
  rcases member with (rfl | rfl) | member
  · trivial
  · trivial
  split at member
  · rename_i ethernet
    subst ethernet
    simp only [Datalink.headerLen] at long
    simp only [List.mem_cons, List.not_mem_nil, or_false] at member
    rcases member with rfl | rfl | rfl | rfl
    · show 6 + 6 ≤ p.cap
      omega
    · show 0 + 6 ≤ p.cap
      omega
    · trivial
    · trivial
  · cases member

/-- An accepted IPv4 header is read inside the capture. -/
theorem ip4Ops_inside {l2Len : Nat} {addrCmp : Int} (long : dl.headerLen ≤ p.cap)
    (fits : l2Len + 20 ≤ p.cap) : ∀ w ∈ ip4Ops dl p l2Len addrCmp, Inside p w := by
  intro w member
  rcases List.mem_append.mp member with member | member
  · simp only [List.mem_cons, List.not_mem_nil, or_false] at member
    rcases member with rfl | rfl | rfl | rfl | rfl | rfl <;> simp only [Inside] <;> omega
  · exact assignAddrs_inside long w member

/-- An accepted IPv6 header is, if its extension headers are. -/
theorem ip6Ops_inside {l2Len : Nat} {addrCmp : Int} (long : dl.headerLen ≤ p.cap)
    (fits : l2Len + 40 ≤ p.cap) : (∀ w ∈ ip6Ops W dl p l2Len addrCmp, Inside p w) ↔
      ∀ r ∈ (walkedAt W p l2Len).reads, l2Len + 40 + r < p.cap := by
  constructor
  · intro inside r read
    have member : Op.read (l2Len + 40 + r) 1 ∈ ip6Ops W dl p l2Len addrCmp := by
      simp only [ip6Ops, List.mem_append, List.mem_map]
      exact .inl (.inl (.inr ⟨r, read, rfl⟩))
    exact inside _ member
  · intro walked w member
    simp only [ip6Ops, List.mem_append, List.mem_map, List.mem_cons, List.not_mem_nil,
      or_false] at member
    rcases member with (((rfl | rfl | rfl) | ⟨r, read, rfl⟩) | rfl | rfl | rfl) | member
    · simp only [Inside]
      omega
    · simp only [Inside]
      omega
    · trivial
    · exact walked r read
    · trivial
    · simp only [Inside]
      omega
    · simp only [Inside]
      omega
    · exact assignAddrs_inside long w member

theorem gtpOps_inside {s : Segment} (ports : 8 < s.l4Len → s.protocol = 17 → s.l4 + 9 ≤ p.cap)
    (type : tunnelled p s → gtpVersion p (s.l4 + 8) = 1 → s.l4 + 10 ≤ p.cap) :
    ∀ w ∈ gtpOps p s, Inside p w := by
  intro w member
  unfold gtpOps at member
  split at member
  · rename_i udp
    have fits := ports udp.1 udp.2
    rcases List.mem_append.mp member with member | member
    · rcases List.mem_cons.mp member with rfl | member
      · show s.l4 + 2 ≤ p.cap
        omega
      split at member
      · cases member
      · rw [List.mem_singleton.mp member]
        show s.l4 + 2 + 2 ≤ p.cap
        omega
    split at member
    · rename_i tunnel
      rcases List.mem_cons.mp member with rfl | member
      · exact fits
      split at member
      · rename_i version
        simp only [List.mem_cons, List.not_mem_nil, or_false] at member
        rcases member with rfl | rfl
        · trivial
        · exact type tunnel version
      · cases member
    · cases member
  · cases member

theorem gtpOps_type {s : Segment} (tunnel : tunnelled p s) (version : gtpVersion p (s.l4 + 8) = 1)
    (inside : ∀ w ∈ gtpOps p s, Inside p w) : s.l4 + 10 ≤ p.cap := by
  have member : Op.read (s.l4 + 9) 1 ∈ gtpOps p s := by
    have udp : 8 < s.l4Len ∧ s.protocol = 17 := ⟨tunnel.1, tunnel.2.1⟩
    simp only [gtpOps, udp, and_self, if_true, tunnel, version]
    simp
  exact inside _ member

theorem visitOps_mem {l2Len : Nat} {addrCmp : Int} (accepted : Accepted W p l2Len) :
    (∀ w ∈ visitOps W dl p l2Len addrCmp, Inside p w) ↔
      (∀ w ∈ (if ipV p l2Len = 4 then ip4Ops dl p l2Len addrCmp
        else ip6Ops W dl p l2Len addrCmp), Inside p w) ∧
      ∀ w ∈ gtpOps p (segment W p l2Len), Inside p w := by
  have fits : l2Len + 20 ≤ p.cap := by
    obtain ⟨four | six, room⟩ := accepted
    · exact four.2.1
    · have long : (segment W p l2Len).l3Len = 40 := by
        simp [segment, six.1]
      omega
  have short : ¬ p.cap < l2Len + 20 := by omega
  simp only [visitOps, headerOps, if_neg short, List.nil_append, List.mem_append, or_imp,
    forall_and, List.mem_cons, List.not_mem_nil, or_false, forall_eq, Inside, and_true]
  refine and_congr (and_iff_right ?_) Iff.rfl
  omega

/-- An accepted header is visited inside the capture when its extension headers
and its GTP header are there. -/
theorem visitOps_inside {l2Len : Nat} {addrCmp : Int} (long : dl.headerLen ≤ p.cap)
    (accepted : Accepted W p l2Len) : (∀ w ∈ visitOps W dl p l2Len addrCmp, Inside p w) ↔
      (ipV p l2Len ≠ 4 → ∀ r ∈ (walkedAt W p l2Len).reads, l2Len + 40 + r < p.cap) ∧
      ∀ w ∈ gtpOps p (segment W p l2Len), Inside p w := by
  rw [visitOps_mem accepted]
  refine and_congr ?_ Iff.rfl
  obtain ⟨four | six, room⟩ := accepted
  · rw [if_pos four.1]
    exact ⟨fun _ not4 => absurd four.1 not4, fun _ => ip4Ops_inside long four.2.1⟩
  · have not4 : ipV p l2Len ≠ 4 := by
      rw [six.1]
      decide
    have fits : l2Len + 40 ≤ p.cap := by
      have : (segment W p l2Len).l3Len = 40 := by simp [segment, not4]
      omega
    rw [if_neg not4, ip6Ops_inside long fits]
    exact ⟨fun walked _ => walked, fun walked => walked not4⟩

/-! ## The headers up to the one that carries the flow -/

theorem lastNested_iff {l2Len : Nat} {kept : Locals} (ends : inner W p l2Len = none)
    (extensions : ipV p l2Len ≠ 4 → ∀ r ∈ (walkedAt W p l2Len).reads, l2Len + 40 + r < p.cap)
    (gtpType : tunnelled p (segment W p l2Len) →
      gtpVersion p ((segment W p l2Len).l4 + 8) = 1 → (segment W p l2Len).l4 + 10 ≤ p.cap) :
    LastNested p (headerAt W p l2Len kept) ↔ Nested W p l2Len := by
  constructor
  · rintro ⟨header, fits⟩
    refine ⟨extensions, gtpType, fun _ four => ?_, fun _ => fits⟩
    have := header four
    simpa [headerAt, segment, four] using this
  · intro nested
    refine ⟨fun four => ?_, nested.segmentFits ends⟩
    have four' : ipV p l2Len = 4 := four
    simpa [headerAt, segment, four'] using nested.headerLen ends four'

/-- The headers of a packet that reaches `flow.Hash` are read inside the capture
and end with a sound one exactly when each of them is nested. -/
theorem processIp_nested {fuel l2Len : Nat} {kept : Locals} {ip : IpHeader × Option Nat}
    (long : dl.headerLen ≤ p.cap) (ended : (processIp W dl p fuel l2Len kept).outcome = .ok ip) :
    Every (Inside p) (processIp W dl p fuel l2Len kept) ∧ LastNested p ip.1 ↔
      HeaderWalk W p (Nested W p) l2Len := by
  induction fuel generalizing l2Len kept with
  | zero => cases ended
  | succ fuel ih =>
    by_cases accepted : Accepted W p l2Len
    swap
    · rw [processIp_refused accepted] at ended
      cases ended
    rw [processIp_accepted accepted] at ended ⊢
    rw [every_emits_bind, visitOps_inside long accepted]
    cases continues : inner W p l2Len with
    | none =>
      rw [continues] at ended
      cases ended
      rw [headerWalk_last continues]
      constructor
      · rintro ⟨⟨⟨extensions, gtpInside⟩, -⟩, last⟩
        exact (lastNested_iff continues extensions fun tunnel version =>
          gtpOps_type tunnel version gtpInside).mp last
      · intro nested
        refine ⟨⟨⟨nested.extensions, gtpOps_inside ?_ nested.gtpType⟩, every_pure _⟩, ?_⟩
        · intro large udp
          have := nested.segmentFits continues (.inr udp)
          omega
        · exact (lastNested_iff continues nested.extensions nested.gtpType).mpr nested
    | some next =>
      simp only [continues, emits_bind] at ended ⊢
      rw [headerWalk_tunnel continues, ← ih ended]
      have carries : tunnelled p (segment W p l2Len) ∧
          gtpVersion p ((segment W p l2Len).l4 + 8) = 1 := by
        rw [inner, if_pos accepted] at continues
        unfold innerOf at continues
        split at continues
        · rename_i all
          exact ⟨all.1, all.2.1⟩
        · cases continues
      have reads : (∀ w ∈ gtpOps p (segment W p l2Len), Inside p w) ↔
          (segment W p l2Len).l4 + 10 ≤ p.cap := by
        refine ⟨gtpOps_type carries.1 carries.2, fun fits => gtpOps_inside ?_ fun _ _ => fits⟩
        omega
      rw [reads]
      constructor
      · rintro ⟨⟨⟨extensions, type⟩, rest⟩, last⟩
        refine ⟨⟨extensions, fun _ _ => type, ?_, ?_⟩, rest, last⟩
        · intro ends
          rw [continues] at ends
          cases ends
        · intro ends
          rw [continues] at ends
          cases ends
      · rintro ⟨nested, rest, last⟩
        exact ⟨⟨⟨nested.extensions, nested.gtpType carries.1 carries.2⟩, rest⟩, last⟩

/-! ## The transport header -/

/-- What the last IP header says about where the next one starts. -/
theorem headerAt_layout {l2Len : Nat} (accepted : Accepted W p l2Len) (kept : Locals) :
    let ip := headerAt W p l2Len kept
    ip.l2Len + fixedLen ip.ipVersion ≤ p.cap ∧
      (ip.l2Len + fixedLen ip.ipVersion ≤ ip.l4 ↔ (ip.ipVersion = 4 → 20 ≤ ip.l3Len)) := by
  obtain ⟨four | six, room⟩ := accepted
  · obtain ⟨four, fits, _⟩ := four
    have segment4 : segment W p l2Len = ⟨ipHl p l2Len, p.data (l2Len + 9),
      l2Len + ipHl p l2Len, ip4L4Len p l2Len⟩ := if_pos four
    simp only [headerAt, segment4, four, fixedLen, if_true, forall_const]
    omega
  · have not4 : ipV p l2Len ≠ 4 := by
      rw [six.1]
      decide
    have segment6 : segment W p l2Len = ⟨40, (walkedAt W p l2Len).nextHeader,
      l2Len + 40 + (walkedAt W p l2Len).skipped,
      be16 p.data (l2Len + 4) - (walkedAt W p l2Len).skipped⟩ := if_neg not4
    rw [segment6] at room
    simp only [headerAt, segment6, fixedLen, not4, if_false, false_implies, iff_true] at room ⊢
    omega

/-- A segment inside the capture is read inside it. -/
theorem transportOps_inside {ip : IpHeader} {payload : Option (Nat × Nat)}
    (passed : TransportAt p ip payload)
    (fits : ip.ipProtocol = IPPROTO_TCP ∨ ip.ipProtocol = IPPROTO_UDP → ip.l4 + ip.l4Len ≤ p.cap) :
    ∀ w ∈ transportOps p ip, Inside p w := by
  have ports : ip.l4 + 4 ≤ p.cap → ∀ w ∈ assignPorts p ip, Inside p w := by
    intro room w member
    simp only [assignPorts, List.mem_cons, List.not_mem_nil, or_false] at member
    rcases member with rfl | rfl | rfl | rfl
    · show ip.l4 + 2 ≤ p.cap
      omega
    · show ip.l4 + 2 + 2 ≤ p.cap
      omega
    · trivial
    · trivial
  intro w member
  unfold transportOps at member
  split at member
  · rename_i tcp
    have header := passed.tcp tcp
    have room := fits (.inl tcp)
    rcases List.mem_append.mp member with member | member
    · simp only [List.mem_cons, List.not_mem_nil, or_false] at member
      rcases member with rfl | rfl
      · trivial
      · show ip.l4 + 12 + 1 ≤ p.cap
        omega
    · exact ports (by omega) w member
  split at member
  · rename_i udp
    have header := passed.udp udp
    have room := fits (.inr udp)
    rcases List.mem_append.mp member with member | member
    · rcases List.mem_cons.mp member with rfl | member
      · trivial
      · exact ports (by omega) w member
    · rw [List.mem_singleton.mp member]
      show ip.l4 + 4 + 2 ≤ p.cap
      omega
  split at member
  · rw [List.mem_singleton.mp member]
    trivial
  split at member
  · rw [List.mem_singleton.mp member]
    trivial
  · cases member

/-! ## The whole packet -/

/-- Every header of the packet is where it is read, and the one that carries the
flow holds its segment. -/
def HeadersNested (W : ExtensionWalker) (dl : Datalink) (p : Packet) : Prop :=
  ∃ link l2Len, frame dl p = some link ∧
    TagWalk p (ReadInside p) link.type link.l2Len (some l2Len) ∧ HeaderWalk W p (Nested W p) l2Len

variable {fuel : Nat} {h : Headers}

/-- What is left of soundness behind the checks of the code. -/
theorem sound_iff (ended : (dissect W dl p fuel).outcome = .ok h) :
    Sound p (dissect W dl p fuel) h ↔ Every (Inside p) (dissect W dl p fuel) ∧ LastNested p h.ip := by
  obtain ⟨_, _, reached⟩ := reached_of_dissect ended
  obtain ⟨last, kept, accepted, _, same⟩ := processIp_last reached.headers
  have layout := headerAt_layout accepted kept
  simp only at same layout
  rw [← same] at layout
  have passed := (transport_ok reached.transport).1
  constructor
  · intro sound
    refine ⟨sound.inside, layout.2.mp sound.behind, ?_⟩
    rintro (tcp | udp)
    · obtain ⟨_, most, payload⟩ := passed.tcp tcp
      have := sound.payload _ _ payload
      omega
    · obtain ⟨long, _, payload⟩ := passed.udp udp
      have := sound.payload _ _ payload
      omega
  · rintro ⟨inside, header, fits⟩
    refine ⟨layout.1, layout.2.mpr header, fun tcp => ?_, fun udp => ?_, ?_, inside⟩
    · have := passed.tcp tcp
      have := fits (.inl tcp)
      omega
    · have := passed.udp udp
      have := fits (.inr udp)
      omega
    · intro pkt pktLen payload
      by_cases tcp : h.ip.ipProtocol = IPPROTO_TCP
      · have header := passed.tcp tcp
        have := fits (.inl tcp)
        cases payload.symm.trans header.2.2
        omega
      · by_cases udp : h.ip.ipProtocol = IPPROTO_UDP
        · have header := passed.udp udp
          have := fits (.inr udp)
          cases payload.symm.trans header.2.2
          omega
        · rw [passed.other tcp udp] at payload
          cases payload

/-- **The nesting is sound exactly when every header is nested.** -/
theorem nesting_sound_iff (ended : (dissect W dl p fuel).outcome = .ok h) :
    Sound p (dissect W dl p fuel) h ↔ HeadersNested W dl p := by
  rw [sound_iff ended]
  obtain ⟨link, last, reached⟩ := reached_of_dissect ended
  have long := frame_long reached.framed
  have passed := transport_ok reached.transport
  have tags : Every (Inside p) (decapsulate p fuel link) ↔
      TagWalk p (ReadInside p) link.type link.l2Len (some last.l2Len) := by
    rw [decapsulate_adequate trivial trivial (by simp [reached.tags]), reached.tags]
    constructor
    · exact TagWalk.mono fun tag off => (allOps_inside tag off).mp
    · exact TagWalk.mono fun tag off => (allOps_inside tag off).mpr
  have headers := processIp_nested long reached.headers
  rw [every_of_reached trivial trivial reached, tags]
  constructor
  · rintro ⟨⟨_, walked, visited, _⟩, nested⟩
    exact ⟨link, last.l2Len, reached.framed, walked, headers.mp ⟨visited, nested⟩⟩
  · rintro ⟨other, l2Len, framed, walked, nested⟩
    cases reached.framed.symm.trans framed
    cases stop_of_reached reached walked
    obtain ⟨visited, last⟩ := headers.mpr nested
    refine ⟨⟨datalink_inside dl p, walked, visited, ?_⟩, last⟩
    show ∀ w ∈ (transport p h.ip).log, Inside p w
    rw [passed.2]
    exact transportOps_inside passed.1 last.2

end

/-- An IPv4 packet of 34 captured bytes whose header length is zero. -/
def headerless : Packet := .ofBytes (Frames.ethernet (Frames.mac 2) (Frames.mac 1) 0x0800
  ([0x40, 0, 0, 20, 0, 0, 0, 0, 64, 1, 0, 0] ++ Frames.host 1 ++ Frames.host 2))

/-- A GTP packet that ends behind the first byte of the GTP header. -/
def truncatedGtp : Packet := Frames.udpFrame 1 2 2152 2152 [0x20]

/-- The transport header of the first packet starts inside its IP header; the
GTP type of the second is read behind the capture. -/
theorem nesting_unsound :
    (∃ h, (dissect .none .en10mb headerless 2).outcome = .ok h ∧
      ¬ Sound headerless (dissect .none .en10mb headerless 2) h) ∧
    ∃ h, (dissect .none .en10mb truncatedGtp 2).outcome = .ok h ∧
      ¬ Sound truncatedGtp (dissect .none .en10mb truncatedGtp 2) h := by
  constructor
  · refine ⟨⟨⟨14, 4, 1, 0, 14, 20, 0, -1⟩, none, none⟩, by decide, fun sound => ?_⟩
    have behind : 14 + 20 ≤ 14 := sound.behind
    omega
  · refine ⟨⟨⟨14, 4, 17, 20, 34, 9, 0, -1⟩, some 42, some (42, 1)⟩, by decide, fun sound => ?_⟩
    have read : Inside truncatedGtp (.read 43 1) := sound.inside _ (by decide)
    exact absurd read (by decide)

/-- A DNS question over UDP is nested soundly. -/
theorem nesting_sound_udp :
    ∃ h, (dissect .none .en10mb (Frames.udpFrame 1 2 4000 53 []) 2).outcome = .ok h ∧
      Sound (Frames.udpFrame 1 2 4000 53 []) (dissect .none .en10mb (Frames.udpFrame 1 2 4000 53 []) 2)
        h := by
  have ended : (dissect .none .en10mb (Frames.udpFrame 1 2 4000 53 []) 2).outcome =
      .ok ⟨⟨14, 4, 17, 20, 34, 8, 0, -1⟩, none, some (42, 0)⟩ := by decide
  refine ⟨_, ended, (nesting_sound_iff ended).mpr ⟨⟨0x0800, 14, false⟩, 14, by decide, ?_, ?_⟩⟩
  · exact .done (by decide)
  · refine .last ⟨?_, ?_, ?_, ?_⟩ ?_ <;> decide

end NetifyAgent.Nesting
