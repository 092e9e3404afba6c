import NetifyAgent.TemplateKey

/-! A packet and the packet in the other direction: source and destination are
exchanged in the Ethernet header, in every IP header and in the transport
header behind it, and whatever else the dissector reads is the same. The second
packet takes the way of the first, header by header, and ends at the same one
with the comparison of the addresses turned around. -/
namespace NetifyAgent
open NetifyAgent.Bytes NetifyAgent.Dissection

/-- Bytes that two packets share. -/
def Shared (p p' : Packet) (off n : Nat) : Prop := ∀ i, i < n → p'.data (off + i) = p.data (off + i)

/-- Two fields that the packets have the other way around. -/
def Exchanged (p p' : Packet) (a b n : Nat) : Prop :=
  ∀ i, i < n → p'.data (a + i) = p.data (b + i) ∧ p'.data (b + i) = p.data (a + i)

instance (p p' : Packet) (off n : Nat) : Decidable (Shared p p' off n) :=
  inferInstanceAs (Decidable (∀ i, i < n → _))

instance (p p' : Packet) (a b n : Nat) : Decidable (Exchanged p p' a b n) :=
  inferInstanceAs (Decidable (∀ i, i < n → _))

/-- A tag is shared as far as it is read. -/
def TagShared (p p' : Packet) : Tag → Nat → Prop
  | .vlan, off | .mpls, off => Shared p p' off 4
  | .label, off => Shared p p' (off % 65536) 4
  | .pppoe, off => Shared p p' (off + 6) 2
  | .session, _ => True

/-- An IP header in the other direction, with the transport header behind it. -/
structure HeaderMirrored (W : ExtensionWalker) (p p' : Packet) (l2Len : Nat) : Prop where
  first : Shared p p' l2Len 1
  ip4 : ipV p l2Len = 4 → Shared p p' (l2Len + 2) 2 ∧ Shared p p' (l2Len + 6) 2 ∧
    Shared p p' (l2Len + 9) 1 ∧ Exchanged p p' (l2Len + 12) (l2Len + 16) 4
  ip6 : ipV p l2Len = 6 → Shared p p' (l2Len + 4) 3 ∧
    (∀ r ∈ (walkedAt W p l2Len).reads, Shared p p' (l2Len + 40 + r) 1) ∧
    Exchanged p p' (l2Len + 8) (l2Len + 24) 16
  ports : (segment W p l2Len).protocol = IPPROTO_TCP ∨ (segment W p l2Len).protocol = IPPROTO_UDP →
    Exchanged p p' (segment W p l2Len).l4 ((segment W p l2Len).l4 + 2) 2
  tcp : (segment W p l2Len).protocol = IPPROTO_TCP → Shared p p' ((segment W p l2Len).l4 + 12) 1
  udp : (segment W p l2Len).protocol = IPPROTO_UDP → Shared p p' ((segment W p l2Len).l4 + 4) 2
  gtp : tunnelled p (segment W p l2Len) → Shared p p' ((segment W p l2Len).l4 + 8) 2

/-- The fixed header in the other direction. -/
def LinkMirrored (dl : Datalink) (p p' : Packet) : Prop :=
  match dl with
  | .null => Shared p p' 0 4
  | .en10mb => Shared p p' 12 2 ∧ Exchanged p p' 0 6 6
  | .linuxSll => Shared p p' 14 2
  | .raw | .ipv4 | .ipv6 | .other _ => True

/-- The second packet is the first one in the other direction. -/
structure Mirrored (W : ExtensionWalker) (dl : Datalink) (p p' : Packet) : Prop where
  caplen : p'.caplen = p.caplen
  link : LinkMirrored dl p p'
  headers : ∀ link, frame dl p = some link → ∃ l2Len,
    TagWalk p (TagShared p p') link.type link.l2Len (some l2Len) ∧
      HeaderWalk W p (HeaderMirrored W p p') l2Len

section
variable {p p' : Packet} {off n a b : Nat}

theorem Shared.byte (kept : Shared p p' off n) (room : 0 < n) : p'.data off = p.data off :=
  kept 0 room

theorem Shared.be16 (kept : Shared p p' off n) (room : 2 ≤ n) : be16 p'.data off = be16 p.data off :=
  be16_congr (kept 0 (by omega)) (kept 1 (by omega))

theorem Shared.skip (kept : Shared p p' off n) (m : Nat) : Shared p p' (off + m) (n - m) := by
  intro i below
  rw [Nat.add_assoc]
  exact kept (m + i) (by omega)

theorem Exchanged.slice (exchanged : Exchanged p p' a b n) :
    slice p'.data a n = slice p.data b n ∧ slice p'.data b n = slice p.data a n :=
  ⟨slice_congr fun i below => (exchanged i below).1,
    slice_congr fun i below => (exchanged i below).2⟩

theorem Exchanged.be16 (exchanged : Exchanged p p' a b 2) :
    be16 p'.data a = be16 p.data b ∧ be16 p'.data b = be16 p.data a :=
  ⟨be16_congr (exchanged 0 (by omega)).1 (exchanged 1 (by omega)).1,
    be16_congr (exchanged 0 (by omega)).2 (exchanged 1 (by omega)).2⟩

theorem Exchanged.le16 (exchanged : Exchanged p p' a b 2) :
    le16 p'.data a = le16 p.data b ∧ le16 p'.data b = le16 p.data a :=
  ⟨le16_congr (exchanged 0 (by omega)).1 (exchanged 1 (by omega)).1,
    le16_congr (exchanged 0 (by omega)).2 (exchanged 1 (by omega)).2⟩

/-! ## The link layer -/

theorem decapsulate_other {type : Nat} (kind : tagKind type = .other) (p p' : Packet)
    (fuel l2Len : Nat) (vlanPacket : Bool) :
    decapsulate p' fuel ⟨type, l2Len, vlanPacket⟩ =
      decapsulate p fuel ⟨type, l2Len, vlanPacket⟩ := by
  cases fuel with
  | zero => rfl
  | succ fuel =>
    rw [decapsulate_succ, decapsulate_succ]
    simp only [kind]

variable {dl : Datalink} (caplen : p'.caplen = p.caplen)
include caplen

theorem cap_mirrored : p'.cap = p.cap := congrArg UInt16.toNat caplen

theorem frame_mirrored (link : LinkMirrored dl p p') : frame dl p' = frame dl p := by
  unfold frame
  rw [cap_mirrored caplen]
  cases dl with
  | null =>
    have family : be32 p'.data 0 = be32 p.data 0 := by
      have low := (Shared.skip link 2).be16 (by decide)
      unfold be32
      rw [Shared.be16 link (by decide), low]
    rw [family]
  | en10mb =>
    obtain ⟨type, macs⟩ := link
    have stp : stpAddr p' 6 = stpAddr p 0 ∧ stpAddr p' 0 = stpAddr p 6 := by
      unfold stpAddr
      constructor
      · rw [slice_congr fun i below => (macs i (by omega)).2]
      · rw [slice_congr fun i below => (macs i (by omega)).1]
    simp only [stp.1, stp.2, type.be16 (by decide), or_comm]
  | linuxSll =>
    have type : le16 p'.data 14 = le16 p.data 14 :=
      le16_congr (link 0 (by decide)) (link 1 (by decide))
    rw [type]
  | raw => rfl
  | ipv4 => rfl
  | ipv6 => rfl
  | other dlt => rfl

theorem ops_shared {tag : Tag} (kept : TagShared p p' tag off) : tag.ops p' off = tag.ops p off := by
  unfold Tag.ops
  cases tag with
  | vlan =>
    simp only [cap_mirrored caplen, Shared.be16 kept (by decide)]
  | mpls => simp only [cap_mirrored caplen]
  | label => simp only [cap_mirrored caplen]
  | pppoe => simp only [cap_mirrored caplen]
  | session => simp only [cap_mirrored caplen]

theorem labels_mirrored {s : Bool} {l2Len stop : Nat}
    (walk : LabelWalk p (TagShared p p') s l2Len stop) (fuel : Nat) :
    labels p' fuel s l2Len = labels p fuel s l2Len := by
  induction walk generalizing fuel with
  | bottom =>
    cases fuel with
    | zero => rfl
    | succ fuel => rw [labels_succ, labels_succ, if_pos rfl, if_pos rfl]
  | @label l2Len stop kept _ ih =>
    cases fuel with
    | zero => rfl
    | succ fuel =>
      have bottom : mplsBottom p' ((l2Len + 4) % 65536) = mplsBottom p ((l2Len + 4) % 65536) := by
        unfold mplsBottom
        rw [kept 2 (by decide)]
      rw [labels_succ, labels_succ, ops_shared caplen kept, bottom, ih]

/-- The tags are walked over alike. -/
theorem decapsulate_mirrored {type l2Len : Nat} {stop : Option Nat}
    (walk : TagWalk p (TagShared p p') type l2Len stop) (fuel : Nat) (vlanPacket : Bool) :
    decapsulate p' fuel ⟨type, l2Len, vlanPacket⟩ =
      decapsulate p fuel ⟨type, l2Len, vlanPacket⟩ := by
  induction walk generalizing fuel vlanPacket with
  | done kind => exact decapsulate_other kind p p' fuel _ _
  | @vlan type l2Len stop kind kept _ ih =>
    cases fuel with
    | zero => rfl
    | succ fuel =>
      have next : be16 p'.data (l2Len + 2) = be16 p.data (l2Len + 2) :=
        (Shared.skip kept 2).be16 (by decide)
      rw [decapsulate_succ, decapsulate_succ]
      simp only [kind, ops_shared caplen kept, next, ih]
  | @mpls type l2Len stop kind kept below =>
    cases fuel with
    | zero => rfl
    | succ fuel =>
      have bottom : mplsBottom p' l2Len = mplsBottom p l2Len := by
        unfold mplsBottom
        rw [kept 2 (by decide)]
      rw [decapsulate_succ, decapsulate_succ]
      simp only [kind, ops_shared caplen kept, bottom, labels_mirrored caplen below,
        decapsulate_other tagKind_ip p p']
  | @pppoe type l2Len kind kept ip session =>
    cases fuel with
    | zero => rfl
    | succ fuel =>
      have ip' : pppIp p' l2Len := by
        unfold pppIp
        rw [Shared.be16 kept (by decide)]
        exact ip
      rw [decapsulate_succ, decapsulate_succ]
      simp only [kind, ops_shared caplen kept, ops_shared caplen session, if_pos ip, if_pos ip',
        decapsulate_other tagKind_ip p p']
  | @unsupported type l2Len kind kept ip =>
    cases fuel with
    | zero => rfl
    | succ fuel =>
      have ip' : ¬ pppIp p' l2Len := by
        unfold pppIp
        rw [Shared.be16 kept (by decide)]
        exact ip
      rw [decapsulate_succ, decapsulate_succ]
      simp only [kind, ops_shared caplen kept, if_neg ip, if_neg ip']
  | discovery kind =>
    cases fuel with
    | zero => rfl
    | succ fuel =>
      rw [decapsulate_succ, decapsulate_succ]
      simp only [kind]

end

/-! ## The order of the addresses -/

/-- The loop over the words of two addresses compares them as a whole. -/
theorem compareWords_eq (m : Memory) (src dst words : Nat) :
    compareWords m src dst words =
      memcmp (slice m src (4 * words)) (slice m dst (4 * words)) := by
  induction words generalizing src dst with
  | zero => rfl
  | succ words ih =>
    have split : ∀ off, slice m off (4 * (words + 1)) =
        slice m off 4 ++ slice m (off + 4) (4 * words) := by
      intro off
      rw [← slice_add, Nat.mul_add, Nat.add_comm]
    rw [split src, split dst, memcmp_append (by simp), ← ih]
    rfl

/-- The comparison of an IP header's addresses, whatever their version. -/
theorem addrCmpAt_eq (W : ExtensionWalker) (p : Packet) (l2Len : Nat) (kept : Locals) :
    addrCmpAt p l2Len kept.addrCmp =
      let ip := headerAt W p l2Len kept
      if memcmp (ip.src p) (ip.dst p) = 0 ∧ ip.ipVersion ≠ 4 then kept.addrCmp
      else memcmp (ip.src p) (ip.dst p) := by
  unfold addrCmpAt IpHeader.src IpHeader.dst headerAt
  simp only
  by_cases four : ipV p l2Len = 4
  · simp [four]
  · rw [if_neg four, if_neg four, if_neg four, compareWords_eq]
    split <;> simp_all

/-- Two headers in opposite directions. -/
structure Opposite (ip ip' : IpHeader) : Prop where
  l2Len : ip'.l2Len = ip.l2Len
  ipVersion : ip'.ipVersion = ip.ipVersion
  ipProtocol : ip'.ipProtocol = ip.ipProtocol
  l4 : ip'.l4 = ip.l4
  l4Len : ip'.l4Len = ip.l4Len
  addrCmp : ip'.addrCmp = -ip.addrCmp

section
variable {W : ExtensionWalker} {dl : Datalink} {p p' : Packet} {l2Len : Nat}

/-! ## The IP headers -/

theorem ipV_mirrored (mirrored : HeaderMirrored W p p' l2Len) :
    ipV p' l2Len = ipV p l2Len ∧ ipHl p' l2Len = ipHl p l2Len := by
  unfold ipV ipHl
  rw [mirrored.first.byte (by decide)]
  exact ⟨rfl, rfl⟩

theorem walkedAt_mirrored (mirrored : HeaderMirrored W p p' l2Len) (six : ipV p l2Len = 6) :
    walkedAt W p' l2Len = walkedAt W p l2Len := by
  obtain ⟨lengths, walked, _⟩ := mirrored.ip6 six
  unfold walkedAt
  rw [Shared.be16 lengths (by decide), (Shared.skip lengths 2).byte (by decide)]
  exact W.local_ fun r read => (walked r read).byte (by decide)

theorem segment_mirrored (mirrored : HeaderMirrored W p p' l2Len)
    (version : ipV p l2Len = 4 ∨ ipV p l2Len = 6) :
    segment W p' l2Len = segment W p l2Len := by
  obtain ⟨same, sameHl⟩ := ipV_mirrored mirrored
  unfold segment
  rw [same, sameHl]
  rcases version with four | six
  · obtain ⟨length, _, protocol, _⟩ := mirrored.ip4 four
    rw [if_pos four, if_pos four, protocol.byte (by decide), ip4L4Len, ip4L4Len,
      length.be16 (by decide), sameHl]
  · obtain ⟨lengths, _⟩ := mirrored.ip6 six
    have not4 : ipV p l2Len ≠ 4 := by omega
    rw [if_neg not4, if_neg not4, walkedAt_mirrored mirrored six,
      Shared.be16 lengths (by decide)]

theorem accepted_mirrored (caplen : p'.caplen = p.caplen)
    (mirrored : HeaderMirrored W p p' l2Len) : Accepted W p' l2Len ↔ Accepted W p l2Len := by
  obtain ⟨same, sameHl⟩ := ipV_mirrored mirrored
  unfold Accepted Accepted4 Accepted6
  rw [same, sameHl, cap_mirrored caplen]
  by_cases four : ipV p l2Len = 4
  · obtain ⟨_, frag, _⟩ := mirrored.ip4 four
    rw [segment_mirrored mirrored (.inl four), frag.be16 (by decide)]
    simp [four]
  by_cases six : ipV p l2Len = 6
  · rw [segment_mirrored mirrored (.inr six), walkedAt_mirrored mirrored six]
    simp [four]
  · simp [four, six]

theorem tunnelled_mirrored (mirrored : HeaderMirrored W p p' l2Len) :
    tunnelled p' (segment W p l2Len) ↔ tunnelled p (segment W p l2Len) := by
  unfold tunnelled
  refine and_congr_right fun _ => and_congr_right fun udp => ?_
  obtain ⟨source, destination⟩ := (mirrored.ports (.inr udp)).be16
  rw [source, destination, or_comm]

theorem innerOf_mirrored (mirrored : HeaderMirrored W p p' l2Len) :
    innerOf p' (segment W p l2Len) = innerOf p (segment W p l2Len) := by
  have same := tunnelled_mirrored mirrored
  unfold innerOf
  by_cases tunnel : tunnelled p (segment W p l2Len)
  · have flags : p'.data ((segment W p l2Len).l4 + 8) = p.data ((segment W p l2Len).l4 + 8) :=
      mirrored.gtp tunnel 0 (by decide)
    have type : p'.data ((segment W p l2Len).l4 + 9) = p.data ((segment W p l2Len).l4 + 9) :=
      mirrored.gtp tunnel 1 (by decide)
    unfold gtpVersion gtpInner
    simp only [same.mpr tunnel, tunnel, flags, type]
  · have plain' : ¬ tunnelled p' (segment W p l2Len) := fun tunnel' => tunnel (same.mp tunnel')
    simp only [tunnel, plain', false_and, if_false]

theorem inner_mirrored (caplen : p'.caplen = p.caplen)
    (mirrored : HeaderMirrored W p p' l2Len) (accepted : Accepted W p l2Len) :
    inner W p' l2Len = inner W p l2Len := by
  have version : ipV p l2Len = 4 ∨ ipV p l2Len = 6 := accepted.1.imp (·.1) (·.1)
  unfold inner
  rw [if_pos accepted, if_pos ((accepted_mirrored caplen mirrored).mpr accepted),
    segment_mirrored mirrored version, innerOf_mirrored mirrored]

/-- The addresses of a header in the other direction. -/
theorem addrs_mirrored {ip ip' : IpHeader} (mirrored : HeaderMirrored W p p' ip.l2Len)
    (version : ipV p ip.l2Len = 4 ∨ ipV p ip.l2Len = 6) (found : ip.ipVersion = ipV p ip.l2Len)
    (l2Len : ip'.l2Len = ip.l2Len) (ipVersion : ip'.ipVersion = ip.ipVersion) :
    ip'.src p' = ip.dst p ∧ ip'.dst p' = ip.src p := by
  unfold IpHeader.src IpHeader.dst
  rw [l2Len, ipVersion, found]
  rcases version with four | six
  · simp only [if_pos four]
    exact (mirrored.ip4 four).2.2.2.slice
  · have not4 : ipV p ip.l2Len ≠ 4 := by omega
    simp only [if_neg not4]
    exact (mirrored.ip6 six).2.2.slice

theorem opposite_headerAt (mirrored : HeaderMirrored W p p' l2Len)
    (version : ipV p l2Len = 4 ∨ ipV p l2Len = 6) {kept kept' : Locals}
    (turned : kept'.addrCmp = -kept.addrCmp) :
    Opposite (headerAt W p l2Len kept) (headerAt W p' l2Len kept') := by
  have same := segment_mirrored mirrored version
  have sameV := (ipV_mirrored mirrored).1
  refine ⟨rfl, sameV, ?_, ?_, ?_, ?_⟩
  · simp only [headerAt, same]
  · simp only [headerAt, same]
  · simp only [headerAt, same]
  · show addrCmpAt p' l2Len kept'.addrCmp = -addrCmpAt p l2Len kept.addrCmp
    obtain ⟨src, dst⟩ : (headerAt W p' l2Len kept').src p' = (headerAt W p l2Len kept).dst p ∧
        (headerAt W p' l2Len kept').dst p' = (headerAt W p l2Len kept).src p :=
      addrs_mirrored mirrored version rfl rfl sameV
    rw [addrCmpAt_eq W, addrCmpAt_eq W]
    simp only
    have version' : (headerAt W p' l2Len kept').ipVersion = (headerAt W p l2Len kept).ipVersion :=
      sameV
    rw [src, dst, memcmp_swap, turned, version']
    simp only [neg_eq_zero]
    split <;> rfl

/-- **The headers are walked over alike**, and the walk ends at a header in the
other direction. -/
theorem processIp_mirrored (caplen : p'.caplen = p.caplen) {fuel : Nat} {kept kept' : Locals}
    {ip : IpHeader × Option Nat} (walk : HeaderWalk W p (HeaderMirrored W p p') l2Len)
    (turned : kept'.addrCmp = -kept.addrCmp)
    (ended : (processIp W dl p fuel l2Len kept).outcome = .ok ip) :
    ∃ ip', (processIp W dl p' fuel l2Len kept').outcome = .ok ip' ∧ Opposite ip.1 ip'.1 ∧
      HeaderMirrored W p p' ip.1.l2Len := by
  induction fuel generalizing l2Len kept kept' with
  | zero => cases ended
  | succ fuel ih =>
    by_cases accepted : Accepted W p l2Len
    swap
    · rw [processIp_refused accepted] at ended
      cases ended
    have mirrored := walk.first
    have accepted' := (accepted_mirrored caplen mirrored).mpr accepted
    have same := inner_mirrored caplen mirrored accepted
    have opposite := opposite_headerAt mirrored (accepted.1.imp (·.1) (·.1)) turned
    rw [processIp_accepted accepted] at ended
    rw [processIp_accepted accepted', same]
    cases continues : inner W p l2Len with
    | none =>
      rw [continues] at ended
      cases ended
      exact ⟨_, rfl, opposite, mirrored⟩
    | some next =>
      have turned' : (keptAfter W p' l2Len kept').addrCmp = -(keptAfter W p l2Len kept).addrCmp :=
        opposite.addrCmp
      simp only [continues, emits_bind] at ended ⊢
      exact ih ((headerWalk_tunnel continues).mp walk).2 turned' ended

/-! ## The transport header -/

/-- The transport header behind a header in the other direction. -/
theorem transport_mirrored {ip ip' : IpHeader} (opposite : Opposite ip ip')
    (tcp : ip.ipProtocol = IPPROTO_TCP → Shared p p' (ip.l4 + 12) 1)
    (udp : ip.ipProtocol = IPPROTO_UDP → Shared p p' (ip.l4 + 4) 2) :
    (transport p' ip').outcome = (transport p ip).outcome := by
  unfold transport
  rw [opposite.ipProtocol]
  split
  · rename_i protocol
    have size : thOff p' ip.l4 = thOff p ip.l4 := by
      unfold thOff
      rw [(tcp protocol).byte (by decide)]
    unfold tcpHeader
    simp only [emit_bind, emits_bind, rejectIf_bind, apply_ite Dissect.outcome, opposite.l4,
      opposite.l4Len, size]
  split
  · rename_i protocol
    have ulen : be16 p'.data (ip.l4 + 4) = be16 p.data (ip.l4 + 4) :=
      (udp protocol).be16 (by decide)
    unfold udpHeader
    simp only [emit_bind, emits_bind, rejectIf_bind, apply_ite Dissect.outcome, opposite.l4,
      opposite.l4Len, ulen]
  split
  · rfl
  split <;> rfl

/-! ## The key -/

theorem ordered_mirrored {α : Type} {addrCmp : Int} {src dst : α}
    (consistent : addrCmp = 0 → src = dst) :
    ordered (-addrCmp) dst src = ordered addrCmp src dst := by
  unfold ordered
  rcases Int.lt_trichotomy addrCmp 0 with less | equal | greater
  · rw [if_pos less, if_neg (by omega)]
  · rw [consistent equal, ite_self, ite_self]
  · rw [if_pos (by omega), if_neg (by omega)]

theorem ports_mirrored {ip ip' : IpHeader} (opposite : Opposite ip ip')
    (exchanged : ip.ipProtocol = IPPROTO_TCP ∨ ip.ipProtocol = IPPROTO_UDP →
      Exchanged p p' ip.l4 (ip.l4 + 2) 2) : ip'.ports p' = ip.ports p := by
  unfold IpHeader.ports
  rw [opposite.ipProtocol]
  split
  · rename_i protocol
    obtain ⟨source, destination⟩ := (exchanged protocol).le16
    unfold orderedPorts
    rw [opposite.l4, opposite.addrCmp, source, destination]
    simp only
    rcases Int.lt_trichotomy ip.addrCmp 0 with less | equal | greater
    · rw [if_pos less, if_neg (by omega), if_pos (by omega)]
    · rw [equal]
      simp only [neg_zero, lt_irrefl, if_false]
      split <;> split <;> simp only [Prod.mk.injEq] <;> omega
    · rw [if_pos (by omega), if_neg (by omega), if_pos greater]
  · rfl

theorem memcmp_addrs (ip : IpHeader) (p : Packet) :
    memcmp (ip.src p) (ip.dst p) = 0 ↔ ip.src p = ip.dst p := by
  apply memcmp_eq_zero
  unfold IpHeader.src IpHeader.dst
  split <;> simp

/-- Equal addresses are the only ones that compare equal. -/
theorem addrCmp_consistent {kept : Locals} :
    (headerAt W p l2Len kept).addrCmp = 0 →
      (headerAt W p l2Len kept).src p = (headerAt W p l2Len kept).dst p := by
  intro equal
  have compared : addrCmpAt p l2Len kept.addrCmp = 0 := equal
  rw [addrCmpAt_eq W] at compared
  simp only at compared
  apply (memcmp_addrs _ _).mp
  split at compared
  · rename_i same
    exact same.1
  · exact compared

/-- **The key of the other direction** is the same, but for a hardware address
that is not hashed. -/
theorem packetKey_mirrored {ip ip' : IpHeader} {vlanId : Nat} (opposite : Opposite ip ip')
    (addrs : ip'.src p' = ip.dst p ∧ ip'.dst p' = ip.src p)
    (ports : ip'.ports p' = ip.ports p)
    (consistent : ip.addrCmp = 0 → ip.src p = ip.dst p) (link : LinkMirrored dl p p') :
    (packetKey dl p' ip' vlanId).lower = (packetKey dl p ip vlanId).lower ∧
      (packetKey dl p' ip' vlanId).upper = (packetKey dl p ip vlanId).upper ∧
      (packetKey dl p' ip' vlanId).encode = (packetKey dl p ip vlanId).encode := by
  have ordered' : ip'.addrs p' = ip.addrs p := by
    unfold IpHeader.addrs
    rw [addrs.1, addrs.2, opposite.addrCmp]
    exact ordered_mirrored consistent
  have lower : (packetKey dl p' ip' vlanId).lower = (packetKey dl p ip vlanId).lower := by
    simp only [packetKey, ordered', ports]
  have upper : (packetKey dl p' ip' vlanId).upper = (packetKey dl p ip vlanId).upper := by
    simp only [packetKey, ordered', ports]
  refine ⟨lower, upper, ?_⟩
  have broadcast : (packetKey dl p' ip' vlanId).Broadcast ↔ (packetKey dl p ip vlanId).Broadcast := by
    unfold FlowKey.Broadcast
    rw [lower, upper]
    simp only [packetKey, opposite.ipVersion]
  have mac : (packetKey dl p' ip' vlanId).mac = (packetKey dl p ip vlanId).mac := by
    unfold FlowKey.mac
    by_cases lonely : (packetKey dl p ip vlanId).Broadcast
    swap
    · rw [if_neg lonely, if_neg (fun other => lonely (broadcast.mp other))]
    rw [if_pos lonely, if_pos (broadcast.mpr lonely)]
    have differ : ip.addrCmp ≠ 0 := by
      intro equal
      have zeros : (ip.addrs p).1 = [0, 0, 0, 0] := lonely.2.1
      have ones : (ip.addrs p).2 = [255, 255, 255, 255] := lonely.2.2
      unfold IpHeader.addrs at zeros ones
      rw [consistent equal] at zeros ones
      have same : (ordered ip.addrCmp (ip.dst p) (ip.dst p)).1 =
          (ordered ip.addrCmp (ip.dst p) (ip.dst p)).2 := by
        unfold ordered
        rw [ite_self]
      rw [zeros, ones] at same
      cases same
    show ip'.lowerMac dl p' = ip.lowerMac dl p
    unfold IpHeader.lowerMac
    split
    · rename_i ethernet
      subst ethernet
      rw [link.2.slice.1, link.2.slice.2, opposite.addrCmp,
        ordered_mirrored fun equal => absurd equal differ]
    · rfl
  unfold FlowKey.encode
  rw [lower, upper, mac]
  simp only [packetKey, opposite.ipVersion, opposite.ipProtocol]

end

end NetifyAgent
