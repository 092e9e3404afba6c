import NetifyAgent.Directions

/-! The origin of a new TCP flow, from either half of its handshake. Both halves are looked at
through the comparison of the addresses, which says nothing about two ports of one address. -/
namespace NetifyAgent.FlowOrigin
open NetifyAgent.Bytes NetifyAgent.Dissection NetifyAgent.Runs NetifyAgent.KeyHistory
open NetifyAgent.OneFlow NetifyAgent.Directions

/-- The endpoint that a TCP packet is sent to. -/
def destination (x : Taken) : List UInt8 × Nat :=
  (x.headers.ip.dst x.packet, le16 x.packet.data (x.headers.ip.l4 + 2))

/-- The flags of a packet are those of a SYN, or with `ack` of a SYN+ACK. -/
def Syn (ack : Bool) (p : Packet) (h : Headers) : Prop :=
  CaptureThread.thSyn p h = true ∧ CaptureThread.thAck p h = ack

instance (ack : Bool) (p : Packet) (h : Headers) : Decidable (Syn ack p h) :=
  inferInstanceAs (Decidable (_ ∧ _))

/-- A SYN from the client, and a SYN+ACK from the server. -/
structure Handshake (x x' : Taken) : Prop where
  tcp : x.headers.ip.ipProtocol = IPPROTO_TCP
  tcp' : x'.headers.ip.ipProtocol = IPPROTO_TCP
  syn : Syn false x.packet x.headers
  synAck : Syn true x'.packet x'.headers
  version : x'.headers.ip.ipVersion = x.headers.ip.ipVersion
  there : source x' = destination x
  back : destination x' = source x
  /-- Equal addresses in a tunnel are told apart by those of the tunnel, which goes back, too. -/
  tunnel : x.headers.gtpv1 ≠ none ∨ x'.headers.gtpv1 ≠ none →
    x'.headers.ip.addrCmp = -x.headers.ip.addrCmp

/-- The endpoint of the side that the origin names. -/
def Names (nf : Flow) (endpoint : List UInt8 × Nat) : Prop :=
  (nf.origin = .lower ∧ nf.lowerAddr.endpoint = endpoint) ∨
    (nf.origin = .upper ∧ nf.upperAddr.endpoint = endpoint)

/-- The law of the origin. -/
structure Agrees (x : Taken) (nf nf' : Flow) : Prop where
  origin : nf.origin = nf'.origin
  names : Names nf (source x)
  names' : Names nf' (source x)

/-- The addresses tell the endpoints apart. -/
def Told (x : Taken) : Prop :=
  x.headers.ip.src x.packet = x.headers.ip.dst x.packet → x.headers.ip.addrCmp ≠ 0

/-! ## A new flow -/

section
variable {cfg : CaptureConfig} {s : CaptureServices} {x x' : Taken} {nf nf' : Flow}

/-- The origin from half a handshake. -/
theorem origin_of_syn {p : Packet} {h : Headers} {nf : Flow}
    (tcp : nf.ipProtocol = IPPROTO_TCP.toNat) (syn : CaptureThread.thSyn p h = true) :
    CaptureThread.origin p h nf =
      if CaptureThread.thAck p h = true then (if h.ip.addrCmp < 0 then .upper else .lower)
      else if h.ip.addrCmp < 0 then .lower else .upper := by
  unfold CaptureThread.origin
  simp only [tcp, syn, and_self, if_true]

/-- What a flow is created with by half a handshake. -/
theorem flow_of_syn (creates : Creates cfg s x nf) (tcp : x.headers.ip.ipProtocol = IPPROTO_TCP)
    (syn : CaptureThread.thSyn x.packet x.headers = true) :
    nf.origin = (if CaptureThread.thAck x.packet x.headers = true then
        (if x.headers.ip.addrCmp < 0 then .upper else .lower)
      else if x.headers.ip.addrCmp < 0 then .lower else .upper) ∧
    nf.lowerAddr.endpoint = ((x.headers.ip.addrs x.packet).1, (x.headers.ip.ports x.packet).1) ∧
    nf.upperAddr.endpoint = ((x.headers.ip.addrs x.packet).2, (x.headers.ip.ports x.packet).2) := by
  obtain ⟨_, vlanId, key⟩ := creates.typed
  have stored := creates.stored
  obtain ⟨direction, tsFirstSeen, origin⟩ := stored.origin
  have protocol := congrArg FlowKey.ipProtocol key
  refine ⟨?_, ?_, ?_⟩
  · rw [origin]
    exact origin_of_syn (protocol.trans (congrArg UInt8.toNat tcp)) syn
  · rw [stored.lowerAddr]
    exact congrArg FlowKey.lower key
  · rw [stored.upperAddr]
    exact congrArg FlowKey.upper key

/-! ## The comparison of the addresses -/

/-- Without a tunnel the flow is carried by the first header. -/
theorem processIp_alone {W : ExtensionWalker} {dl : Datalink} {p : Packet} {fuel l2Len : Nat}
    {kept : Locals} {ip : IpHeader × Option Nat}
    (ended : (processIp W dl p fuel l2Len kept).outcome = .ok ip) (alone : ip.2 = none) :
    ip.1 = headerAt W p l2Len kept ∧ kept.gtpv1 = none := by
  induction fuel generalizing l2Len kept with
  | zero => cases ended
  | succ fuel ih =>
    by_cases accepted : Accepted W p l2Len
    · rw [processIp_accepted accepted] at ended
      have after : ∀ g, (keptAfter W p l2Len kept).gtpv1 = g →
          g = if tunnelled p (segment W p l2Len) then some ((segment W p l2Len).l4 + 8)
            else kept.gtpv1 := fun g same => same.symm
      cases continues : inner W p l2Len with
      | none =>
        rw [continues] at ended
        cases ended
        have none := after _ alone
        split at none
        · cases none
        · exact ⟨rfl, none.symm⟩
      | some next =>
        simp only [continues, emits_bind] at ended
        have none := after _ (ih ended).2
        rw [inner, if_pos accepted, innerOf] at continues
        split at continues
        · rename_i tunnel
          rw [if_pos tunnel.1] at none
          cases none
        · cases continues
    · rw [processIp_refused accepted] at ended
      cases ended

/-- The comparison is that of the addresses, or for equal IPv6 addresses that of a tunnel. -/
theorem addrCmp_of_creates (creates : Creates cfg s x nf) :
    (x.headers.ip.src x.packet ≠ x.headers.ip.dst x.packet → x.headers.ip.addrCmp =
      memcmp (x.headers.ip.src x.packet) (x.headers.ip.dst x.packet)) ∧
    (x.headers.ip.src x.packet = x.headers.ip.dst x.packet → x.headers.gtpv1 = none →
      x.headers.ip.addrCmp = 0) := by
  obtain ⟨fuel, _, ended⟩ := creates.taken
  obtain ⟨link, last, reached⟩ := reached_of_dissect ended
  constructor
  · intro differ
    obtain ⟨l2Len, kept, _, _, same⟩ := processIp_last reached.headers
    simp only at same
    have compared := addrCmpAt_eq s.extensions x.packet l2Len kept
    simp only [← same] at compared
    have unequal : ¬ (memcmp (x.headers.ip.src x.packet) (x.headers.ip.dst x.packet) = 0 ∧
        x.headers.ip.ipVersion ≠ 4) := fun equal => differ ((memcmp_addrs _ _).mp equal.1)
    rw [if_neg unequal] at compared
    rw [← compared, same]
    rfl
  · intro equal alone
    obtain ⟨same, _⟩ := processIp_alone reached.headers alone
    simp only at same
    have compared := addrCmpAt_eq s.extensions x.packet last.l2Len {}
    simp only [← same, equal, memcmp_self] at compared
    rw [ite_self] at compared
    rw [← compared, same]
    rfl

/-- The two halves of a handshake compare the other way round. -/
theorem opposite_of_handshake (creates : Creates cfg s x nf) (creates' : Creates cfg s x' nf')
    (handshake : Handshake x x') : x'.headers.ip.addrCmp = -x.headers.ip.addrCmp := by
  have src : x'.headers.ip.src x'.packet = x.headers.ip.dst x.packet :=
    congrArg Prod.fst handshake.there
  have dst : x'.headers.ip.dst x'.packet = x.headers.ip.src x.packet :=
    congrArg Prod.fst handshake.back
  by_cases equal : x.headers.ip.src x.packet = x.headers.ip.dst x.packet
  · by_cases alone : x.headers.gtpv1 = none ∧ x'.headers.gtpv1 = none
    · have equal' : x'.headers.ip.src x'.packet = x'.headers.ip.dst x'.packet := by
        rw [src, dst, equal]
      rw [(addrCmp_of_creates creates).2 equal alone.1,
        (addrCmp_of_creates creates').2 equal' alone.2]
      rfl
    · exact handshake.tunnel (not_and_or.mp alone)
  · have differ' : x'.headers.ip.src x'.packet ≠ x'.headers.ip.dst x'.packet := by
      rw [src, dst]
      exact Ne.symm equal
    rw [(addrCmp_of_creates creates).1 equal, (addrCmp_of_creates creates').1 differ', src, dst,
      memcmp_swap]

end

/-! ## The law -/

/-- The lower and the upper endpoint of a TCP packet whose addresses compare. -/
theorem endpoints_of_cmp {x : Taken} {nf : Flow} (tcp : x.headers.ip.ipProtocol = IPPROTO_TCP)
    (lower : nf.lowerAddr.endpoint =
      ((x.headers.ip.addrs x.packet).1, (x.headers.ip.ports x.packet).1))
    (upper : nf.upperAddr.endpoint =
      ((x.headers.ip.addrs x.packet).2, (x.headers.ip.ports x.packet).2)) :
    (x.headers.ip.addrCmp < 0 →
      nf.lowerAddr.endpoint = source x ∧ nf.upperAddr.endpoint = destination x) ∧
    (0 < x.headers.ip.addrCmp →
      nf.lowerAddr.endpoint = destination x ∧ nf.upperAddr.endpoint = source x) := by
  rw [lower, upper]
  unfold source destination IpHeader.addrs IpHeader.ports ordered orderedPorts
  simp only [tcp, true_or, if_true]
  constructor
  · intro less
    rw [if_pos less, if_pos less]
    exact ⟨rfl, rfl⟩
  · intro greater
    rw [if_neg (by omega), if_neg (by omega), if_pos greater]
    exact ⟨rfl, rfl⟩

/-- The origin of a TCP flow agrees between both halves of its handshake, and names the client,
exactly if the addresses tell the endpoints apart. -/
theorem origin_iff {cfg : CaptureConfig} {s : CaptureServices} {x x' : Taken} {nf nf' : Flow}
    (creates : Creates cfg s x nf) (creates' : Creates cfg s x' nf')
    (handshake : Handshake x x') : Agrees x nf nf' ↔ Told x := by
  have opposite := opposite_of_handshake creates creates' handshake
  obtain ⟨origin, lower, upper⟩ := flow_of_syn creates handshake.tcp handshake.syn.1
  obtain ⟨origin', lower', upper'⟩ := flow_of_syn creates' handshake.tcp' handshake.synAck.1
  rw [if_neg (ne_true_of_eq_false handshake.syn.2)] at origin
  rw [if_pos handshake.synAck.2] at origin'
  have ends := endpoints_of_cmp handshake.tcp lower upper
  have ends' := endpoints_of_cmp handshake.tcp' lower' upper'
  rw [handshake.there, handshake.back] at ends'
  constructor
  · intro agrees equal zero
    have same := agrees.origin
    rw [origin, origin', opposite, zero] at same
    cases same
  · intro told
    have compared : x.headers.ip.addrCmp ≠ 0 := by
      by_cases equal : x.headers.ip.src x.packet = x.headers.ip.dst x.packet
      · exact told equal
      · rw [(addrCmp_of_creates creates).1 equal]
        exact mt (memcmp_addrs _ _).mp equal
    rcases Int.lt_or_gt_of_ne compared with less | greater
    · rw [if_pos less] at origin
      rw [if_neg (by omega)] at origin'
      have there := ends.1 less
      have back := ends'.2 (by omega)
      exact ⟨origin.trans origin'.symm, .inl ⟨origin, there.1⟩, .inl ⟨origin', back.1⟩⟩
    · rw [if_neg (by omega)] at origin
      rw [if_pos (by omega)] at origin'
      have there := ends.2 greater
      have back := ends'.1 (by omega)
      exact ⟨origin.trans origin'.symm, .inr ⟨origin, there.2⟩, .inr ⟨origin', back.2⟩⟩

/-! ## Handshakes between two hosts, and on one -/

/-- A segment with these flags. -/
def tcpFrame (src dst : UInt8) (sport dport : Nat) (flags : UInt8) : Packet :=
  .ofBytes (Frames.ethernet (Frames.mac dst) (Frames.mac src) 0x0800
    (Frames.ipv4 6 (Frames.host src) (Frames.host dst) (Frames.tcp sport dport flags [])))

def tcpHeaders (addrCmp : Int) : Headers := ⟨⟨14, 4, 6, 20, 34, 20, 0, addrCmp⟩, none, some (54, 0)⟩

/-- A packet that a fresh thread takes. -/
def firstTaken (p : Packet) (h : Headers) (after : CaptureThread) : Taken := ⟨p, h, {}, after⟩

/-- The origin of the flow that the first packet of a thread creates. -/
def firstOrigin (p : Packet) (h : Headers) : Option Origin :=
  if (dissect .none .en10mb p 2).outcome = .ok h then
    (CaptureThread.step (Frames.eth0 .en10mb) Frames.services {} (.packet 2 p)).bind fun t =>
      (t.flowBuckets t.flow.digestLower).map Flow.origin
  else none

theorem creates_of_first {p : Packet} {h : Headers} {origin : Origin}
    (first : firstOrigin p h = some origin) : ∃ after nf,
      Creates (Frames.eth0 .en10mb) Frames.services (firstTaken p h after) nf ∧
        nf.origin = origin := by
  unfold firstOrigin at first
  split at first
  · rename_i ended
    obtain ⟨t, stepped, named⟩ := Option.bind_eq_some_iff.mp first
    obtain ⟨nf, created, origin⟩ := Option.map_eq_some_iff.mp named
    exact ⟨t, nf, ⟨⟨{}, rfl, .start⟩, ⟨2, stepped, ended⟩, rfl, created⟩, origin⟩
  · cases first

/-- Two hosts shake hands. -/
theorem two_hosts_agree : ∃ x x' nf nf', Creates (Frames.eth0 .en10mb) Frames.services x nf ∧
    Creates (Frames.eth0 .en10mb) Frames.services x' nf' ∧ Handshake x x' ∧ Agrees x nf nf' := by
  have syn : firstOrigin (tcpFrame 1 2 4000 80 2) (tcpHeaders (-1)) = some .lower := by
    decide +kernel
  have synAck : firstOrigin (tcpFrame 2 1 80 4000 0x12) (tcpHeaders 1) = some .lower := by
    decide +kernel
  obtain ⟨after, nf, creates, _⟩ := creates_of_first syn
  obtain ⟨after', nf', creates', _⟩ := creates_of_first synAck
  have client : Syn false (tcpFrame 1 2 4000 80 2) (tcpHeaders (-1)) := by decide
  have server : Syn true (tcpFrame 2 1 80 4000 0x12) (tcpHeaders 1) := by decide
  have handshake : Handshake (firstTaken (tcpFrame 1 2 4000 80 2) (tcpHeaders (-1)) after)
      (firstTaken (tcpFrame 2 1 80 4000 0x12) (tcpHeaders 1) after') :=
    ⟨rfl, rfl, client, server, rfl, rfl, rfl, fun _ => rfl⟩
  have told : Told (firstTaken (tcpFrame 1 2 4000 80 2) (tcpHeaders (-1)) after) := fun _ =>
    (by decide : (-1 : Int) ≠ 0)
  exact ⟨_, _, nf, nf', creates, creates', handshake,
    (origin_iff creates creates' handshake).mpr told⟩

/-- Two ports of one host shake hands: the SYN names the upper side and the SYN+ACK the lower. -/
theorem one_host_disagrees : ∃ x x' nf nf',
    Creates (Frames.eth0 .en10mb) Frames.services x nf ∧
    Creates (Frames.eth0 .en10mb) Frames.services x' nf' ∧ Handshake x x' ∧
    nf.origin = .upper ∧ nf'.origin = .lower ∧ ¬ Agrees x nf nf' := by
  have syn : firstOrigin (tcpFrame 1 1 4000 80 2) (tcpHeaders 0) = some .upper := by
    decide +kernel
  have synAck : firstOrigin (tcpFrame 1 1 80 4000 0x12) (tcpHeaders 0) = some .lower := by
    decide +kernel
  obtain ⟨after, nf, creates, upper⟩ := creates_of_first syn
  obtain ⟨after', nf', creates', lower⟩ := creates_of_first synAck
  have client : Syn false (tcpFrame 1 1 4000 80 2) (tcpHeaders 0) := by decide
  have server : Syn true (tcpFrame 1 1 80 4000 0x12) (tcpHeaders 0) := by decide
  have handshake : Handshake (firstTaken (tcpFrame 1 1 4000 80 2) (tcpHeaders 0) after)
      (firstTaken (tcpFrame 1 1 80 4000 0x12) (tcpHeaders 0) after') :=
    ⟨rfl, rfl, client, server, rfl, rfl, rfl, fun _ => rfl⟩
  refine ⟨_, _, nf, nf', creates, creates', handshake, upper, lower, fun agrees => ?_⟩
  have same := agrees.origin
  rw [upper, lower] at same
  cases same

end NetifyAgent.FlowOrigin
