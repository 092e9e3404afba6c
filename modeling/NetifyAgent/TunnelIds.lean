import NetifyAgent.Directions
import NetifyAgent.FlowOrigin
import NetifyAgent.GtpTunnels

/-! The identifiers of the tunnel around a flow. The first packet of a flow stores its TEID for
the side that the origin names, and the origin is guessed from ports and TCP flags, whoever has
sent the packet. Later packets in the other direction store theirs for the other side. -/
namespace NetifyAgent.TunnelIds
open NetifyAgent.Bytes NetifyAgent.Dissection NetifyAgent.Runs NetifyAgent.KeyHistory
open NetifyAgent.OneFlow NetifyAgent.Directions NetifyAgent.GtpTunnels

/-! ## The tunnel around a packet -/

/-- From one IP header on, tunnels inside each other lead to another IP header, and the
innermost of them has its GTP header at `hdr`. -/
inductive Encloses (W : ExtensionWalker) (p : Packet) : Nat → Nat → Nat → Prop where
  | here {l2Len hdr : Nat} (pdu : GPdu W p l2Len hdr) : Encloses W p l2Len hdr (gtpInner p hdr)
  | behind {l2Len outer hdr last : Nat} (pdu : GPdu W p l2Len outer)
      (inside : Encloses W p (gtpInner p outer) hdr last) : Encloses W p l2Len hdr last

/-- The headers of a packet are those inside a G-PDU whose GTP header is at `hdr`. -/
def Carried (cfg : CaptureConfig) (s : CaptureServices) (p : Packet) (h : Headers) (hdr : Nat) :
    Prop :=
  ∃ fuel link last, Reached s.extensions cfg.dlType p fuel link last h ∧
    Encloses s.extensions p last.l2Len hdr h.ip.l2Len

/-- The carried packet is itself one of the GTP-U port. -/
def Tunnelled (s : CaptureServices) (p : Packet) (h : Headers) : Prop :=
  tunnelled p (segment s.extensions p h.ip.l2Len)

instance (s : CaptureServices) (p : Packet) (h : Headers) : Decidable (Tunnelled s p h) :=
  inferInstanceAs (Decidable (tunnelled _ _))

/-- The GTP header that is read last: that of the tunnel, unless the carried packet seems to
have another one. -/
def readAt (s : CaptureServices) (p : Packet) (h : Headers) (hdr : Nat) : Nat :=
  if Tunnelled s p h then (segment s.extensions p h.ip.l2Len).l4 + 8 else hdr

section
variable {W : ExtensionWalker} {dl : Datalink} {p : Packet} {l2Len hdr : Nat} {kept : Locals}

theorem processIp_gtpv1 {fuel : Nat} {ip : IpHeader × Option Nat}
    (ended : (processIp W dl p fuel l2Len kept).outcome = .ok ip) (last : inner W p l2Len = none) :
    ip.2 = gtpv1After p (segment W p l2Len) kept.gtpv1 := by
  cases fuel with
  | zero => cases ended
  | succ fuel =>
    by_cases accepted : Accepted W p l2Len
    · rw [processIp_accepted accepted, last] at ended
      cases ended
      rfl
    · rw [processIp_refused accepted] at ended
      cases ended

/-- The header that is read last, where tunnels lead to the header that carries the flow. -/
theorem gtpv1_of_encloses {fuel stop : Nat} {ip : IpHeader × Option Nat}
    (ended : (processIp W dl p fuel l2Len kept).outcome = .ok ip) (stops : ip.1.l2Len = stop)
    (encloses : Encloses W p l2Len hdr stop) :
    ip.2 = gtpv1After p (segment W p stop) (some hdr) := by
  induction encloses generalizing fuel kept with
  | @here l2Len hdr pdu =>
    cases fuel with
    | zero => cases ended
    | succ fuel =>
      rw [processIp_accepted pdu.accepted, inner_some pdu] at ended
      simp only [emits_bind] at ended
      obtain ⟨last, kept', -, ends, same⟩ := processIp_last ended
      have here : last = gtpInner p hdr := by
        rw [← stops, same]
        rfl
      rw [here] at ends
      rw [processIp_gtpv1 ended ends, keptAfter, gtpv1After, gtpv1After, gtpv1After,
        if_pos pdu.tunnel, pdu.place]
  | behind pdu inside ih =>
    cases fuel with
    | zero => cases ended
    | succ fuel =>
      rw [processIp_accepted pdu.accepted, inner_some pdu] at ended
      simp only [emits_bind] at ended
      exact ih ended stops

end

section
variable {cfg : CaptureConfig} {s : CaptureServices} {p : Packet} {h : Headers} {hdr : Nat}

/-- **`hdr_gtpv1`** of a packet that is carried by a tunnel. -/
theorem Carried.gtpv1 (carried : Carried cfg s p h hdr) : h.gtpv1 = some (readAt s p h hdr) := by
  obtain ⟨fuel, link, last, reached, encloses⟩ := carried
  have same := gtpv1_of_encloses reached.headers rfl encloses
  refine same.trans ?_
  unfold gtpv1After readAt Tunnelled
  exact (apply_ite some _ _ _).symm

end

/-! ## The side of a packet -/

/-- The protocols whose ports are read. -/
def Ported (h : Headers) : Prop := h.ip.ipProtocol = IPPROTO_TCP ∨ h.ip.ipProtocol = IPPROTO_UDP

instance (h : Headers) : Decidable (Ported h) := inferInstanceAs (Decidable (_ ∨ _))

/-- The endpoint that has sent a packet, with the port as it is stored. -/
def sender (p : Packet) (h : Headers) : List UInt8 × Nat :=
  (h.ip.src p, if Ported h then le16 p.data h.ip.l4 else 0)

/-- The endpoint that a packet is sent to. -/
def receiver (p : Packet) (h : Headers) : List UInt8 × Nat :=
  (h.ip.dst p, if Ported h then le16 p.data (h.ip.l4 + 2) else 0)

/-- The lower endpoint is the sender, by the addresses or between equal ones by the ports as
they are stored. -/
def Upwards (p : Packet) (h : Headers) : Prop :=
  h.ip.addrCmp < 0 ∨ h.ip.addrCmp = 0 ∧ Ported h ∧ le16 p.data h.ip.l4 < le16 p.data (h.ip.l4 + 2)

instance (p : Packet) (h : Headers) : Decidable (Upwards p h) :=
  inferInstanceAs (Decidable (_ ∨ _ ∧ _))

/-- A packet looks like one of the side that has opened the connection: a TCP packet with SYN
has no ACK, any other does not have the lower port. (Between equal addresses that no tunnel
tells apart, the code takes the upper side for the sender.) -/
def Leads (p : Packet) (h : Headers) : Prop :=
  if h.ip.ipProtocol = IPPROTO_TCP ∧ CaptureThread.thSyn p h = true then
    if CaptureThread.thAck p h = true then h.ip.addrCmp = 0 ∧ Upwards p h
    else h.ip.addrCmp = 0 → ¬ Upwards p h
  else Ported h → be16 p.data (h.ip.l4 + 2) ≤ be16 p.data h.ip.l4

instance (p : Packet) (h : Headers) : Decidable (Leads p h) := by
  unfold Leads
  infer_instance

section
variable {p : Packet} {h : Headers} {nf : Flow}

theorem ntohs_le16 (m : Memory) (off : Nat) : ntohs (le16 m off) = be16 m off := by
  have low := (m off).toNat_lt
  have high := (m (off + 1)).toNat_lt
  unfold ntohs le16 be16
  omega

theorem le16_of_be16 (m : Memory) {a b : Nat} (same : be16 m a = be16 m b) :
    le16 m a = le16 m b := by
  have lowA := (m a).toNat_lt
  have highA := (m (a + 1)).toNat_lt
  have lowB := (m b).toNat_lt
  have highB := (m (b + 1)).toNat_lt
  unfold be16 at same
  unfold le16
  omega

/-- The addresses that compare as equal are equal. -/
def Consistent (p : Packet) (h : Headers) : Prop :=
  h.ip.addrCmp = 0 → h.ip.src p = h.ip.dst p

/-- The endpoints of a key are those of the packet, in one order or the other. -/
theorem endpoints_ordered (consistent : Consistent p h) :
    ((h.ip.addrs p).1, (h.ip.ports p).1) = (if Upwards p h then sender p h else receiver p h) ∧
      ((h.ip.addrs p).2, (h.ip.ports p).2) =
        if Upwards p h then receiver p h else sender p h := by
  unfold IpHeader.addrs IpHeader.ports ordered orderedPorts sender receiver Upwards Ported
  unfold Consistent at consistent
  by_cases ported : h.ip.ipProtocol = IPPROTO_TCP ∨ h.ip.ipProtocol = IPPROTO_UDP
  · simp only [ported, if_true, true_and]
    rcases lt_trichotomy h.ip.addrCmp 0 with less | equal | greater
    · simp [less]
    · simp only [equal, lt_irrefl, false_or, true_and, if_false, consistent equal]
      split <;> exact ⟨rfl, rfl⟩
    · have notLess : ¬ h.ip.addrCmp < 0 := by omega
      have notEqual : h.ip.addrCmp ≠ 0 := by omega
      simp [notLess, notEqual, greater]
  · simp only [ported, if_false, false_and, and_false, or_false]
    split <;> exact ⟨rfl, rfl⟩

/-- What a template says of the packet that has made it. -/
structure Keyed (p : Packet) (h : Headers) (nf : Flow) : Prop where
  ipProtocol : nf.ipProtocol = h.ip.ipProtocol.toNat
  lower : nf.lowerAddr.endpoint = ((h.ip.addrs p).1, (h.ip.ports p).1)
  upper : nf.upperAddr.endpoint = ((h.ip.addrs p).2, (h.ip.ports p).2)

theorem Keyed.getPort (keyed : Keyed p h nf) (ported : Ported h) :
    nf.lowerAddr.getPort =
        (if Upwards p h then be16 p.data h.ip.l4 else be16 p.data (h.ip.l4 + 2)) ∧
      nf.upperAddr.getPort =
        if Upwards p h then be16 p.data (h.ip.l4 + 2) else be16 p.data h.ip.l4 := by
  have ports : h.ip.ports p = orderedPorts p h.ip := if_pos ported
  have lower : nf.lowerAddr.getPortRaw = (orderedPorts p h.ip).1 :=
    (congrArg Prod.snd keyed.lower).trans (by rw [ports])
  have upper : nf.upperAddr.getPortRaw = (orderedPorts p h.ip).2 :=
    (congrArg Prod.snd keyed.upper).trans (by rw [ports])
  unfold Addr.getPort
  rw [lower, upper]
  unfold orderedPorts Upwards
  simp only [ported, true_and]
  rcases lt_trichotomy h.ip.addrCmp 0 with less | equal | greater
  · simp [less, ntohs_le16]
  · simp only [equal, lt_irrefl, false_or, true_and, if_false]
    split <;> exact ⟨ntohs_le16 _ _, ntohs_le16 _ _⟩
  · have notLess : ¬ h.ip.addrCmp < 0 := by omega
    have notEqual : h.ip.addrCmp ≠ 0 := by omega
    simp [notLess, notEqual, greater, ntohs_le16]

/-- Without ports the side seen first is the origin. -/
theorem origin_unported (keyed : Keyed p h nf) (unported : ¬ Ported h) :
    CaptureThread.origin p h nf = if h.ip.addrCmp < 0 then .lower else .upper := by
  have ports : h.ip.ports p = (0, 0) := if_neg unported
  have lower : nf.lowerAddr.getPort = 0 := by
    unfold Addr.getPort
    rw [show nf.lowerAddr.getPortRaw = 0 from (congrArg Prod.snd keyed.lower).trans (by rw [ports])]
    rfl
  have upper : nf.upperAddr.getPort = 0 := by
    unfold Addr.getPort
    rw [show nf.upperAddr.getPortRaw = 0 from (congrArg Prod.snd keyed.upper).trans (by rw [ports])]
    rfl
  have tcp : ¬ (nf.ipProtocol = IPPROTO_TCP.toNat ∧ CaptureThread.thSyn p h = true) := by
    rw [keyed.ipProtocol]
    exact fun both => unported (.inl (UInt8.toNat_inj.mp both.1))
  unfold CaptureThread.origin
  simp only [if_neg tcp, lower, upper, lt_irrefl, if_false, ite_self]

/-- The origin of a packet with ports that is not a SYN is the side of the higher one. -/
theorem origin_ported (keyed : Keyed p h nf) (ported : Ported h)
    (plain : ¬ (h.ip.ipProtocol = IPPROTO_TCP ∧ CaptureThread.thSyn p h = true)) :
    CaptureThread.origin p h nf =
      if nf.lowerAddr.getPort < nf.upperAddr.getPort then .upper
      else if nf.upperAddr.getPort < nf.lowerAddr.getPort then .lower
      else if h.ip.addrCmp < 0 then .lower else .upper := by
  have tcp : ¬ (nf.ipProtocol = IPPROTO_TCP.toNat ∧ CaptureThread.thSyn p h = true) := by
    rw [keyed.ipProtocol]
    exact fun both => plain ⟨UInt8.toNat_inj.mp both.1, both.2⟩
  have listed : nf.ipProtocol ∈
      [IPPROTO_TCP, IPPROTO_SCTP, IPPROTO_UDP, IPPROTO_UDPLITE].map UInt8.toNat := by
    rw [keyed.ipProtocol]
    apply List.mem_map_of_mem
    rcases ported with tcp | udp
    · rw [tcp]
      decide
    · rw [udp]
      decide
  unfold CaptureThread.origin
  simp only [if_neg tcp, if_pos listed]

/-- **The guess.** The origin is the side that has sent the packet exactly if the packet looks
like one of the side that has opened the connection. -/
theorem origin_iff_leads (keyed : Keyed p h nf) :
    (CaptureThread.origin p h nf = .lower ↔ Upwards p h) ↔ Leads p h := by
  unfold Leads
  by_cases syn : h.ip.ipProtocol = IPPROTO_TCP ∧ CaptureThread.thSyn p h = true
  · have tcp : nf.ipProtocol = IPPROTO_TCP.toNat := keyed.ipProtocol.trans (congrArg _ syn.1)
    rw [if_pos syn, FlowOrigin.origin_of_syn tcp syn.2]
    rcases lt_trichotomy h.ip.addrCmp 0 with less | equal | greater
    · have up : Upwards p h := .inl less
      have notEqual : h.ip.addrCmp ≠ 0 := by omega
      split <;> simp [up, notEqual]
    · split <;> simp [equal]
    · have notLess : ¬ h.ip.addrCmp < 0 := by omega
      have notEqual : h.ip.addrCmp ≠ 0 := by omega
      have down : ¬ Upwards p h := by simp [Upwards, notLess, notEqual]
      split <;> simp [down, notEqual]
  · rw [if_neg syn]
    by_cases ported : Ported h
    · obtain ⟨lower, upper⟩ := keyed.getPort ported
      rw [origin_ported keyed ported syn, lower, upper]
      simp only [ported, forall_const]
      by_cases up : Upwards p h
      · simp only [up, if_true, iff_true]
        rcases lt_trichotomy (be16 p.data h.ip.l4) (be16 p.data (h.ip.l4 + 2)) with
          less | equal | greater
        · simp [less]
        · -- Between equal addresses equal ports are in no order.
          have less : h.ip.addrCmp < 0 := by
            rcases up with less | ⟨-, -, below⟩
            · exact less
            · rw [le16_of_be16 p.data equal] at below
              exact absurd below (lt_irrefl _)
          simp [equal, less]
        · simp [greater, greater.le, not_lt_of_gt greater]
      · have notLess : ¬ h.ip.addrCmp < 0 := fun less => up (.inl less)
        simp only [up, if_false, iff_false, notLess]
        rcases lt_trichotomy (be16 p.data h.ip.l4) (be16 p.data (h.ip.l4 + 2)) with
          less | equal | greater
        · simp [less, not_lt_of_gt less]
        · simp [equal]
        · simp [greater, greater.le]
    · rw [origin_unported keyed ported]
      have upwards : Upwards p h ↔ h.ip.addrCmp < 0 := by
        simp [Upwards, ported]
      rw [upwards]
      simp [ported]

/-- The sender is the lower endpoint of a flow if the packet goes upwards. -/
theorem sender_lower (keyed : Keyed p h nf) (consistent : Consistent p h)
    (up : Upwards p h ∨ sender p h = receiver p h) : sender p h = nf.lowerAddr.endpoint := by
  rw [keyed.lower, (endpoints_ordered consistent).1]
  rcases up with up | same
  · exact (if_pos up).symm
  · rw [← same, ite_self]

theorem sender_upper (keyed : Keyed p h nf) (consistent : Consistent p h)
    (down : ¬ Upwards p h ∨ sender p h = receiver p h) : sender p h = nf.upperAddr.endpoint := by
  rw [keyed.upper, (endpoints_ordered consistent).2]
  rcases down with down | same
  · exact (if_neg down).symm
  · rw [← same, ite_self]

end

/-! ## Runs -/

/-- What a flow keeps while no packet of it comes. -/
structure Kept (nf nf' : Flow) : Prop where
  origin : nf'.origin = nf.origin
  direction : nf'.direction = nf.direction
  lowerTeid : nf'.gtp.lowerTeid = nf.gtp.lowerTeid
  upperTeid : nf'.gtp.upperTeid = nf.gtp.upperTeid

/-- Something else happens than a packet of the flow. -/
structure Undisturbed (digest : List UInt8) (t t' : CaptureThread) : Prop where
  absent : t.flowBuckets digest = none → t'.flowBuckets digest = none
  kept : ∀ nf, t.flowBuckets digest = some nf →
    ∃ nf', t'.flowBuckets digest = some nf' ∧ Kept nf nf'

/-- The thread has mapped a packet to the flow. -/
structure Mapped (id : Identity) (t : CaptureThread) : Prop where
  digest : t.flow.digestLower = id.digest
  lower : t.flow.lowerAddr.endpoint = id.lower
  upper : t.flow.upperAddr.endpoint = id.upper
  found : ∃ nf, t.flowBuckets id.digest = some nf

/-- The steps of a run of one flow inside tunnels. -/
def Regular (cfg : CaptureConfig) (s : CaptureServices) (id : Identity) (r : FlowRun) :
    OneFlow.FlowAction → Prop
  | .mine fuel p h => (dissect s.extensions cfg.dlType p fuel).outcome = .ok h ∧
      (∃ hdr, Carried cfg s p h hdr) ∧
      ∀ t ∈ CaptureThread.step cfg s r.thread (.packet fuel p), Mapped id t
  | .other action => ∀ t ∈ CaptureThread.step cfg s r.thread action,
      Undisturbed id.digest r.thread t

/-- A later packet goes the way that the origin of its flow does not. -/
def Answers (nf : Flow) (p : Packet) (h : Headers) : Prop :=
  (nf.origin = .lower → ¬ Upwards p h) ∧ (nf.origin = .upper → Upwards p h)

/-- A TEID that is stored is zero, or it is read from the tunnel of the packet and the packet
comes from the side it is stored for: the first one looks like one of the side that has opened
the connection, and a later one in the other direction goes against the origin. (A packet from
an endpoint to itself comes from both sides.) -/
def Fits (cfg : CaptureConfig) (s : CaptureServices) (id : Identity) (r : FlowRun) :
    OneFlow.FlowAction → Prop
  | .mine _ p h => ∀ hdr, Carried cfg s p h hdr →
      CaptureThread.teid p (readAt s p h hdr) = 0 ∨
        match r.thread.flowBuckets id.digest with
        | none => CaptureThread.teid p (readAt s p h hdr) = CaptureThread.teid p hdr ∧
            (Leads p h ∨ sender p h = receiver p h)
        | some nf => nf.direction ≠ h.ip.addrCmp → gtpVersion p (readAt s p h hdr) = 1 →
            CaptureThread.teid p (readAt s p h hdr) = CaptureThread.teid p hdr ∧
              (Answers nf p h ∨ sender p h = receiver p h)
  | .other _ => True

/-- A packet with this TEID was sent by an endpoint. -/
def Sent (cfg : CaptureConfig) (s : CaptureServices) (endpoint : List UInt8 × Nat) (teid : Nat)
    (x : Taken) : Prop :=
  sender x.packet x.headers = endpoint ∧
    ∃ hdr, Carried cfg s x.packet x.headers hdr ∧ CaptureThread.teid x.packet hdr = teid

/-- The law of the tunnel identifiers. -/
structure Teids (cfg : CaptureConfig) (s : CaptureServices) (id : Identity) (log : List Taken)
    (nf : Flow) : Prop where
  lower : nf.gtp.lowerTeid = 0 ∨ ∃ x ∈ log, Sent cfg s id.lower nf.gtp.lowerTeid x
  upper : nf.gtp.upperTeid = 0 ∨ ∃ x ∈ log, Sent cfg s id.upper nf.gtp.upperTeid x

section
variable {cfg : CaptureConfig} {s : CaptureServices} {id : Identity} {p : Packet} {h : Headers}
  {nf nf' : Flow} {t t' : CaptureThread} {hdr : Nat}

theorem seen_kept (nf : Flow) (t : CaptureThread)
    (stored : (CaptureThread.seen cfg s p h nf t).flowBuckets t.flow.digestLower = some nf') :
    Kept nf nf' := by
  obtain ⟨counted, ⟨flags, metadata, dpiThreadId, rfl⟩, rfl | rfl⟩ := seen_stored nf t stored
  · exact ⟨rfl, rfl, rfl, rfl⟩
  · exact ⟨rfl, rfl, rfl, rfl⟩

/-- What a packet leaves on a side of its flow that has `old`: the TEID of its tunnel only if it
comes from there. -/
def Leaves (p : Packet) (h : Headers) (hdr old new : Nat) (comes : Prop) : Prop :=
  new = old ∨ new = 0 ∨
    new = CaptureThread.teid p hdr ∧ (comes ∨ sender p h = receiver p h)

/-- A packet of a flow that exists stores its TEID for the side that the origin does not name. -/
theorem known_leaves {read : Nat} (found : h.gtpv1 = some read)
    (fits : CaptureThread.teid p read = 0 ∨
      (nf.direction ≠ h.ip.addrCmp → gtpVersion p read = 1 →
        CaptureThread.teid p read = CaptureThread.teid p hdr ∧
          (Answers nf p h ∨ sender p h = receiver p h))) :
    let known := CaptureThread.known p h nf
    Leaves p h hdr nf.gtp.lowerTeid known.gtp.lowerTeid (Upwards p h) ∧
      Leaves p h hdr nf.gtp.upperTeid known.gtp.upperTeid (¬ Upwards p h) := by
  unfold CaptureThread.known
  rw [found]
  dsimp only
  split
  case isTrue told =>
    obtain ⟨turned, version, -⟩ := told
    cases origin : nf.origin with
    | lower =>
      refine ⟨.inl rfl, .inr ?_⟩
      refine fits.imp_right fun more => ?_
      obtain ⟨own, right⟩ := more turned version
      exact ⟨own, right.imp_left fun answers => answers.1 origin⟩
    | upper =>
      refine ⟨.inr ?_, .inl rfl⟩
      refine fits.imp_right fun more => ?_
      obtain ⟨own, right⟩ := more turned version
      exact ⟨own, right.imp_left fun answers => answers.2 origin⟩
    | unknown => exact ⟨.inl rfl, .inl rfl⟩
  · exact ⟨.inl rfl, .inl rfl⟩

/-- A new flow stores it for the side that the origin names. -/
theorem fresh_leaves {read : Nat} (found : h.gtpv1 = some read) (keyed : Keyed p h t.flow)
    (zero : t.flow.gtp.lowerTeid = 0 ∧ t.flow.gtp.upperTeid = 0)
    (fits : CaptureThread.teid p read = 0 ∨
      CaptureThread.teid p read = CaptureThread.teid p hdr ∧
        (Leads p h ∨ sender p h = receiver p h)) :
    let fresh := CaptureThread.fresh p h t
    Leaves p h hdr 0 fresh.gtp.lowerTeid (Upwards p h) ∧
      Leaves p h hdr 0 fresh.gtp.upperTeid (¬ Upwards p h) := by
  have guess := fun leads =>
    (@origin_iff_leads p h
      { t.flow.copy with direction := h.ip.addrCmp, tsFirstSeen := t.tsPktLast }
      ⟨keyed.ipProtocol, keyed.lower, keyed.upper⟩).mpr leads
  unfold CaptureThread.fresh
  rw [found]
  dsimp only
  split
  case h_1 tunnel first =>
    cases first
    split
    case isTrue lower =>
      refine ⟨.inr (fits.imp_right fun ⟨own, right⟩ => ⟨own, ?_⟩), .inl zero.2⟩
      exact right.imp_left fun leads => (guess leads).mp lower
    case isFalse upper =>
      refine ⟨.inl zero.1, .inr (fits.imp_right fun ⟨own, right⟩ => ⟨own, ?_⟩)⟩
      exact right.imp_left fun leads up => upper ((guess leads).mpr up)
  · exact ⟨.inl zero.1, .inl zero.2⟩

/-- The template of a thread has no TEIDs: dissection assigns none. -/
theorem assigned_teids (flow : Flow) (ws : List Op) :
    (assigned flow ws).gtp.lowerTeid = flow.gtp.lowerTeid ∧
      (assigned flow ws).gtp.upperTeid = flow.gtp.upperTeid :=
  ⟨@assigned_keeps _ (·.gtp.lowerTeid) ws (fun w _ flow => (assign_aside flow w).2.1) flow,
    @assigned_keeps _ (·.gtp.upperTeid) ws (fun w _ flow => (assign_aside flow w).2.2) flow⟩

/-- A template between packets. -/
structure Blank (dl : Datalink) (flow : Flow) : Prop where
  template : Template dl flow
  lowerTeid : flow.gtp.lowerTeid = 0
  upperTeid : flow.gtp.upperTeid = 0

theorem Blank.step {action : CaptureAction} (blank : Blank cfg.dlType t.flow)
    (taken : CaptureThread.step cfg s t action = some t') : Blank cfg.dlType t'.flow := by
  have template := template_step blank.template taken
  cases action with
  | packet fuel p =>
    have flow := processPacket_flow (processPacket_of_step taken)
    obtain ⟨lower, upper⟩ := assigned_teids t.flow (dissect s.extensions cfg.dlType p fuel).log
    refine ⟨template, ?_, ?_⟩
    · rw [flow]
      split <;> exact lower.trans blank.lowerTeid
    · rw [flow]
      split <;> exact upper.trans blank.upperTeid
  | share flowBuckets flows =>
    cases taken
    exact blank
  | collect =>
    cases taken
    exact blank

/-- The template that a carried packet leaves is keyed by it. -/
theorem keyed_of_step {fuel : Nat} (blank : Blank cfg.dlType t.flow)
    (ended : (dissect s.extensions cfg.dlType p fuel).outcome = .ok h)
    (taken : CaptureThread.step cfg s t (.packet fuel p) = some t') :
    Keyed p h t'.flow ∧ Consistent p h := by
  obtain ⟨link, last, reached⟩ := reached_of_dissect ended
  have key := (processPacket_key blank.template reached ended (processPacket_of_step taken)).1
  refine ⟨⟨congrArg FlowKey.ipProtocol key, congrArg FlowKey.lower key,
    congrArg FlowKey.upper key⟩, ?_⟩
  obtain ⟨l2Len, kept, -, -, same⟩ := processIp_last reached.headers
  simp only at same
  unfold Consistent
  rw [same]
  exact addrCmp_consistent

/-- What a packet makes of its flow, or of a new one. -/
theorem hashed_teids (t : CaptureThread)
    (stored : (CaptureThread.hashed cfg s p h t).flowBuckets
      (t.flow.hash s.sha1 cfg.tag).digestLower = some nf') :
    (∃ nf, t.flowBuckets (t.flow.hash s.sha1 cfg.tag).digestLower = some nf ∧
        Kept (CaptureThread.known p h nf) nf') ∨
      (t.flowBuckets (t.flow.hash s.sha1 cfg.tag).digestLower = none ∧
        Kept (CaptureThread.fresh p h { t with flow := t.flow.hash s.sha1 cfg.tag }) nf') := by
  unfold CaptureThread.hashed at stored
  simp only at stored
  cases found : t.flowBuckets (t.flow.hash s.sha1 cfg.tag).digestLower with
  | some nf =>
    simp only [found] at stored
    exact .inl ⟨nf, rfl, seen_kept _ _ stored⟩
  | none =>
    simp only [found] at stored
    split at stored
    · exact absurd (found.symm.trans stored) (by simp)
    split at stored
    · exact absurd (found.symm.trans stored) (by simp)
    exact .inr ⟨rfl, seen_kept _ _ stored⟩

/-- A packet of the flow finds it, or makes it. -/
theorem mine_cases {fuel : Nat} (ended : (dissect s.extensions cfg.dlType p fuel).outcome = .ok h)
    (taken : CaptureThread.step cfg s t (.packet fuel p) = some t') (mapped : Mapped id t')
    (stored : t'.flowBuckets id.digest = some nf') :
    (∃ nf, t.flowBuckets id.digest = some nf ∧ Kept (CaptureThread.known p h nf) nf') ∨
      (t.flowBuckets id.digest = none ∧
        ∃ before, before.flow = t'.flow ∧ Kept (CaptureThread.fresh p h before) nf') := by
  obtain ⟨before, map, -, same⟩ := hashed_of_processPacket ended (processPacket_of_step taken)
  have flow : before.flow.hash s.sha1 cfg.tag = t'.flow := by
    rw [same, hashed_flow]
  have place : (before.flow.hash s.sha1 cfg.tag).digestLower = id.digest := by
    rw [flow]
    exact mapped.digest
  rw [same, ← place] at stored
  have cases := hashed_teids before stored
  rw [place, map] at cases
  refine cases.imp_right fun ⟨absent, kept⟩ => ⟨absent, _, ?_, kept⟩
  exact flow

/-- A side that has the TEID of a packet from there still does. -/
theorem Leaves.sent {log : List Taken} {x : Taken} {endpoint : List UInt8 × Nat} {old new : Nat}
    {comes : Prop} (leaves : Leaves x.packet x.headers hdr old new comes)
    (carried : Carried cfg s x.packet x.headers hdr)
    (side : comes ∨ sender x.packet x.headers = receiver x.packet x.headers →
      sender x.packet x.headers = endpoint)
    (before : old = 0 ∨ ∃ y ∈ log, Sent cfg s endpoint old y) :
    new = 0 ∨ ∃ y ∈ log ++ [x], Sent cfg s endpoint new y := by
  rcases leaves with same | zero | ⟨told, right⟩
  · rw [same]
    refine before.imp_right fun ⟨y, member, sent⟩ => ?_
    exact ⟨y, List.mem_append_left _ member, sent⟩
  · exact .inl zero
  · refine .inr ⟨x, List.mem_append_right _ (List.mem_singleton_self x), side right, ?_⟩
    exact ⟨hdr, carried, told.symm⟩

/-- **A packet of the flow** that fits keeps the law. -/
theorem teids_mine {r : FlowRun} {fuel : Nat} (blank : Blank cfg.dlType r.thread.flow)
    (law : ∀ nf, r.thread.flowBuckets id.digest = some nf → Teids cfg s id r.log nf)
    (regular : Regular cfg s id r (.mine fuel p h)) (fits : Fits cfg s id r (.mine fuel p h))
    (taken : CaptureThread.step cfg s r.thread (.packet fuel p) = some t)
    (stored : t.flowBuckets id.digest = some nf') :
    Teids cfg s id (r.log ++ [⟨p, h, r.thread, t⟩]) nf' := by
  obtain ⟨ended, ⟨hdr, carried⟩, mapped⟩ := regular
  have joined := mapped t taken
  obtain ⟨keyed, consistent⟩ := keyed_of_step blank ended taken
  have fits := fits hdr carried
  have lowerSide := fun up => (sender_lower keyed consistent up).trans joined.lower
  have upperSide := fun down => (sender_upper keyed consistent down).trans joined.upper
  rcases mine_cases ended taken joined stored with
    ⟨nf, found, kept⟩ | ⟨absent, before, flow, kept⟩
  · rw [found] at fits
    obtain ⟨lower, upper⟩ := known_leaves carried.gtpv1 fits
    have known := law nf found
    constructor
    · rw [kept.lowerTeid]
      exact lower.sent carried lowerSide known.lower
    · rw [kept.upperTeid]
      exact upper.sent carried upperSide known.upper
  · rw [absent] at fits
    have after := blank.step taken
    rw [← flow] at keyed after
    obtain ⟨lower, upper⟩ :=
      fresh_leaves carried.gtpv1 keyed ⟨after.lowerTeid, after.upperTeid⟩ fits
    constructor
    · rw [kept.lowerTeid]
      exact lower.sent carried lowerSide (.inl rfl)
    · rw [kept.upperTeid]
      exact upper.sent carried upperSide (.inl rfl)

variable {start r : FlowRun}

/-- What a flow keeps to itself still holds of it after something else has happened. -/
theorem Undisturbed.rule {J : Flow → Prop} {digest : List UInt8}
    (undisturbed : Undisturbed digest t t') (keep : ∀ nf nf', J nf → Kept nf nf' → J nf')
    (before : ∀ nf, t.flowBuckets digest = some nf → J nf)
    (stored : t'.flowBuckets digest = some nf') : J nf' := by
  cases found : t.flowBuckets digest with
  | none => exact absurd ((undisturbed.absent found).symm.trans stored) (by simp)
  | some nf =>
    obtain ⟨nf'', stored', kept⟩ := undisturbed.kept nf found
    cases stored.symm.trans stored'
    exact keep nf nf' (before nf found) kept

/-- What a run knows of the tunnel identifiers of its flow. -/
structure Known (cfg : CaptureConfig) (s : CaptureServices) (id : Identity) (r : FlowRun) :
    Prop where
  blank : Blank cfg.dlType r.thread.flow
  teids : ∀ nf, r.thread.flowBuckets id.digest = some nf → Teids cfg s id r.log nf

theorem Teids.kept {log : List Taken} (teids : Teids cfg s id log nf) (kept : Kept nf nf') :
    Teids cfg s id log nf' := by
  constructor
  · rw [kept.lowerTeid]
    exact teids.lower
  · rw [kept.upperTeid]
    exact teids.upper

/-- One step of a run. -/
theorem Known.step {a : OneFlow.FlowAction} {r' : FlowRun} (known : Known cfg s id r)
    (taken : OneFlow.step cfg s r a = some r') (regular : Regular cfg s id r a)
    (fits : Fits cfg s id r a) : Known cfg s id r' := by
  cases a with
  | mine fuel p h =>
    obtain ⟨t, stepped, rfl⟩ := Option.map_eq_some_iff.mp taken
    refine ⟨known.blank.step stepped, fun nf stored => ?_⟩
    exact teids_mine known.blank known.teids regular fits stepped stored
  | other action =>
    obtain ⟨t, stepped, rfl⟩ := Option.map_eq_some_iff.mp taken
    refine ⟨known.blank.step stepped, fun nf stored => ?_⟩
    exact (regular t stepped).rule (fun _ _ teids kept => teids.kept kept) known.teids stored

/-- **Tunnel identifiers.** In a run whose packets all fit, each side of the flow has the TEID of
a packet that its endpoint has sent, or none. -/
theorem teids_reached (before : Before id start)
    (reached : Reaches (OneFlow.step cfg s)
      (fun r a => Regular cfg s id r a ∧ Fits cfg s id r a) start r)
    (stored : r.thread.flowBuckets id.digest = some nf) : Teids cfg s id r.log nf := by
  suffices known : Known cfg s id r from known.teids nf stored
  refine reached.invariant ⟨?_, ?_⟩ fun r a r' known taken met => known.step taken met.1 met.2
  · rw [before.fresh]
    exact ⟨template_start _, rfl, rfl⟩
  · intro nf stored
    exact absurd (before.absent.symm.trans stored) (by simp)

/-! ## Flows that are captured from their first packet on -/

/-- Addresses that differ are compared byte by byte. -/
def Compared (p : Packet) (h : Headers) : Prop :=
  h.ip.src p ≠ h.ip.dst p → h.ip.addrCmp = memcmp (h.ip.src p) (h.ip.dst p)

theorem compared_of_dissect {fuel : Nat}
    (ended : (dissect s.extensions cfg.dlType p fuel).outcome = .ok h) : Compared p h := by
  obtain ⟨link, last, reached⟩ := reached_of_dissect ended
  obtain ⟨l2Len, kept, -, -, same⟩ := processIp_last reached.headers
  simp only at same
  unfold Compared
  rw [same]
  intro differ
  refine (addrCmpAt_eq s.extensions p l2Len kept).trans (if_neg fun equal => ?_)
  exact differ ((memcmp_addrs _ _).mp equal.1)

/-- Between two hosts the comparison of the addresses tells the way of a packet. -/
theorem addrCmp_of_mapped (keyed : Keyed p h t.flow) (consistent : Consistent p h)
    (compared : Compared p h) (mapped : Mapped id t) (distinct : id.lower.1 ≠ id.upper.1) :
    h.ip.addrCmp =
      if Upwards p h then memcmp id.lower.1 id.upper.1 else -memcmp id.lower.1 id.upper.1 := by
  obtain ⟨lower, upper⟩ := endpoints_ordered consistent
  rw [← mapped.lower, ← mapped.upper, keyed.lower, keyed.upper, lower, upper] at distinct ⊢
  by_cases up : Upwards p h
  · simp only [if_pos up] at distinct ⊢
    exact compared distinct
  · simp only [if_neg up] at distinct ⊢
    rw [← memcmp_swap]
    exact compared distinct.symm

/-- The origin of a flow is the side that its first packet came from. -/
structure Oriented (id : Identity) (nf : Flow) : Prop where
  lower : nf.origin = .lower → nf.direction = memcmp id.lower.1 id.upper.1
  upper : nf.origin = .upper → nf.direction = -memcmp id.lower.1 id.upper.1

theorem Oriented.kept (oriented : Oriented id nf) (kept : Kept nf nf') : Oriented id nf' := by
  constructor
  · rw [kept.origin, kept.direction]
    exact oriented.lower
  · rw [kept.origin, kept.direction]
    exact oriented.upper

/-- A packet in the other direction then goes against the origin. -/
theorem Oriented.answers (oriented : Oriented id nf)
    (way : h.ip.addrCmp =
      if Upwards p h then memcmp id.lower.1 id.upper.1 else -memcmp id.lower.1 id.upper.1)
    (turned : nf.direction ≠ h.ip.addrCmp) : Answers nf p h := by
  constructor
  · intro origin up
    rw [if_pos up] at way
    exact turned ((oriented.lower origin).trans way.symm)
  · intro origin
    by_contra down
    rw [if_neg down] at way
    exact turned ((oriented.upper origin).trans way.symm)

theorem known_oriented (oriented : Oriented id nf) : Oriented id (CaptureThread.known p h nf) := by
  have same : (CaptureThread.known p h nf).origin = nf.origin ∧
      (CaptureThread.known p h nf).direction = nf.direction := by
    unfold CaptureThread.known
    repeat' split
    all_goals exact ⟨rfl, rfl⟩
  exact ⟨fun origin => same.2.trans (oriented.lower (same.1.symm.trans origin)),
    fun origin => same.2.trans (oriented.upper (same.1.symm.trans origin))⟩

/-- A first packet that looks like one of the side that has opened the connection. -/
theorem fresh_oriented (keyed : Keyed p h t.flow) (leads : Leads p h)
    (way : h.ip.addrCmp =
      if Upwards p h then memcmp id.lower.1 id.upper.1 else -memcmp id.lower.1 id.upper.1) :
    Oriented id (CaptureThread.fresh p h t) := by
  obtain ⟨direction, tsFirstSeen, named⟩ := (fresh_stored (p := p) (h := h) t).origin
  have towards : (CaptureThread.fresh p h t).direction = h.ip.addrCmp := by
    unfold CaptureThread.fresh
    dsimp only
    split
    · unfold CaptureThread.setTeid
      split <;> rfl
    · rfl
  have guess : CaptureThread.origin p h { t.flow.copy with direction, tsFirstSeen } = .lower ↔
      Upwards p h :=
    (origin_iff_leads ⟨keyed.ipProtocol, keyed.lower, keyed.upper⟩).mpr leads
  rw [← named] at guess
  constructor
  · intro origin
    rw [towards, way, if_pos (guess.mp origin)]
  · intro origin
    have down : ¬ Upwards p h := fun up => by
      rw [guess.mpr up] at origin
      cases origin
    rw [towards, way, if_neg down]

/-- The TEIDs are read from the tunnels of the packets, and the first packet looks like one of
the side that has opened the connection. -/
def Opened (cfg : CaptureConfig) (s : CaptureServices) (id : Identity) (r : FlowRun) :
    OneFlow.FlowAction → Prop
  | .mine _ p h =>
    (∀ hdr, Carried cfg s p h hdr →
      CaptureThread.teid p (readAt s p h hdr) = CaptureThread.teid p hdr) ∧
      (r.thread.flowBuckets id.digest = none → Leads p h)
  | .other _ => True

/-- A packet of such a flow fits, and keeps the origin. -/
theorem fits_mine {fuel : Nat} (distinct : id.lower.1 ≠ id.upper.1)
    (blank : Blank cfg.dlType r.thread.flow)
    (oriented : ∀ nf, r.thread.flowBuckets id.digest = some nf → Oriented id nf)
    (regular : Regular cfg s id r (.mine fuel p h)) (opened : Opened cfg s id r (.mine fuel p h))
    (taken : CaptureThread.step cfg s r.thread (.packet fuel p) = some t) :
    Fits cfg s id r (.mine fuel p h) ∧
      ∀ nf', t.flowBuckets id.digest = some nf' → Oriented id nf' := by
  obtain ⟨ended, -, mapped⟩ := regular
  obtain ⟨own, leads⟩ := opened
  obtain ⟨keyed, consistent⟩ := keyed_of_step blank ended taken
  have way := addrCmp_of_mapped keyed consistent (compared_of_dissect ended) (mapped t taken)
    distinct
  constructor
  · intro hdr carried
    refine .inr ?_
    cases found : r.thread.flowBuckets id.digest with
    | none => exact ⟨own hdr carried, .inl (leads found)⟩
    | some nf => exact fun turned _ =>
        ⟨own hdr carried, .inl ((oriented nf found).answers way turned)⟩
  · intro nf' stored
    rcases mine_cases ended taken (mapped t taken) stored with
      ⟨nf, found, kept⟩ | ⟨absent, before, flow, kept⟩
    · exact (known_oriented (oriented nf found)).kept kept
    · refine (fresh_oriented ?_ (leads absent) way).kept kept
      rw [flow]
      exact keyed

/-- **Captured from the beginning.** Between two hosts only the first packet counts. -/
theorem fits_of_opened (distinct : id.lower.1 ≠ id.upper.1) (before : Before id start)
    (reached : Reaches (OneFlow.step cfg s)
      (fun r a => Regular cfg s id r a ∧ Opened cfg s id r a) start r) :
    Reaches (OneFlow.step cfg s) (fun r a => Regular cfg s id r a ∧ Fits cfg s id r a) start r := by
  suffices all : Blank cfg.dlType r.thread.flow ∧
      (∀ nf, r.thread.flowBuckets id.digest = some nf → Oriented id nf) ∧
      Reaches (OneFlow.step cfg s) (fun r a => Regular cfg s id r a ∧ Fits cfg s id r a) start r
    from all.2.2
  refine reached.invariant (I := fun r => Blank cfg.dlType r.thread.flow ∧
    (∀ nf, r.thread.flowBuckets id.digest = some nf → Oriented id nf) ∧
    Reaches (OneFlow.step cfg s) (fun r a => Regular cfg s id r a ∧ Fits cfg s id r a) start r)
    ?_ ?_
  · refine ⟨?_, fun nf stored => ?_, .start⟩
    · rw [before.fresh]
      exact ⟨template_start _, rfl, rfl⟩
    · exact absurd (before.absent.symm.trans stored) (by simp)
  · rintro r a r' ⟨blank, oriented, reached⟩ taken ⟨regular, opened⟩
    have next := taken
    cases a with
    | mine fuel p h =>
      obtain ⟨t, stepped, rfl⟩ := Option.map_eq_some_iff.mp taken
      obtain ⟨fits, after⟩ := fits_mine distinct blank oriented regular opened stepped
      exact ⟨blank.step stepped, after, .next reached next ⟨regular, fits⟩⟩
    | other action =>
      obtain ⟨t, stepped, rfl⟩ := Option.map_eq_some_iff.mp taken
      refine ⟨blank.step stepped, fun nf stored => ?_, .next reached next ⟨regular, trivial⟩⟩
      exact (regular t stepped).rule (fun _ _ holds kept => holds.kept kept) oriented stored

theorem readAt_untunnelled (plain : ¬ Tunnelled s p h) (hdr : Nat) : readAt s p h hdr = hdr :=
  if_neg plain

/-- A step that was executed. -/
theorem regular_of_taken {fuel : Nat} {r' : FlowRun}
    (taken : OneFlow.step cfg s r (.mine fuel p h) = some r')
    (ended : (dissect s.extensions cfg.dlType p fuel).outcome = .ok h)
    (carried : Carried cfg s p h hdr) (mapped : Mapped id r'.thread) :
    Regular cfg s id r (.mine fuel p h) := by
  obtain ⟨t, stepped, rfl⟩ := Option.map_eq_some_iff.mp taken
  refine ⟨ended, ⟨hdr, carried⟩, fun t' stepped' => ?_⟩
  cases stepped.symm.trans stepped'
  exact mapped

end

/-! ## A request and its reply -/

/-- A UDP packet between two hosts in a tunnel from one gateway to another. -/
def tunnelFrame (teid src dst : UInt8) (sport dport : Nat) : Packet :=
  Frames.udpFrame 1 2 2152 2152 ([0x30, 0xff, 0, 28, 0, 0, 0, teid] ++
    Frames.ipv4 17 (Frames.host src) (Frames.host dst) (Frames.udp sport dport []))

/-- The request of the upper host, from port 4000 to port 80. -/
def request : Packet := tunnelFrame 1 4 3 4000 80

def reply : Packet := tunnelFrame 2 3 4 80 4000

def tunnelHeaders (addrCmp : Int) : Headers :=
  ⟨⟨50, 4, 17, 20, 70, 8, 0, addrCmp⟩, some 42, some (78, 0)⟩

/-- Behind an Ethernet and an IP header. -/
theorem carried_tunnelHeaders {p : Packet} {addrCmp : Int}
    (reached : Reached Frames.services.extensions .en10mb p 3 ⟨0x0800, 14, false⟩
      ⟨0x0800, 14, false⟩ (tunnelHeaders addrCmp))
    (pdu : GPdu Frames.services.extensions p 14 42) (inside : gtpInner p 42 = 50) :
    Carried (Frames.eth0 .en10mb) Frames.services p (tunnelHeaders addrCmp) 42 := by
  refine ⟨3, _, _, reached, ?_⟩
  rw [show (tunnelHeaders addrCmp).ip.l2Len = gtpInner p 42 from inside.symm]
  exact .here pdu

theorem carried_request :
    Carried (Frames.eth0 .en10mb) Frames.services request (tunnelHeaders 1) 42 := by
  refine carried_tunnelHeaders ?_ ?_ (by decide +kernel)
  · exact ⟨by decide +kernel, by decide +kernel, by decide +kernel, by decide +kernel⟩
  · exact ⟨by decide +kernel, by decide +kernel, by decide +kernel, by decide +kernel,
      by decide +kernel⟩

theorem carried_reply :
    Carried (Frames.eth0 .en10mb) Frames.services reply (tunnelHeaders (-1)) 42 := by
  refine carried_tunnelHeaders ?_ ?_ (by decide +kernel)
  · exact ⟨by decide +kernel, by decide +kernel, by decide +kernel, by decide +kernel⟩
  · exact ⟨by decide +kernel, by decide +kernel, by decide +kernel, by decide +kernel,
      by decide +kernel⟩

/-- Takes a packet of the flow between the two hosts. -/
def take (r : FlowRun) (p : Packet) (addrCmp : Int) : Option FlowRun :=
  OneFlow.step (Frames.eth0 .en10mb) Frames.services r (.mine 3 p (tunnelHeaders addrCmp))

/-- What is seen of the flow behind a packet. -/
def Shows (r : FlowRun) (origin : Origin) (lowerTeid upperTeid : Nat) : Prop :=
  r.thread.flow.digestLower = [] ∧ r.thread.flow.lowerAddr.endpoint = (flowOf 3 4).lower ∧
    r.thread.flow.upperAddr.endpoint = (flowOf 3 4).upper ∧
    ∃ nf ∈ r.thread.flowBuckets [], nf.origin = origin ∧ nf.gtp.lowerTeid = lowerTeid ∧
      nf.gtp.upperTeid = upperTeid

instance (r : FlowRun) (origin : Origin) (lowerTeid upperTeid : Nat) :
    Decidable (Shows r origin lowerTeid upperTeid) :=
  inferInstanceAs (Decidable (_ ∧ _ ∧ _ ∧ _))

theorem Shows.mapped {r : FlowRun} {origin : Origin} {lowerTeid upperTeid : Nat}
    (shown : Shows r origin lowerTeid upperTeid) : Mapped (flowOf 3 4) r.thread := by
  obtain ⟨digest, lower, upper, nf, found, -⟩ := shown
  exact ⟨digest, lower, upper, nf, found⟩

/-- What a packet leads to, once it is executed. -/
theorem taken_of_shows {r : FlowRun} {p : Packet} {addrCmp : Int} {origin : Origin}
    {lowerTeid upperTeid : Nat}
    (executed : (take r p addrCmp).any (Shows · origin lowerTeid upperTeid) = true)
    (ended : (dissect Frames.services.extensions .en10mb p 3).outcome =
      .ok (tunnelHeaders addrCmp))
    (carried : Carried (Frames.eth0 .en10mb) Frames.services p (tunnelHeaders addrCmp) 42) :
    ∃ r', take r p addrCmp = some r' ∧ Shows r' origin lowerTeid upperTeid ∧
      Regular (Frames.eth0 .en10mb) Frames.services (flowOf 3 4) r
        (.mine 3 p (tunnelHeaders addrCmp)) := by
  obtain ⟨r', taken, shown⟩ := (Option.any_eq_true _ _).mp executed
  have shown := of_decide_eq_true shown
  exact ⟨r', taken, shown, regular_of_taken taken ended carried shown.mapped⟩

theorem log_of_take {r r' : FlowRun} {p : Packet} {addrCmp : Int}
    (taken : take r p addrCmp = some r') :
    r'.log = r.log ++ [⟨p, tunnelHeaders addrCmp, r.thread, r'.thread⟩] := by
  unfold take OneFlow.step at taken
  obtain ⟨t, -, rfl⟩ := Option.map_eq_some_iff.mp taken
  rfl

/-- The TEID of a request is stored for the host that has sent it. -/
theorem request_attributed : ∃ r nf, Reaches (OneFlow.step (Frames.eth0 .en10mb) Frames.services)
      (fun r a => Regular (Frames.eth0 .en10mb) Frames.services (flowOf 3 4) r a ∧
        Fits (Frames.eth0 .en10mb) Frames.services (flowOf 3 4) r a) {} r ∧
    r.thread.flowBuckets [] = some nf ∧ nf.gtp.upperTeid = 0x01000000 ∧
    Teids (Frames.eth0 .en10mb) Frames.services (flowOf 3 4) r.log nf := by
  have executed : (take {} request 1).any (Shows · .upper 0 0x01000000) = true := by
    decide +kernel
  obtain ⟨r, taken, shown, regular⟩ := taken_of_shows executed (by decide +kernel) carried_request
  obtain ⟨-, -, -, nf, stored, -, -, upper⟩ := shown
  have fits : Fits (Frames.eth0 .en10mb) Frames.services (flowOf 3 4) {}
      (.mine 3 request (tunnelHeaders 1)) := by
    intro hdr _
    refine .inr ⟨?_, .inl (by decide +kernel)⟩
    rw [readAt_untunnelled (by decide +kernel) hdr]
  have reached : Reaches (OneFlow.step (Frames.eth0 .en10mb) Frames.services)
      (fun r a => Regular (Frames.eth0 .en10mb) Frames.services (flowOf 3 4) r a ∧
        Fits (Frames.eth0 .en10mb) Frames.services (flowOf 3 4) r a) {} r :=
    .next .start taken ⟨regular, fits⟩
  exact ⟨r, nf, reached, stored, upper, teids_reached ⟨rfl, rfl, rfl⟩ reached stored⟩

theorem reply_sender : sender reply (tunnelHeaders (-1)) = (flowOf 3 4).lower := by
  decide +kernel

/-- The reply to a request that was not captured is taken for the request: its TEID is stored for
the other side. -/
theorem reply_misattributed : ∃ r nf, Reaches (OneFlow.step (Frames.eth0 .en10mb) Frames.services)
      (Regular (Frames.eth0 .en10mb) Frames.services (flowOf 3 4)) {} r ∧
    r.thread.flowBuckets [] = some nf ∧ nf.gtp.upperTeid = 0x02000000 ∧
    (∀ x ∈ r.log, sender x.packet x.headers = (flowOf 3 4).lower) ∧
    ¬ Teids (Frames.eth0 .en10mb) Frames.services (flowOf 3 4) r.log nf := by
  have executed : (take {} reply (-1)).any (Shows · .upper 0 0x02000000) = true := by
    decide +kernel
  obtain ⟨r, taken, shown, regular⟩ :=
    taken_of_shows executed (by decide +kernel) carried_reply
  obtain ⟨-, -, -, nf, stored, -, -, upper⟩ := shown
  have alone : ∀ x ∈ r.log, sender x.packet x.headers = (flowOf 3 4).lower := by
    intro x member
    rw [log_of_take taken] at member
    rw [List.mem_singleton.mp member]
    exact reply_sender
  refine ⟨r, nf, .next .start taken regular, stored, upper, alone, fun law => ?_⟩
  rcases law.upper with zero | ⟨x, member, sent, -⟩
  · rw [upper] at zero
    cases zero
  · have both := (alone x member).symm.trans sent
    revert both
    decide

end NetifyAgent.TunnelIds
