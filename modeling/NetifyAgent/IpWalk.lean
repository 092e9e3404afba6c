import NetifyAgent.IpLayer
import NetifyAgent.LinkWalk

/-! The IP headers of a packet, from the one behind the link layer through every
GTP tunnel to the one that carries the flow. Which headers pass the checks and
what they say does not depend on the headers before them, except for the order
of equal IPv6 addresses; a walk over them is well-founded and carries a
condition on every header it visits. -/
namespace NetifyAgent
open NetifyAgent.Bytes NetifyAgent.Dissection

/-! ## One header -/

/-- The walk over the extension headers behind an IPv6 header. -/
def walkedAt (W : ExtensionWalker) (p : Packet) (l2Len : Nat) : Walked :=
  W.walk p.data 40 (l2Len + 40) (be16 p.data (l2Len + 4)) (p.data (l2Len + 6))

/-- What a header says about the transport header behind it. -/
structure Segment where
  l3Len : Nat
  protocol : UInt8
  l4 : Nat
  l4Len : Nat
  deriving DecidableEq, Repr

def segment (W : ExtensionWalker) (p : Packet) (l2Len : Nat) : Segment :=
  if ipV p l2Len = 4 then
    { l3Len := ipHl p l2Len
      protocol := p.data (l2Len + 9)
      l4 := l2Len + ipHl p l2Len
      l4Len := ip4L4Len p l2Len }
  else
    { l3Len := 40
      protocol := (walkedAt W p l2Len).nextHeader
      l4 := l2Len + 40 + (walkedAt W p l2Len).skipped
      l4Len := be16 p.data (l2Len + 4) - (walkedAt W p l2Len).skipped }

/-- An IPv4 header that passes the checks of its branch. -/
def Accepted4 (p : Packet) (l2Len : Nat) : Prop :=
  ipV p l2Len = 4 ∧ l2Len + 20 ≤ p.cap ∧ be16 p.data (l2Len + 6) % 0x4000 = 0 ∧
    l2Len + ipHl p l2Len ≤ p.cap

/-- An IPv6 header that passes the checks of its branch. -/
def Accepted6 (W : ExtensionWalker) (p : Packet) (l2Len : Nat) : Prop :=
  ipV p l2Len = 6 ∧ (walkedAt W p l2Len).failed = false

/-- An IP header that passes the checks. -/
def Accepted (W : ExtensionWalker) (p : Packet) (l2Len : Nat) : Prop :=
  (Accepted4 p l2Len ∨ Accepted6 W p l2Len) ∧
    l2Len + (segment W p l2Len).l3Len + (segment W p l2Len).l4Len ≤ p.cap

instance (W : ExtensionWalker) (p : Packet) (l2Len : Nat) : Decidable (Accepted W p l2Len) := by
  unfold Accepted Accepted4 Accepted6
  infer_instance

/-- The comparison of the addresses; equal IPv6 addresses keep the last one. -/
def addrCmpAt (p : Packet) (l2Len : Nat) (kept : Int) : Int :=
  if ipV p l2Len = 4 then memcmp (slice p.data (l2Len + 12) 4) (slice p.data (l2Len + 16) 4)
  else if memcmp (slice p.data (l2Len + 8) 16) (slice p.data (l2Len + 24) 16) ≠ 0 then
    compareWords p.data (l2Len + 8) (l2Len + 24) 4
  else kept

def headerAt (W : ExtensionWalker) (p : Packet) (l2Len : Nat) (kept : Locals) : IpHeader where
  l2Len := l2Len
  ipVersion := ipV p l2Len
  ipProtocol := (segment W p l2Len).protocol
  l3Len := (segment W p l2Len).l3Len
  l4 := (segment W p l2Len).l4
  l4Len := (segment W p l2Len).l4Len
  fragOff := if ipV p l2Len = 4 then ip4FragOff p l2Len kept.fragOff else kept.fragOff
  addrCmp := addrCmpAt p l2Len kept.addrCmp

/-- What dissection does at an IPv4 header that it accepts. -/
def ip4Ops (dl : Datalink) (p : Packet) (l2Len : Nat) (addrCmp : Int) : List Op :=
  [.read (l2Len + 2) 2, .read (l2Len + 9) 1, .set (.ipProtocol (p.data (l2Len + 9))),
    .read (l2Len + 6) 2, .read (l2Len + 12) 4, .read (l2Len + 16) 4] ++
    assignAddrs .createIn dl p addrCmp (slice p.data (l2Len + 12) 4) (slice p.data (l2Len + 16) 4)

/-- What dissection does at an IPv6 header that it accepts. -/
def ip6Ops (W : ExtensionWalker) (dl : Datalink) (p : Packet) (l2Len : Nat) (addrCmp : Int) :
    List Op :=
  [.read (l2Len + 4) 2, .read (l2Len + 6) 1, .set (.ipProtocol (p.data (l2Len + 6)))] ++
    (walkedAt W p l2Len).reads.map (fun r => .read (l2Len + 40 + r) 1) ++
    [.set (.ipProtocol (walkedAt W p l2Len).nextHeader), .read (l2Len + 8) 16,
      .read (l2Len + 24) 16] ++
    assignAddrs .createIn6 dl p addrCmp (slice p.data (l2Len + 8) 16) (slice p.data (l2Len + 24) 16)

def headerOps (W : ExtensionWalker) (dl : Datalink) (p : Packet) (l2Len : Nat) (addrCmp : Int) :
    List Op :=
  [.read l2Len 1, .set (.ipVersion (ipV p l2Len))] ++
    if ipV p l2Len = 4 then ip4Ops dl p l2Len addrCmp else ip6Ops W dl p l2Len addrCmp

section
variable {W : ExtensionWalker} {dl : Datalink} {p : Packet} {l2Len : Nat} {kept : Locals}

theorem ip4Header_accepted (accepted : Accepted4 p l2Len) :
    ip4Header dl p l2Len kept =
      ⟨.ok (headerAt W p l2Len kept), ip4Ops dl p l2Len (addrCmpAt p l2Len kept.addrCmp)⟩ := by
  obtain ⟨four, long, whole, room⟩ := accepted
  have captured : l2Len ≤ p.cap := by omega
  have frag : ip4FragOff p l2Len kept.fragOff = be16 p.data (l2Len + 6) := if_pos captured
  have fixed : ¬ ((p.cap : Int) - l2Len) % 4294967296 < 20 := by
    have := p.cap_lt
    omega
  have inner : ¬ (p.cap : Int) - l2Len < (ipHl p l2Len : Nat) := by omega
  have first : be16 p.data (l2Len + 6) % 0x2000 = 0 := by omega
  unfold ip4Header
  simp only [emits_bind, readIf_bind, rejectIf_bind, captured, frag, if_true, fixed, if_false,
    whole, ne_eq, not_true_eq_false, first, inner]
  simp [ip4Ops, headerAt, segment, addrCmpAt, four, frag]

theorem ip4Header_refused (four : ipV p l2Len = 4) (refused : ¬ Accepted4 p l2Len) :
    (ip4Header dl p l2Len kept).outcome = .left := by
  unfold ip4Header
  simp only [emits_bind, readIf_bind, rejectIf_bind, emit_bind]
  split
  · rfl
  rename_i fixed
  split
  · rfl
  rename_i whole
  split
  · rfl
  split
  · rfl
  rename_i room
  have captured : l2Len ≤ p.cap := by omega
  rw [ip4FragOff, if_pos captured] at whole
  have := p.cap_lt
  exact absurd ⟨four, by omega, by omega, by omega⟩ refused

theorem ip6Header_accepted (accepted : Accepted6 W p l2Len) :
    ip6Header W dl p l2Len kept =
      ⟨.ok (headerAt W p l2Len kept), ip6Ops W dl p l2Len (addrCmpAt p l2Len kept.addrCmp)⟩ := by
  obtain ⟨six, whole⟩ := accepted
  have walked : (W.walk p.data 40 (l2Len + 40) (be16 p.data (l2Len + 4))
      (p.data (l2Len + 6))).failed = false := whole
  unfold ip6Header
  simp only [emits_bind, rejectIf_bind, walked, Bool.false_eq_true, if_false]
  simp [ip6Ops, headerAt, segment, addrCmpAt, walkedAt, six]

theorem ip6Header_refused (six : ipV p l2Len = 6) (refused : ¬ Accepted6 W p l2Len) :
    (ip6Header W dl p l2Len kept).outcome = .left := by
  unfold ip6Header
  simp only [emits_bind, rejectIf_bind]
  split
  · rfl
  · rename_i whole
    exact absurd ⟨six, Bool.eq_false_iff.mpr whole⟩ refused

/-- **An accepted header is decoded.** -/
theorem ipHeader_accepted (accepted : Accepted W p l2Len) :
    ipHeader W dl p l2Len kept =
      ⟨.ok (headerAt W p l2Len kept), (if p.cap < l2Len + 20 then [.discard] else []) ++
        headerOps W dl p l2Len (addrCmpAt p l2Len kept.addrCmp)⟩ := by
  obtain ⟨branch, room⟩ := accepted
  have fits : ¬ p.cap < l2Len + (headerAt W p l2Len kept).l3Len +
      (headerAt W p l2Len kept).l4Len := by
    simp only [headerAt]
    omega
  unfold ipHeader ipVersionHeader headerOps
  rcases branch with four | six
  · simp only [four.1, if_true, ip4Header_accepted (W := W) four, discardIf_bind, emits_bind]
    rw [bind_of_ok _ rfl]
    simp only [rejectIf_bind, if_neg fits]
    simp
  · have not4 : ipV p l2Len ≠ 4 := by
      rw [six.1]
      decide
    simp only [six.1, if_true, ip6Header_accepted six, discardIf_bind, emits_bind]
    rw [if_neg (by decide), bind_of_ok _ rfl]
    simp only [rejectIf_bind, if_neg fits]
    simp

/-- **Every other header is refused.** -/
theorem ipHeader_refused (refused : ¬ Accepted W p l2Len) :
    (ipHeader W dl p l2Len kept).outcome = .left := by
  unfold ipHeader ipVersionHeader
  simp only [discardIf_bind, emits_bind]
  by_cases branch : Accepted4 p l2Len ∨ Accepted6 W p l2Len
  · have long : p.cap < l2Len + (headerAt W p l2Len kept).l3Len +
        (headerAt W p l2Len kept).l4Len := by
      have := (not_and.mp refused) branch
      simp only [headerAt]
      omega
    rcases branch with four | six
    · simp only [four.1, if_true, ip4Header_accepted (W := W) four]
      rw [bind_of_ok _ rfl]
      simp only [rejectIf_bind, if_pos long, reject_outcome]
    · simp only [six.1, if_true, ip6Header_accepted six]
      rw [if_neg (by decide), bind_of_ok _ rfl]
      simp only [rejectIf_bind, if_pos long, reject_outcome]
  · obtain ⟨not4, not6⟩ := not_or.mp branch
    split
    · rename_i four
      rw [bind_of_left _ (ip4Header_refused four not4)]
    · split
      · rename_i six
        rw [bind_of_left _ (ip6Header_refused six not6)]
      · rfl

end

/-! ## The tunnel behind a header -/

/-- A segment of the GTP-U port. -/
def tunnelled (p : Packet) (s : Segment) : Prop :=
  8 < s.l4Len ∧ s.protocol = 17 ∧
    (be16 p.data s.l4 = GTP_U_PORT ∨ be16 p.data (s.l4 + 2) = GTP_U_PORT)

instance (p : Packet) (s : Segment) : Decidable (tunnelled p s) := by
  unfold tunnelled
  infer_instance

/-- The `l2_len` of the header inside a tunnel packet that carries one. -/
def innerOf (p : Packet) (s : Segment) : Option Nat :=
  if tunnelled p s ∧ gtpVersion p (s.l4 + 8) = 1 ∧ (p.data (s.l4 + 9)).toNat = GTP_G_PDU then
    some (gtpInner p (s.l4 + 8))
  else none

/-- The header inside an accepted header. -/
def inner (W : ExtensionWalker) (p : Packet) (l2Len : Nat) : Option Nat :=
  if Accepted W p l2Len then innerOf p (segment W p l2Len) else none

def gtpOps (p : Packet) (s : Segment) : List Op :=
  if 8 < s.l4Len ∧ s.protocol = 17 then
    .read s.l4 2 :: (if be16 p.data s.l4 = GTP_U_PORT then [] else [.read (s.l4 + 2) 2]) ++
      if tunnelled p s then
        .read (s.l4 + 8) 1 :: if gtpVersion p (s.l4 + 8) = 1 then
          [.set (.enterGtp 1), .read (s.l4 + 9) 1] else []
      else []
  else []

def gtpv1After (p : Packet) (s : Segment) (gtpv1 : Option Nat) : Option Nat :=
  if tunnelled p s then some (s.l4 + 8) else gtpv1

theorem gtp_eq {p : Packet} {ip : IpHeader} {s : Segment} (l4 : ip.l4 = s.l4)
    (l4Len : ip.l4Len = s.l4Len) (protocol : ip.ipProtocol = s.protocol) (gtpv1 : Option Nat) :
    gtp p ip gtpv1 = ⟨.ok (gtpv1After p s gtpv1, innerOf p s), gtpOps p s⟩ := by
  unfold gtp gtpOps innerOf gtpv1After
  rw [l4, l4Len, protocol]
  have read : (if be16 p.data s.l4 ≠ GTP_U_PORT then [Op.read (s.l4 + 2) 2] else []) =
      if be16 p.data s.l4 = GTP_U_PORT then [] else [.read (s.l4 + 2) 2] := by
    split <;> simp_all
  by_cases udp : 8 < s.l4Len ∧ s.protocol = 17
  · by_cases port : be16 p.data s.l4 = GTP_U_PORT ∨ be16 p.data (s.l4 + 2) = GTP_U_PORT
    · have tunnel : tunnelled p s := ⟨udp.1, udp.2, port⟩
      simp only [if_pos udp, if_pos port, tunnel, true_and, if_true, emit_bind, readIf_bind, read]
      by_cases version : gtpVersion p (s.l4 + 8) = 1
      · simp only [version, if_true, true_and, emits_bind]
        split <;> simp
      · simp [version]
    · have plain : ¬ tunnelled p s := fun tunnel => port tunnel.2.2
      simp only [if_pos udp, if_neg port, plain, false_and, if_false, emit_bind, readIf_bind, read]
      simp
  · have plain : ¬ tunnelled p s := fun tunnel => udp ⟨tunnel.1, tunnel.2.1⟩
    simp only [if_neg udp, plain, false_and, if_false]
    rfl

/-! ## From header to header -/

/-- The headers from `l2_len` on. -/
inductive HeaderWalk (W : ExtensionWalker) (p : Packet) (good : Nat → Prop) : Nat → Prop where
  | last {l2Len : Nat} : good l2Len → inner W p l2Len = none → HeaderWalk W p good l2Len
  | tunnel {l2Len next : Nat} : good l2Len → inner W p l2Len = some next →
      HeaderWalk W p good next → HeaderWalk W p good l2Len

section
variable {W : ExtensionWalker} {dl : Datalink} {p : Packet} {l2Len : Nat} {kept : Locals}
  {good good' : Nat → Prop}

theorem HeaderWalk.mono (weaker : ∀ l2Len, good l2Len → good' l2Len)
    (walk : HeaderWalk W p good l2Len) : HeaderWalk W p good' l2Len := by
  induction walk with
  | last holds ends => exact .last (weaker _ holds) ends
  | tunnel holds next _ ih => exact .tunnel (weaker _ holds) next ih

theorem HeaderWalk.first (walk : HeaderWalk W p good l2Len) : good l2Len := by
  cases walk with
  | last holds _ => exact holds
  | tunnel holds _ _ => exact holds

theorem headerWalk_last (ends : inner W p l2Len = none) :
    HeaderWalk W p good l2Len ↔ good l2Len := by
  constructor
  · intro walk
    cases walk with
    | last holds _ => exact holds
    | tunnel holds next _ => rw [ends] at next; cases next
  · intro holds
    exact .last holds ends

theorem headerWalk_tunnel {next : Nat} (continues : inner W p l2Len = some next) :
    HeaderWalk W p good l2Len ↔ good l2Len ∧ HeaderWalk W p good next := by
  constructor
  · intro walk
    cases walk with
    | last _ ends => rw [continues] at ends; cases ends
    | tunnel holds other walk =>
      rw [continues] at other
      cases other
      exact ⟨holds, walk⟩
  · rintro ⟨holds, walk⟩
    exact .tunnel holds continues walk

/-- The local variables behind an accepted header. -/
def keptAfter (W : ExtensionWalker) (p : Packet) (l2Len : Nat) (kept : Locals) : Locals where
  fragOff := (headerAt W p l2Len kept).fragOff
  addrCmp := addrCmpAt p l2Len kept.addrCmp
  gtpv1 := gtpv1After p (segment W p l2Len) kept.gtpv1

/-- Everything dissection does at an accepted header. -/
def visitOps (W : ExtensionWalker) (dl : Datalink) (p : Packet) (l2Len : Nat) (addrCmp : Int) :
    List Op :=
  (if p.cap < l2Len + 20 then [.discard] else []) ++ headerOps W dl p l2Len addrCmp ++
    gtpOps p (segment W p l2Len)

theorem processIp_refused (refused : ¬ Accepted W p l2Len) (fuel : Nat) :
    processIp W dl p (fuel + 1) l2Len kept = ⟨.left, (ipHeader W dl p l2Len kept).log⟩ := by
  unfold processIp
  rw [bind_of_left _ (ipHeader_refused refused)]

/-- One round over an accepted header. -/
theorem processIp_accepted (accepted : Accepted W p l2Len) (fuel : Nat) :
    processIp W dl p (fuel + 1) l2Len kept =
      emits (visitOps W dl p l2Len (addrCmpAt p l2Len kept.addrCmp)) >>= fun _ =>
        match inner W p l2Len with
        | some next => processIp W dl p fuel next (keptAfter W p l2Len kept)
        | none => pure (headerAt W p l2Len kept, (keptAfter W p l2Len kept).gtpv1) := by
  conv_lhs => unfold processIp
  rw [bind_of_ok _ (show (ipHeader W dl p l2Len kept).outcome = .ok _ by
    rw [ipHeader_accepted accepted])]
  rw [ipHeader_accepted accepted, gtp_eq (s := segment W p l2Len) rfl rfl rfl, bind_of_ok _ rfl,
    emits_bind, inner, if_pos accepted]
  simp only [visitOps, List.append_assoc]
  cases innerOf p (segment W p l2Len) <;> rfl

/-- Dissection ends at an accepted header without a tunnel. -/
theorem processIp_last {fuel : Nat} {ip : IpHeader × Option Nat}
    (ended : (processIp W dl p fuel l2Len kept).outcome = .ok ip) :
    ∃ last kept, Accepted W p last ∧ inner W p last = none ∧ ip.1 = headerAt W p last kept := by
  induction fuel generalizing l2Len kept with
  | zero => cases ended
  | succ fuel ih =>
    by_cases accepted : Accepted W p l2Len
    · rw [processIp_accepted accepted] at ended
      cases continues : inner W p l2Len with
      | none =>
        rw [continues] at ended
        cases ended
        exact ⟨l2Len, kept, accepted, continues, rfl⟩
      | some next =>
        simp only [continues, emits_bind] at ended
        exact ih ended
    · rw [processIp_refused accepted] at ended
      cases ended

theorem processIp_stable (l2Len : Nat) (kept : Locals) :
    Stable fun fuel => processIp W dl p fuel l2Len kept := by
  refine stable_of_step fun fuel ended => ?_
  induction fuel generalizing l2Len kept with
  | zero => exact absurd rfl ended
  | succ fuel ih =>
    by_cases accepted : Accepted W p l2Len
    · rw [processIp_accepted accepted fuel] at ended ⊢
      rw [processIp_accepted accepted (fuel + 1)]
      cases continues : inner W p l2Len with
      | none => rfl
      | some next =>
        simp only [continues, emits_bind] at ended ⊢
        rw [ih _ _ ended]
    · rw [processIp_refused accepted, processIp_refused accepted]

/-- With enough fuel the headers of a walk are all visited. -/
theorem processIp_complete (walk : HeaderWalk W p good l2Len) (kept : Locals) :
    ∃ fuel, (processIp W dl p fuel l2Len kept).outcome ≠ .spun := by
  induction walk generalizing kept with
  | @last l2Len _ ends =>
    refine ⟨1, ?_⟩
    by_cases accepted : Accepted W p l2Len
    · rw [processIp_accepted accepted, ends]
      exact nofun
    · rw [processIp_refused accepted]
      exact nofun
  | @tunnel l2Len next _ continues _ ih =>
    obtain ⟨fuel, ended⟩ := ih (keptAfter W p l2Len kept)
    refine ⟨fuel + 1, ?_⟩
    by_cases accepted : Accepted W p l2Len
    · rw [processIp_accepted accepted, continues]
      exact ended
    · rw [processIp_refused accepted]
      exact nofun

/-- **A finished dissection has walked over the headers.** Everything it did has
a property exactly when the walk has it at every header, if that is so of each
header by itself. -/
theorem processIp_adequate {P : Op → Prop} {fuel : Nat}
    (visited : ∀ l2Len addrCmp, Accepted W p l2Len →
      ((∀ w ∈ visitOps W dl p l2Len addrCmp, P w) ↔ good l2Len))
    (refused : (processIp W dl p fuel l2Len kept).outcome = .left → ∀ l2Len kept,
      ¬ Accepted W p l2Len → (Every P (ipHeader W dl p l2Len kept) ↔ good l2Len))
    (ended : (processIp W dl p fuel l2Len kept).outcome ≠ .spun) :
    Every P (processIp W dl p fuel l2Len kept) ↔ HeaderWalk W p good l2Len := by
  induction fuel generalizing l2Len kept with
  | zero => exact absurd rfl ended
  | succ fuel ih =>
    by_cases accepted : Accepted W p l2Len
    · rw [processIp_accepted accepted] at ended refused ⊢
      cases continues : inner W p l2Len with
      | none =>
        simp only [emits_bind, pure_log, List.append_nil, pure_outcome, Every]
        rw [headerWalk_last continues]
        exact visited _ _ accepted
      | some next =>
        simp only [continues, emits_bind] at ended refused ⊢
        rw [headerWalk_tunnel continues, ← visited l2Len (addrCmpAt p l2Len kept.addrCmp) accepted,
          ← ih refused ended]
        simp only [Every, List.mem_append, or_imp, forall_and]
    · have ends : inner W p l2Len = none := if_neg accepted
      rw [processIp_refused accepted] at refused ⊢
      rw [headerWalk_last ends, ← refused rfl l2Len kept accepted]
      rfl

/-! ## The transport header -/

/-- What a transport header that passes the checks says. -/
structure TransportAt (p : Packet) (ip : IpHeader) (payload : Option (Nat × Nat)) : Prop where
  tcp : ip.ipProtocol = IPPROTO_TCP → 20 ≤ thOff p ip.l4 ∧ thOff p ip.l4 ≤ ip.l4Len ∧
    payload = some (ip.l4 + thOff p ip.l4, ip.l4Len - thOff p ip.l4)
  udp : ip.ipProtocol = IPPROTO_UDP → 8 ≤ ip.l4Len ∧ be16 p.data (ip.l4 + 4) = ip.l4Len ∧
    payload = some (ip.l4 + 8, ip.l4Len - 8)
  other : ip.ipProtocol ≠ IPPROTO_TCP → ip.ipProtocol ≠ IPPROTO_UDP → payload = none

/-- What dissection does at a transport header that passes the checks. -/
def transportOps (p : Packet) (ip : IpHeader) : List Op :=
  if ip.ipProtocol = IPPROTO_TCP then
    [.count .tcp, .read (ip.l4 + 12) 1] ++ assignPorts p ip
  else if ip.ipProtocol = IPPROTO_UDP then
    .count .udp :: assignPorts p ip ++ [.read (ip.l4 + 4) 2]
  else if ip.ipProtocol = IPPROTO_ICMP ∨ ip.ipProtocol = IPPROTO_ICMPV6 then [.count .icmp]
  else if ip.ipProtocol = IPPROTO_IGMP then [.count .igmp]
  else []

theorem tcpHeader_ok {ip : IpHeader} {payload : Option (Nat × Nat)}
    (ended : (tcpHeader p ip).outcome = .ok payload) :
    20 ≤ thOff p ip.l4 ∧ thOff p ip.l4 ≤ ip.l4Len ∧
      payload = some (ip.l4 + thOff p ip.l4, ip.l4Len - thOff p ip.l4) ∧
      (tcpHeader p ip).log = [.count .tcp, .read (ip.l4 + 12) 1] ++ assignPorts p ip := by
  unfold tcpHeader at ended ⊢
  simp only [emit_bind, emits_bind, rejectIf_bind] at ended ⊢
  split at ended
  · cases ended
  rename_i long
  rw [if_neg long]
  simp only at ended
  split at ended
  · cases ended
  rename_i fits
  rw [if_neg fits]
  cases ended
  refine ⟨by omega, by omega, rfl, ?_⟩
  simp

theorem udpHeader_ok {ip : IpHeader} {payload : Option (Nat × Nat)}
    (ended : (udpHeader p ip).outcome = .ok payload) :
    8 ≤ ip.l4Len ∧ be16 p.data (ip.l4 + 4) = ip.l4Len ∧
      payload = some (ip.l4 + 8, ip.l4Len - 8) ∧
      (udpHeader p ip).log = .count .udp :: assignPorts p ip ++ [.read (ip.l4 + 4) 2] := by
  unfold udpHeader at ended ⊢
  simp only [emit_bind, emits_bind, rejectIf_bind] at ended ⊢
  split at ended
  · cases ended
  rename_i long
  rw [if_neg long]
  simp only at ended
  split at ended
  · cases ended
  rename_i same
  rw [if_neg same]
  have ulen : be16 p.data (ip.l4 + 4) = ip.l4Len := not_not.mp same
  cases ended
  refine ⟨by omega, ulen, by rw [ulen], ?_⟩
  simp

/-- A transport header that passes the checks is read as a whole. -/
theorem transport_ok {ip : IpHeader} {payload : Option (Nat × Nat)}
    (ended : (transport p ip).outcome = .ok payload) :
    TransportAt p ip payload ∧ (transport p ip).log = transportOps p ip := by
  unfold transport at ended ⊢
  unfold transportOps
  by_cases tcp : ip.ipProtocol = IPPROTO_TCP
  · have notUdp : ip.ipProtocol ≠ IPPROTO_UDP := by
      rw [tcp]
      decide
    rw [if_pos tcp] at ended
    rw [if_pos tcp, if_pos tcp]
    obtain ⟨least, most, same, log⟩ := tcpHeader_ok ended
    exact ⟨⟨fun _ => ⟨least, most, same⟩, fun udp => absurd udp notUdp,
      fun notTcp => absurd tcp notTcp⟩, log⟩
  rw [if_neg tcp] at ended
  rw [if_neg tcp, if_neg tcp]
  by_cases udp : ip.ipProtocol = IPPROTO_UDP
  · rw [if_pos udp] at ended
    rw [if_pos udp, if_pos udp]
    obtain ⟨long, ulen, same, log⟩ := udpHeader_ok ended
    exact ⟨⟨fun tcp' => absurd tcp' tcp, fun _ => ⟨long, ulen, same⟩,
      fun _ notUdp => absurd udp notUdp⟩, log⟩
  rw [if_neg udp] at ended
  rw [if_neg udp, if_neg udp]
  have other : payload = none → TransportAt p ip payload := fun empty =>
    ⟨fun tcp' => absurd tcp' tcp, fun udp' => absurd udp' udp, fun _ _ => empty⟩
  split
  · rename_i icmp
    rw [if_pos icmp] at ended
    cases ended
    exact ⟨other rfl, rfl⟩
  · rename_i notIcmp
    rw [if_neg notIcmp] at ended
    split
    · rename_i igmp
      rw [if_pos igmp] at ended
      cases ended
      exact ⟨other rfl, rfl⟩
    · rename_i notIgmp
      rw [if_neg notIgmp] at ended
      cases ended
      exact ⟨other rfl, rfl⟩

/-! ## The whole dissection -/

/-- Dissection behind the link layer. -/
def behindLink (W : ExtensionWalker) (dl : Datalink) (p : Packet) (fuel l2Len : Nat) :
    Dissect Op Headers :=
  processIp W dl p fuel l2Len {} >>= fun ip => transport p ip.1 >>= fun payload =>
    pure { ip := ip.1, gtpv1 := ip.2, payload }

theorem transport_ended (ip : IpHeader) : (transport p ip).outcome ≠ .spun := by
  unfold transport tcpHeader udpHeader
  simp only [emit_bind, emits_bind, rejectIf_bind]
  split_ifs <;> simp

theorem behindLink_ended {fuel l2Len : Nat} : (behindLink W dl p fuel l2Len).outcome ≠ .spun ↔
    (processIp W dl p fuel l2Len {}).outcome ≠ .spun := by
  unfold behindLink
  rw [not_iff_not, bind_spun_iff]
  constructor
  · rintro (spun | ⟨ip, _, spun⟩)
    · exact spun
    · rcases bind_spun_iff.mp spun with spun | ⟨_, _, spun⟩
      · exact absurd spun (transport_ended _)
      · cases spun
  · exact .inl

/-- The dissection of a packet with an accepted fixed header. -/
theorem dissect_of_frame {link : Link} (framed : frame dl p = some link) (fuel : Nat) :
    dissect W dl p fuel = emits (datalink dl p).log >>= fun _ =>
      decapsulate p fuel link >>= fun link => linkEnd link >>= behindLink W dl p fuel := by
  show linkLayer dl p fuel >>= behindLink W dl p fuel = _
  rw [linkLayer_of_frame framed]
  simp only [bind_assoc]

theorem dissect_stable (W : ExtensionWalker) (dl : Datalink) (p : Packet) :
    Stable fun fuel => dissect W dl p fuel := by
  refine stable_bind ?_ fun l2Len => ?_
  · refine stable_bind (stable_const (datalink dl p)) fun link => ?_
    refine stable_bind (stable_const (discardIf _)) fun _ => ?_
    exact stable_bind (decapsulate_stable link) fun _ => stable_const _
  · exact stable_bind (processIp_stable l2Len {}) fun _ => stable_const _

/-- The parts of a dissection that reaches `flow.Hash`. -/
structure Reached (W : ExtensionWalker) (dl : Datalink) (p : Packet) (fuel : Nat) (link last : Link)
    (h : Headers) : Prop where
  framed : frame dl p = some link
  tags : (decapsulate p fuel link).outcome = .ok last
  headers : (processIp W dl p fuel last.l2Len {}).outcome = .ok (h.ip, h.gtpv1)
  transport : (transport p h.ip).outcome = .ok h.payload

theorem reached_of_dissect {fuel : Nat} {h : Headers} (ended : (dissect W dl p fuel).outcome = .ok h) :
    ∃ link last, Reached W dl p fuel link last h := by
  cases framed : frame dl p with
  | none =>
    have left : dissect W dl p fuel = linkLayer dl p fuel >>= behindLink W dl p fuel := rfl
    rw [left, linkLayer_of_unframed framed] at ended
    cases ended
  | some link =>
    rw [dissect_of_frame framed, emits_bind] at ended
    obtain ⟨last, tags, ended⟩ := bind_ok_iff.mp ended
    rw [linkEnd_bind, emits_bind] at ended
    obtain ⟨ip, headers, ended⟩ := bind_ok_iff.mp ended
    obtain ⟨payload, transport, ended⟩ := bind_ok_iff.mp ended
    cases ended
    exact ⟨link, last, framed, tags, headers, transport⟩

theorem dissect_of_reached {fuel : Nat} {link last : Link} {h : Headers}
    (reached : Reached W dl p fuel link last h) : (dissect W dl p fuel).outcome = .ok h := by
  rw [dissect_of_frame reached.framed, emits_bind, bind_of_ok _ reached.tags, linkEnd_bind,
    emits_bind, behindLink, bind_of_ok _ reached.headers, bind_of_ok _ reached.transport]
  rfl

/-- The tags of a packet that reaches `flow.Hash` end where the loop did. -/
theorem stop_of_reached {fuel l2Len : Nat} {link last : Link} {h : Headers}
    {good : Tag → Nat → Prop} (reached : Reached W dl p fuel link last h)
    (walk : TagWalk p good link.type link.l2Len (some l2Len)) : l2Len = last.l2Len := by
  have ended : (decapsulate p fuel link).outcome ≠ .spun := by simp [reached.tags]
  have walked := (decapsulate_adequate (P := fun _ => True) trivial trivial ended).mp
    fun _ _ => trivial
  rw [reached.tags] at walked
  exact Option.some.inj (walk.unique walked)

/-- What a dissection that reaches `flow.Hash` does is what its parts do. -/
theorem every_of_reached {P : Op → Prop} {fuel : Nat} {link last : Link} {h : Headers}
    (counted : P (.count .vlan)) (assigned : P (.set .tunnelNone))
    (reached : Reached W dl p fuel link last h) :
    Every P (dissect W dl p fuel) ↔ Every P (datalink dl p) ∧ Every P (decapsulate p fuel link) ∧
      Every P (processIp W dl p fuel last.l2Len {}) ∧ Every P (transport p h.ip) := by
  have ends : ∀ w ∈ (if last.vlanPacket then [Op.count .vlan, .set .tunnelNone]
      else [.set .tunnelNone]), P w := by
    split <;> simp [counted, assigned]
  rw [dissect_of_frame reached.framed, every_emits_bind]
  refine and_congr Iff.rfl ?_
  rw [bind_of_ok _ reached.tags, linkEnd_bind, emits_bind]
  unfold behindLink
  rw [bind_of_ok _ reached.headers, bind_of_ok _ reached.transport]
  simp only [Every, pure_log, List.append_nil, List.mem_append, or_imp, forall_and]
  exact and_congr Iff.rfl (and_iff_right ends)

end

end NetifyAgent
