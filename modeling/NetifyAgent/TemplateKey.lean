import NetifyAgent.Actions
import NetifyAgent.FlowKey

/-! What a dissection leaves in the flow template. The IP header that carries
the flow and its transport header assign every field of the key but the VLAN id,
whatever the template held before; the VLAN id is assigned by the tags alone. -/
namespace NetifyAgent
open NetifyAgent.Bytes NetifyAgent.Dissection

/-- What an action does to the template. -/
def Op.assign (flow : Flow) : Op → Flow
  | .set a => a.apply flow
  | _ => flow

/-- The template after a list of actions. -/
def assigned (flow : Flow) (ws : List Op) : Flow := ws.foldl Op.assign flow

section
variable (flow : Flow) (ws ws' : List Op) (a : Assign) (off len : Nat) (c : Counter)

@[simp] theorem assigned_nil : assigned flow [] = flow := rfl

@[simp] theorem assigned_set : assigned flow (.set a :: ws) = assigned (a.apply flow) ws := rfl

@[simp] theorem assigned_read : assigned flow (.read off len :: ws) = assigned flow ws := rfl

@[simp] theorem assigned_count : assigned flow (.count c :: ws) = assigned flow ws := rfl

@[simp] theorem assigned_discard : assigned flow (.discard :: ws) = assigned flow ws := rfl

@[simp] theorem assigned_reject : assigned flow (.reject :: ws) = assigned flow ws := rfl

@[simp] theorem assigned_append :
    assigned flow (ws ++ ws') = assigned (assigned flow ws) ws' := List.foldl_append

@[simp] theorem assigned_reads (reads : List Nat) (f : Nat → Nat) :
    assigned flow (reads.map fun r => .read (f r) 1) = flow := by
  induction reads with
  | nil => rfl
  | cons r reads ih => exact ih

@[simp] theorem assigned_discardIf (c : Prop) [Decidable c] :
    assigned flow (if c then [.discard] else []) = flow := by
  split <;> rfl

end

/-- What no action of a list changes stays as it is. -/
theorem assigned_keeps {α : Type} {f : Flow → α} {ws : List Op}
    (keeps : ∀ w ∈ ws, ∀ flow, f (w.assign flow) = f flow) (flow : Flow) :
    f (assigned flow ws) = f flow := by
  induction ws generalizing flow with
  | nil => rfl
  | cons w ws ih =>
    have rest := ih (fun w' member => keeps w' (List.mem_cons_of_mem w member)) (w.assign flow)
    exact rest.trans (keeps w List.mem_cons_self flow)

/-- No action assigns the sequence number of the last segment, or a TEID. -/
theorem assign_aside (flow : Flow) (w : Op) :
    (w.assign flow).tcpLastSeq = flow.tcpLastSeq ∧
      (w.assign flow).gtp.lowerTeid = flow.gtp.lowerTeid ∧
      (w.assign flow).gtp.upperTeid = flow.gtp.upperTeid := by
  cases w with
  | set a =>
    cases a with
    | createIn side inAddr => cases side <;> exact ⟨rfl, rfl, rfl⟩
    | createIn6 side in6Addr => cases side <;> exact ⟨rfl, rfl, rfl⟩
    | createHw side hwAddr => cases side <;> exact ⟨rfl, rfl, rfl⟩
    | setPort side port => cases side <;> exact ⟨rfl, rfl, rfl⟩
    | enterGtp version =>
      unfold Op.assign Assign.apply
      simp only
      split <;> exact ⟨rfl, rfl, rfl⟩
    | _ => exact ⟨rfl, rfl, rfl⟩
  | _ => exact ⟨rfl, rfl, rfl⟩

/-! ## Assignments that are tame -/

/-- A template that tame assignments have made. -/
structure Template (dl : Datalink) (flow : Flow) : Prop where
  vlanId : flow.vlanId < 4096
  room : flow.lowerMac.sin6Addr.length = 16
  unset : dl ≠ .en10mb → flow.lowerMac = {}

theorem template_start (dl : Datalink) : Template dl {} := ⟨by decide, rfl, fun _ => rfl⟩

section
variable {dl : Datalink} {flow : Flow}

theorem Template.editAddr (template : Template dl flow) (f : Addr → Addr) (side : Side) :
    Template dl (flow.editAddr f side) := by
  cases side <;> exact ⟨template.vlanId, template.room, template.unset⟩

theorem Template.assign (template : Template dl flow) {w : Op} (tame : Tame dl w) :
    Template dl (w.assign flow) := by
  cases w with
  | set a =>
    cases a with
    | vlanId v => exact ⟨tame, template.room, template.unset⟩
    | createIn side inAddr => exact template.editAddr (·.createIn inAddr) side
    | createIn6 side in6Addr => exact template.editAddr (·.createIn6 in6Addr) side
    | setPort side port => exact template.editAddr (·.setPort port) side
    | createHw side hwAddr =>
      obtain ⟨ethernet, width⟩ := tame
      cases side with
      | lower =>
        exact ⟨template.vlanId, Addr.createHw_room _ _ width template.room,
          fun other => absurd ethernet other⟩
      | upper => exact ⟨template.vlanId, template.room, template.unset⟩
    | enterGtp version =>
      unfold Op.assign Assign.apply
      simp only
      split
      · exact ⟨template.vlanId, template.room, template.unset⟩
      · exact template
    | _ => exact ⟨template.vlanId, template.room, template.unset⟩
  | _ => exact template

/-- Tame actions keep a template. -/
theorem Template.assigned (template : Template dl flow) {ws : List Op}
    (tame : ∀ w ∈ ws, Tame dl w) : Template dl (assigned flow ws) := by
  induction ws generalizing flow with
  | nil => exact template
  | cons w ws ih =>
    exact ih (template.assign (tame w (List.mem_cons_self ..)))
      fun w' member => tame w' (List.mem_cons_of_mem w member)

/-! ## Dissection is tame -/

variable {W : ExtensionWalker} {p : Packet}

theorem tame_discardIf {c : Prop} [Decidable c] : Every (Tame dl) (discardIf c) := by
  intro w member
  simp only [discardIf, emits_log] at member
  split at member
  · rw [List.mem_singleton.mp member]
    trivial
  · cases member

theorem tame_tag (tag : Tag) (off : Nat) : AllOps (Tame dl) p tag off := by
  unfold AllOps
  cases tag <;> simp only [Tag.ops] <;> split <;> simp [Tame] <;> omega

theorem tame_labels (fuel : Nat) (s : Bool) (l2Len : Nat) :
    Every (Tame dl) (labels p fuel s l2Len) := by
  induction fuel generalizing s l2Len with
  | zero => exact every_spin
  | succ fuel ih =>
    rw [labels_succ]
    split
    · exact every_pure _
    · exact (every_emits_bind _ _).mpr ⟨tame_tag _ _, ih _ _⟩

theorem tame_decapsulate (fuel : Nat) (link : Link) : Every (Tame dl) (decapsulate p fuel link) := by
  induction fuel generalizing link with
  | zero => exact every_spin
  | succ fuel ih =>
    rw [decapsulate_succ]
    cases tagKind link.type with
    | vlan => exact (every_emits_bind _ _).mpr ⟨tame_tag _ _, ih _⟩
    | mpls =>
      refine (every_emits_bind _ _).mpr ⟨tame_tag _ _, ?_⟩
      exact every_of_bind (tame_labels _ _ _) fun _ => ih _
    | pppoe =>
      refine (every_emits_bind _ _).mpr ⟨tame_tag _ _, ?_⟩
      split
      · exact (every_emits_bind _ _).mpr ⟨tame_tag _ _, ih _⟩
      · exact plain_reject.mono fun _ => (·.2)
    | discovery =>
      exact every_of_bind (by simp [Tame]) fun _ => plain_reject.mono fun _ => (·.2)
    | other => exact every_pure _

theorem tame_ipHeader (l2Len : Nat) (kept : Locals) :
    Every (Tame dl) (ipHeader W dl p l2Len kept) := by
  unfold ipHeader
  refine every_of_bind tame_discardIf fun _ => every_of_bind (by simp [Every, Tame]) fun _ => ?_
  refine every_of_bind ((plain_ipVersionHeader _ _).mono fun _ => (·.2)) fun _ => ?_
  exact every_of_bind (plain_rejectIf.mono fun _ => (·.2)) fun _ => every_pure _

theorem tame_processIp (fuel l2Len : Nat) (kept : Locals) :
    Every (Tame dl) (processIp W dl p fuel l2Len kept) := by
  induction fuel generalizing l2Len kept with
  | zero => exact every_spin
  | succ fuel ih =>
    unfold processIp
    refine every_of_bind (tame_ipHeader _ _) fun ip => ?_
    refine every_of_bind ((plain_gtp _ _).mono fun _ => (·.2)) fun tunnel => ?_
    split
    · exact ih _ _
    · exact every_pure _

/-- **Every dissection is tame.** -/
theorem tame_dissect (fuel : Nat) : Every (Tame dl) (dissect W dl p fuel) := by
  unfold dissect linkLayer
  refine every_of_bind ?_ fun l2Len => ?_
  · refine every_of_bind ((plain_datalink _).mono fun _ => (·.2)) fun link => ?_
    refine every_of_bind tame_discardIf fun _ => ?_
    refine every_of_bind (tame_decapsulate _ _) fun last => every_of_bind ?_ fun _ => every_pure _
    simp only [Every, emits_log]
    split <;> simp [Tame]
  · refine every_of_bind (tame_processIp _ _ _) fun ip => ?_
    exact every_of_bind ((plain_transport _).mono fun _ => (·.2)) fun _ => every_pure _

end

/-! ## The key of a packet -/

/-- The source address of a header. -/
def IpHeader.src (ip : IpHeader) (p : Packet) : List UInt8 :=
  if ip.ipVersion = 4 then slice p.data (ip.l2Len + 12) 4 else slice p.data (ip.l2Len + 8) 16

def IpHeader.dst (ip : IpHeader) (p : Packet) : List UInt8 :=
  if ip.ipVersion = 4 then slice p.data (ip.l2Len + 16) 4 else slice p.data (ip.l2Len + 24) 16

/-- The addresses in the order of the flow. -/
def IpHeader.addrs (ip : IpHeader) (p : Packet) : List UInt8 × List UInt8 :=
  ordered ip.addrCmp (ip.src p) (ip.dst p)

/-- The ports in the order of the flow, zero where the protocol has none. -/
def IpHeader.ports (ip : IpHeader) (p : Packet) : Nat × Nat :=
  if ip.ipProtocol = IPPROTO_TCP ∨ ip.ipProtocol = IPPROTO_UDP then orderedPorts p ip else (0, 0)

/-- The hardware address of the lower endpoint. -/
def IpHeader.lowerMac (ip : IpHeader) (dl : Datalink) (p : Packet) : List UInt8 :=
  if dl = .en10mb then (ordered ip.addrCmp (slice p.data 6 6) (slice p.data 0 6)).1
  else List.replicate 6 0

/-- The key of a packet, but for the VLAN id without any state. -/
def packetKey (dl : Datalink) (p : Packet) (ip : IpHeader) (vlanId : Nat) : FlowKey where
  ipVersion := ip.ipVersion
  ipProtocol := ip.ipProtocol.toNat
  vlanId := vlanId
  lower := ((ip.addrs p).1, (ip.ports p).1)
  upper := ((ip.addrs p).2, (ip.ports p).2)
  lowerMac := ip.lowerMac dl p

/-- An address of an IP version with an endpoint. -/
structure Addr.Holds (a : Addr) (ipVersion : Nat) (bytes : List UInt8) (port : Nat) : Prop where
  family : a.family = if ipVersion = 4 then .inet else .inet6
  endpoint : a.endpoint = (bytes, port)

theorem Addr.createIn_holds (a : Addr) (bytes : List UInt8) : (a.createIn bytes).Holds 4 bytes 0 :=
  ⟨rfl, rfl⟩

theorem Addr.createIn6_holds (a : Addr) (bytes : List UInt8) {ipVersion : Nat}
    (not4 : ipVersion ≠ 4) : (a.createIn6 bytes).Holds ipVersion bytes 0 :=
  ⟨by rw [if_neg not4]; rfl, rfl⟩

theorem Addr.Holds.setPort {a : Addr} {ipVersion port : Nat} {bytes : List UInt8}
    (holds : a.Holds ipVersion bytes port) (port' : Nat) :
    (a.setPort port').Holds ipVersion bytes port' := by
  obtain ⟨family, endpoint⟩ := holds
  refine ⟨by rw [Addr.setPort_family, family], ?_⟩
  simp only [Addr.endpoint, Addr.getAddress, Addr.getPortRaw, Prod.mk.injEq] at endpoint ⊢
  simp only [Addr.setPort_family, Addr.setPort_sinAddr, Addr.setPort_sin6Addr]
  refine ⟨endpoint.1, ?_⟩
  unfold Addr.setPort
  by_cases four : ipVersion = 4
  · rw [family, if_pos four]
  · rw [family, if_neg four]

section
variable {W : ExtensionWalker} {dl : Datalink} {p : Packet}

/-- What an IP header assigns. -/
structure Visited (dl : Datalink) (p : Packet) (ip : IpHeader) (before after : Flow) : Prop where
  version : after.ipVersion = ip.ipVersion
  protocol : after.ipProtocol = ip.ipProtocol.toNat
  vlanId : after.vlanId = before.vlanId
  lower : after.lowerAddr.Holds ip.ipVersion (ip.addrs p).1 0
  upper : after.upperAddr.Holds ip.ipVersion (ip.addrs p).2 0
  lowerMac : after.lowerMac =
    if dl = .en10mb then
      before.lowerMac.createHw (ordered ip.addrCmp (slice p.data 6 6) (slice p.data 0 6)).1
    else before.lowerMac

theorem assigned_assignAddrs (flow : Flow) (create : Side → List UInt8 → Assign) (addrCmp : Int)
    (src dst : List UInt8) :
    assigned flow (assignAddrs create dl p addrCmp src dst) =
      assigned ((create .upper (ordered addrCmp src dst).2).apply
        ((create .lower (ordered addrCmp src dst).1).apply flow))
        (if dl = .en10mb then
          [.set (.createHw .lower (ordered addrCmp (slice p.data 6 6) (slice p.data 0 6)).1),
            .set (.createHw .upper (ordered addrCmp (slice p.data 6 6) (slice p.data 0 6)).2)]
        else []) := by
  unfold assignAddrs
  split <;> simp

/-- A GTP header changes nothing of the key. -/
theorem assigned_gtpOps (flow : Flow) (s : Segment) : ∃ tunnelType gtp,
    assigned flow (gtpOps p s) = { flow with tunnelType, gtp } := by
  suffices all : ∀ ws : List Op, (∀ w ∈ ws, (∃ off len, w = .read off len) ∨
      w = .set (.enterGtp 1)) → ∀ flow, ∃ tunnelType gtp,
        assigned flow ws = { flow with tunnelType, gtp } from
    all _ (fun w member => gtpOps_mem member) flow
  intro ws harmless
  induction ws with
  | nil => exact fun flow => ⟨flow.tunnelType, flow.gtp, rfl⟩
  | cons w ws ih =>
    intro flow
    have rest := ih fun w' member => harmless w' (List.mem_cons_of_mem w member)
    rcases harmless w (List.mem_cons_self ..) with ⟨off, len, rfl⟩ | rfl
    · exact rest flow
    · rw [assigned_set]
      obtain ⟨tunnelType, gtp, same⟩ := rest ((Assign.enterGtp 1).apply flow)
      refine ⟨tunnelType, gtp, same.trans ?_⟩
      unfold Assign.apply
      simp only
      split <;> rfl

/-- **A header that is accepted assigns the key.** -/
theorem visited_header {l2Len : Nat} (accepted : Accepted W p l2Len) (kept : Locals)
    (flow : Flow) : Visited dl p (headerAt W p l2Len kept) flow
      (assigned flow (visitOps W dl p l2Len (addrCmpAt p l2Len kept.addrCmp))) := by
  obtain ⟨tunnelType, gtp, tunnel⟩ := assigned_gtpOps (p := p)
    (assigned flow (headerOps W dl p l2Len (addrCmpAt p l2Len kept.addrCmp))) (segment W p l2Len)
  have visited : assigned flow (visitOps W dl p l2Len (addrCmpAt p l2Len kept.addrCmp)) =
      { assigned flow (headerOps W dl p l2Len (addrCmpAt p l2Len kept.addrCmp)) with
        tunnelType, gtp } := by
    rw [visitOps, assigned_append, assigned_append, assigned_discardIf, tunnel]
  rw [visited]
  unfold headerOps
  obtain ⟨four | six, _⟩ := accepted
  · have version : (headerAt W p l2Len kept).ipVersion = 4 := four.1
    have protocol : (headerAt W p l2Len kept).ipProtocol = p.data (l2Len + 9) := by
      simp [headerAt, segment, four.1]
    have addrs : (headerAt W p l2Len kept).addrs p = ordered (addrCmpAt p l2Len kept.addrCmp)
        (slice p.data (l2Len + 12) 4) (slice p.data (l2Len + 16) 4) := by
      simp [IpHeader.addrs, IpHeader.src, IpHeader.dst, headerAt, four.1]
    rw [if_pos four.1, ip4Ops]
    simp only [assigned_append, assigned_read, assigned_set, assigned_nil, assigned_assignAddrs]
    constructor
    · split <;> rfl
    · rw [protocol]
      split <;> rfl
    · split <;> rfl
    · rw [version, addrs]
      split <;> exact Addr.createIn_holds _ _
    · rw [version, addrs]
      split <;> exact Addr.createIn_holds _ _
    · split <;> rfl
  · have not4 : ipV p l2Len ≠ 4 := by
      rw [six.1]
      decide
    have version : (headerAt W p l2Len kept).ipVersion ≠ 4 := not4
    have protocol : (headerAt W p l2Len kept).ipProtocol = (walkedAt W p l2Len).nextHeader := by
      simp [headerAt, segment, not4]
    have addrs : (headerAt W p l2Len kept).addrs p = ordered (addrCmpAt p l2Len kept.addrCmp)
        (slice p.data (l2Len + 8) 16) (slice p.data (l2Len + 24) 16) := by
      simp [IpHeader.addrs, IpHeader.src, IpHeader.dst, headerAt, not4]
    rw [if_neg not4, ip6Ops]
    simp only [assigned_append, assigned_read, assigned_set, assigned_nil, assigned_reads,
      assigned_assignAddrs]
    constructor
    · split <;> rfl
    · rw [protocol]
      split <;> rfl
    · split <;> rfl
    · rw [addrs]
      split <;> exact Addr.createIn6_holds _ _ version
    · rw [addrs]
      split <;> exact Addr.createIn6_holds _ _ version
    · split <;> rfl

/-- The headers up to the one that carries the flow leave what that one assigns. -/
theorem visited_processIp {fuel l2Len : Nat} {kept : Locals} {ip : IpHeader × Option Nat}
    {flow : Flow} (template : Template dl flow)
    (ended : (processIp W dl p fuel l2Len kept).outcome = .ok ip) :
    ∃ before, Template dl before ∧ before.vlanId = flow.vlanId ∧
      Visited dl p ip.1 before (assigned flow (processIp W dl p fuel l2Len kept).log) := by
  induction fuel generalizing l2Len kept flow with
  | zero => cases ended
  | succ fuel ih =>
    by_cases accepted : Accepted W p l2Len
    swap
    · rw [processIp_refused accepted] at ended
      cases ended
    have tame : Every (Tame dl) (processIp W dl p (fuel + 1) l2Len kept) := tame_processIp _ _ _
    have visited : Visited dl p (headerAt W p l2Len kept) flow
        (assigned flow (visitOps W dl p l2Len (addrCmpAt p l2Len kept.addrCmp))) :=
      visited_header accepted kept flow
    rw [processIp_accepted accepted] at ended tame ⊢
    have still := template.assigned ((every_emits_bind _ _).mp tame).1
    cases continues : inner W p l2Len with
    | none =>
      rw [continues] at ended
      cases ended
      refine ⟨flow, template, rfl, ?_⟩
      simp only [emits_bind, pure_log, List.append_nil]
      exact visited
    | some next =>
      simp only [continues, emits_bind] at ended ⊢
      obtain ⟨before, template, vlanId, last⟩ := ih still ended
      refine ⟨before, template, vlanId.trans visited.vlanId, ?_⟩
      rw [assigned_append]
      exact last

/-- A transport header assigns the ports. -/
theorem assigned_transportOps (ip : IpHeader) (flow : Flow) :
    assigned flow (transportOps p ip) =
      if ip.ipProtocol = IPPROTO_TCP ∨ ip.ipProtocol = IPPROTO_UDP then
        { flow with
          lowerAddr := flow.lowerAddr.setPort (orderedPorts p ip).1
          upperAddr := flow.upperAddr.setPort (orderedPorts p ip).2 }
      else flow := by
  unfold transportOps
  by_cases tcp : ip.ipProtocol = IPPROTO_TCP
  · rw [if_pos tcp, if_pos (.inl tcp)]
    rfl
  by_cases udp : ip.ipProtocol = IPPROTO_UDP
  · rw [if_neg tcp, if_pos udp, if_pos (.inr udp)]
    rfl
  rw [if_neg tcp, if_neg udp, if_neg (not_or.mpr ⟨tcp, udp⟩)]
  split
  · rfl
  split <;> rfl

/-- The IP header and the transport header assign the key. -/
theorem key_of_visited {ip : IpHeader} {before after : Flow} (template : Template dl before)
    (version : ip.ipVersion = 4 ∨ ip.ipVersion = 6) (visited : Visited dl p ip before after) :
    (assigned after (transportOps p ip)).Typed ∧
      (assigned after (transportOps p ip)).key = packetKey dl p ip before.vlanId := by
  have mac : after.lowerMac.sllAddr = ip.lowerMac dl p := by
    rw [visited.lowerMac, IpHeader.lowerMac]
    split
    · refine Addr.sllAddr_createHw _ _ ?_ ?_
      · unfold ordered
        split <;> simp
      · rw [template.room]
        decide
    · rename_i other
      rw [template.unset other]
      rfl
  have lower : (assigned after (transportOps p ip)).lowerAddr.Holds ip.ipVersion (ip.addrs p).1
      (ip.ports p).1 := by
    rw [assigned_transportOps, IpHeader.ports]
    split
    · exact visited.lower.setPort _
    · exact visited.lower
  have upper : (assigned after (transportOps p ip)).upperAddr.Holds ip.ipVersion (ip.addrs p).2
      (ip.ports p).2 := by
    rw [assigned_transportOps, IpHeader.ports]
    split
    · exact visited.upper.setPort _
    · exact visited.upper
  have rest : (assigned after (transportOps p ip)).ipVersion = after.ipVersion ∧
      (assigned after (transportOps p ip)).ipProtocol = after.ipProtocol ∧
      (assigned after (transportOps p ip)).vlanId = after.vlanId ∧
      (assigned after (transportOps p ip)).lowerMac = after.lowerMac := by
    rw [assigned_transportOps]
    split <;> exact ⟨rfl, rfl, rfl, rfl⟩
  constructor
  · rcases version with four | six
    · refine .inl ⟨rest.1.trans (visited.version.trans four), ?_, ?_⟩
      · rw [lower.family, if_pos four]
      · rw [upper.family, if_pos four]
    · have not4 : ip.ipVersion ≠ 4 := by omega
      refine .inr ⟨rest.1.trans (visited.version.trans six), ?_, ?_⟩
      · rw [lower.family, if_neg not4]
      · rw [upper.family, if_neg not4]
  · simp only [Flow.key, packetKey, rest, visited.version, visited.protocol, visited.vlanId,
      lower.endpoint, upper.endpoint, mac]

/-! ## The VLAN id -/

theorem assign_vlanId (flow : Flow) (w : Op) :
    (w.assign flow).vlanId =
      match w with
      | .set (.vlanId v) => v
      | _ => flow.vlanId := by
  cases w with
  | set a =>
    cases a with
    | enterGtp version =>
      unfold Op.assign Assign.apply
      simp only
      split <;> rfl
    | createIn side _ => cases side <;> rfl
    | createIn6 side _ => cases side <;> rfl
    | createHw side _ => cases side <;> rfl
    | setPort side _ => cases side <;> rfl
    | _ => rfl
  | _ => rfl

/-- The VLAN id depends on no other field. -/
theorem assigned_vlanId_congr {flow flow' : Flow} (same : flow.vlanId = flow'.vlanId)
    (ws : List Op) : (assigned flow ws).vlanId = (assigned flow' ws).vlanId := by
  induction ws generalizing flow flow' with
  | nil => exact same
  | cons w ws ih =>
    refine ih ?_
    rw [assign_vlanId, assign_vlanId, same]

/-- Not an assignment to the VLAN id. -/
def KeepsVlan (w : Op) : Prop := ∀ v, w ≠ .set (.vlanId v)

theorem assigned_keepsVlan {ws : List Op} (keeps : ∀ w ∈ ws, KeepsVlan w) (flow : Flow) :
    (assigned flow ws).vlanId = flow.vlanId := by
  refine @assigned_keeps _ Flow.vlanId ws (fun w member flow => ?_) flow
  rw [assign_vlanId]
  split
  · exact absurd rfl (keeps _ member _)
  · rfl

theorem keepsVlan_tag {tag : Tag} (other : tag ≠ .vlan) (off : Nat) :
    AllOps KeepsVlan p tag off := by
  unfold AllOps
  cases tag with
  | vlan => exact absurd rfl other
  | _ =>
    simp only [Tag.ops]
    split <;> simp [KeepsVlan]

theorem keepsVlan_labels (fuel : Nat) (s : Bool) (l2Len : Nat) :
    Every KeepsVlan (labels p fuel s l2Len) := by
  induction fuel generalizing s l2Len with
  | zero => exact every_spin
  | succ fuel ih =>
    rw [labels_succ]
    split
    · exact every_pure _
    · exact (every_emits_bind _ _).mpr ⟨keepsVlan_tag (by decide) _, ih _ _⟩

/-- The packet starts with a VLAN tag. -/
def Tagged (dl : Datalink) (p : Packet) : Prop :=
  ∃ link, frame dl p = some link ∧ tagKind link.type = .vlan

/-- Behind a tag of another kind no VLAN tag is looked for. -/
theorem keepsVlan_decapsulate {fuel : Nat} {link : Link}
    (ended : (decapsulate p fuel link).outcome ≠ .spun) (other : tagKind link.type ≠ .vlan) :
    Every KeepsVlan (decapsulate p fuel link) := by
  cases fuel with
  | zero => exact every_spin
  | succ fuel =>
    rw [decapsulate_succ] at ended ⊢
    cases kind : tagKind link.type with
    | vlan => exact absurd kind other
    | mpls =>
      simp only [kind] at ended ⊢
      rw [emits_bind] at ended
      obtain ⟨bottom, below, last⟩ := labels_of_ended ended
      refine (every_emits_bind _ _).mpr ⟨keepsVlan_tag (by decide) _, ?_⟩
      rw [bind_of_ok _ below, last]
      simpa [Every] using keepsVlan_labels fuel _ _
    | pppoe =>
      simp only [kind] at ended ⊢
      refine (every_emits_bind _ _).mpr ⟨keepsVlan_tag (by decide) _, ?_⟩
      split
      · rename_i ip
        simp only [if_pos ip, emits_bind] at ended
        rw [decapsulate_ip ended]
        refine (every_emits_bind _ _).mpr ⟨keepsVlan_tag (by decide) _, every_pure _⟩
      · simp [Every, KeepsVlan]
    | discovery => simp [Every, KeepsVlan]
    | other => exact every_pure _

/-- Tags assign the VLAN id or leave it alone, by the first of them. -/
theorem vlanId_decapsulate {fuel : Nat} {link : Link}
    (ended : (decapsulate p fuel link).outcome ≠ .spun) (flow flow' : Flow) :
    (assigned flow (decapsulate p fuel link).log).vlanId =
        (assigned flow' (decapsulate p fuel link).log).vlanId ↔
      flow.vlanId = flow'.vlanId ∨ tagKind link.type = .vlan := by
  by_cases kind : tagKind link.type = .vlan
  · refine iff_of_true ?_ (.inr kind)
    cases fuel with
    | zero => exact absurd rfl ended
    | succ fuel =>
      rw [decapsulate_succ]
      simp only [kind, emits_bind, Tag.ops, assigned_append, assigned_discardIf, assigned_set,
        assigned_read, assigned_nil]
      refine assigned_vlanId_congr ?_ _
      rfl
  · have keeps := keepsVlan_decapsulate ended kind
    rw [assigned_keepsVlan keeps, assigned_keepsVlan keeps, or_iff_left kind]

/-! ## The whole dissection -/

theorem assigned_untouched {ws : List Op} (untouched : ∀ w ∈ ws, ∀ flow, Op.assign flow w = flow)
    (flow : Flow) : assigned flow ws = flow :=
  @assigned_keeps _ id ws untouched flow

theorem assigned_datalink (flow : Flow) : assigned flow (datalink dl p).log = flow :=
  assigned_untouched
    (every_datalink (fun _ _ _ => rfl) (fun _ _ => rfl) (fun _ => rfl) dl) flow

/-- **The key of the template.** A dissection that reaches `flow.Hash` leaves
the key of its packet, with the VLAN id that the tags leave. -/
theorem key_of_dissect {fuel : Nat} {link last : Link} {h : Headers} {flow : Flow}
    (template : Template dl flow) (reached : Reached W dl p fuel link last h) :
    (assigned flow (dissect W dl p fuel).log).Typed ∧
      (assigned flow (dissect W dl p fuel).log).key =
        packetKey dl p h.ip (assigned flow (decapsulate p fuel link).log).vlanId := by
  have passed := (transport_ok reached.transport).2
  have log : assigned flow (dissect W dl p fuel).log =
      assigned (assigned (assigned (assigned flow (decapsulate p fuel link).log)
        (if last.vlanPacket then [.count .vlan, .set .tunnelNone] else [.set .tunnelNone]))
        (processIp W dl p fuel last.l2Len {}).log) (transportOps p h.ip) := by
    rw [dissect_of_frame reached.framed, emits_bind, bind_of_ok _ reached.tags, linkEnd_bind,
      emits_bind, behindLink, bind_of_ok _ reached.headers, bind_of_ok _ reached.transport, passed]
    simp only [pure_log, List.append_nil, assigned_append, assigned_datalink]
  have linked : Template dl (assigned (assigned flow (decapsulate p fuel link).log)
      (if last.vlanPacket then [.count .vlan, .set .tunnelNone] else [.set .tunnelNone])) := by
    refine (template.assigned (tame_decapsulate fuel link)).assigned ?_
    split <;> simp [Tame]
  have vlanId : (assigned (assigned flow (decapsulate p fuel link).log)
      (if last.vlanPacket then [.count .vlan, .set .tunnelNone] else [.set .tunnelNone])).vlanId =
        (assigned flow (decapsulate p fuel link).log).vlanId := by
    split <;> rfl
  obtain ⟨before, kept, same, visited⟩ := visited_processIp linked reached.headers
  obtain ⟨l2Len, locals, accepted, _, ip⟩ := processIp_last reached.headers
  have version : h.ip.ipVersion = 4 ∨ h.ip.ipVersion = 6 := by
    simp only at ip
    rw [ip]
    exact accepted.1.imp (·.1) (·.1)
  rw [log, ← vlanId, ← same]
  exact key_of_visited kept version visited

end

end NetifyAgent
