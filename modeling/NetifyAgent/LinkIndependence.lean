import NetifyAgent.Encapsulations
import NetifyAgent.KeyHistory

/-! What a packet leaves in the template of a fresh thread, whatever link layer it
came over. Encapsulations that are understood leave the same template, but for the
hardware addresses. Of the others one kind hides the tags, which are then taken for
an IP header, and one kind is not read at all. -/
namespace NetifyAgent.LinkIndependence
open NetifyAgent.Bytes NetifyAgent.Dissection NetifyAgent.KeyHistory NetifyAgent.Encapsulations

/-! ## The template -/

/-- A flow without its hardware addresses. -/
def bare (flow : Flow) : Flow := { flow with lowerMac := {}, upperMac := {} }

theorem bare_assign (flow : Flow) (w : Op) :
    bare (w.assign flow) =
      match netAssign w with
      | some a => a.apply (bare flow)
      | none => bare flow := by
  cases w with
  | set a =>
    cases a with
    | createIn side _ => cases side <;> rfl
    | createIn6 side _ => cases side <;> rfl
    | createHw side _ => cases side <;> rfl
    | setPort side _ => cases side <;> rfl
    | enterGtp version =>
      by_cases tunnel : flow.tunnelType = .none <;>
        simp [Op.assign, Assign.apply, netAssign, bare, tunnel]
    | _ => rfl
  | _ => rfl

/-- The assignments to the hardware addresses touch nothing else. -/
theorem bare_assigned (flow : Flow) (ws : List Op) :
    bare (assigned flow ws) = (ws.filterMap netAssign).foldl Assign.apply (bare flow) := by
  induction ws generalizing flow with
  | nil => rfl
  | cons w ws ih =>
    refine (ih (w.assign flow)).trans ?_
    rw [bare_assign, List.filterMap_cons]
    split <;> simp_all

/-- Two templates agree on what link layers should not change. The hardware
address counts as far as it is hashed. -/
structure SameFlow (flow flow' : Flow) : Prop where
  ipVersion : flow.ipVersion = flow'.ipVersion
  ipProtocol : flow.ipProtocol = flow'.ipProtocol
  vlanId : flow.vlanId = flow'.vlanId
  lower : flow.lowerAddr.endpoint = flow'.lowerAddr.endpoint
  upper : flow.upperAddr.endpoint = flow'.upperAddr.endpoint
  digest : flow.key.mac = flow'.key.mac → flow.digestLower = flow'.digestLower

theorem sameFlow_of_bare {flow flow' : Flow} (same : bare flow = bare flow') :
    SameFlow flow flow' where
  ipVersion := show (bare flow).ipVersion = (bare flow').ipVersion by rw [same]
  ipProtocol := show (bare flow).ipProtocol = (bare flow').ipProtocol by rw [same]
  vlanId := show (bare flow).vlanId = (bare flow').vlanId by rw [same]
  lower := show (bare flow).lowerAddr.endpoint = (bare flow').lowerAddr.endpoint by rw [same]
  upper := show (bare flow).upperAddr.endpoint = (bare flow').upperAddr.endpoint by rw [same]
  digest _ := show (bare flow).digestLower = (bare flow').digestLower by rw [same]

/-- Hashing keeps two templates the same. -/
theorem sameFlow_hash {flow flow' : Flow} (typed : flow.Typed) (typed' : flow'.Typed)
    (same : SameFlow flow flow') (sha1 : List UInt8 → List UInt8) (tag : List UInt8) :
    SameFlow (flow.hash sha1 tag) (flow'.hash sha1 tag) where
  ipVersion := same.ipVersion
  ipProtocol := same.ipProtocol
  vlanId := same.vlanId
  lower := same.lower
  upper := same.upper
  digest hashed := by
    have mac : flow.key.mac = flow'.key.mac := hashed
    have encoded : flow.key.encode = flow'.key.encode := by
      unfold FlowKey.encode
      rw [mac]
      simp only [Flow.key, same.ipVersion, same.ipProtocol, same.vlanId, same.lower, same.upper]
    show sha1 (flow.hashStream tag) = sha1 (flow'.hashStream tag)
    rw [Flow.hashStream_key typed, Flow.hashStream_key typed', encoded]

/-- What a dissection leaves in a fresh template. -/
def template (cfg : CaptureConfig) (s : CaptureServices) (x : Dissect Op Headers) : Flow :=
  match x.outcome with
  | .ok _ => (assigned {} x.log).hash s.sha1 cfg.tag
  | _ => assigned {} x.log

/-- `ProcessPacket` on a fresh template ends with a template. What the thread
shares may be anything. -/
def Leaves (cfg : CaptureConfig) (s : CaptureServices) (t : CaptureThread) (p : Packet)
    (flow : Flow) : Prop :=
  ∃ fuel t', CaptureThread.processPacket cfg s fuel p { t with flow := {} } = some t' ∧
    t'.flow = flow

section
variable {cfg : CaptureConfig} {s : CaptureServices} {t : CaptureThread} {p : Packet}

theorem leaves_of_dissect {fuel : Nat}
    (ended : (dissect s.extensions cfg.dlType p fuel).outcome ≠ .spun) :
    Leaves cfg s t p (template cfg s (dissect s.extensions cfg.dlType p fuel)) := by
  obtain ⟨t', taken⟩ : ∃ t', CaptureThread.processPacket cfg s fuel p { t with flow := {} } =
      some t' := by
    unfold CaptureThread.processPacket
    simp only
    cases outcome : (dissect s.extensions cfg.dlType p fuel).outcome with
    | ok h => exact ⟨_, rfl⟩
    | left => exact ⟨_, rfl⟩
    | spun => exact absurd outcome ended
  exact ⟨fuel, t', taken, processPacket_flow taken⟩

theorem Leaves.dissected {flow : Flow} (leaves : Leaves cfg s t p flow) :
    ∃ fuel, (dissect s.extensions cfg.dlType p fuel).outcome ≠ .spun ∧
      flow = template cfg s (dissect s.extensions cfg.dlType p fuel) := by
  obtain ⟨fuel, t', taken, rfl⟩ := leaves
  refine ⟨fuel, fun spun => ?_, processPacket_flow taken⟩
  unfold CaptureThread.processPacket at taken
  simp only [spun] at taken
  cases taken

/-- It ends with one template only. -/
theorem Leaves.eq {fuel : Nat} {flow : Flow} (leaves : Leaves cfg s t p flow)
    (ended : (dissect s.extensions cfg.dlType p fuel).outcome ≠ .spun) :
    flow = template cfg s (dissect s.extensions cfg.dlType p fuel) := by
  obtain ⟨fuel', ended', rfl⟩ := leaves.dissected
  rw [stable_unique (dissect_stable _ _ _) ended ended']

end

/-! ## Frames that are understood -/

/-- The thread captures what is sent that way. -/
def capturing (cfg : CaptureConfig) (e : Encapsulation) : CaptureConfig :=
  { cfg with dlType := e.link.dlType }

/-- Dissections like a third one leave the same template. -/
theorem sameFlow_of_alike {s : CaptureServices} {dl dl' : Datalink} {p p' : Packet} {fuel : Nat}
    {x : Dissect Op Headers} {R R' : Headers → Headers → Prop}
    (alike : Alike netAssign R x (dissect s.extensions dl p fuel))
    (alike' : Alike netAssign R' x (dissect s.extensions dl' p' fuel)) (cfg : CaptureConfig) :
    SameFlow (template cfg s (dissect s.extensions dl p fuel))
      (template cfg s (dissect s.extensions dl' p' fuel)) := by
  have typed : ∀ {dl p h}, (dissect s.extensions dl p fuel).outcome = .ok h →
      (assigned {} (dissect s.extensions dl p fuel).log).Typed := by
    intro dl p h hashed
    obtain ⟨link, last, reached⟩ := reached_of_dissect hashed
    exact (key_of_dissect (template_start dl) reached).1
  have same : SameFlow (assigned {} (dissect s.extensions dl p fuel).log)
      (assigned {} (dissect s.extensions dl' p' fuel).log) := by
    apply sameFlow_of_bare
    rw [bare_assigned, bare_assigned, ← alike.log, ← alike'.log]
  have outcome := alike.outcome
  have outcome' := alike'.outcome
  unfold template
  generalize first : (dissect s.extensions dl p fuel).outcome = ends at outcome ⊢
  generalize second : (dissect s.extensions dl' p' fuel).outcome = ends' at outcome' ⊢
  generalize x.outcome = third at outcome outcome'
  cases outcome with
  | ok related =>
    cases outcome' with
    | ok related' => exact sameFlow_hash (typed first) (typed second) same s.sha1 cfg.tag
  | left =>
    cases outcome'
    exact same
  | spun =>
    cases outcome'
    exact same

/-- Every packet leaves the same template both ways. -/
def Interchangeable (cfg : CaptureConfig) (s : CaptureServices) (t : CaptureThread)
    (e e' : Encapsulation) : Prop :=
  ∀ ip, e.Fits s.extensions ip → e'.Fits s.extensions ip → ∃ flow flow',
    Leaves (capturing cfg e) s t (e.frame ip) flow ∧
    Leaves (capturing cfg e') s t (e'.frame ip) flow' ∧ SameFlow flow flow'

/-- With enough fuel the packet by itself is dissected. -/
theorem settled_plainly {W : ExtensionWalker} {e : Encapsulation} {ip : IpPacket}
    (fits : e.Fits W ip) :
    ∃ fuel, e.tags.length < fuel ∧ (plainly W e.tags ip fuel).outcome ≠ .spun := by
  obtain ⟨enough, ended⟩ : ∃ fuel, (processIp W .raw ip.packet fuel 0 {}).outcome ≠ .spun :=
    processIp_complete fits.tunnels {}
  refine ⟨enough + e.tags.length + 1, by omega, ?_⟩
  show (behindLink W .raw ip.packet (enough + e.tags.length + 1) 0).outcome ≠ .spun
  have stable : processIp W .raw ip.packet (enough + e.tags.length + 1) 0 {} = _ :=
    processIp_stable 0 {} enough _ (by omega) ended
  rw [behindLink_ended, stable]
  exact ended

theorem interchangeable_of_understood {cfg : CaptureConfig} {s : CaptureServices}
    {t : CaptureThread} {e e' : Encapsulation} (portable : Portable s.extensions)
    (tags : e.tags = e'.tags) (read : e.Understood) (read' : e'.Understood) : Interchangeable cfg s t e e' := by
  intro ip fits fits'
  obtain ⟨fuel, enough, settled⟩ := settled_plainly fits
  have alike := alike_plainly portable fits read enough
  have alike' := alike_plainly portable fits' read' (tags ▸ enough)
  rw [← tags] at alike'
  refine ⟨_, _, leaves_of_dissect ?_, leaves_of_dissect ?_, sameFlow_of_alike alike alike' cfg⟩
  · exact fun spun => settled (alike.spun_iff.mp spun)
  · exact fun spun => settled (alike'.spun_iff.mp spun)

/-! ## The version and the VLAN id -/

/-- Not an assignment to the IP version or the VLAN id. -/
def Steady : Op → Prop
  | .set (.ipVersion _) | .set (.vlanId _) => False
  | _ => True

@[simp] theorem steady_read (off len : Nat) : Steady (.read off len) := trivial
@[simp] theorem steady_count (c : Counter) : Steady (.count c) := trivial
@[simp] theorem steady_reject : Steady .reject := trivial
@[simp] theorem steady_ipProtocol (v : UInt8) : Steady (.set (.ipProtocol v)) := trivial
@[simp] theorem steady_createHw (side : Side) (hwAddr : List UInt8) :
    Steady (.set (.createHw side hwAddr)) := trivial
@[simp] theorem steady_setPort (side : Side) (port : Nat) : Steady (.set (.setPort side port)) :=
  trivial

theorem assigned_steady {ws : List Op} (steady : ∀ w ∈ ws, Steady w) (flow : Flow) :
    (assigned flow ws).ipVersion = flow.ipVersion := by
  refine @assigned_keeps _ Flow.ipVersion ws (fun w member flow => ?_) flow
  have allowed := steady w member
  cases w with
  | set a =>
    cases a with
    | ipVersion v => exact allowed.elim
    | vlanId v => exact allowed.elim
    | enterGtp version =>
      simp only [Op.assign, Assign.apply]
      split <;> rfl
    | createIn side _ => cases side <;> rfl
    | createIn6 side _ => cases side <;> rfl
    | createHw side _ => cases side <;> rfl
    | setPort side _ => cases side <;> rfl
    | _ => rfl
  | _ => rfl

section
variable {W : ExtensionWalker} {dl : Datalink} {p : Packet}

theorem steady_rejectIf {c : Prop} [Decidable c] : Every Steady (rejectIf c) := by
  unfold rejectIf
  split
  · simp [Every]
  · exact every_pure _

theorem steady_readIf {c : Prop} [Decidable c] {off len : Nat} :
    Every Steady (readIf c off len) := by
  unfold readIf
  split <;> simp [Every]

theorem steady_addrs (create : Side → List UInt8 → Assign)
    (other : ∀ side bytes, Steady (.set (create side bytes))) {addrCmp : Int}
    {src dst : List UInt8} {a b n : Nat} :
    Every Steady (emits (.read a n :: .read b n :: assignAddrs create dl p addrCmp src dst)) := by
  simp only [Every, emits_log, assignAddrs]
  split <;> simp [other]

/-- Behind the version nothing assigns either. -/
theorem steady_ipVersionHeader (l2Len : Nat) (kept : Locals) :
    Every Steady (ipVersionHeader W dl p l2Len kept) := by
  unfold ipVersionHeader
  split
  · unfold ip4Header
    refine every_of_bind (by simp [Every]) fun _ => every_of_bind steady_readIf fun _ => ?_
    refine every_of_bind steady_rejectIf fun _ => ?_
    split
    · simp [Every]
    split
    · simp [Every]
    refine every_of_bind steady_rejectIf fun _ => ?_
    exact every_of_bind (steady_addrs .createIn fun _ _ => trivial) fun _ => every_pure _
  split
  · unfold ip6Header
    refine every_of_bind ?_ fun _ => every_of_bind steady_rejectIf fun _ => ?_
    · intro w member
      simp only [emits_log, List.mem_append, List.mem_cons, List.not_mem_nil, or_false,
        List.mem_map] at member
      rcases member with ((rfl | rfl | rfl) | ⟨r, _, rfl⟩) | rfl <;> trivial
    · exact every_of_bind (steady_addrs .createIn6 fun _ _ => trivial) fun _ => every_pure _
  · simp [Every]

theorem steady_transport (ip : IpHeader) : Every Steady (transport p ip) := by
  have ports : Every Steady (emits (assignPorts p ip)) := by simp [Every, assignPorts]
  unfold transport
  split
  · unfold tcpHeader
    refine every_of_bind (by simp) fun _ => every_of_bind steady_rejectIf fun _ => ?_
    refine every_of_bind (by simp) fun _ => every_of_bind steady_rejectIf fun _ => ?_
    exact every_of_bind ports fun _ => every_pure _
  split
  · unfold udpHeader
    refine every_of_bind (by simp) fun _ => every_of_bind steady_rejectIf fun _ => ?_
    refine every_of_bind ?_ fun _ => every_of_bind steady_rejectIf fun _ => every_pure _
    simp [Every, assignPorts]
  split
  · exact every_of_bind (by simp) fun _ => every_pure _
  split
  · exact every_of_bind (by simp) fun _ => every_pure _
  · exact every_pure _

/-- A header assigns its version, also if it is refused. -/
theorem version_of_ipHeader (l2Len : Nat) (kept : Locals) (flow : Flow) :
    (assigned flow (ipHeader W dl p l2Len kept).log).ipVersion = ipV p l2Len := by
  have rest : Every Steady (ipVersionHeader W dl p l2Len kept >>= fun ip => do
      rejectIf (p.cap < l2Len + ip.l3Len + ip.l4Len)
      pure ip) :=
    every_of_bind (steady_ipVersionHeader l2Len kept) fun _ =>
      every_of_bind steady_rejectIf fun _ => every_pure _
  unfold ipHeader
  rw [discardIf_bind, emits_bind]
  simp only [assigned_append, assigned_discardIf, assigned_read, assigned_set, assigned_nil]
  rw [assigned_steady rest]
  rfl

theorem Steady.keepsVlan {w : Op} (steady : Steady w) : KeepsVlan w := by
  rintro v rfl
  exact steady

/-- Behind the link layer nothing assigns the VLAN id. -/
theorem keepsVlan_behindLink (fuel l2Len : Nat) :
    Every KeepsVlan (behindLink W dl p fuel l2Len) := by
  have headers : ∀ fuel l2Len kept, Every KeepsVlan (processIp W dl p fuel l2Len kept) := by
    intro fuel
    induction fuel with
    | zero => exact fun _ _ => every_spin
    | succ fuel ih =>
      intro l2Len kept
      unfold processIp
      refine every_of_bind ?_ fun ip => every_of_bind ?_ fun tunnel => ?_
      · unfold ipHeader
        refine every_of_bind ?_ fun _ => every_of_bind (by simp [Every, KeepsVlan]) fun _ => ?_
        · simp only [Every, discardIf, emits_log]
          split <;> simp [KeepsVlan]
        have version : Every KeepsVlan (ipVersionHeader W dl p l2Len kept) :=
          (steady_ipVersionHeader l2Len kept).mono fun _ => Steady.keepsVlan
        refine every_of_bind version fun _ => ?_
        exact every_of_bind (steady_rejectIf.mono fun _ => Steady.keepsVlan) fun _ => every_pure _
      · rw [gtp_eq (s := ⟨ip.l3Len, ip.ipProtocol, ip.l4, ip.l4Len⟩) rfl rfl rfl]
        intro w member v
        rcases gtpOps_mem member with ⟨off, len, rfl⟩ | rfl <;> simp
      · split
        · exact ih _ _
        · exact every_pure _
  unfold behindLink
  refine every_of_bind (headers _ _ _) fun ip => every_of_bind ?_ fun _ => every_pure _
  exact (steady_transport _).mono fun _ => Steady.keepsVlan

/-- The version of an IP header with no tunnel behind it stays. -/
theorem version_of_behindLink (dl : Datalink) {l2Len : Nat} (plain : inner W p l2Len = none)
    (fuel : Nat) (flow : Flow) :
    (assigned flow (behindLink W dl p (fuel + 1) l2Len).log).ipVersion = ipV p l2Len ∧
      (behindLink W dl p (fuel + 1) l2Len).outcome ≠ .spun := by
  rw [behindLink_ended]
  unfold behindLink
  by_cases accepted : Accepted W p l2Len
  · have visited : Visited dl p (headerAt W p l2Len {}) flow _ := visited_header accepted {} flow
    rw [processIp_accepted accepted, plain]
    refine ⟨?_, nofun⟩
    rw [emits_bind, bind_of_ok _ rfl]
    simp only [pure_log, List.append_nil, assigned_append]
    rw [assigned_steady (every_of_bind (steady_transport _) fun _ => every_pure _)]
    exact visited.version
  · rw [processIp_refused accepted, bind_of_left _ rfl]
    exact ⟨version_of_ipHeader l2Len {} flow, nofun⟩

end

section
variable {cfg : CaptureConfig} {s : CaptureServices} {t : CaptureThread} {flow : Flow}

theorem template_fields (cfg : CaptureConfig) (s : CaptureServices) (x : Dissect Op Headers) :
    (template cfg s x).ipVersion = (assigned {} x.log).ipVersion ∧
      (template cfg s x).vlanId = (assigned {} x.log).vlanId := by
  unfold template
  split <;> exact ⟨rfl, rfl⟩

/-- What a frame that is understood leaves is what the packet by itself leaves. -/
theorem fields_of_understood {e : Encapsulation} {ip : IpPacket} (portable : Portable s.extensions)
    (fits : e.Fits s.extensions ip) (read : e.Understood) {fuel : Nat}
    (enough : e.tags.length < fuel) (settled : (plainly s.extensions e.tags ip fuel).outcome ≠ .spun)
    (leaves : Leaves (capturing cfg e) s t (e.frame ip) flow) :
    flow.ipVersion = (assigned {} (plainly s.extensions e.tags ip fuel).log).ipVersion ∧
      flow.vlanId = (assigned {} (plainly s.extensions e.tags ip fuel).log).vlanId := by
  have alike := alike_plainly portable fits read enough
  have ended : (dissect s.extensions e.link.dlType (e.frame ip) fuel).outcome ≠ .spun :=
    fun spun => settled (alike.spun_iff.mp spun)
  have same : bare (assigned {} (plainly s.extensions e.tags ip fuel).log) =
      bare (assigned {} (dissect s.extensions e.link.dlType (e.frame ip) fuel).log) := by
    rw [bare_assigned, bare_assigned, alike.log]
  obtain ⟨version, vlanId⟩ := template_fields (capturing cfg e) s
    (dissect s.extensions e.link.dlType (e.frame ip) fuel)
  rw [leaves.eq ended]
  exact ⟨version.trans (sameFlow_of_bare same).ipVersion.symm,
    vlanId.trans (sameFlow_of_bare same).vlanId.symm⟩

theorem version_of_understood {e : Encapsulation} {ip : IpPacket} (portable : Portable s.extensions)
    (fits : e.Fits s.extensions ip) (read : e.Understood)
    (plain : inner s.extensions ip.packet 0 = none)
    (leaves : Leaves (capturing cfg e) s t (e.frame ip) flow) :
    flow.ipVersion = ipV ip.packet 0 := by
  have alone := version_of_behindLink .raw plain e.tags.length
    (assigned {} ((tagAssigns e.tags).map .set ++ [.set .tunnelNone]))
  have fields := fields_of_understood portable fits read (Nat.lt_succ_self _) alone.2 leaves
  rw [fields.1, ← alone.1, ← assigned_append]
  rfl

/-- The VLAN id of the last tag, zero without a tag. -/
def innermost (tags : List UInt16) : Nat := (tags.map fun tci => tci.toNat % 4096).getLastD 0

theorem assigned_tagAssigns (tags : List UInt16) (flow : Flow) :
    (assigned flow ((tagAssigns tags).map .set)).vlanId =
      (tags.map fun tci => tci.toNat % 4096).getLastD flow.vlanId := by
  induction tags generalizing flow with
  | nil => rfl
  | cons tci tags ih =>
    rw [List.map_cons, List.getLastD_cons]
    exact ih { flow with vlanId := tci.toNat % 4096 }

/-- **A frame that is understood leaves the VLAN id of its last tag.** -/
theorem vlanId_of_understood {e : Encapsulation} {ip : IpPacket} (portable : Portable s.extensions)
    (fits : e.Fits s.extensions ip) (read : e.Understood)
    (leaves : Leaves (capturing cfg e) s t (e.frame ip) flow) : flow.vlanId = innermost e.tags := by
  obtain ⟨fuel, enough, settled⟩ := settled_plainly fits
  rw [(fields_of_understood portable fits read enough settled leaves).2]
  show (assigned {} (_ ++ _ ++ (behindLink s.extensions .raw ip.packet fuel 0).log)).vlanId = _
  rw [assigned_append, assigned_keepsVlan (keepsVlan_behindLink fuel 0), assigned_append]
  exact assigned_tagAssigns e.tags {}

/-- A frame in which no tag is found is dissected from the fixed header on. -/
theorem dissect_untagged {W : ExtensionWalker} {dl : Datalink} {p : Packet} {link : Link}
    (framed : frame dl p = some link) (other : tagKind link.type = .other) :
    ∃ ws, (∀ flow, (assigned flow ws).vlanId = flow.vlanId) ∧ ∀ fuel,
      dissect W dl p (fuel + 1) =
        emits ws >>= fun _ => behindLink W dl p (fuel + 1) link.l2Len := by
  refine ⟨(datalink dl p).log ++ (if link.vlanPacket then [.count .vlan, .set .tunnelNone]
    else [.set .tunnelNone]), fun flow => ?_, fun fuel => ?_⟩
  · rw [assigned_append, assigned_datalink]
    split <;> rfl
  · rw [dissect_of_frame framed, decapsulate_succ]
    simp only [other, pure_bind, linkEnd_bind, emits_bind, List.append_assoc]

theorem vlanId_of_untagged {p : Packet} {link : Link} (framed : frame cfg.dlType p = some link)
    (other : tagKind link.type = .other) (leaves : Leaves cfg s t p flow) : flow.vlanId = 0 := by
  obtain ⟨ws, untouched, dissected⟩ := dissect_untagged (W := s.extensions) framed other
  obtain ⟨fuel, ended, rfl⟩ := leaves.dissected
  cases fuel with
  | zero =>
    rw [dissect_of_frame framed] at ended
    exact absurd rfl ended
  | succ fuel =>
    rw [(template_fields _ _ _).2, dissected, emits_bind, assigned_append,
      assigned_keepsVlan (keepsVlan_behindLink _ _), untouched]

theorem version_of_untagged {p : Packet} {link : Link} (framed : frame cfg.dlType p = some link)
    (other : tagKind link.type = .other) (plain : inner s.extensions p link.l2Len = none)
    (leaves : Leaves cfg s t p flow) : flow.ipVersion = ipV p link.l2Len := by
  obtain ⟨ws, _, dissected⟩ := dissect_untagged (W := s.extensions) framed other
  have alone := version_of_behindLink cfg.dlType plain 0 (assigned {} ws)
  have ended : (dissect s.extensions cfg.dlType p 1).outcome ≠ .spun := by
    rw [dissected]
    exact alone.2
  rw [leaves.eq ended, (template_fields _ _ _).1, dissected, emits_bind, assigned_append]
  exact alone.1

theorem version_of_unframed {p : Packet} (refused : frame cfg.dlType p = none)
    (leaves : Leaves cfg s t p flow) : flow.ipVersion = 0 := by
  have dissected : dissect s.extensions cfg.dlType p 0 = ⟨.left, (datalink cfg.dlType p).log⟩ := by
    show linkLayer cfg.dlType p 0 >>= behindLink s.extensions cfg.dlType p 0 = _
    rw [linkLayer_of_unframed refused]
    rfl
  have ended : (dissect s.extensions cfg.dlType p 0).outcome ≠ .spun := by
    rw [dissected]
    exact nofun
  rw [leaves.eq ended, (template_fields _ _ _).1, dissected, assigned_datalink]

end

/-! ## Frames that are not understood -/

/-- An IPv4 packet without payload, and an IPv6 packet with a flow label. -/
def probe4 : IpPacket where
  data := behind (Frames.ipv4 1 (Frames.host 1) (Frames.host 2) []) fun _ => 0
  captured := 20
  length := 20
  version := .inl rfl

def probe6 : IpPacket where
  data := behind ([0x60, 0, 0, 1, 0, 0, 58, 64] ++ List.replicate 15 0 ++ [1] ++
    List.replicate 15 0 ++ [2]) fun _ => 0
  captured := 40
  length := 40
  version := .inr rfl

section
variable {W : ExtensionWalker}

theorem inner_of_protocol {p : Packet} {l2Len : Nat} (other : (segment W p l2Len).protocol ≠ 17) :
    inner W p l2Len = none := by
  unfold inner innerOf tunnelled
  simp [other]

theorem inner_probe4 : inner W probe4.packet 0 = none := by
  refine inner_of_protocol ?_
  have four : ipV probe4.packet 0 = 4 := rfl
  rw [segment, if_pos four]
  show probe4.data 9 ≠ 17
  decide

theorem inner_probe6 : inner W probe6.packet 0 = none := by
  have six : ipV probe6.packet 0 ≠ 4 := by decide
  have empty : be16 probe6.packet.data (0 + 4) = 0 := by decide
  unfold inner innerOf tunnelled
  rw [segment, if_neg six, empty]
  simp

theorem fits_of_plain {e : Encapsulation} {ip : IpPacket} (plain : inner W ip.packet 0 = none)
    (short : ip.captured ≤ 40) : e.Fits W ip where
  captured := by
    have := e.room
    unfold Encapsulation.headerLen
    omega
  tunnels := .last (fun continues => absurd plain continues) plain

/-- What the dissector finds of tags that it takes for an IP header. -/
structure Mistaken (p : Packet) (ip : IpPacket) (tci : UInt16) (rest : List UInt16) : Prop where
  version : ipV p 16 = tci.toNat / 256 / 16
  last : rest = [] → ∀ i, p.data (16 + (4 + i)) = ip.data i
  more : ∀ next rest', rest = next :: rest' → be16 p.data (16 + 6) = outerType ip.etherType rest'

theorem mistaken_cooked {e : Encapsulation} {ip : IpPacket} {tci : UInt16} {rest : List UInt16}
    (dlType : e.link.dlType = .linuxSll) (tags : e.tags = tci :: rest) :
    Mistaken (e.frame ip) ip tci rest := by
  have follows := frame_data e ip
  rw [dlType, tags] at follows
  simp only [Datalink.headerLen, tagBytes, List.append_assoc] at follows
  obtain ⟨control, behind⟩ := be_pair ip.data _ _ tci.toNat_lt follows
  obtain ⟨_, behind⟩ := be_pair ip.data _ _ (outerType_small ip rest) behind
  constructor
  · have first : (e.frame ip).data 16 = UInt8.ofNat (tci.toNat / 256) := by
      rw [show (e.frame ip).data 16 = _ from follows 0]
      rfl
    have small := tci.toNat_lt
    unfold ipV
    rw [first, UInt8.toNat_ofNat']
    omega
  · rintro rfl i
    rw [← Nat.add_assoc, behind]
    simp [tagBytes]
  · rintro next rest' rfl
    simp only [tagBytes, List.append_assoc] at behind
    obtain ⟨_, behind⟩ := be_pair ip.data _ _ next.toNat_lt behind
    exact (be_pair ip.data _ _ (outerType_small ip rest') behind).1

theorem outerType_cases (ip : IpPacket) (tags : List UInt16) :
    outerType ip.etherType tags = 0x8100 ∨ outerType ip.etherType tags = 0x0800 ∨
      outerType ip.etherType tags = 0x86dd := by
  cases tags with
  | nil => exact .inr (etherType_small ip)
  | cons tci tags => exact .inl rfl

/-- Protocols that the walk over extension headers looks behind or refuses. -/
def extensionHeaders : List UInt8 := [0, 43, 44, 59, 60, 135]

/-- The walk stops at every other protocol. -/
def Stops (W : ExtensionWalker) : Prop :=
  ∀ m l3Len l4 l4Len proto, proto ∉ extensionHeaders →
    (W.walk m l3Len l4 l4Len proto).nextHeader = proto

variable {p : Packet} {tci : UInt16} {rest : List UInt16}

/-- Tags taken for an IPv4 header are taken for a fragment. -/
theorem inner_mistaken6 (mistaken : Mistaken p probe6 tci rest) (four : ipV p 16 = 4) :
    inner W p 16 = none := by
  have fragment : be16 p.data (16 + 6) % 0x4000 ≠ 0 := by
    cases rest with
    | nil =>
      rw [show be16 p.data (16 + 6) = be16 probe6.data 2 from
        be16_congr (mistaken.last rfl 2) (mistaken.last rfl 3)]
      decide
    | cons next rest =>
      rw [mistaken.more next rest rfl]
      rcases outerType_cases probe6 rest with type | type | type <;> rw [type] <;> decide
  refine if_neg fun accepted => ?_
  rcases accepted.1 with four' | six
  · exact fragment four'.2.2.1
  · have := six.1
    omega

/-- Tags taken for an IPv6 header are taken for no tunnel. -/
theorem inner_mistaken4 (stops : Stops W) (mistaken : Mistaken p probe4 tci rest)
    (other : ipV p 16 ≠ 4) (cap : p.cap = 40 + 4 * rest.length) : inner W p 16 = none := by
  by_cases six : ipV p 16 = 6
  swap
  · refine if_neg fun accepted => ?_
    rcases accepted.1 with four | six'
    · exact other four.1
    · exact six six'.1
  cases rest with
  | nil =>
    refine if_neg fun accepted => ?_
    have room := accepted.2
    rw [segment, if_neg other] at room
    simp only [List.length_nil] at cap room
    omega
  | cons next rest =>
    have type := mistaken.more next rest rfl
    have low := (p.data (16 + 6 + 1)).toNat_lt
    have first : (p.data (16 + 6)).toNat = 0x81 ∨ (p.data (16 + 6)).toNat = 0x08 ∨
        (p.data (16 + 6)).toNat = 0x86 := by
      unfold be16 at type
      rcases outerType_cases probe4 rest with known | known | known <;> rw [known] at type <;> omega
    have protocol : p.data (16 + 6) ∉ extensionHeaders ∧ p.data (16 + 6) ≠ 17 := by
      constructor
      · intro member
        simp only [extensionHeaders, List.mem_cons, List.not_mem_nil, or_false] at member
        rcases member with same | same | same | same | same | same <;> rw [same] at first <;>
          revert first <;> decide
      · intro same
        rw [same] at first
        revert first
        decide
    refine inner_of_protocol ?_
    rw [segment, if_neg other]
    simp only [walkedAt]
    rw [stops _ _ _ _ _ protocol.1]
    exact protocol.2

end

/-! ## Independence of the link layer -/

section
variable {cfg : CaptureConfig} {s : CaptureServices} {t : CaptureThread} {e e' : Encapsulation}

/-- A packet without tunnels gets one version either way. -/
theorem version_of_interchangeable (portable : Portable s.extensions) (read : e.Understood)
    (same : Interchangeable cfg s t e e') (ip : IpPacket) (short : ip.captured ≤ 40)
    (plain : inner s.extensions ip.packet 0 = none) : ∃ flow,
      Leaves (capturing cfg e') s t (e'.frame ip) flow ∧ flow.ipVersion = ipV ip.packet 0 := by
  have fits : e.Fits s.extensions ip := fits_of_plain plain short
  obtain ⟨flow, flow', leaves, leaves', same⟩ := same ip fits (fits_of_plain plain short)
  refine ⟨flow', leaves', ?_⟩
  rw [← same.ipVersion]
  exact version_of_understood portable fits read plain leaves

/-- Behind a cooked header no tag is found. -/
theorem not_interchangeable_cooked (portable : Portable s.extensions) (stops : Stops s.extensions)
    (read : e.Understood) {fields : List UInt8} {width : fields.length = 14}
    (link : e'.link = .cooked fields width) (tagged : e'.tags ≠ []) :
    ¬ Interchangeable cfg s t e e' := by
  intro same
  obtain ⟨tci, rest, tags⟩ := List.exists_cons_of_ne_nil tagged
  have dlType : e'.link.dlType = .linuxSll := by rw [link]; rfl
  have headerLen : e'.headerLen = 20 + 4 * rest.length := by
    simp only [Encapsulation.headerLen, dlType, tags, Datalink.headerLen, List.length_cons]
    omega
  have small := e'.room
  rw [dlType, tags] at small
  simp only [Datalink.headerLen, List.length_cons] at small
  have framed : ∀ ip : IpPacket, ip.captured ≤ 40 →
      frame e'.link.dlType (e'.frame ip) = some ⟨0x81, 16, false⟩ := by
    intro ip short
    rw [frame_cooked link (by omega), tags]
    show some (Link.mk (EtherType.vlan / 256 + EtherType.vlan % 256 * 256) 16 false) = _
    rfl
  have mistaken : ∀ ip, Mistaken (e'.frame ip) ip tci rest := fun ip =>
    mistaken_cooked dlType tags
  by_cases four : tci.toNat / 256 / 16 = 4
  · have version := (mistaken probe6).version.trans four
    obtain ⟨flow, leaves, six⟩ := version_of_interchangeable portable read same probe6
      (Nat.le_refl 40) inner_probe6
    have taken := version_of_untagged (framed probe6 (Nat.le_refl 40)) rfl
      (inner_mistaken6 (mistaken probe6) version) leaves
    rw [six, version] at taken
    exact absurd taken (by decide)
  · have version : ipV (e'.frame probe4) 16 ≠ 4 := by
      rw [(mistaken probe4).version]
      exact four
    have cap : (e'.frame probe4).cap = 40 + 4 * rest.length := by
      rw [frame_cap, headerLen]
      · show _ + 20 = _
        omega
      · show _ + 20 < _
        omega
    obtain ⟨flow, leaves, found⟩ := version_of_interchangeable portable read same probe4
      (by decide) inner_probe4
    have taken := version_of_untagged (framed probe4 (by decide)) rfl
      (inner_mistaken4 stops (mistaken probe4) version cap) leaves
    rw [found] at taken
    exact version taken.symm

/-- A family in the byte order of the host is not recognised. -/
theorem not_interchangeable_host (portable : Portable s.extensions) (read : e.Understood)
    {inet6 : UInt8} {known} (link : e'.link = .loopback .host inet6 known) :
    ¬ Interchangeable cfg s t e e' := by
  intro same
  have room := e'.room
  have captured : e'.headerLen + probe4.captured < 65536 := by
    show e'.headerLen + 20 < 65536
    unfold Encapsulation.headerLen
    omega
  have unframed : frame e'.link.dlType (e'.frame probe4) = none := by
    rw [frame_loopback link captured]
    exact if_neg nofun
  obtain ⟨flow, leaves, found⟩ := version_of_interchangeable portable read same probe4
    (by decide) inner_probe4
  rw [version_of_unframed unframed leaves] at found
  exact absurd found (by decide)

/-- **Link-layer independence.** A way to send packets can be exchanged for one
that is understood exactly when it is understood itself. -/
theorem interchangeable_iff (portable : Portable s.extensions) (stops : Stops s.extensions)
    (tags : e.tags = e'.tags) (read : e.Understood) :
    Interchangeable cfg s t e e' ↔ e'.Understood := by
  constructor
  · intro same
    unfold Encapsulation.Understood
    cases link : e'.link with
    | ethernet addrs => trivial
    | cooked fields width =>
      by_contra tagged
      exact not_interchangeable_cooked portable stops read link tagged same
    | loopback order inet6 known =>
      cases order with
      | network => rfl
      | host => exact absurd same (not_interchangeable_host portable read link)
    | raw => trivial
  · exact interchangeable_of_understood portable tags read

/-- **No packet on a VLAN gets its flow behind a cooked header.** -/
theorem tags_lost (portable : Portable s.extensions) (tags : e.tags = e'.tags)
    (read : e.Understood) {fields : List UInt8} {width : fields.length = 14}
    (link : e'.link = .cooked fields width) (vlan : innermost e.tags ≠ 0) {ip : IpPacket}
    (fits : e.Fits s.extensions ip) (captured : e'.headerLen + ip.captured < 65536)
    {flow flow' : Flow} (leaves : Leaves (capturing cfg e) s t (e.frame ip) flow)
    (leaves' : Leaves (capturing cfg e') s t (e'.frame ip) flow') : ¬ SameFlow flow flow' := by
  intro same
  have found := vlanId_of_understood portable fits read leaves
  have lost : flow'.vlanId = 0 := by
    cases stack : e'.tags with
    | nil =>
      rw [tags, stack] at vlan
      exact absurd rfl vlan
    | cons tci rest =>
      have framed := frame_cooked link captured
      rw [stack] at framed
      have other : tagKind (EtherType.vlan / 256 + EtherType.vlan % 256 * 256) = .other := by decide
      have hidden : Leaves (capturing cfg e') s t (e'.frame ip) flow' → flow'.vlanId = 0 :=
        vlanId_of_untagged framed other
      exact hidden leaves'
  exact vlan (by rw [← found, same.vlanId, lost])

end

/-! ## One packet in several frames -/

def hosts : EtherAddrs where
  dst := Frames.mac 2
  src := Frames.mac 1
  dst_width := rfl
  src_width := rfl
  dst_host := by decide
  src_host := by decide

def ethernet (tags : List UInt16) (few : tags.length < 16000) : Encapsulation where
  link := .ethernet hosts
  tags := tags
  tagged := fun _ => trivial
  room := by
    show 14 + 4 * tags.length + 40 < 65536
    omega

def cooked (tags : List UInt16) (few : tags.length < 16000) : Encapsulation where
  link := .cooked ([0, 0, 0, 1, 0, 6] ++ Frames.mac 1 ++ [0, 0]) rfl
  tags := tags
  tagged := fun _ => trivial
  room := by
    show 16 + 4 * tags.length + 40 < 65536
    omega

def loopback (order : ByteOrder) : Encapsulation where
  link := .loopback order 30 (.inr (.inr rfl))
  tagged := fun tagged => absurd rfl tagged
  room := by
    show 4 + 4 * 0 + 40 < 65536
    decide

/-- A UDP packet from the first host to the second. -/
def query : IpPacket where
  data := behind (Frames.ipv4 17 (Frames.host 1) (Frames.host 2) (Frames.udp 4000 53 [])) fun _ => 0
  captured := 28
  length := 28
  version := .inl rfl

theorem cooked_like_ethernet : ∃ flow flow',
    Leaves (capturing (Frames.eth0 .en10mb) (ethernet [] (by decide))) Frames.services {}
      ((ethernet [] (by decide)).frame query) flow ∧
    Leaves (capturing (Frames.eth0 .en10mb) (cooked [] (by decide))) Frames.services {}
      ((cooked [] (by decide)).frame query) flow' ∧ SameFlow flow flow' := by
  have plain : inner .none query.packet 0 = none := by decide
  have same : Interchangeable (Frames.eth0 .en10mb) Frames.services {} (ethernet [] (by decide))
      (cooked [] (by decide)) ↔ _ :=
    interchangeable_iff (fun _ => rfl) (fun _ _ _ _ _ _ => rfl) rfl trivial
  exact same.mpr rfl query (fits_of_plain plain (by decide)) (fits_of_plain plain (by decide))

theorem leaves_of_any (cfg : CaptureConfig) (s : CaptureServices) (t : CaptureThread) (p : Packet)
    (n : Nat) (P : Flow → Prop) [DecidablePred P]
    (ran : (CaptureThread.processPacket cfg s n p { t with flow := {} }).any
      (fun t' => P t'.flow) = true) : ∃ flow, Leaves cfg s t p flow ∧ P flow := by
  obtain ⟨t', taken, holds⟩ := (Option.any_eq_true _ _).mp ran
  exact ⟨t'.flow, ⟨n, t', taken, rfl⟩, of_decide_eq_true holds⟩

/-- Behind a cooked header the tag of VLAN 5 is not found, and a loopback frame
of the capturing host is not read at all. -/
theorem cooked_tag_missed : ∃ flow flow' flow'',
    Leaves (capturing (Frames.eth0 .en10mb) (ethernet [5] (by decide))) Frames.services {}
      ((ethernet [5] (by decide)).frame query) flow ∧
    Leaves (capturing (Frames.eth0 .en10mb) (cooked [5] (by decide))) Frames.services {}
      ((cooked [5] (by decide)).frame query) flow' ∧
    Leaves (capturing (Frames.eth0 .en10mb) (loopback .host)) Frames.services {}
      ((loopback .host).frame query) flow'' ∧
    flow.vlanId = 5 ∧ flow.ipVersion = 4 ∧ flow'.vlanId = 0 ∧ flow'.ipVersion = 0 ∧
    flow''.ipVersion = 0 ∧ ¬ SameFlow flow flow' ∧ ¬ SameFlow flow flow'' := by
  obtain ⟨flow, leaves, found⟩ := leaves_of_any _ Frames.services {}
    ((ethernet [5] (by decide)).frame query) 3 (fun flow => flow.vlanId = 5 ∧ flow.ipVersion = 4)
    (show (CaptureThread.processPacket (capturing (Frames.eth0 .en10mb) (ethernet [5] (by decide)))
      _ _ _ _).any _ = true by decide +kernel)
  obtain ⟨flow', leaves', lost⟩ := leaves_of_any _ Frames.services {}
    ((cooked [5] (by decide)).frame query) 3 (fun flow => flow.vlanId = 0 ∧ flow.ipVersion = 0)
    (show (CaptureThread.processPacket (capturing (Frames.eth0 .en10mb) (cooked [5] (by decide)))
      _ _ _ _).any _ = true by decide +kernel)
  obtain ⟨flow'', leaves'', unread⟩ := leaves_of_any _ Frames.services {}
    ((loopback .host).frame query) 3 (fun flow => flow.ipVersion = 0)
    (show (CaptureThread.processPacket (capturing (Frames.eth0 .en10mb) (loopback .host))
      _ _ _ _).any _ = true by decide +kernel)
  refine ⟨flow, flow', flow'', leaves, leaves', leaves'', found.1, found.2, lost.1, lost.2, unread,
    fun same => ?_, fun same => ?_⟩
  · have version := same.ipVersion
    omega
  · have version := same.ipVersion
    omega

end NetifyAgent.LinkIndependence
