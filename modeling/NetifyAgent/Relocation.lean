import NetifyAgent.TemplateKey

/-! An IP packet behind the bytes of a link-layer header. The dissector reads the
same headers at another offset, up to the sixteen bits that it counts offsets
with: it assigns the same values to the template, but for the hardware
addresses, and ends alike. -/
namespace NetifyAgent
open NetifyAgent.Bytes NetifyAgent.Dissection

/-- The second packet carries the first one behind `base` bytes. -/
structure Carried (q p : Packet) (base : Nat) : Prop where
  data : ∀ i, p.data (base + i) = q.data i
  cap : p.cap = base + q.cap

/-- The walk over extension headers depends on the bytes from `*l4ptr` on. -/
def Portable (W : ExtensionWalker) : Prop :=
  ∀ {m m' : Memory} {l3Len l4 l4' l4Len : Nat} {proto : UInt8},
    (∀ i, m' (l4' + i) = m (l4 + i)) →
      W.walk m' l3Len l4' l4Len proto = W.walk m l3Len l4 l4Len proto

/-- The assignments that are not to the hardware addresses. -/
def netAssign : Op → Option Assign
  | .set (.createHw _ _) => none
  | .set a => some a
  | _ => none

def IpHeader.move (base : Nat) (ip : IpHeader) : IpHeader :=
  { ip with l2Len := base + ip.l2Len, l4 := base + ip.l4 }

def Locals.move (base : Nat) (kept : Locals) : Locals :=
  { kept with gtpv1 := kept.gtpv1.map (base + ·) }

@[simp] theorem Locals.move_fragOff (base : Nat) (kept : Locals) :
    (kept.move base).fragOff = kept.fragOff := rfl

@[simp] theorem Locals.move_addrCmp (base : Nat) (kept : Locals) :
    (kept.move base).addrCmp = kept.addrCmp := rfl

def Segment.move (base : Nat) (s : Segment) : Segment := { s with l4 := base + s.l4 }

/-- Where a GTPv1 header ends, before the code cuts it to sixteen bits. -/
def gtpEnd (p : Packet) (off : Nat) : Nat :=
  let flags := (p.data off).toNat
  off + 8 + flags / 4 % 2 + flags / 2 % 2 * 4 + flags % 2

/-- The header in the tunnel behind a header is in the reach of `l2_len`. -/
def InReach (W : ExtensionWalker) (q : Packet) (base l2Len : Nat) : Prop :=
  inner W q l2Len ≠ none → base + gtpEnd q ((segment W q l2Len).l4 + 8) < 65536

section
variable {W : ExtensionWalker} {dl dl' : Datalink} {q p : Packet} {base : Nat}

/-! ## Bytes -/

theorem Carried.be16 (carried : Carried q p base) (off : Nat) :
    be16 p.data (base + off) = be16 q.data off := by
  refine be16_congr (carried.data off) ?_
  rw [Nat.add_assoc, carried.data]

theorem Carried.le16 (carried : Carried q p base) (off : Nat) :
    le16 p.data (base + off) = le16 q.data off := by
  refine le16_congr (carried.data off) ?_
  rw [Nat.add_assoc, carried.data]

theorem Carried.slice (carried : Carried q p base) (off n : Nat) :
    slice p.data (base + off) n = slice q.data off n := by
  refine slice_congr fun i _ => ?_
  rw [Nat.add_assoc, carried.data]

/-! ## Steps that the view does not show -/

section
variable {c c' : Prop} [Decidable c] [Decidable c']

theorem alike_discardIf : Alike netAssign (fun _ _ => True) (discardIf c) (discardIf c') := by
  refine alike_emits ?_
  split <;> split <;> rfl

theorem alike_readIf {off len off' len' : Nat} :
    Alike netAssign (fun _ _ => True) (readIf c off len) (readIf c' off' len') := by
  refine alike_emits ?_
  split <;> split <;> rfl

theorem alike_reject {α β : Type} {R : α → β → Prop} :
    Alike netAssign R (reject : Dissect Op α) (reject : Dissect Op β) := ⟨rfl, .left⟩

theorem alike_rejectIf (same : c ↔ c') :
    Alike netAssign (fun _ _ => True) (rejectIf c) (rejectIf c') := by
  unfold rejectIf
  by_cases holds : c
  · rw [if_pos holds, if_pos (same.mp holds)]
    exact alike_reject
  · rw [if_neg holds, if_neg (holds ∘ same.mpr)]
    exact alike_pure trivial

end

theorem netAssign_read (off len : Nat) (ws : List Op) :
    (.read off len :: ws).filterMap netAssign = ws.filterMap netAssign := rfl

theorem netAssign_reads (reads : List Nat) (f : Nat → Nat) :
    (reads.map fun r => Op.read (f r) 1).filterMap netAssign = [] := by
  induction reads with
  | nil => rfl
  | cons r reads ih => exact ih

theorem netAssign_assignAddrs (create : Side → List UInt8 → Assign)
    (shown : ∀ side bytes, netAssign (.set (create side bytes)) = some (create side bytes))
    (dl : Datalink) (p : Packet) (addrCmp : Int) (src dst : List UInt8) :
    (assignAddrs create dl p addrCmp src dst).filterMap netAssign =
      [create .lower (ordered addrCmp src dst).1, create .upper (ordered addrCmp src dst).2] := by
  unfold assignAddrs
  simp only [List.filterMap_append, List.filterMap_cons, shown, List.filterMap_nil]
  split <;> rfl

/-! ## IP headers -/

theorem alike_ip4Header (carried : Carried q p base) (l2Len : Nat) (kept : Locals) :
    Alike netAssign (fun ip ip' => ip' = ip.move base) (ip4Header dl q l2Len kept)
      (ip4Header dl' p (base + l2Len) (kept.move base)) := by
  have gap : (p.cap : Int) - (base + l2Len : Nat) = (q.cap : Int) - l2Len := by
    rw [carried.cap]
    push_cast
    omega
  have captured : base + l2Len ≤ p.cap ↔ l2Len ≤ q.cap := by
    rw [carried.cap]
    omega
  have frag : ip4FragOff p (base + l2Len) (kept.move base).fragOff =
      ip4FragOff q l2Len kept.fragOff := by
    unfold ip4FragOff
    rw [Nat.add_assoc, carried.be16]
    simp only [captured, Locals.move]
  have hl : ipHl p (base + l2Len) = ipHl q l2Len := by
    unfold ipHl
    rw [carried.data]
  have len : ip4L4Len p (base + l2Len) = ip4L4Len q l2Len := by
    unfold ip4L4Len
    rw [Nat.add_assoc, carried.be16, hl]
  unfold ip4Header
  simp only [frag, hl, len, gap, Nat.add_assoc, carried.data, carried.slice]
  refine alike_bind (alike_emits rfl) fun _ _ _ _ => alike_bind alike_readIf fun _ _ _ _ => ?_
  refine alike_bind (alike_rejectIf Iff.rfl) fun _ _ _ _ => ?_
  split
  · exact alike_bind (alike_emit rfl) fun _ _ _ _ => alike_reject
  split
  · exact alike_bind (alike_emit rfl) fun _ _ _ _ => alike_reject
  refine alike_bind (alike_rejectIf Iff.rfl) fun _ _ _ _ => ?_
  refine alike_bind (alike_emits ?_) fun _ _ _ _ => alike_pure ?_
  · simp only [netAssign_read, netAssign_assignAddrs .createIn fun _ _ => rfl]
  · rfl

theorem compareWords_carried (carried : Carried q p base) (src dst words : Nat) :
    compareWords p.data (base + src) (base + dst) words = compareWords q.data src dst words := by
  induction words generalizing src dst with
  | zero => rfl
  | succ words ih =>
    unfold compareWords
    rw [carried.slice, carried.slice, Nat.add_assoc, Nat.add_assoc, ih]

theorem alike_ip6Header (portable : Portable W) (carried : Carried q p base) (l2Len : Nat)
    (kept : Locals) :
    Alike netAssign (fun ip ip' => ip' = ip.move base) (ip6Header W dl q l2Len kept)
      (ip6Header W dl' p (base + l2Len) (kept.move base)) := by
  have walked : W.walk p.data 40 (base + (l2Len + 40)) (be16 q.data (l2Len + 4))
      (q.data (l2Len + 6)) = W.walk q.data 40 (l2Len + 40) (be16 q.data (l2Len + 4))
        (q.data (l2Len + 6)) := portable fun i => by rw [Nat.add_assoc, carried.data]
  unfold ip6Header
  simp only [Nat.add_assoc, carried.data, carried.slice, carried.be16, walked,
    compareWords_carried carried]
  refine alike_bind (alike_emits ?_) fun _ _ _ _ => ?_
  · simp only [List.filterMap_append, netAssign_reads]
    rfl
  refine alike_bind (alike_rejectIf Iff.rfl) fun _ _ _ _ => ?_
  refine alike_bind (alike_emits ?_) fun _ _ _ _ => alike_pure ?_
  · simp only [netAssign_read, netAssign_assignAddrs .createIn6 fun _ _ => rfl]
    rfl
  · simp only [IpHeader.move]
    rfl

theorem ipV_carried (carried : Carried q p base) (l2Len : Nat) :
    ipV p (base + l2Len) = ipV q l2Len := by
  unfold ipV
  rw [carried.data]

theorem alike_ipHeader (portable : Portable W) (carried : Carried q p base) (l2Len : Nat)
    (kept : Locals) :
    Alike netAssign (fun ip ip' => ip' = ip.move base) (ipHeader W dl q l2Len kept)
      (ipHeader W dl' p (base + l2Len) (kept.move base)) := by
  unfold ipHeader
  rw [ipV_carried carried]
  refine alike_bind alike_discardIf fun _ _ _ _ => alike_bind (alike_emits rfl) fun _ _ _ _ => ?_
  refine alike_bind (R := fun ip ip' => ip' = ip.move base) ?_ fun ip ip' _ moved => ?_
  · unfold ipVersionHeader
    rw [ipV_carried carried]
    split
    · exact alike_ip4Header carried l2Len kept
    split
    · exact alike_ip6Header portable carried l2Len kept
    · exact alike_reject
  · subst moved
    refine alike_bind (alike_rejectIf ?_) fun _ _ _ _ => alike_pure rfl
    rw [carried.cap]
    simp only [IpHeader.move]
    omega

/-! ## Tunnels -/

theorem gtpInner_carried (carried : Carried q p base) {off : Nat}
    (reach : base + gtpEnd q off < 65536) : gtpInner p (base + off) = base + gtpInner q off := by
  unfold gtpEnd at reach
  unfold gtpInner
  rw [carried.data]
  simp only at reach ⊢
  omega

theorem tunnelled_carried (carried : Carried q p base) (s : Segment) :
    tunnelled p (s.move base) ↔ tunnelled q s := by
  unfold tunnelled
  simp only [Segment.move, Nat.add_assoc, carried.be16]

theorem innerOf_carried (carried : Carried q p base) {s : Segment}
    (reach : innerOf q s ≠ none → base + gtpEnd q (s.l4 + 8) < 65536) :
    innerOf p (s.move base) = (innerOf q s).map (base + ·) := by
  have version : gtpVersion p (base + (s.l4 + 8)) = gtpVersion q (s.l4 + 8) := by
    unfold gtpVersion
    rw [carried.data]
  unfold innerOf at reach ⊢
  simp only [tunnelled_carried carried]
  simp only [Segment.move, Nat.add_assoc, version, carried.data]
  split
  · rename_i tunnel
    rw [gtpInner_carried carried (reach (by simp [tunnel]))]
    rfl
  · rfl

theorem netAssign_gtpOps (carried : Carried q p base) (s : Segment) :
    (gtpOps p (s.move base)).filterMap netAssign = (gtpOps q s).filterMap netAssign := by
  have version : gtpVersion p (base + (s.l4 + 8)) = gtpVersion q (s.l4 + 8) := by
    unfold gtpVersion
    rw [carried.data]
  unfold gtpOps
  simp only [tunnelled_carried carried]
  simp only [Segment.move, Nat.add_assoc, version, carried.be16]
  split
  · simp only [netAssign_read, List.filterMap_append]
    split <;> split <;> try split
    all_goals rfl
  · rfl

theorem alike_gtp (carried : Carried q p base) (ip : IpHeader) (gtpv1 : Option Nat)
    (reach : ∀ found next, (gtp q ip gtpv1).outcome = .ok (found, some next) →
      base + gtpEnd q (ip.l4 + 8) < 65536) :
    Alike netAssign (fun t t' => t' = (t.1.map (base + ·), t.2.map (base + ·))) (gtp q ip gtpv1)
      (gtp p (ip.move base) (gtpv1.map (base + ·))) := by
  let s : Segment := ⟨ip.l3Len, ip.ipProtocol, ip.l4, ip.l4Len⟩
  have before : gtp q ip gtpv1 = _ := gtp_eq (s := s) rfl rfl rfl gtpv1
  rw [before] at reach ⊢
  have l4 : (ip.move base).l4 = (s.move base).l4 := rfl
  rw [gtp_eq l4 rfl rfl]
  refine ⟨(netAssign_gtpOps carried s).symm, .ok ?_⟩
  refine Prod.ext ?_ (innerOf_carried carried fun continues => ?_)
  · unfold gtpv1After
    simp only [tunnelled_carried carried]
    split
    · simp only [Option.map_some, Segment.move, Nat.add_assoc]
    · rfl
  · obtain ⟨next, found⟩ := Option.ne_none_iff_exists'.mp continues
    exact reach _ next (by rw [found])

/-- **Every header is found again**, as long as the tunnels stay in reach. -/
theorem alike_processIp (portable : Portable W) (carried : Carried q p base) {l2Len : Nat}
    (walk : HeaderWalk W q (InReach W q base) l2Len) (fuel : Nat) (kept : Locals) :
    Alike netAssign (fun r r' => r' = (r.1.move base, r.2.map (base + ·)))
      (processIp W dl q fuel l2Len kept)
      (processIp W dl' p fuel (base + l2Len) (kept.move base)) := by
  induction fuel generalizing l2Len kept with
  | zero => exact alike_spin
  | succ fuel ih =>
    unfold processIp
    refine alike_bind (alike_ipHeader portable carried l2Len kept) fun ip ip' decoded moved => ?_
    subst moved
    have accepted : Accepted W q l2Len := by
      by_contra refused
      rw [ipHeader_refused refused] at decoded
      cases decoded
    rw [ipHeader_accepted accepted] at decoded
    cases decoded
    have looked : gtp q (headerAt W q l2Len kept) kept.gtpv1 = _ :=
      gtp_eq (s := segment W q l2Len) rfl rfl rfl _
    have behind : inner W q l2Len = innerOf q (segment W q l2Len) := if_pos accepted
    refine alike_bind (alike_gtp carried _ _ ?_) fun tunnel tunnel' found moved => ?_
    · intro found next continues
      rw [looked] at continues
      have tunnel : innerOf q (segment W q l2Len) = some next :=
        congrArg Prod.snd (Outcome.ok.inj continues)
      refine walk.first ?_
      rw [behind, tunnel]
      exact Option.some_ne_none next
    subst moved
    rw [looked] at found
    have continues : innerOf q (segment W q l2Len) = tunnel.2 :=
      congrArg Prod.snd (Outcome.ok.inj found)
    rw [← behind] at continues
    obtain ⟨gtpv1, next⟩ := tunnel
    simp only at continues
    cases next with
    | none => exact alike_pure rfl
    | some next =>
      have rest := ((headerWalk_tunnel continues).mp walk).2
      exact ih rest _

/-! ## The transport header -/

theorem alike_assignPorts (carried : Carried q p base) (ip : IpHeader) :
    (assignPorts q ip).filterMap netAssign =
      (assignPorts p (ip.move base)).filterMap netAssign := by
  have ports : orderedPorts p (ip.move base) = orderedPorts q ip := by
    unfold orderedPorts
    simp only [IpHeader.move, Nat.add_assoc, carried.le16]
  unfold assignPorts
  simp only [netAssign_read, ports]

theorem alike_tcpHeader (carried : Carried q p base) (ip : IpHeader) :
    Alike netAssign (fun _ _ => True) (tcpHeader q ip) (tcpHeader p (ip.move base)) := by
  have size : thOff p (base + ip.l4) = thOff q ip.l4 := by
    unfold thOff
    rw [Nat.add_assoc, carried.data]
  unfold tcpHeader
  refine alike_bind (alike_emit rfl) fun _ _ _ _ => ?_
  refine alike_bind (alike_rejectIf Iff.rfl) fun _ _ _ _ => ?_
  refine alike_bind (alike_emit rfl) fun _ _ _ _ => ?_
  simp only [IpHeader.move, size]
  refine alike_bind (alike_rejectIf Iff.rfl) fun _ _ _ _ => ?_
  exact alike_bind (alike_emits (alike_assignPorts carried ip)) fun _ _ _ _ => alike_pure trivial

theorem alike_udpHeader (carried : Carried q p base) (ip : IpHeader) :
    Alike netAssign (fun _ _ => True) (udpHeader q ip) (udpHeader p (ip.move base)) := by
  have ulen : be16 p.data (base + ip.l4 + 4) = be16 q.data (ip.l4 + 4) := by
    rw [Nat.add_assoc, carried.be16]
  unfold udpHeader
  refine alike_bind (alike_emit rfl) fun _ _ _ _ => ?_
  refine alike_bind (alike_rejectIf Iff.rfl) fun _ _ _ _ => ?_
  refine alike_bind (alike_emits ?_) fun _ _ _ _ => ?_
  · rw [List.filterMap_append, List.filterMap_append, alike_assignPorts carried ip]
    rfl
  simp only [IpHeader.move, ulen]
  exact alike_bind (alike_rejectIf Iff.rfl) fun _ _ _ _ => alike_pure trivial

theorem alike_transport (carried : Carried q p base) (ip : IpHeader) :
    Alike netAssign (fun _ _ => True) (transport q ip) (transport p (ip.move base)) := by
  unfold transport
  refine alike_ite (fun _ => alike_tcpHeader carried ip) fun _ => ?_
  refine alike_ite (fun _ => alike_udpHeader carried ip) fun _ => ?_
  refine alike_ite (fun _ => ?_) fun _ => alike_ite (fun _ => ?_) fun _ => alike_pure trivial
  · exact alike_bind (alike_emit rfl) fun _ _ _ _ => alike_pure trivial
  · exact alike_bind (alike_emit rfl) fun _ _ _ _ => alike_pure trivial

/-- Behind the link layer the packet that carries another is dissected like it. -/
theorem alike_behindLink_at (portable : Portable W) (carried : Carried q p base) {l2Len : Nat}
    (walk : HeaderWalk W q (InReach W q base) l2Len) (fuel : Nat) :
    Alike netAssign (fun _ _ => True) (behindLink W dl q fuel l2Len)
      (behindLink W dl' p fuel (base + l2Len)) := by
  unfold behindLink
  refine alike_bind (alike_processIp portable carried walk fuel {}) fun r r' _ moved => ?_
  subst moved
  exact alike_bind (alike_transport carried r.1) fun _ _ _ _ => alike_pure trivial

theorem alike_behindLink (portable : Portable W) (carried : Carried q p base)
    (walk : HeaderWalk W q (InReach W q base) 0) (fuel : Nat) :
    Alike netAssign (fun _ _ => True) (behindLink W dl q fuel 0)
      (behindLink W dl' p fuel base) := alike_behindLink_at portable carried walk fuel

end

end NetifyAgent
