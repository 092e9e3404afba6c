import NetifyAgent.Relocation

/-! Dissection behind the link layer looks at no bytes but those it reads. Where it reads only
captured bytes, what lies behind the buffer makes no difference, and no offset is so large that
its sixteen bits wrap. -/
namespace NetifyAgent
open Bytes Dissection

/-- Captured bytes from an offset on are read, and no others. -/
def Behind (p : Packet) (lo : Nat) : Op → Prop
  | .read off len => lo ≤ off ∧ off + len ≤ p.cap
  | _ => True

instance (p : Packet) (lo : Nat) : DecidablePred (Behind p lo)
  | .read off len => inferInstanceAs (Decidable (lo ≤ off ∧ off + len ≤ p.cap))
  | .count _ => .isTrue trivial
  | .discard => .isTrue trivial
  | .reject => .isTrue trivial
  | .set _ => .isTrue trivial

/-- Two packets have the same captured bytes from an offset on. -/
structure SameBytes (q q' : Packet) (lo : Nat) : Prop where
  cap : q'.cap = q.cap
  data : ∀ i, lo ≤ i → i < q.cap → q'.data i = q.data i

namespace SameBytes

section
variable {q q' : Packet} {lo : Nat}

theorem be16 (same : SameBytes q q' lo) {off : Nat} (here : lo ≤ off ∧ off + 2 ≤ q.cap) :
    be16 q'.data off = be16 q.data off :=
  be16_congr (same.data _ here.1 (by omega)) (same.data _ (by omega) (by omega))

theorem le16 (same : SameBytes q q' lo) {off : Nat} (here : lo ≤ off ∧ off + 2 ≤ q.cap) :
    le16 q'.data off = le16 q.data off :=
  le16_congr (same.data _ here.1 (by omega)) (same.data _ (by omega) (by omega))

theorem slice (same : SameBytes q q' lo) {off n : Nat} (here : lo ≤ off ∧ off + n ≤ q.cap) :
    slice q'.data off n = slice q.data off n :=
  slice_congr fun i _ => same.data _ (by omega) (by omega)

theorem compareWords (same : SameBytes q q' lo) {src dst words : Nat}
    (first : lo ≤ src ∧ src + words * 4 ≤ q.cap) (second : lo ≤ dst ∧ dst + words * 4 ≤ q.cap) :
    compareWords q'.data src dst words = compareWords q.data src dst words := by
  induction words generalizing src dst with
  | zero => rfl
  | succ words ih =>
    unfold NetifyAgent.compareWords
    rw [same.slice (by omega), same.slice (by omega), ih (by omega) (by omega)]

end

/-! ## Programs that read the same -/

section
variable {α β : Type} {P : Op → Prop} {c : Prop} [Decidable c]

theorem emits_local {ws : List Op} {f f' : Unit → Dissect Op β}
    (rest : (∀ w ∈ ws, P w) → Every P (f ()) → f' () = f ())
    (every : Every P (emits ws >>= f)) : emits ws >>= f' = emits ws >>= f := by
  obtain ⟨here, later⟩ := (every_emits_bind ws f).mp every
  simp only [emits_bind, rest here later]

theorem readIf_local {off len : Nat} {f f' : Unit → Dissect Op β}
    (rest : (c → P (.read off len)) → Every P (f ()) → f' () = f ())
    (every : Every P (readIf c off len >>= f)) :
    readIf c off len >>= f' = readIf c off len >>= f := by
  refine emits_local (fun here later => rest (fun holds => here _ ?_) later) every
  rw [if_pos holds]
  exact List.mem_singleton_self _

theorem rejectIf_local {f f' : Unit → Dissect Op β}
    (rest : ¬ c → Every P (f ()) → f' () = f ()) (every : Every P (rejectIf c >>= f)) :
    rejectIf c >>= f' = rejectIf c >>= f := by
  rw [rejectIf_bind] at every ⊢
  rw [rejectIf_bind]
  by_cases refused : c
  · rw [if_pos refused, if_pos refused]
  · rw [if_neg refused] at every
    rw [if_neg refused, if_neg refused, rest refused every]

theorem bind_local {x x' : Dissect Op α} {f f' : α → Dissect Op β}
    (first : Every P x → x' = x)
    (rest : ∀ a, x.outcome = .ok a → Every P (f a) → f' a = f a)
    (every : Every P (x >>= f)) : x' >>= f' = x >>= f := by
  obtain ⟨here, later⟩ := every_bind.mp every
  rw [first here]
  cases ended : x.outcome with
  | ok a => rw [bind_of_ok _ ended, bind_of_ok _ ended, rest a ended (later a ended)]
  | left => rw [bind_of_left _ ended, bind_of_left _ ended]
  | spun => rw [bind_of_spun _ ended, bind_of_spun _ ended]

end

/-! ## IP headers -/

section
variable {W : ExtensionWalker} {q q' : Packet} {lo l2Len fuel : Nat} {kept : Locals}

theorem ip4Header (same : SameBytes q q' lo) (here : lo ≤ l2Len ∧ l2Len + 1 ≤ q.cap)
    (every : Every (Behind q lo) (ip4Header .raw q l2Len kept)) :
    ip4Header .raw q' l2Len kept = ip4Header .raw q l2Len kept := by
  have hl : ipHl q' l2Len = ipHl q l2Len := by
    unfold ipHl
    rw [same.data l2Len here.1 (by omega)]
  unfold NetifyAgent.ip4Header at every ⊢
  have reads := ((every_emits_bind _ _).mp every).1
  have protocol : q'.data (l2Len + 9) = q.data (l2Len + 9) := by
    have read : Behind q lo (.read (l2Len + 9) 1) := reads _ (by simp)
    exact same.data _ read.1 (Nat.lt_of_succ_le read.2)
  have len : ip4L4Len q' l2Len = ip4L4Len q l2Len := by
    have read : Behind q lo (.read (l2Len + 2) 2) := reads _ (by simp)
    unfold ip4L4Len
    rw [same.be16 read, hl]
  simp only [same.cap, protocol, hl, len]
  refine emits_local (fun _ => readIf_local fun frag => ?_) every
  have fragOff : ip4FragOff q' l2Len kept.fragOff = ip4FragOff q l2Len kept.fragOff := by
    unfold ip4FragOff
    rw [same.cap, same.be16 (frag (by omega))]
  rw [fragOff]
  refine rejectIf_local fun long every => ?_
  have room : l2Len + 20 ≤ q.cap := by omega
  have src := @slice q q' lo same (l2Len + 12) 4 (by omega)
  have dst := @slice q q' lo same (l2Len + 16) 4 (by omega)
  simp only [src, dst]
  rfl

theorem walk (same : SameBytes q q' lo) {l4 l4Len : Nat} {proto : UInt8}
    (reads : ∀ r ∈ (W.walk q.data 40 l4 l4Len proto).reads, lo ≤ l4 + r ∧ l4 + r + 1 ≤ q.cap) :
    W.walk q'.data 40 l4 l4Len proto = W.walk q.data 40 l4 l4Len proto :=
  W.local_ fun r member => same.data _ (reads r member).1 (Nat.lt_of_succ_le (reads r member).2)

theorem ip6Header (same : SameBytes q q' lo)
    (every : Every (Behind q lo) (ip6Header W .raw q l2Len kept)) :
    ip6Header W .raw q' l2Len kept = ip6Header W .raw q l2Len kept := by
  unfold NetifyAgent.ip6Header at every ⊢
  have reads := ((every_emits_bind _ _).mp every).1
  have plen : Behind q lo (.read (l2Len + 4) 2) := reads _ (by simp)
  have next : Behind q lo (.read (l2Len + 6) 1) := reads _ (by simp)
  have walked := @walk W q q' lo same (l2Len + 40) (NetifyAgent.Bytes.be16 q.data (l2Len + 4))
    (q.data (l2Len + 6)) fun r member => reads (.read (l2Len + 40 + r) 1) (by
      simp only [List.mem_append, List.mem_map]
      exact .inl (.inr ⟨r, member, rfl⟩))
  simp only [same.be16 plen, same.data _ next.1 (Nat.lt_of_succ_le next.2), walked]
  refine emits_local (fun _ => rejectIf_local fun _ every => ?_) every
  have reads := ((every_emits_bind _ _).mp every).1
  have src : Behind q lo (.read (l2Len + 8) 16) := reads _ (by simp)
  have dst : Behind q lo (.read (l2Len + 24) 16) := reads _ (by simp)
  simp only [same.slice src, same.slice dst, @compareWords q q' lo same _ _ 4 src dst]
  rfl

theorem ipHeader (same : SameBytes q q' lo)
    (every : Every (Behind q lo) (ipHeader W .raw q l2Len kept)) :
    ipHeader W .raw q' l2Len kept = ipHeader W .raw q l2Len kept := by
  unfold NetifyAgent.ipHeader at every ⊢
  rw [same.cap]
  refine emits_local (fun _ every => ?_) every
  have first : Behind q lo (.read l2Len 1) := ((every_emits_bind _ _).mp every).1 _ (by simp)
  have version : ipV q' l2Len = ipV q l2Len := by
    unfold ipV
    rw [same.data _ first.1 (Nat.lt_of_succ_le first.2)]
  rw [version]
  refine emits_local (fun _ => bind_local (fun every => ?_) fun _ _ _ => rfl) every
  unfold ipVersionHeader at every ⊢
  rw [version]
  split
  · rename_i four
    rw [if_pos four] at every
    exact same.ip4Header first every
  rename_i not4
  rw [if_neg not4] at every
  split
  · rename_i six
    rw [if_pos six] at every
    exact same.ip6Header every
  · rfl

theorem gtp (same : SameBytes q q' lo) {ip : IpHeader} {gtpv1 : Option Nat}
    (every : Every (Behind q lo) (gtp q ip gtpv1)) : gtp q' ip gtpv1 = gtp q ip gtpv1 := by
  unfold NetifyAgent.gtp at every ⊢
  by_cases udp : 8 < ip.l4Len ∧ ip.ipProtocol = 17
  swap
  · rw [if_neg udp, if_neg udp]
  rw [if_pos udp] at every
  rw [if_pos udp, if_pos udp]
  have source : Behind q lo (.read ip.l4 2) := ((every_emits_bind [_] _).mp every).1 _ (by simp)
  rw [same.be16 source]
  refine emits_local (fun _ => readIf_local fun dest every => ?_) every
  have either : (NetifyAgent.Bytes.be16 q'.data (ip.l4 + 2) = GTP_U_PORT ∨
      NetifyAgent.Bytes.be16 q.data ip.l4 = GTP_U_PORT) ↔
        (NetifyAgent.Bytes.be16 q.data (ip.l4 + 2) = GTP_U_PORT ∨
          NetifyAgent.Bytes.be16 q.data ip.l4 = GTP_U_PORT) := by
    by_cases sport : NetifyAgent.Bytes.be16 q.data ip.l4 = GTP_U_PORT
    · simp only [sport, or_true]
    · rw [same.be16 (dest sport)]
  simp only [or_comm (a := NetifyAgent.Bytes.be16 q.data ip.l4 = GTP_U_PORT), either] at every ⊢
  split
  swap
  · rfl
  rename_i tunnel
  rw [if_pos tunnel] at every
  have hdr : Behind q lo (.read (ip.l4 + 8) 1) := ((every_emits_bind [_] _).mp every).1 _ (by simp)
  have flags := same.data _ hdr.1 (Nat.lt_of_succ_le hdr.2)
  have version : gtpVersion q' (ip.l4 + 8) = gtpVersion q (ip.l4 + 8) := by
    unfold gtpVersion
    rw [flags]
  simp only [version]
  refine emits_local (fun _ every => ?_) every
  split
  swap
  · rfl
  rename_i one
  rw [if_pos one] at every
  have type : Behind q lo (.read (ip.l4 + 8 + 1) 1) :=
    ((every_emits_bind _ _).mp every).1 _ (by simp)
  have end_ : gtpInner q' (ip.l4 + 8) = gtpInner q (ip.l4 + 8) := by
    unfold gtpInner
    rw [flags]
  rw [same.data _ type.1 (Nat.lt_of_succ_le type.2), end_]

theorem processIp (same : SameBytes q q' lo)
    (every : Every (Behind q lo) (processIp W .raw q fuel l2Len kept)) :
    processIp W .raw q' fuel l2Len kept = processIp W .raw q fuel l2Len kept := by
  induction fuel generalizing l2Len kept with
  | zero => rfl
  | succ fuel ih =>
    unfold NetifyAgent.processIp at every ⊢
    refine bind_local same.ipHeader (fun ip _ => bind_local same.gtp fun tunnel _ every => ?_) every
    split
    · rename_i inner continues
      simp only [continues] at every
      exact ih every
    · rfl

/-! ## Transport headers -/

theorem assignPorts (same : SameBytes q q' lo) {ip : IpHeader}
    (reads : ∀ w ∈ assignPorts q ip, Behind q lo w) : assignPorts q' ip = assignPorts q ip := by
  have sport : Behind q lo (.read ip.l4 2) := reads _ (by simp [NetifyAgent.assignPorts])
  have dport : Behind q lo (.read (ip.l4 + 2) 2) := reads _ (by simp [NetifyAgent.assignPorts])
  unfold NetifyAgent.assignPorts orderedPorts
  rw [same.le16 sport, same.le16 dport]

theorem transport (same : SameBytes q q' lo) {ip : IpHeader}
    (every : Every (Behind q lo) (transport q ip)) : transport q' ip = transport q ip := by
  unfold NetifyAgent.transport at every ⊢
  split
  · rename_i tcp
    rw [if_pos tcp] at every
    unfold tcpHeader at every ⊢
    refine emits_local (fun _ => rejectIf_local fun _ every => ?_) every
    have offset : Behind q lo (.read (ip.l4 + 12) 1) :=
      ((every_emits_bind [_] _).mp every).1 _ (by simp)
    have size : thOff q' ip.l4 = thOff q ip.l4 := by
      unfold thOff
      rw [same.data _ offset.1 (Nat.lt_of_succ_le offset.2)]
    simp only [size]
    refine emits_local (fun _ => rejectIf_local fun _ every => ?_) every
    rw [same.assignPorts ((every_emits_bind _ _).mp every).1]
  rename_i notTcp
  rw [if_neg notTcp] at every
  split
  · rename_i udp
    rw [if_pos udp] at every
    unfold udpHeader at every ⊢
    refine emits_local (fun _ => rejectIf_local fun _ every => ?_) every
    have reads := ((every_emits_bind _ _).mp every).1
    have ulen : Behind q lo (.read (ip.l4 + 4) 2) := reads _ (by simp)
    rw [same.assignPorts fun w member => reads w (List.mem_append_left _ member), same.be16 ulen]
  · rfl

/-- **What lies behind the buffer makes no difference** where only captured bytes are read. -/
theorem behindLink (same : SameBytes q q' lo)
    (every : Every (Behind q lo) (behindLink W .raw q fuel l2Len)) :
    behindLink W .raw q' fuel l2Len = behindLink W .raw q fuel l2Len := by
  unfold NetifyAgent.behindLink at every ⊢
  exact bind_local same.processIp
    (fun _ _ => bind_local same.transport fun _ _ _ => rfl) every

end

end SameBytes

/-! ## Offsets -/

section
variable {W : ExtensionWalker} {dl : Datalink} {q : Packet} {lo base l2Len fuel : Nat} {kept : Locals}

/-- The version of a header is read first. -/
theorem first_read {P : Op → Prop} (every : Every P (processIp W dl q (fuel + 1) l2Len kept)) :
    P (.read l2Len 1) := by
  unfold processIp at every
  have header := (every_bind.mp every).1
  unfold ipHeader at header
  have behind := ((every_emits_bind _ _).mp header).2
  exact ((every_emits_bind _ _).mp behind).1 _ (List.mem_cons_self ..)

/-- A tunnel header that is captured ends where the next header is read. -/
theorem gtpEnd_of_behind {off next : Nat} (past : 12 ≤ lo) (inner : gtpInner q off = next)
    (type : off + 2 ≤ q.cap) (header : lo ≤ next ∧ next + 1 ≤ q.cap) : gtpEnd q off = next := by
  have room := q.cap_lt
  have flags := (q.data off).toNat_lt
  have cut : gtpEnd q off % 65536 = next := inner
  have near : gtpEnd q off ≤ off + 14 := by
    unfold gtpEnd
    simp only
    omega
  omega

/-- What is read at a header with a tunnel in it. -/
theorem tunnel_captured {next : Nat} {addrCmp : Int} (continues : inner W q l2Len = some next)
    (reads : ∀ w ∈ visitOps W dl q l2Len addrCmp, Behind q lo w) :
    gtpInner q ((segment W q l2Len).l4 + 8) = next ∧ (segment W q l2Len).l4 + 8 + 2 ≤ q.cap ∧
      l2Len ≤ (segment W q l2Len).l4 := by
  obtain ⟨-, tunnel⟩ := Option.ite_none_right_eq_some.mp continues
  obtain ⟨found, end_⟩ := Option.ite_none_right_eq_some.mp tunnel
  have type : Behind q lo (.read ((segment W q l2Len).l4 + 9) 1) := by
    refine reads _ (List.mem_append_right _ ?_)
    unfold gtpOps
    rw [if_pos ⟨found.1.1, found.1.2.1⟩, if_pos found.1, if_pos found.2.1]
    simp
  refine ⟨Option.some.inj end_, type.2, ?_⟩
  unfold segment
  split
  · exact Nat.le_add_right _ _
  · simp only
    omega

/-- **No offset wraps** where only captured bytes are read. -/
theorem reach_of_behind (past : 12 ≤ lo) (room : base + q.cap < 65536)
    (every : Every (Behind q lo) (processIp W dl q fuel l2Len kept))
    (ended : (processIp W dl q fuel l2Len kept).outcome ≠ .spun) :
    HeaderWalk W q (InReach W q base) l2Len := by
  induction fuel generalizing l2Len kept with
  | zero => exact absurd rfl ended
  | succ fuel ih =>
    by_cases accepted : Accepted W q l2Len
    swap
    · have none_ : inner W q l2Len = none := if_neg accepted
      exact .last (fun continues => absurd none_ continues) none_
    rw [processIp_accepted accepted, emits_bind] at ended
    rw [processIp_accepted accepted] at every
    obtain ⟨reads, every⟩ := (every_emits_bind _ _).mp every
    cases continues : inner W q l2Len with
    | none => exact .last (fun other => absurd continues other) continues
    | some next =>
      rw [continues] at every ended
      simp only at every ended
      obtain ⟨fuel, rfl⟩ : ∃ n, fuel = n + 1 := by
        cases fuel with
        | zero => exact absurd rfl ended
        | succ n => exact ⟨n, rfl⟩
      have header : Behind q lo (.read next 1) := first_read every
      obtain ⟨end_, type, -⟩ := tunnel_captured continues reads
      have ends := gtpEnd_of_behind past end_ type header
      refine .tunnel (fun _ => ?_) continues (ih every ended)
      rw [ends]
      have last : next + 1 ≤ q.cap := header.2
      omega

/-! ## The loops end -/

/-- Each round reads behind the one in front. -/
theorem labels_settle {s : Bool} (room : q.cap + 4 < 65536) (start : l2Len ≤ q.cap)
    (enough : q.cap < l2Len + fuel) (every : Every (Inside q) (labels q fuel s l2Len)) :
    (labels q fuel s l2Len).outcome ≠ .spun ∧
      ∀ stop, (labels q fuel s l2Len).outcome = .ok stop → l2Len ≤ stop ∧ stop ≤ q.cap := by
  induction fuel generalizing s l2Len with
  | zero => omega
  | succ fuel ih =>
    rw [labels_succ] at every ⊢
    cases s with
    | true =>
      refine ⟨by simp, fun stop ended => ?_⟩
      cases ended
      exact ⟨Nat.le_refl _, start⟩
    | false =>
      simp only [Bool.false_eq_true, if_false] at every ⊢
      obtain ⟨reads, every⟩ := (every_emits_bind _ _).mp every
      have label : (l2Len + 4) % 65536 + 4 ≤ q.cap :=
        reads (.read ((l2Len + 4) % 65536) 4) (by simp [Tag.ops])
      have cut : (l2Len + 4) % 65536 = l2Len + 4 := Nat.mod_eq_of_lt (by omega)
      rw [cut] at every label ⊢
      obtain ⟨settled, within⟩ := ih (by omega) (by omega) every
      rw [emits_bind]
      exact ⟨settled, fun stop ended => by have := within stop ended; omega⟩

theorem decapsulate_settles {link : Link} (room : q.cap + 4 < 65536) (start : link.l2Len ≤ q.cap)
    (enough : q.cap < link.l2Len + fuel) (every : Every (Inside q) (decapsulate q fuel link)) :
    (decapsulate q fuel link).outcome ≠ .spun ∧
      ∀ last, (decapsulate q fuel link).outcome = .ok last → last.l2Len ≤ q.cap := by
  induction fuel generalizing link with
  | zero => omega
  | succ fuel ih =>
    rw [decapsulate_succ] at every ⊢
    cases kind : tagKind link.type with
    | vlan =>
      simp only [kind] at every ⊢
      obtain ⟨reads, every⟩ := (every_emits_bind _ _).mp every
      have tag : link.l2Len + 2 + 2 ≤ q.cap := reads (.read (link.l2Len + 2) 2) (by simp [Tag.ops])
      have cut : (link.l2Len + 4) % 65536 = link.l2Len + 4 := Nat.mod_eq_of_lt (by omega)
      rw [cut] at every ⊢
      rw [emits_bind]
      exact ih (by simp only; omega) (by simp only; omega) every
    | mpls =>
      simp only [kind] at every ⊢
      obtain ⟨reads, every⟩ := (every_emits_bind _ _).mp every
      have label : link.l2Len + 4 ≤ q.cap := reads (.read link.l2Len 4) (by simp [Tag.ops])
      have cut : (link.l2Len + 4) % 65536 = link.l2Len + 4 := Nat.mod_eq_of_lt (by omega)
      rw [cut] at every ⊢
      obtain ⟨below, every⟩ := every_bind.mp every
      obtain ⟨settled, within⟩ := labels_settle room label (by omega) below
      have rest : ∀ stop, (labels q fuel (mplsBottom q link.l2Len) (link.l2Len + 4)).outcome =
          .ok stop → _ := fun stop ended =>
        @ih ⟨EtherType.ip, stop, link.vlanPacket⟩ (within stop ended).2
          (by have := (within stop ended).1; simp only; omega) (every stop ended)
      rw [emits_bind]
      simp only [ne_eq, bind_spun_iff, bind_ok_iff, not_or, not_exists, not_and]
      refine ⟨⟨settled, fun stop ended => (rest stop ended).1⟩, ?_⟩
      rintro last ⟨stop, ended, ended'⟩
      exact (rest stop ended).2 last ended'
    | pppoe =>
      simp only [kind] at every ⊢
      obtain ⟨reads, every⟩ := (every_emits_bind _ _).mp every
      have header : link.l2Len + 6 + 2 ≤ q.cap :=
        reads (.read (link.l2Len + 6) 2) (by simp [Tag.ops])
      have cut : (link.l2Len + 8) % 65536 = link.l2Len + 8 := Nat.mod_eq_of_lt (by omega)
      rw [cut] at every ⊢
      rw [emits_bind]
      split
      · rename_i ip
        rw [if_pos ip] at every
        obtain ⟨-, every⟩ := (every_emits_bind _ _).mp every
        rw [emits_bind]
        exact ih (by simp only; omega) (by simp only; omega) every
      · simp
    | discovery => simp
    | other =>
      refine ⟨by simp, fun last ended => ?_⟩
      cases ended
      exact start

theorem processIp_settles (past : 12 ≤ lo) (start : l2Len ≤ q.cap) (enough : q.cap < l2Len + fuel)
    (every : Every (Behind q lo) (processIp W dl q fuel l2Len kept)) :
    (processIp W dl q fuel l2Len kept).outcome ≠ .spun := by
  induction fuel generalizing l2Len kept with
  | zero => omega
  | succ fuel ih =>
    by_cases accepted : Accepted W q l2Len
    swap
    · rw [processIp_refused accepted]
      simp
    rw [processIp_accepted accepted] at every ⊢
    obtain ⟨reads, every⟩ := (every_emits_bind _ _).mp every
    rw [emits_bind]
    cases continues : inner W q l2Len with
    | none => simp
    | some next =>
      rw [continues] at every
      simp only at every ⊢
      obtain ⟨end_, type, below⟩ := tunnel_captured continues reads
      cases fuel with
      | zero => omega
      | succ fuel =>
        have header : Behind q lo (.read next 1) := first_read every
        have last : next + 1 ≤ q.cap := header.2
        have ends := gtpEnd_of_behind past end_ type header
        have behind : (segment W q l2Len).l4 + 16 ≤ gtpEnd q ((segment W q l2Len).l4 + 8) := by
          unfold gtpEnd
          simp only
          omega
        exact ih (by omega) (by omega) every

end

end NetifyAgent
