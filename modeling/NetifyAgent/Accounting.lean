import NetifyAgent.Actions
import NetifyAgent.Frames
import NetifyAgent.Lib.Runs

/-! Packet accounting. Every return of the dissector but one counts the packet
as discarded; some length tests count it and go on. A packet is therefore
accounted for once exactly when it takes neither that return nor such a test,
and over a run of such packets the counters add up. -/
namespace NetifyAgent.Accounting
open NetifyAgent.Bytes NetifyAgent.Dissection NetifyAgent.Runs

/-! ## Returns that count -/

/-- The packet is counted as discarded, and `ProcessPacket` returns. -/
def isReject : Op → Bool
  | .reject => true
  | _ => false

section
variable {W : ExtensionWalker} {dl : Datalink} {p : Packet}

theorem marks_reject {α : Type} : MarksReturn isReject (reject : Dissect Op α) := rfl

theorem marks_discardIf (c : Prop) [Decidable c] : MarksReturn isReject (discardIf c) := by
  apply marksReturn_emits
  intro w member
  split at member
  · rw [List.mem_singleton.mp member]
    rfl
  · cases member

theorem marks_readIf (c : Prop) [Decidable c] (off len : Nat) :
    MarksReturn isReject (readIf c off len) := by
  apply marksReturn_emits
  intro w member
  split at member
  · rw [List.mem_singleton.mp member]
    rfl
  · cases member

theorem marks_rejectIf (c : Prop) [Decidable c] : MarksReturn isReject (rejectIf c) := by
  unfold rejectIf
  split
  · exact marks_reject
  · exact marksReturn_pure ()

theorem marks_labels (fuel : Nat) (s : Bool) (l2Len : Nat) :
    MarksReturn isReject (labels p fuel s l2Len) := by
  induction fuel generalizing s l2Len with
  | zero => exact marksReturn_spin
  | succ fuel ih =>
    unfold labels
    cases s with
    | true => exact marksReturn_pure l2Len
    | false =>
      refine marksReturn_bind (marks_discardIf _) fun _ => ?_
      exact marksReturn_bind (marksReturn_emit rfl) fun _ => ih _ _

theorem marks_decapsulate (fuel : Nat) (link : Link) :
    MarksReturn isReject (decapsulate p fuel link) := by
  induction fuel generalizing link with
  | zero => exact marksReturn_spin
  | succ fuel ih =>
    unfold decapsulate
    split
    · refine marksReturn_bind (marks_discardIf _) fun _ => ?_
      exact marksReturn_bind (marksReturn_emits (by simp [isReject])) fun _ => ih _
    split
    · refine marksReturn_bind (marksReturn_emits (by simp [isReject])) fun _ => ?_
      refine marksReturn_bind (marks_discardIf _) fun _ => ?_
      exact marksReturn_bind (marks_labels _ _ _) fun _ => ih _
    split
    · refine marksReturn_bind (marksReturn_emit rfl) fun _ => ?_
      refine marksReturn_bind (marks_discardIf _) fun _ => ?_
      refine marksReturn_bind (marksReturn_emit rfl) fun _ => ?_
      refine marksReturn_bind (marks_rejectIf _) fun _ => ?_
      exact marksReturn_bind (marks_discardIf _) fun _ => ih _
    split
    · exact marksReturn_bind (marksReturn_emit rfl) fun _ => marks_reject
    · exact marksReturn_pure link

/-- Nothing is counted as discarded. -/
def Quiet (ws : List Op) : Prop := Op.discard ∉ ws ∧ Op.reject ∉ ws

theorem Quiet.append {before after : List Op} (first : Quiet before) (second : Quiet after) :
    Quiet (before ++ after) := by
  constructor
  · simpa using ⟨first.1, second.1⟩
  · simpa using ⟨first.2, second.2⟩

theorem marks_quiet {ws : List Op} (quiet : Quiet ws) : MarksReturn isReject (emits ws) := by
  apply marksReturn_emits
  intro w member
  cases w with
  | reject => exact absurd member quiet.2
  | _ => rfl

theorem assignAddrs_quiet (create : Side → List UInt8 → Assign) (addrCmp : Int)
    (src dst : List UInt8) : Quiet (assignAddrs create dl p addrCmp src dst) := by
  unfold assignAddrs
  split <;> constructor <;> simp

theorem readAddrs_quiet (create : Side → List UInt8 → Assign) (addrCmp : Int)
    (src dst : List UInt8) (a b n : Nat) :
    Quiet (.read a n :: .read b n :: assignAddrs create dl p addrCmp src dst) :=
  show Quiet ([.read a n, .read b n] ++ _) from
    Quiet.append ⟨by simp, by simp⟩ (assignAddrs_quiet _ _ _ _)

theorem marks_ip4Header (l2Len : Nat) (kept : Locals) :
    MarksReturn isReject (ip4Header dl p l2Len kept) := by
  unfold ip4Header
  refine marksReturn_bind (marksReturn_emits (by simp [isReject])) fun _ => ?_
  refine marksReturn_bind (marks_readIf _ _ _) fun _ => ?_
  refine marksReturn_bind (marks_rejectIf _) fun _ => ?_
  split
  · exact marksReturn_bind (marksReturn_emit rfl) fun _ => marks_reject
  split
  · exact marksReturn_bind (marksReturn_emit rfl) fun _ => marks_reject
  refine marksReturn_bind (marks_rejectIf _) fun _ => ?_
  exact marksReturn_bind (marks_quiet (readAddrs_quiet _ _ _ _ _ _ _)) fun _ => marksReturn_pure _

theorem marks_ip6Header (l2Len : Nat) (kept : Locals) :
    MarksReturn isReject (ip6Header W dl p l2Len kept) := by
  unfold ip6Header
  refine marksReturn_bind (marks_quiet ⟨by simp, by simp⟩) fun _ => ?_
  refine marksReturn_bind (marks_rejectIf _) fun _ => ?_
  exact marksReturn_bind (marks_quiet (readAddrs_quiet _ _ _ _ _ _ _)) fun _ => marksReturn_pure _

theorem marks_ipHeader (l2Len : Nat) (kept : Locals) :
    MarksReturn isReject (ipHeader W dl p l2Len kept) := by
  unfold ipHeader
  refine marksReturn_bind (marks_discardIf _) fun _ => ?_
  refine marksReturn_bind (marksReturn_emits (by simp [isReject])) fun _ => ?_
  refine marksReturn_bind ?_ fun ip => ?_
  · unfold ipVersionHeader
    split
    · exact marks_ip4Header _ _
    split
    · exact marks_ip6Header _ _
    · exact marks_reject
  · exact marksReturn_bind (marks_rejectIf _) fun _ => marksReturn_pure ip

theorem gtpOps_quiet (s : Segment) : Quiet (gtpOps p s) := by
  unfold gtpOps
  split_ifs <;> constructor <;> simp

theorem marks_gtp (ip : IpHeader) (gtpv1 : Option Nat) : MarksReturn isReject (gtp p ip gtpv1) := by
  rw [gtp_eq (s := ⟨ip.l3Len, ip.ipProtocol, ip.l4, ip.l4Len⟩) rfl rfl rfl]
  exact tally_eq_zero.mpr fun w member => by
    cases w with
    | reject => exact absurd member (gtpOps_quiet _).2
    | _ => rfl

theorem marks_processIp (fuel l2Len : Nat) (kept : Locals) :
    MarksReturn isReject (processIp W dl p fuel l2Len kept) := by
  induction fuel generalizing l2Len kept with
  | zero => exact marksReturn_spin
  | succ fuel ih =>
    unfold processIp
    refine marksReturn_bind (marks_ipHeader _ _) fun ip => ?_
    refine marksReturn_bind (marks_gtp _ _) fun tunnel => ?_
    split
    · exact ih _ _
    · exact marksReturn_pure _

theorem assignPorts_quiet (ip : IpHeader) : Quiet (assignPorts p ip) := by
  constructor <;> simp [assignPorts]

theorem marks_transport (ip : IpHeader) : MarksReturn isReject (transport p ip) := by
  unfold transport
  split
  · unfold tcpHeader
    refine marksReturn_bind (marksReturn_emit rfl) fun _ => ?_
    refine marksReturn_bind (marks_rejectIf _) fun _ => ?_
    refine marksReturn_bind (marksReturn_emit rfl) fun _ => ?_
    refine marksReturn_bind (marks_rejectIf _) fun _ => ?_
    exact marksReturn_bind (marks_quiet (assignPorts_quiet ip)) fun _ => marksReturn_pure _
  split
  · unfold udpHeader
    refine marksReturn_bind (marksReturn_emit rfl) fun _ => ?_
    refine marksReturn_bind (marks_rejectIf _) fun _ => ?_
    refine marksReturn_bind (marks_quiet ?_) fun _ => ?_
    · exact (assignPorts_quiet ip).append ⟨by simp, by simp⟩
    · exact marksReturn_bind (marks_rejectIf _) fun _ => marksReturn_pure _
  split
  · exact marksReturn_bind (marksReturn_emit rfl) fun _ => marksReturn_pure none
  split
  · exact marksReturn_bind (marksReturn_emit rfl) fun _ => marksReturn_pure none
  · exact marksReturn_pure none

/-! ## Tests that count and go on -/

/-- No length test counted the packet and went on. -/
def Unhindered {α : Type} (x : Dissect Op α) : Prop := Every (· ≠ .discard) x

/-- The one test at an IP header that goes on. -/
theorem unhindered_ipHeader (l2Len : Nat) (kept : Locals) :
    Unhindered (ipHeader W dl p l2Len kept) ↔ l2Len + 20 ≤ p.cap := by
  have rest : Unhindered (emits [.read l2Len 1, .set (.ipVersion (ipV p l2Len))] >>= fun _ =>
      ipVersionHeader W dl p l2Len kept >>= fun ip =>
        rejectIf (p.cap < l2Len + ip.l3Len + ip.l4Len) >>= fun _ => pure ip) := by
    refine every_of_bind (by simp [Every]) fun _ => ?_
    refine every_of_bind ((plain_ipVersionHeader _ _).mono fun _ => (·.1)) fun ip => ?_
    refine every_of_bind ?_ fun _ => every_pure ip
    exact Every.mono (fun _ plain => plain.1) (plain_rejectIf : Every (Plain dl) _)
  have test : Unhindered (discardIf (p.cap < l2Len + 20)) ↔ l2Len + 20 ≤ p.cap := by
    unfold Unhindered Every discardIf
    split <;> simp <;> omega
  rw [← test]
  exact every_bind.trans (and_iff_left fun _ _ => rest)

/-- A tag that passes the length tests, on offsets of sixteen bits. -/
def Passes (p : Packet) : Tag → Nat → Prop
  | .vlan, off => off + 4 ≤ p.cap
  | .mpls, off => (off + 4) % 65536 ≤ p.cap
  | .label, off => off % 65536 ≤ p.cap
  | .pppoe, off => off + 6 ≤ p.cap
  | .session, off => (off + 8) % 65536 ≤ p.cap

theorem allOps_unhindered (tag : Tag) (off : Nat) :
    AllOps (· ≠ .discard) p tag off ↔ Passes p tag off := by
  unfold AllOps
  cases tag <;> simp only [Tag.ops, Passes] <;> split <;> simp <;> omega

theorem headerOps_quiet (l2Len : Nat) (addrCmp : Int) :
    Quiet (headerOps W dl p l2Len addrCmp) := by
  unfold headerOps ip4Ops ip6Ops
  refine Quiet.append ⟨by simp, by simp⟩ ?_
  split
  · exact Quiet.append ⟨by simp, by simp⟩ (assignAddrs_quiet _ _ _ _)
  · refine Quiet.append ?_ (assignAddrs_quiet _ _ _ _)
    exact ⟨by simp, by simp⟩

theorem visitOps_unhindered (l2Len : Nat) (addrCmp : Int) :
    (∀ w ∈ visitOps W dl p l2Len addrCmp, w ≠ .discard) ↔ l2Len + 20 ≤ p.cap := by
  have header : Op.discard ∉ headerOps W dl p l2Len addrCmp := (headerOps_quiet l2Len addrCmp).1
  have tunnel : Op.discard ∉ gtpOps p (segment W p l2Len) := (gtpOps_quiet _).1
  constructor
  · intro goesOn
    by_contra short
    refine goesOn .discard ?_ rfl
    simp only [visitOps, List.mem_append]
    exact .inl (.inl (by rw [if_pos (by omega)]; exact List.mem_singleton_self _))
  · rintro long w member rfl
    simp only [visitOps, List.mem_append, if_neg (show ¬ p.cap < l2Len + 20 by omega)] at member
    rcases member with (member | member) | member
    · cases member
    · exact header member
    · exact tunnel member

theorem processIp_unhindered {fuel l2Len : Nat} {kept : Locals}
    (ended : (processIp W dl p fuel l2Len kept).outcome ≠ .spun) :
    Unhindered (processIp W dl p fuel l2Len kept) ↔
      HeaderWalk W p (fun l2Len => l2Len + 20 ≤ p.cap) l2Len := by
  refine processIp_adequate (fun l2Len addrCmp _ => ?_) (fun _ l2Len kept _ => ?_) ended
  · exact visitOps_unhindered l2Len addrCmp
  · exact unhindered_ipHeader l2Len kept

/-! ## The whole dissection -/

/-- The one return that does not count the packet: BSD loopback with an address
family that is not supported. -/
def UnknownFamily (dl : Datalink) (p : Packet) : Prop :=
  dl = .null ∧ 4 ≤ p.cap ∧ be32 p.data 0 ∉ [2, 24, 28, 30]

instance (dl : Datalink) (p : Packet) : Decidable (UnknownFamily dl p) := by
  unfold UnknownFamily
  infer_instance

theorem marks_datalink (known : ¬ UnknownFamily dl p) : MarksReturn isReject (datalink dl p) := by
  unfold datalink
  cases dl with
  | null =>
    by_cases short : p.cap < 4
    · simp only [rejectIf_bind, if_pos short]
      exact marks_reject
    · have family : be32 p.data 0 ∈ [2, 24, 28, 30] := by
        by_contra other
        exact known ⟨rfl, by omega, other⟩
      refine marksReturn_bind (marks_rejectIf _) fun _ => marksReturn_bind (marksReturn_emit rfl)
        fun _ => ?_
      dsimp only
      split
      · exact marksReturn_pure _
      split
      · exact marksReturn_pure _
      · simp only [List.mem_cons, List.not_mem_nil, or_false] at family
        omega
  | en10mb =>
    refine marksReturn_bind (marks_rejectIf _) fun _ => ?_
    refine marksReturn_bind (marksReturn_emits (by simp [isReject])) fun _ => ?_
    exact marksReturn_bind (marks_rejectIf _) fun _ => marksReturn_pure _
  | linuxSll =>
    refine marksReturn_bind (marks_rejectIf _) fun _ => ?_
    exact marksReturn_bind (marksReturn_emit rfl) fun _ => marksReturn_pure _
  | raw => exact marksReturn_pure _
  | ipv4 => exact marksReturn_pure _
  | ipv6 => exact marksReturn_pure _
  | other => exact marks_reject

theorem unhindered_datalink (dl : Datalink) (p : Packet) : Unhindered (datalink dl p) :=
  Every.mono (fun _ plain => plain.1) (plain_datalink dl : Every (Plain dl) _)

theorem marks_dissect (known : ¬ UnknownFamily dl p) (fuel : Nat) :
    MarksReturn isReject (dissect W dl p fuel) := by
  unfold dissect
  refine marksReturn_bind ?_ fun l2Len => ?_
  · unfold linkLayer
    refine marksReturn_bind (marks_datalink known) fun link => ?_
    refine marksReturn_bind (marks_discardIf _) fun _ => ?_
    refine marksReturn_bind (marks_decapsulate _ _) fun link => ?_
    exact marksReturn_bind (marksReturn_emits (by split <;> simp [isReject])) fun _ =>
      marksReturn_pure _
  · refine marksReturn_bind (marks_processIp _ _ _) fun ip => ?_
    exact marksReturn_bind (marks_transport _) fun _ => marksReturn_pure _

theorem behindLink_unhindered {fuel l2Len : Nat} :
    Unhindered (behindLink W dl p fuel l2Len) ↔ Unhindered (processIp W dl p fuel l2Len {}) := by
  unfold behindLink Unhindered
  rw [every_bind]
  refine and_iff_left fun ip _ => every_of_bind ?_ fun _ => every_pure _
  exact Every.mono (fun _ plain => plain.1) (plain_transport _ : Every (Plain dl) _)

/-- The packet's headers, each of which passes the tests that only count. -/
def Passable (W : ExtensionWalker) (p : Packet) (link : Link) : Prop :=
  ∃ stop, TagWalk p (Passes p) link.type link.l2Len stop ∧
    ∀ l2Len, stop = some l2Len → HeaderWalk W p (fun l2Len => l2Len + 20 ≤ p.cap) l2Len

theorem unhindered_linkEnd {α : Type} (link : Link) (f : Nat → Dissect Op α) :
    Unhindered (linkEnd link >>= f) ↔ Unhindered (f link.l2Len) := by
  rw [linkEnd_bind]
  unfold Unhindered
  rw [every_emits_bind]
  exact and_iff_right (by split <;> simp)

/-- A finished dissection is unhindered exactly when the packet is passable. -/
theorem passable_of_unhindered {link : Link} {fuel : Nat} (framed : frame dl p = some link)
    (ended : (dissect W dl p fuel).outcome ≠ .spun)
    (goesOn : Unhindered (dissect W dl p fuel)) : Passable W p link := by
  rw [dissect_of_frame framed] at ended goesOn
  obtain ⟨tags, rest⟩ := every_bind.mp ((every_emits_bind _ _).mp goesOn).2
  rw [emits_bind] at ended
  have settled : (decapsulate p fuel link).outcome ≠ .spun := by
    intro spun
    rw [bind_of_spun _ spun] at ended
    exact ended rfl
  have walk := (decapsulate_adequate (by simp) (by simp) settled).mp tags
  refine ⟨_, walk.mono fun tag off => (allOps_unhindered tag off).mp, fun l2Len stops => ?_⟩
  cases last : (decapsulate p fuel link).outcome with
  | left =>
    rw [last] at stops
    cases stops
  | spun => exact absurd last settled
  | ok link' =>
    rw [last] at stops
    cases stops
    rw [bind_of_ok _ last, linkEnd_bind] at ended
    have behind := (unhindered_linkEnd link' (behindLink W dl p fuel)).mp (rest link' last)
    exact (processIp_unhindered (behindLink_ended.mp ended)).mp (behindLink_unhindered.mp behind)

/-- With enough fuel the dissection of a passable packet ends behind its tags. -/
theorem behindLink_of_passable (dl : Datalink) {fuel l2Len : Nat}
    (headers : HeaderWalk W p (fun l2Len => l2Len + 20 ≤ p.cap) l2Len) :
    ∃ more, fuel ≤ more ∧ (behindLink W dl p more l2Len).outcome ≠ .spun ∧
      Unhindered (behindLink W dl p more l2Len) := by
  obtain ⟨deep, done⟩ : ∃ deep, (processIp W dl p deep l2Len {}).outcome ≠ .spun :=
    processIp_complete headers {}
  refine ⟨max fuel deep, Nat.le_max_left _ _, ?_⟩
  have same : processIp W dl p (max fuel deep) l2Len {} = processIp W dl p deep l2Len {} :=
    processIp_stable l2Len {} deep _ (Nat.le_max_right _ _) done
  have done' : (processIp W dl p (max fuel deep) l2Len {}).outcome ≠ .spun := by
    rw [same]
    exact done
  exact ⟨behindLink_ended.mpr done',
    behindLink_unhindered.mpr ((processIp_unhindered done').mpr headers)⟩

theorem unhindered_of_passable {link : Link} (framed : frame dl p = some link)
    (passable : Passable W p link) :
    ∃ fuel, (dissect W dl p fuel).outcome ≠ .spun ∧ Unhindered (dissect W dl p fuel) := by
  obtain ⟨stop, walk, headers⟩ := passable
  obtain ⟨fuel, settled, stops⟩ := decapsulate_complete walk link.vlanPacket
  have quiet : Unhindered (decapsulate p fuel link) := by
    refine (decapsulate_adequate (by simp) (by simp) settled).mpr ?_
    rw [show stopOf (decapsulate p fuel link).outcome = stop from stops]
    exact walk.mono fun tag off => (allOps_unhindered tag off).mpr
  have more : ∀ n, fuel ≤ n → decapsulate p n link = decapsulate p fuel link := fun n le =>
    decapsulate_stable link fuel n le settled
  cases last : (decapsulate p fuel link).outcome with
  | spun => exact absurd last settled
  | left =>
    refine ⟨fuel, ?_⟩
    rw [dissect_of_frame framed, bind_of_left _ last]
    refine ⟨nofun, (every_emits_bind _ _).mpr ⟨unhindered_datalink dl p, quiet⟩⟩
  | ok link' =>
    have ends : stop = some link'.l2Len := stops.symm.trans (congrArg stopOf last)
    obtain ⟨n, le, done, behind⟩ := behindLink_of_passable dl (headers _ ends)
    refine ⟨n, ?_⟩
    rw [dissect_of_frame framed, more n le]
    constructor
    · rw [emits_bind, bind_of_ok _ last]
      exact done
    · refine (every_emits_bind _ _).mpr ⟨unhindered_datalink dl p, every_bind.mpr ⟨quiet, ?_⟩⟩
      intro _ again
      cases last.symm.trans again
      exact (unhindered_linkEnd link' _).mpr behind

/-! ## The statistics -/

/-- What makes a call count every packet once. -/
def Accountable (W : ExtensionWalker) (dl : Datalink) (p : Packet) : Prop :=
  ¬ UnknownFamily dl p ∧ ∀ link, frame dl p = some link → Passable W p link

theorem unhindered_of_accountable (accountable : Accountable W dl p) :
    ∃ fuel, (dissect W dl p fuel).outcome ≠ .spun ∧ Unhindered (dissect W dl p fuel) := by
  cases framed : frame dl p with
  | some link => exact unhindered_of_passable framed (accountable.2 link framed)
  | none =>
    refine ⟨0, ?_⟩
    rw [show dissect W dl p 0 = linkLayer dl p 0 >>= behindLink W dl p 0 from rfl,
      linkLayer_of_unframed framed]
    exact ⟨nofun, unhindered_datalink dl p⟩

/-- A finished dissection of an accountable packet is the unhindered one. -/
theorem unhindered_iff {fuel : Nat} (known : ¬ UnknownFamily dl p)
    (ended : (dissect W dl p fuel).outcome ≠ .spun) :
    Unhindered (dissect W dl p fuel) ↔ Accountable W dl p := by
  constructor
  · intro goesOn
    exact ⟨known, fun link framed => passable_of_unhindered framed ended goesOn⟩
  · intro accountable
    obtain ⟨other, ended', goesOn⟩ := unhindered_of_accountable accountable
    have same : dissect W dl p fuel = dissect W dl p other :=
      stable_unique (dissect_stable W dl p) ended ended'
    rw [same]
    exact goesOn

end

/-- The packet is counted as discarded. -/
def isDiscard : Op → Bool
  | .discard | .reject => true
  | _ => false

/-- What a dissection does to the accounts. -/
theorem performed_accounts (p : Packet) (log : List Op) (t : CaptureThread) :
    (log.foldl (CaptureThread.perform p) t).stats.accounts =
      { t.stats.accounts with
        discard := t.stats.accounts.discard + log.countP isDiscard
        discardBytes := t.stats.accounts.discardBytes +
          log.countP isDiscard * p.length.toNat } := by
  induction log generalizing t with
  | nil => simp
  | cons w log ih =>
    rw [List.foldl_cons, ih]
    cases w with
    | read off len => simp [CaptureThread.perform, isDiscard]
    | count c => simp [CaptureThread.perform, isDiscard]
    | set a => simp [CaptureThread.perform, isDiscard]
    | discard =>
      simp [CaptureThread.perform, isDiscard, List.countP_cons, Nat.add_mul]
      omega
    | reject =>
      simp [CaptureThread.perform, isDiscard, List.countP_cons, Nat.add_mul]
      omega

theorem countP_isDiscard (log : List Op) :
    log.countP isDiscard = log.countP isReject + log.count .discard := by
  induction log with
  | nil => rfl
  | cons w log ih =>
    cases w with
    | discard =>
      simp [isDiscard, isReject, List.countP_cons, ih]
      omega
    | reject =>
      simp [isDiscard, isReject, List.countP_cons, ih]
      omega
    | _ => simp [isDiscard, isReject, ih]

/-- The call counts the packet as one IP packet or as one discarded packet. -/
def AccountedOnce (length : Nat) (before after : Accounts) : Prop :=
  after = { before with
    raw := before.raw + 1, ip := before.ip + 1, ipBytes := before.ipBytes + length } ∨
  after = { before with
    raw := before.raw + 1
    discard := before.discard + 1
    discardBytes := before.discardBytes + length }

instance (length : Nat) (before after : Accounts) : Decidable (AccountedOnce length before after) :=
  inferInstanceAs (Decidable (_ ∨ _))

section
variable (cfg : CaptureConfig) (s : CaptureServices) (p : Packet) (h : Headers)

theorem tcpSeen_accounts (nf : Flow) (stats : PacketStats) :
    (CaptureThread.tcpSeen p h nf stats).2.accounts = stats.accounts := by
  unfold CaptureThread.tcpSeen
  split
  · simp only
    split <;> split <;> rfl
  · rfl

theorem queuePacket_stats (nf : Flow) (t : CaptureThread) :
    (CaptureThread.queuePacket cfg p h nf t).stats = t.stats := by
  unfold CaptureThread.queuePacket
  simp only
  split_ifs <;> rfl

theorem accepted_accounts (stats : PacketStats) (ipVersion length : Nat) :
    (CaptureThread.PacketStats.accepted stats ipVersion length).accounts =
      { stats.accounts with ip := stats.ip + 1, ipBytes := stats.ipBytes + length } := by
  unfold CaptureThread.PacketStats.accepted
  simp only
  split <;> rfl

/-- Behind the dissection the packet is counted once more. -/
theorem hashed_accounts (t : CaptureThread) :
    (CaptureThread.hashed cfg s p h t).stats.accounts =
        { t.stats.accounts with
          ip := t.stats.accounts.ip + 1
          ipBytes := t.stats.accounts.ipBytes + p.length.toNat } ∨
      (CaptureThread.hashed cfg s p h t).stats.accounts =
        { t.stats.accounts with
          discard := t.stats.accounts.discard + 1
          discardBytes := t.stats.accounts.discardBytes + p.length.toNat } := by
  have counted : ∀ nf t, (CaptureThread.seen cfg s p h nf t).stats.accounts =
      { t.stats.accounts with
        ip := t.stats.accounts.ip + 1
        ipBytes := t.stats.accounts.ipBytes + p.length.toNat } := by
    intro nf t
    unfold CaptureThread.seen
    simp only [queuePacket_stats, tcpSeen_accounts, accepted_accounts]
    rfl
  unfold CaptureThread.hashed
  simp only
  split
  · exact .inl (counted _ _)
  split
  · exact .inr rfl
  split
  · exact .inr rfl
  · exact .inl (counted _ _)

end

/-- The accounts when dissection starts. -/
theorem arrived_accounts (cfg : CaptureConfig) (p : Packet) (t : CaptureThread) :
    (CaptureThread.arrived p (CaptureThread.tsPkt cfg p t)).stats.accounts =
      { t.stats.accounts with raw := t.stats.accounts.raw + 1 } := by
  unfold CaptureThread.arrived CaptureThread.tsPkt
  simp only
  split <;> rfl

theorem unhindered_count {α : Type} {x : Dissect Op α} :
    Unhindered x ↔ x.log.count .discard = 0 := by
  rw [List.count_eq_zero]
  constructor
  · intro goesOn member
    exact goesOn _ member rfl
  · intro absent w member same
    exact absent (same ▸ member)

theorem dissect_unknown {W : ExtensionWalker} {dl : Datalink} {p : Packet}
    (unknown : UnknownFamily dl p) (fuel : Nat) :
    dissect W dl p fuel = ⟨.left, [.read 0 4]⟩ := by
  obtain ⟨rfl, long, family⟩ := unknown
  simp only [List.mem_cons, List.not_mem_nil, or_false, not_or] at family
  have fixed : datalink .null p = ⟨.left, [.read 0 4]⟩ := by
    unfold datalink
    simp only [rejectIf_bind, if_neg (show ¬ p.cap < 4 by omega), if_neg family.1,
      if_neg (show ¬ (be32 p.data 0 = 24 ∨ be32 p.data 0 = 28 ∨ be32 p.data 0 = 30) by omega)]
    rfl
  have refused : frame .null p = none := by
    have left : (datalink .null p).outcome = .left := by rw [fixed]
    rw [datalink_outcome] at left
    cases framed : frame .null p with
    | none => rfl
    | some link => simp [framed] at left
  show linkLayer .null p fuel >>= behindLink W .null p fuel = _
  rw [linkLayer_of_unframed refused, fixed]
  rfl

/-- Discarding a packet `n` times counts it once only for `n = 1`. -/
theorem accountedOnce_discarded (before : Accounts) (n length : Nat) :
    AccountedOnce length before { before with
      raw := before.raw + 1
      discard := before.discard + n
      discardBytes := before.discardBytes + n * length } ↔ n = 1 := by
  unfold AccountedOnce
  constructor
  · rintro (ip | discard)
    · have := congrArg Accounts.ip ip
      simp at this
    · have := congrArg Accounts.discard discard
      simpa using this
  · rintro rfl
    right
    simp

/-- Accepting a packet that was discarded `n` times before, or discarding it
once more, counts it once only for `n = 0`. -/
theorem accountedOnce_hashed {before after : Accounts} {n length : Nat}
    (hashed : after = { before with
        raw := before.raw + 1
        ip := before.ip + 1
        ipBytes := before.ipBytes + length
        discard := before.discard + n
        discardBytes := before.discardBytes + n * length } ∨
      after = { before with
        raw := before.raw + 1
        discard := before.discard + n + 1
        discardBytes := before.discardBytes + n * length + length }) :
    AccountedOnce length before after ↔ n = 0 := by
  unfold AccountedOnce
  constructor
  · rintro (ip | discard) <;> rcases hashed with rfl | rfl
    · have := congrArg Accounts.discard ip
      simpa using this
    · have := congrArg Accounts.ip ip
      simp at this
    · have := congrArg Accounts.ip discard
      simp at this
    · have := congrArg Accounts.discard discard
      simp only at this
      omega
  · rintro rfl
    rcases hashed with rfl | rfl
    · exact .inl (by simp)
    · exact .inr (by simp)

/-- **One call.** A call that returns accounts for the packet once exactly when
no length test counted it and went on. -/
theorem accountedOnce_iff {cfg : CaptureConfig} {s : CaptureServices} {fuel : Nat} {p : Packet}
    {t t' : CaptureThread} (returned : t.processPacket cfg s fuel p = some t') :
    AccountedOnce p.length.toNat t.stats.accounts t'.stats.accounts ↔
      Accountable s.extensions cfg.dlType p := by
  unfold CaptureThread.processPacket at returned
  simp only at returned
  have dissected := performed_accounts p (dissect s.extensions cfg.dlType p fuel).log
    (CaptureThread.arrived p (CaptureThread.tsPkt cfg p t))
  rw [arrived_accounts, countP_isDiscard] at dissected
  by_cases unknown : UnknownFamily cfg.dlType p
  · rw [dissect_unknown unknown fuel] at returned dissected
    cases returned
    rw [dissected]
    refine (accountedOnce_discarded _ _ _).trans ⟨nofun, fun accountable => ?_⟩
    exact absurd unknown accountable.1
  have marks : List.countP isReject (dissect s.extensions cfg.dlType p fuel).log =
      (dissect s.extensions cfg.dlType p fuel).outcome.returns := marks_dissect unknown fuel
  have ended : (dissect s.extensions cfg.dlType p fuel).outcome ≠ .spun := by
    intro spun
    rw [spun] at returned
    cases returned
  rw [← unhindered_iff unknown ended, unhindered_count]
  rw [marks] at dissected
  cases outcome : (dissect s.extensions cfg.dlType p fuel).outcome with
  | spun => exact absurd outcome ended
  | left =>
    rw [outcome] at returned dissected
    cases returned
    rw [dissected, accountedOnce_discarded]
    simp [Outcome.returns]
  | ok h =>
    rw [outcome] at returned dissected
    cases returned
    refine accountedOnce_hashed ?_
    have hashed := hashed_accounts cfg s p h
      ((dissect s.extensions cfg.dlType p fuel).log.foldl (CaptureThread.perform p)
        (CaptureThread.arrived p (CaptureThread.tsPkt cfg p t)))
    rw [dissected] at hashed
    simpa [Outcome.returns] using hashed

/-! ## Runs -/

/-- Every packet that arrived was accepted or discarded. -/
def Balanced (t : CaptureThread) : Prop := t.stats.raw = t.stats.ip + t.stats.discard

/-- The condition on a step: a packet that is processed is accountable. -/
def StepAccountable (cfg : CaptureConfig) (s : CaptureServices) (_ : CaptureThread) :
    CaptureAction → Prop
  | .packet _ p => Accountable s.extensions cfg.dlType p
  | .share _ _ => True
  | .collect => True

theorem balanced_of_accountedOnce {length : Nat} {t t' : CaptureThread} (balanced : Balanced t)
    (once : AccountedOnce length t.stats.accounts t'.stats.accounts) : Balanced t' := by
  unfold Balanced at *
  rcases once with same | same
  · have raw := congrArg Accounts.raw same
    have ip := congrArg Accounts.ip same
    have discard := congrArg Accounts.discard same
    simp only [PacketStats.accounts] at raw ip discard
    omega
  · have raw := congrArg Accounts.raw same
    have ip := congrArg Accounts.ip same
    have discard := congrArg Accounts.discard same
    simp only [PacketStats.accounts] at raw ip discard
    omega

theorem balanced_step {cfg : CaptureConfig} {s : CaptureServices} {t t' : CaptureThread}
    {action : CaptureAction} (balanced : Balanced t)
    (taken : CaptureThread.step cfg s t action = some t')
    (accountable : StepAccountable cfg s t action) : Balanced t' := by
  cases action with
  | packet fuel p =>
    simp only [CaptureThread.step] at taken
    split at taken
    · cases taken
    · exact balanced_of_accountedOnce balanced ((accountedOnce_iff taken).mpr accountable)
  | share flowBuckets flows =>
    cases taken
    exact balanced
  | collect =>
    cases taken
    rfl

/-- **Packet accounting.** A call accounts for a packet once exactly when the
packet is accountable, and in a run of such packets the counters add up. -/
theorem packet_accounting (cfg : CaptureConfig) (s : CaptureServices) :
    (∀ p t, (∃ fuel t', CaptureThread.processPacket cfg s fuel p t = some t' ∧
      AccountedOnce p.length.toNat t.stats.accounts t'.stats.accounts) ↔
        Accountable s.extensions cfg.dlType p) ∧
    ∀ start t, Balanced start →
      Reaches (CaptureThread.step cfg s) (StepAccountable cfg s) start t → Balanced t := by
  constructor
  · intro p t
    constructor
    · rintro ⟨fuel, t', returned, once⟩
      exact (accountedOnce_iff returned).mp once
    · intro accountable
      obtain ⟨fuel, ended, _⟩ := unhindered_of_accountable accountable
      have returns : ∃ t', CaptureThread.processPacket cfg s fuel p t = some t' := by
        unfold CaptureThread.processPacket
        simp only
        cases outcome : (dissect s.extensions cfg.dlType p fuel).outcome with
        | ok h => exact ⟨_, rfl⟩
        | left => exact ⟨_, rfl⟩
        | spun => exact absurd outcome ended
      obtain ⟨t', returned⟩ := returns
      exact ⟨fuel, t', returned, (accountedOnce_iff returned).mpr accountable⟩
  · intro start t balanced reached
    exact reached.invariant balanced fun _ _ _ before taken accountable =>
      balanced_step before taken accountable

/-- A BSD loopback packet of an address family that is not supported. -/
def unknownFamily : Packet := .ofBytes [0, 0, 0, 7]

/-- An Ethernet frame that ends where its IPv4 header should start. -/
def truncatedIp : Packet := .ofBytes (Frames.ethernet (Frames.mac 2) (Frames.mac 1) 0x0800 [])

/-- Neither the packet that is not counted nor the one that is counted twice is
accounted for once. -/
theorem packet_miscounted :
    (¬ ∃ fuel t', CaptureThread.processPacket (Frames.eth0 .null) Frames.services fuel
      unknownFamily {} = some t' ∧ AccountedOnce 4 ({} : PacketStats).accounts t'.stats.accounts) ∧
    ¬ ∃ fuel t', CaptureThread.processPacket (Frames.eth0 .en10mb) Frames.services fuel
      truncatedIp {} = some t' ∧
        AccountedOnce 14 ({} : PacketStats).accounts t'.stats.accounts := by
  constructor
  · rintro ⟨fuel, t', returned, once⟩
    have accountable : Accountable .none .null unknownFamily := (accountedOnce_iff returned).mp once
    exact accountable.1 (by decide)
  · rintro ⟨fuel, t', returned, once⟩
    have accountable : Accountable .none .en10mb truncatedIp := (accountedOnce_iff returned).mp once
    obtain ⟨stop, walk, headers⟩ := accountable.2 ⟨0x0800, 14, false⟩ (by decide)
    have stops := (tagWalk_other (by decide)).mp walk
    have fits : 14 + 20 ≤ truncatedIp.cap := (headers 14 stops).first
    exact absurd fits (by decide)

/-- A DNS question over UDP, processed by a thread that starts, counts once and
leaves the counters balanced. -/
theorem packet_accounting_udp :
    (∃ fuel t', CaptureThread.processPacket (Frames.eth0 .en10mb) Frames.services fuel
      (Frames.udpFrame 1 2 4000 53 []) {} = some t' ∧
        AccountedOnce 42 ({} : PacketStats).accounts t'.stats.accounts) ∧
    ∀ t, CaptureThread.step (Frames.eth0 .en10mb) Frames.services {}
      (.packet 2 (Frames.udpFrame 1 2 4000 53 [])) = some t → Balanced t := by
  have accountable : Accountable .none .en10mb (Frames.udpFrame 1 2 4000 53 []) := by
    refine ⟨by decide, fun link framed => ?_⟩
    have same : frame .en10mb (Frames.udpFrame 1 2 4000 53 []) = some ⟨0x0800, 14, false⟩ := by
      decide
    cases same.symm.trans framed
    refine ⟨some 14, .done (by decide), fun l2Len stops => ?_⟩
    cases stops
    exact .last (by decide) (by decide)
  have claim := packet_accounting (Frames.eth0 .en10mb) Frames.services
  exact ⟨(claim.1 _ {}).mpr accountable, fun t taken =>
    claim.2 {} t rfl (.next .start taken accountable)⟩

end NetifyAgent.Accounting
