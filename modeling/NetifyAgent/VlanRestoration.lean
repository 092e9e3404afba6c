import NetifyAgent.CapturedBytes
import NetifyAgent.Descriptors
import NetifyAgent.LinkIndependence

/-! A VLAN tag that the kernel has stripped, from `ndPacketRing::CopyPacket` to the template of a
capture thread. The tag is put back between the hardware addresses and the type of the frame. The
loop over the tags takes it off again, and behind it everything is found four bytes further on. -/
namespace NetifyAgent
open Bytes Dissection LinkIndependence

/-! ## The bytes -/

namespace RingEntry

theorem tag_length (e : RingEntry) : e.tag.length = 4 := rfl

/-- **The restored frame** is the frame with the tag behind its hardware addresses. -/
theorem slice_restored {e : RingEntry} (long : ND_VLAN_OFFSET ≤ e.tpSnaplen.toNat) :
    slice e.restored (e.tpMac - 4) (e.tpSnaplen.toNat + 4) =
      e.frame.take 12 ++ (e.tag ++ e.frame.drop 12) := by
  have reserved := e.reserved
  obtain ⟨rest, length⟩ := Nat.exists_eq_add_of_le long
  obtain ⟨data, mac⟩ := Nat.exists_eq_add_of_le reserved
  have front : e.frame = slice e.memory (4 + data) 12 ++ slice e.memory (4 + data + 12) rest := by
    unfold frame
    rw [length, mac]
    exact slice_add _ _ _ _
  have moved : slice e.restored data 12 = slice e.memory (4 + data) 12 := by
    unfold restored
    simp only [mac, Nat.add_sub_cancel_left, ND_VLAN_OFFSET]
    rw [slice_store_beside _ _ (.inl (Nat.le_refl _)), Nat.add_comm data 4]
    have written := slice_store e.memory (slice e.memory (4 + data) 12) data
    rwa [slice_length] at written
  have tagged : slice e.restored (data + 12) 4 = e.tag := by
    unfold restored
    simp only [mac, Nat.add_sub_cancel_left, ND_VLAN_OFFSET]
    exact slice_store _ e.tag (data + 12)
  have behind_ : slice e.restored (data + 12 + 4) rest = slice e.memory (4 + data + 12) rest := by
    unfold restored
    simp only [mac, Nat.add_sub_cancel_left, ND_VLAN_OFFSET]
    rw [slice_store_beside _ _ (.inr (by rw [tag_length])),
      slice_store_beside _ _ (.inr (by rw [slice_length]; omega))]
    congr 1
    omega
  have whole : e.tpSnaplen.toNat + 4 = 12 + (4 + rest) := by
    rw [length]
    simp only [ND_VLAN_OFFSET]
    omega
  rw [mac, Nat.add_sub_cancel_left, whole, slice_add, slice_add, moved, tagged, behind_, front,
    List.take_left' (slice_length _ _ _), List.drop_left' (slice_length _ _ _)]

/-- The frame without the tag, as a packet of its own. -/
def untagged (e : RingEntry) (past : Memory) : Packet where
  length := e.tpLen.toUInt16
  caplen := e.tpSnaplen.toUInt16
  data := behind e.frame past
  tvSec := e.tpSec.toNat
  tvUsec := e.tpNsec.toNat / 1000

end RingEntry

/-! ## A packet with a tag -/

/-- The second packet is the first one with a tag behind the hardware addresses. -/
structure WithTag (q p : Packet) (tpid tci : UInt16) : Prop where
  cap : p.cap = q.cap + 4
  addrs : ∀ i, i < 12 → p.data i = q.data i
  type : be16 p.data 12 = tpid.toNat
  control : be16 p.data 14 = tci.toNat
  data : ∀ i, 12 ≤ i → i < q.cap → p.data (i + 4) = q.data i

section
variable {W : ExtensionWalker} {q p : Packet} {tpid tci : UInt16} {fuel : Nat}

theorem WithTag.be16 (tagged : WithTag q p tpid tci) {off : Nat} (past : 12 ≤ off)
    (here : off + 2 ≤ q.cap) : be16 p.data (off + 4) = be16 q.data off := by
  refine be16_congr (tagged.data off past (by omega)) ?_
  rw [Nat.add_right_comm]
  exact tagged.data (off + 1) (by omega) (by omega)

theorem WithTag.mplsBottom (tagged : WithTag q p tpid tci) {off : Nat} (past : 12 ≤ off)
    (here : off + 4 ≤ q.cap) : mplsBottom p (off + 4) = mplsBottom q off := by
  unfold NetifyAgent.mplsBottom
  rw [Nat.add_right_comm, tagged.data _ (by omega) (by omega)]

theorem WithTag.room (tagged : WithTag q p tpid tci) : q.cap + 4 < 65536 := by
  rw [← tagged.cap]
  exact p.cap_lt

/-- Labels are found four bytes further on. -/
theorem alike_labels (tagged : WithTag q p tpid tci) {s : Bool} {l2Len : Nat} (past : 12 ≤ l2Len)
    (start : l2Len ≤ q.cap) (inside : Every (Inside q) (labels q fuel s l2Len)) :
    Alike netAssign (fun stop stop' => stop' = stop + 4 ∧ 12 ≤ stop ∧ stop ≤ q.cap)
      (labels q fuel s l2Len) (labels p fuel s (l2Len + 4)) := by
  have room := tagged.room
  induction fuel generalizing s l2Len with
  | zero => exact alike_spin
  | succ fuel ih =>
    rw [labels_succ] at inside ⊢
    rw [labels_succ]
    cases s with
    | true => exact alike_pure ⟨rfl, past, start⟩
    | false =>
      simp only [Bool.false_eq_true, if_false] at inside ⊢
      obtain ⟨reads, inside⟩ := (every_emits_bind _ _).mp inside
      have label : (l2Len + 4) % 65536 + 4 ≤ q.cap :=
        reads (.read ((l2Len + 4) % 65536) 4) (by simp [Tag.ops])
      have cut : (l2Len + 4) % 65536 = l2Len + 4 := Nat.mod_eq_of_lt (by omega)
      rw [cut] at inside label ⊢
      rw [Nat.mod_eq_of_lt (by omega), tagged.mplsBottom (by omega) label]
      refine alike_bind (alike_emits ?_) fun _ _ _ _ => ih (by omega) (by omega) inside
      simp only [Tag.ops]
      split <;> split <;> rfl

/-- **The tags behind the first one** are found four bytes further on. -/
theorem alike_decapsulate (tagged : WithTag q p tpid tci) {link : Link} (past : 12 ≤ link.l2Len)
    (start : link.l2Len ≤ q.cap) (inside : Every (Inside q) (decapsulate q fuel link))
    (vlanPacket : Bool) :
    Alike netAssign (fun last last' => last'.l2Len = last.l2Len + 4 ∧ last.l2Len ≤ q.cap)
      (decapsulate q fuel link) (decapsulate p fuel ⟨link.type, link.l2Len + 4, vlanPacket⟩) := by
  have room := tagged.room
  induction fuel generalizing link vlanPacket with
  | zero => exact alike_spin
  | succ fuel ih =>
    rw [decapsulate_succ] at inside ⊢
    rw [decapsulate_succ]
    cases kind : tagKind link.type with
    | vlan =>
      simp only [kind] at inside ⊢
      obtain ⟨reads, inside⟩ := (every_emits_bind _ _).mp inside
      have tag : link.l2Len + 2 + 2 ≤ q.cap := reads (.read (link.l2Len + 2) 2) (by simp [Tag.ops])
      have cut : (link.l2Len + 4) % 65536 = link.l2Len + 4 := Nat.mod_eq_of_lt (by omega)
      have type : be16 p.data (link.l2Len + 4 + 2) = be16 q.data (link.l2Len + 2) := by
        rw [Nat.add_right_comm]
        exact tagged.be16 (by omega) tag
      rw [cut] at inside ⊢
      rw [Nat.mod_eq_of_lt (by omega), type]
      refine alike_bind (alike_emits ?_) fun _ _ _ _ =>
        @ih ⟨_, link.l2Len + 4, true⟩ (by simp only; omega) (by simp only; omega) inside true
      simp only [Tag.ops, tagged.be16 past (by omega)]
      split <;> split <;> rfl
    | mpls =>
      simp only [kind] at inside ⊢
      obtain ⟨reads, inside⟩ := (every_emits_bind _ _).mp inside
      have label : link.l2Len + 4 ≤ q.cap := reads (.read link.l2Len 4) (by simp [Tag.ops])
      have cut : (link.l2Len + 4) % 65536 = link.l2Len + 4 := Nat.mod_eq_of_lt (by omega)
      rw [cut] at inside ⊢
      rw [Nat.mod_eq_of_lt (by omega), tagged.mplsBottom past label]
      obtain ⟨below, inside⟩ := every_bind.mp inside
      refine alike_bind (alike_emits ?_) fun _ _ _ _ =>
        alike_bind (alike_labels tagged (by omega) label below) fun stop stop' ended moved => ?_
      · simp only [Tag.ops]
        split <;> split <;> rfl
      · obtain ⟨rfl, behind_, within⟩ := moved
        exact @ih ⟨_, stop, link.vlanPacket⟩ behind_ within (inside stop ended) vlanPacket
    | pppoe =>
      simp only [kind] at inside ⊢
      obtain ⟨reads, inside⟩ := (every_emits_bind _ _).mp inside
      have header : link.l2Len + 6 + 2 ≤ q.cap :=
        reads (.read (link.l2Len + 6) 2) (by simp [Tag.ops])
      have cut : (link.l2Len + 8) % 65536 = link.l2Len + 8 := Nat.mod_eq_of_lt (by omega)
      have ip : pppIp p (link.l2Len + 4) ↔ pppIp q link.l2Len := by
        unfold pppIp
        rw [Nat.add_right_comm, tagged.be16 (by omega) header]
      rw [cut] at inside ⊢
      rw [Nat.mod_eq_of_lt (by omega)]
      refine alike_bind (alike_emits ?_) fun _ _ _ _ => ?_
      · simp only [Tag.ops]
        split <;> split <;> rfl
      by_cases carries : pppIp q link.l2Len
      · rw [if_pos carries] at inside ⊢
        rw [if_pos (ip.mpr carries)]
        obtain ⟨-, inside⟩ := (every_emits_bind _ _).mp inside
        refine alike_bind (alike_emits ?_) fun _ _ _ _ => ?_
        · simp only [Tag.ops]
          split <;> split <;> rfl
        · rw [show link.l2Len + 4 + 8 = link.l2Len + 8 + 4 by omega]
          exact @ih ⟨_, link.l2Len + 8, link.vlanPacket⟩ (by simp only; omega) (by simp only; omega)
            inside vlanPacket
      · rw [if_neg carries, if_neg (carries ∘ ip.mp)]
        exact alike_reject
    | discovery =>
      simp only
      exact alike_bind (alike_emit rfl) fun _ _ _ _ => alike_reject
    | other => exact alike_pure ⟨rfl, start⟩

/-! ## The dissection -/

/-- Every header of an Ethernet frame is captured; those behind the tags lie behind the Ethernet
header, whose hardware addresses may be read again. -/
structure HeadersCaptured (W : ExtensionWalker) (q : Packet) : Prop where
  tags : ∀ fuel, Every (Inside q) (decapsulate q fuel ⟨be16 q.data 12, 14, false⟩)
  headers : ∀ fuel last, (decapsulate q fuel ⟨be16 q.data 12, 14, false⟩).outcome = .ok last →
    Every (Behind q 14) (behindLink W .raw q fuel last.l2Len)

/-- Behind the tags the datalink type makes a difference to the hardware addresses only. -/
theorem alike_raw (portable : Portable W) {l2Len : Nat} (start : l2Len ≤ q.cap)
    (enough : q.cap < l2Len + fuel) (reads : Every (Behind q 14) (behindLink W .raw q fuel l2Len)) :
    Alike netAssign (fun _ _ => True) (behindLink W .raw q fuel l2Len)
      (behindLink W .en10mb q fuel l2Len) := by
  have room := q.cap_lt
  have headers : Every (Behind q 14) (processIp W .raw q fuel l2Len {}) := (every_bind.mp reads).1
  have settled := processIp_settles (by omega) start enough headers
  have itself : Carried q q 0 := ⟨fun i => by rw [Nat.zero_add], (Nat.zero_add _).symm⟩
  have here : Alike netAssign (fun _ _ => True) (behindLink W .raw q fuel l2Len)
      (behindLink W .en10mb q fuel (0 + l2Len)) :=
    alike_behindLink_at portable itself (reach_of_behind (by omega) (by omega) headers settled) fuel
  rwa [Nat.zero_add] at here

theorem headers_settle (portable : Portable W) {l2Len : Nat} (start : l2Len ≤ q.cap)
    (enough : q.cap < l2Len + fuel) (reads : Every (Behind q 14) (behindLink W .raw q fuel l2Len)) :
    (behindLink W .en10mb q fuel l2Len).outcome ≠ .spun := by
  intro spun
  have raw := (alike_raw portable start enough reads).spun_iff.mp spun
  exact behindLink_ended.mpr
    (processIp_settles (by omega) start enough (every_bind.mp reads).1) raw

/-- Behind the tags everything is found four bytes further on. -/
theorem alike_headers (portable : Portable W) (tagged : WithTag q p tpid tci) {l2Len : Nat}
    (start : l2Len ≤ q.cap) (enough : q.cap < l2Len + fuel)
    (reads : Every (Behind q 14) (behindLink W .raw q fuel l2Len)) :
    Alike netAssign (fun _ _ => True) (behindLink W .en10mb q fuel l2Len)
      (behindLink W .en10mb p fuel (l2Len + 4)) := by
  have room := tagged.room
  have headers : Every (Behind q 14) (processIp W .raw q fuel l2Len {}) := (every_bind.mp reads).1
  have settled := processIp_settles (by omega) start enough headers
  let moved : Packet := { q with data := fun i => p.data (4 + i) }
  have same : SameBytes q moved 14 := by
    refine ⟨rfl, fun i past inside => ?_⟩
    show p.data (4 + i) = q.data i
    rw [Nat.add_comm]
    exact tagged.data i (by omega) inside
  have carried : Carried moved p 4 := ⟨fun _ => rfl, by rw [tagged.cap, Nat.add_comm]; rfl⟩
  rw [← same.processIp headers] at settled
  have read : Every (Behind moved 14) (processIp W .raw moved fuel l2Len {}) := by
    rw [same.processIp headers]
    exact headers
  have reach : HeaderWalk W moved (InReach W moved 4) l2Len :=
    reach_of_behind (by omega) (show 4 + q.cap < 65536 by omega) read settled
  have there : Alike netAssign (fun _ _ => True) (behindLink W .raw moved fuel l2Len)
      (behindLink W .en10mb p fuel (4 + l2Len)) := alike_behindLink_at portable carried reach fuel
  rw [same.behindLink reads] at there
  rw [Nat.add_comm l2Len 4]
  exact (alike_raw portable start enough reads).opposite there

theorem frame_some {link : Link} (framed : frame .en10mb q = some link) :
    14 ≤ q.cap ∧ ¬ (stpAddr q 6 = true ∨ stpAddr q 0 = true) ∧ link = ⟨be16 q.data 12, 14, false⟩ := by
  have long := frame_long framed
  unfold frame at framed
  rw [if_neg (not_lt.mpr long)] at framed
  simp only [Option.ite_none_left_eq_some, Option.some.injEq] at framed
  exact ⟨long, framed.1, framed.2.symm⟩

/-- The packet with the tag starts with a VLAN tag. -/
theorem frame_tagged {link : Link} (tagged : WithTag q p 0x8100 tci)
    (framed : frame .en10mb q = some link) :
    frame .en10mb p = some ⟨EtherType.vlan, 14, false⟩ := by
  obtain ⟨long, host, -⟩ := frame_some framed
  have addr : ∀ off, off + 3 ≤ 12 → stpAddr p off = stpAddr q off := by
    intro off inside
    unfold stpAddr
    rw [slice_congr fun i _ => tagged.addrs (off + i) (by omega)]
  unfold frame
  rw [if_neg (show ¬ p.cap < Datalink.en10mb.headerLen by
    rw [tagged.cap]
    exact not_lt.mpr (Nat.le_add_right_of_le long))]
  simp only [addr 6 (by omega), addr 0 (by omega), host, if_false, tagged.type]
  rfl

/-- **The tag comes off again**, and assigns the VLAN id in front of all that the frame by itself
assigns. -/
theorem alike_dissect {link : Link} (portable : Portable W) (tagged : WithTag q p 0x8100 tci)
    (framed : frame .en10mb q = some link) (captured : HeadersCaptured W q)
    (enough : q.cap < fuel) :
    Alike netAssign (fun _ _ => True)
      (emits [.set (.vlanId (tci.toNat % 4096))] >>= fun _ => dissect W .en10mb q fuel)
      (dissect W .en10mb p fuel) := by
  obtain ⟨long, -, rfl⟩ := frame_some framed
  have room := tagged.room
  obtain ⟨rounds, rfl⟩ : ∃ n, fuel = n + 1 := ⟨fuel - 1, by omega⟩
  have type : be16 p.data 16 = be16 q.data 12 := tagged.be16 (by omega) (by omega)
  have settled := (decapsulate_settles room long (by simp only; omega) (captured.tags rounds)).1
  have more : decapsulate q (rounds + 1) ⟨be16 q.data 12, 14, false⟩ =
      decapsulate q rounds ⟨be16 q.data 12, 14, false⟩ :=
    decapsulate_stable ⟨be16 q.data 12, 14, false⟩ rounds _ (Nat.le_succ _) settled
  have rest : Alike netAssign (fun _ _ => True)
      (decapsulate q rounds ⟨be16 q.data 12, 14, false⟩ >>= fun last =>
        linkEnd last >>= behindLink W .en10mb q (rounds + 1))
      (decapsulate p rounds ⟨be16 q.data 12, 14 + 4, true⟩ >>= fun last =>
        linkEnd last >>= behindLink W .en10mb p (rounds + 1)) := by
    refine alike_bind (alike_decapsulate tagged (by simp) long (captured.tags rounds) true)
      fun last last' ended moved => ?_
    obtain ⟨stops, within⟩ := moved
    rw [linkEnd_bind, linkEnd_bind, stops]
    refine alike_bind (alike_emits ?_) fun _ _ _ _ =>
      alike_headers portable tagged within (by omega) ?_
    · split <;> split <;> rfl
    · rw [← more] at ended
      exact captured.headers _ last ended
  have first : decapsulate p (rounds + 1) ⟨EtherType.vlan, 14, false⟩ =
      emits (Tag.ops p .vlan 14) >>= fun _ =>
        decapsulate p rounds ⟨be16 q.data 12, 14 + 4, true⟩ := by
    rw [decapsulate_succ, ← type]
    rfl
  rw [dissect_of_frame framed, dissect_of_frame (frame_tagged tagged framed), more, first,
    bind_assoc]
  simp only [emits_bind]
  refine ⟨?_, rest.outcome⟩
  simp only [List.filterMap_append, Encapsulations.netAssign_datalink, rest.log, Tag.ops,
    tagged.control, List.nil_append]
  split <;> rfl

end

/-! ## The template -/

/-- Two templates have the same addresses, ports and protocol. -/
structure SameEndpoints (flow flow' : Flow) : Prop where
  ipVersion : flow.ipVersion = flow'.ipVersion
  ipProtocol : flow.ipProtocol = flow'.ipProtocol
  lower : flow.lowerAddr.endpoint = flow'.lowerAddr.endpoint
  upper : flow.upperAddr.endpoint = flow'.upperAddr.endpoint

/-- No assignment looks at the VLAN id. -/
theorem assigned_retagged (ws : List Op) (flow : Flow) (v : Nat) :
    ∃ v', assigned { flow with vlanId := v } ws = { assigned flow ws with vlanId := v' } := by
  induction ws generalizing flow v with
  | nil => exact ⟨v, rfl⟩
  | cons w ws ih =>
    have step : ∃ v', w.assign { flow with vlanId := v } = { w.assign flow with vlanId := v' } := by
      cases w with
      | set a =>
        cases a with
        | vlanId v' => exact ⟨v', rfl⟩
        | enterGtp version =>
          refine ⟨v, ?_⟩
          by_cases tunnel : flow.tunnelType = .none <;> simp [Op.assign, Assign.apply, tunnel]
        | createIn side _ => exact ⟨v, by cases side <;> rfl⟩
        | createIn6 side _ => exact ⟨v, by cases side <;> rfl⟩
        | createHw side _ => exact ⟨v, by cases side <;> rfl⟩
        | setPort side _ => exact ⟨v, by cases side <;> rfl⟩
        | _ => exact ⟨v, rfl⟩
      | _ => exact ⟨v, rfl⟩
    obtain ⟨v', stepped⟩ := step
    obtain ⟨v'', later⟩ := ih (w.assign flow) v'
    refine ⟨v'', ?_⟩
    show assigned (w.assign { flow with vlanId := v }) ws = _
    rw [stepped]
    exact later

section
variable {cfg : CaptureConfig} {s : CaptureServices} {t : CaptureThread} {q p : Packet}
  {tci : UInt16} {fuel : Nat}

/-- The VLAN id comes from the tags of the frame, if it has any. -/
theorem vlanId_dissect {W : ExtensionWalker} {link : Link} (framed : frame .en10mb q = some link)
    (flow : Flow) :
    (assigned flow (dissect W .en10mb q fuel).log).vlanId =
      (assigned flow (decapsulate q fuel link).log).vlanId := by
  rw [dissect_of_frame framed, emits_bind, assigned_append, assigned_datalink]
  cases ended : (decapsulate q fuel link).outcome with
  | ok last =>
    rw [bind_of_ok _ ended, linkEnd_bind, emits_bind]
    simp only [assigned_append]
    rw [assigned_keepsVlan (keepsVlan_behindLink fuel last.l2Len)]
    split <;> rfl
  | left => rw [bind_of_left _ ended]
  | spun => rw [bind_of_spun _ ended]

theorem sameEndpoints_template {x y : Dissect Op Headers}
    (same : SameEndpoints (assigned {} x.log) (assigned {} y.log)) :
    SameEndpoints (template cfg s x) (template cfg s y) := by
  have kept : ∀ z : Dissect Op Headers, SameEndpoints (template cfg s z) (assigned {} z.log) := by
    intro z
    unfold template
    split <;> exact ⟨rfl, rfl, rfl, rfl⟩
  exact ⟨(kept x).ipVersion.trans (same.ipVersion.trans (kept y).ipVersion.symm),
    (kept x).ipProtocol.trans (same.ipProtocol.trans (kept y).ipProtocol.symm),
    (kept x).lower.trans (same.lower.trans (kept y).lower.symm),
    (kept x).upper.trans (same.upper.trans (kept y).upper.symm)⟩

/-- **The template of a packet with a tag** is that of the packet without it but for the VLAN id,
which is the one of the last tag. -/
theorem leaves_tagged {link : Link} (ethernet : cfg.dlType = .en10mb)
    (portable : Portable s.extensions) (tagged : WithTag q p 0x8100 tci)
    (framed : frame .en10mb q = some link) (captured : HeadersCaptured s.extensions q) :
    ∃ flow flow', Leaves cfg s t q flow ∧ Leaves cfg s t p flow' ∧ SameEndpoints flow flow' ∧
      flow'.vlanId = if link.type = EtherType.vlan then flow.vlanId else tci.toNat % 4096 := by
  obtain ⟨long, -, linked⟩ := frame_some framed
  have room := tagged.room
  have enough : q.cap < q.cap + 1 := Nat.lt_succ_self _
  have alike := alike_dissect portable tagged framed captured enough
  subst linked
  obtain ⟨tags, within⟩ := decapsulate_settles room long (by simp only; omega)
    (captured.tags (q.cap + 1))
  have settled : (dissect s.extensions .en10mb q (q.cap + 1)).outcome ≠ .spun := by
    rw [dissect_of_frame framed, emits_bind]
    intro spun
    rcases bind_spun_iff.mp spun with spun | ⟨last, ended, spun⟩
    · exact tags spun
    · rw [linkEnd_bind, emits_bind] at spun
      exact headers_settle portable (within last ended) (by omega)
        (captured.headers _ last ended) spun
  have settled' : (dissect s.extensions .en10mb p (q.cap + 1)).outcome ≠ .spun :=
    fun spun => settled (alike.spun_iff.mp spun)
  have same : bare (assigned { ({} : Flow) with vlanId := tci.toNat % 4096 }
      (dissect s.extensions .en10mb q (q.cap + 1)).log) =
      bare (assigned {} (dissect s.extensions .en10mb p (q.cap + 1)).log) := by
    rw [bare_assigned, bare_assigned, ← alike.log]
    rfl
  obtain ⟨v, retagged⟩ := assigned_retagged (dissect s.extensions .en10mb q (q.cap + 1)).log {}
    (tci.toNat % 4096)
  rw [← ethernet] at settled settled'
  refine ⟨_, _, leaves_of_dissect settled, leaves_of_dissect settled', sameEndpoints_template ?_, ?_⟩
  · rw [ethernet]
    have flows := sameFlow_of_bare same
    rw [retagged] at flows
    exact ⟨flows.ipVersion, flows.ipProtocol, flows.lower, flows.upper⟩
  · rw [(template_fields _ _ _).2, (template_fields _ _ _).2, ethernet,
      ← (sameFlow_of_bare same).vlanId, vlanId_dissect framed, vlanId_dissect framed]
    simp only
    split
    · rename_i vlan
      refine (vlanId_decapsulate tags _ _).mpr (.inr ?_)
      simp only [vlan]
      rfl
    · rename_i other
      have kind : tagKind (be16 q.data 12) ≠ .vlan := by
        unfold tagKind
        rw [if_neg other]
        split_ifs <;> decide
      exact assigned_keepsVlan (keepsVlan_decapsulate tags kind) _

end

/-! ## From the ring to the template -/

theorem behind_inside {bytes : List UInt8} {i : Nat} (inside : i < bytes.length) (m m' : Memory) :
    behind bytes m i = behind bytes m' i := by
  unfold behind
  rw [if_pos inside, if_pos inside]

/-- The restored packet carries the tag. -/
theorem withTag_restored {e : RingEntry} {p : NdPacket} (long : 12 ≤ e.tpSnaplen.toNat)
    (short : e.tpSnaplen.toNat + 4 < 65536) (cap : p.caplen.toNat = e.tpSnaplen.toNat + 4)
    (data : p.data = e.frame.take 12 ++ (e.tag ++ e.frame.drop 12)) (past past' : Memory) :
    WithTag (e.untagged past) (p.packet past') e.vlanTpid e.vlanTci := by
  have length : e.frame.length = e.tpSnaplen.toNat := slice_length _ _ _
  have front : (e.frame.take 12).length = 12 := by
    rw [List.length_take, length]
    omega
  have rest : (e.frame.drop 12).length = e.tpSnaplen.toNat - 12 := by rw [List.length_drop, length]
  have captured : (e.untagged past).cap = e.tpSnaplen.toNat := by
    show e.tpSnaplen.toUInt16.toNat = _
    rw [UInt32.toNat_toUInt16]
    omega
  have whole : (e.untagged past).data = behind (e.frame.take 12) (behind (e.frame.drop 12) past) := by
    rw [← behind_append, List.take_append_drop]
    rfl
  have tagged : (p.packet past').data =
      behind (e.frame.take 12) (behind e.tag (behind (e.frame.drop 12) past')) := by
    rw [← behind_append e.tag, ← behind_append, ← data]
    rfl
  have type := Encapsulations.type_behind (e.frame.take 12)
    (Frames.be e.vlanTci.toNat ++ e.frame.drop 12) past' e.vlanTpid.toNat_lt
  have control := Encapsulations.type_behind (e.frame.take 12 ++ Frames.be e.vlanTpid.toNat)
    (e.frame.drop 12) past' e.vlanTci.toNat_lt
  have bytes : (p.packet past').data = behind p.data past' := rfl
  rw [List.length_append, front] at control
  simp only [front, List.append_assoc] at type control
  refine ⟨?_, fun i early => ?_, ?_, ?_, fun i past_ inside => ?_⟩
  · rw [captured]
    exact cap
  · rw [whole, tagged]
    exact behind_inside (by rw [front]; exact early) _ _
  · rw [bytes, data, RingEntry.tag, List.append_assoc]
    exact type.1
  · rw [bytes, data, RingEntry.tag, List.append_assoc]
    exact control.1
  · obtain ⟨k, rfl⟩ := Nat.exists_eq_add_of_le past_
    have before := behind_add (e.frame.take 12) (behind (e.frame.drop 12) past) k
    have after := behind_add (e.frame.take 12) (behind e.tag (behind (e.frame.drop 12) past')) (4 + k)
    have under : behind e.tag (behind (e.frame.drop 12) past') (4 + k) = _ := behind_add e.tag _ k
    rw [front, ← whole] at before
    rw [front, ← tagged, under] at after
    rw [before, Nat.add_assoc, Nat.add_comm k 4, after]
    refine behind_inside ?_ _ _
    rw [rest]
    omega

/-- A new capture thread takes the restored packet for the frame on that VLAN. -/
def Recorded (e : RingEntry) (p : NdPacket) : Prop :=
  ∀ (cfg : CaptureConfig) (s : CaptureServices) (t : CaptureThread) (past past' : Memory)
    (link : Link), cfg.dlType = .en10mb → Portable s.extensions → e.vlanTpid = 0x8100 →
    frame .en10mb (e.untagged past) = some link →
    HeadersCaptured s.extensions (e.untagged past) →
    ∃ flow flow', Leaves cfg s t (e.untagged past) flow ∧ Leaves cfg s t (p.packet past') flow' ∧
      SameEndpoints flow flow' ∧
      flow'.vlanId =
        if link.type = EtherType.vlan then flow.vlanId else e.vlanTci.toNat % 4096

/-- **VLAN restoration.** -/
theorem vlan_restored {filter : Option BpfProgram} {e : RingEntry} (restores : e.Restores)
    (short : e.tpLen.toNat + 4 < 65536)
    (accepted : applyFilter filter (e.frame.take 12 ++ (e.tag ++ e.frame.drop 12)) (e.tpLen + 4)
      (e.tpSnaplen + 4) = false) (heap : Memory) :
    ∃ p, (copyPacket filter e heap).1 = some p ∧
      p.data = e.frame.take 12 ++ (e.tag ++ e.frame.drop 12) ∧
      p.caplen.toNat = e.frame.length + 4 ∧ p.length.toNat = e.tpLen.toNat + 4 ∧
      Recorded e p := by
  have within := UInt32.le_iff_toNat_le.mp e.captured
  have length : e.frame.length = e.tpSnaplen.toNat := slice_length _ _ _
  have snaplen : (e.tpSnaplen + 4).toNat = e.tpSnaplen.toNat + 4 := by
    rw [UInt32.toNat_add]
    exact Nat.mod_eq_of_lt (by simp only [UInt32.reduceToNat]; omega)
  have len : (e.tpLen + 4).toNat = e.tpLen.toNat + 4 := by
    rw [UInt32.toNat_add]
    exact Nat.mod_eq_of_lt (by simp only [UInt32.reduceToNat]; omega)
  have prepared : e.prepared = (e.frame.take 12 ++ (e.tag ++ e.frame.drop 12), e.tpLen + 4,
      e.tpSnaplen + 4, NdPacket.STATUS_INIT ||| NdPacket.STATUS_VLAN_TAG_RESTORED) := by
    unfold RingEntry.prepared
    rw [if_pos restores, snaplen, RingEntry.slice_restored restores.2]
  have built := @Delivery.tpv3_build filter e (by rw [prepared, accepted]; decide) heap
  rw [prepared] at built
  have cap : (e.tpSnaplen + 4).toUInt16.toNat = e.tpSnaplen.toNat + 4 :=
    (Delivery.toUInt16_eq_iff snaplen).mpr (by omega)
  obtain ⟨p, copied, data, caplen, wire⟩ : ∃ p, (copyPacket filter e heap).1 = some p ∧
      p.data = e.frame.take 12 ++ (e.tag ++ e.frame.drop 12) ∧
      p.caplen.toNat = e.tpSnaplen.toNat + 4 ∧ p.length.toNat = e.tpLen.toNat + 4 :=
    ⟨_, built, rfl, cap, (Delivery.toUInt16_eq_iff len).mpr short⟩
  refine ⟨p, copied, data, length ▸ caplen, wire, ?_⟩
  intro cfg s t past past' link ethernet portable tpid framed captured
  have tagged := withTag_restored restores.2 (by omega) caplen data past past'
  rw [tpid] at tagged
  exact leaves_tagged ethernet portable tagged framed captured

/-! ## Frames in the ring -/

/-- An entry of the ring with a tag that the kernel has stripped. -/
def ringEntry (frame : List UInt8) (tci : UInt16) : RingEntry where
  memory := fun i => if i < 64 then 0 else frame.getD (i - 64) 0
  tpLen := UInt32.ofNat frame.length
  tpSnaplen := UInt32.ofNat frame.length
  tpMac := 64
  tpStatus := TP_STATUS_VLAN_VALID
  tpVlanTci := tci.toUInt32
  captured := UInt32.le_refl _
  reserved := by decide

/-- A UDP packet over Ethernet, and a message of the spanning tree protocol. -/
def udpEntry : RingEntry := ringEntry (slice (Frames.udpFrame 1 2 4000 53 []).data 0 42) 5
def bridgeEntry : RingEntry :=
  ringEntry ([0x01, 0x80, 0xc2, 0, 0, 0] ++ Frames.mac 1 ++ [0x08, 0x00] ++ List.replicate 28 0) 5

theorem udpEntry_headers : HeadersCaptured ExtensionWalker.none (udpEntry.untagged fun _ => 0) := by
  have kind : tagKind (be16 (udpEntry.untagged fun _ => 0).data 12) = .other := by decide +kernel
  refine ⟨fun fuel => ?_, fun fuel last ended => ?_⟩
  · cases fuel with
    | zero => exact every_spin
    | succ fuel =>
      rw [decapsulate_succ]
      simp only [kind]
      exact every_pure _
  · cases fuel with
    | zero => cases ended
    | succ fuel =>
      rw [decapsulate_succ] at ended
      simp only [kind] at ended
      cases ended
      have settled : (processIp .none .raw (udpEntry.untagged fun _ => 0) 1 14 {}).outcome ≠ .spun := by
        decide +kernel
      have once : processIp .none .raw (udpEntry.untagged fun _ => 0) (fuel + 1) 14 {} = _ :=
        processIp_stable 14 {} 1 _ (Nat.le_add_left _ _) settled
      have reads : ∀ w ∈ (behindLink .none .raw (udpEntry.untagged fun _ => 0) 1 14).log,
          Behind (udpEntry.untagged fun _ => 0) 14 w := by decide +kernel
      unfold behindLink at reads ⊢
      rw [once]
      exact reads

/-- The UDP packet is recorded on VLAN 5. -/
theorem udpEntry_restored : ∃ p, (copyPacket none udpEntry fun _ => 0).1 = some p ∧
    p.caplen.toNat = 46 ∧ ∃ flow, Leaves (Frames.eth0 .en10mb) Frames.services {}
      (p.packet fun _ => 0) flow ∧ flow.vlanId = 5 := by
  obtain ⟨p, copied, -, caplen, -, recorded⟩ := @vlan_restored none udpEntry
    ⟨.inr (by decide), by decide⟩ (by decide) rfl fun _ => 0
  have framed : frame .en10mb (udpEntry.untagged fun _ => 0) = some ⟨0x0800, 14, false⟩ := by
    decide +kernel
  obtain ⟨flow, flow', -, leaves, -, vlanId⟩ := recorded (Frames.eth0 .en10mb) Frames.services {}
    (fun _ => 0) (fun _ => 0) ⟨0x0800, 14, false⟩ rfl (fun _ => rfl) rfl framed udpEntry_headers
  exact ⟨p, copied, caplen, flow', leaves, vlanId⟩

/-- A frame to the bridges is discarded in front of its tag. -/
theorem bridgeEntry_untagged : ∃ p flow, (copyPacket none bridgeEntry fun _ => 0).1 = some p ∧
    p.data = bridgeEntry.frame.take 12 ++ [0x81, 0x00, 0x00, 0x05] ++ bridgeEntry.frame.drop 12 ∧
    Leaves (Frames.eth0 .en10mb) Frames.services {} (p.packet fun _ => 0) flow ∧
    flow.vlanId ≠ bridgeEntry.vlanTci.toNat % 4096 := by
  have run : ((copyPacket none bridgeEntry fun _ => 0).1.bind fun p =>
      (CaptureThread.processPacket (Frames.eth0 .en10mb) Frames.services 1 (p.packet fun _ => 0)
        {}).map fun t => (p.data, t.flow.vlanId)) =
      some (bridgeEntry.frame.take 12 ++ [0x81, 0x00, 0x00, 0x05] ++ bridgeEntry.frame.drop 12, 0) := by
    decide +kernel
  obtain ⟨p, copied, run⟩ := Option.bind_eq_some_iff.mp run
  obtain ⟨t, taken, same⟩ := Option.map_eq_some_iff.mp run
  obtain ⟨data, vlanId⟩ := Prod.mk.inj same
  refine ⟨p, t.flow, copied, data, ⟨1, t, taken, rfl⟩, ?_⟩
  rw [vlanId]
  decide

end NetifyAgent
