import NetifyAgent.Frames
import NetifyAgent.LinkWalk

/-! Stacks of MPLS labels. The loop over the labels advances twice before it reads its
first label, so that it looks at the third one behind the first. -/
namespace NetifyAgent.MplsLabels
open NetifyAgent.Bytes NetifyAgent.Dissection

/-! ## Stacks -/

/-- From an EtherType and an offset on a frame has VLAN tags and then MPLS. -/
inductive CarriesMpls (p : Packet) : Nat → Nat → Nat → Prop where
  | here {type l2Len : Nat} (mpls : type = EtherType.mplsUc ∨ type = EtherType.mplsMc) :
      CarriesMpls p type l2Len l2Len
  | vlan {l2Len off : Nat}
      (behind : CarriesMpls p (be16 p.data (l2Len + 2)) (l2Len + 4) off) :
      CarriesMpls p EtherType.vlan l2Len off

/-- A frame with `n` labels from an offset on, only the last of which is the bottom of the
stack, and with the header of an IPv4 packet behind them. -/
structure Stack (p : Packet) (off n : Nat) : Prop where
  carries : CarriesMpls p (be16 p.data 12) 14 off
  nonempty : 0 < n
  bottom : ∀ k < n, mplsBottom p (off + 4 * k) = decide (k + 1 = n)
  captured : off + 4 * n + 20 ≤ p.cap
  ipv4 : (p.data (off + 4 * n)).toNat / 16 = 4

/-- `ProcessPacket` takes the header at an offset of an Ethernet frame for that of the IP
packet. -/
def TakesIpHeader (p : Packet) (off : Nat) : Prop :=
  ∃ fuel, (linkLayer .en10mb p fuel).outcome = .ok off

/-- The frame is not one of the bridge protocols, and the stack has one label, or two in
front of an IP packet whose length has its ninth bit set. -/
structure Short (p : Packet) (off n : Nat) : Prop where
  bridged : ¬ (stpAddr p 6 = true ∨ stpAddr p 0 = true)
  labels : n = 1 ∨ n = 2 ∧ be16 p.data (off + 10) / 256 % 2 = 1

/-! ## Walks -/

variable {p : Packet} {off n : Nat}

theorem CarriesMpls.le {type l2Len : Nat} (carries : CarriesMpls p type l2Len off) :
    l2Len ≤ off := by
  induction carries with
  | here => exact Nat.le_refl _
  | vlan _ ih => omega

/-- A frame ends where the walk over its tags does. -/
theorem takesIpHeader_iff {link : Link} (framed : frame .en10mb p = some link) (stop : Nat) :
    TakesIpHeader p stop ↔ TagWalk p (fun _ _ => True) link.type link.l2Len (some stop) := by
  constructor
  · rintro ⟨fuel, taken⟩
    rw [linkLayer_of_frame framed, emits_bind] at taken
    simp only [linkEnd_outcome] at taken
    cases ended : (decapsulate p fuel link).outcome with
    | ok last =>
      rw [ended] at taken
      cases taken
      have walk := (decapsulate_adequate (P := fun _ => True) trivial trivial
        (by rw [ended]; nofun)).mp (fun _ _ => trivial)
      rw [ended] at walk
      exact walk.mono fun _ _ _ => trivial
    | left =>
      rw [ended] at taken
      cases taken
    | spun =>
      rw [ended] at taken
      cases taken
  · intro walk
    obtain ⟨fuel, -, stops⟩ := decapsulate_complete walk link.vlanPacket
    refine ⟨fuel, ?_⟩
    rw [linkLayer_of_frame framed, emits_bind]
    simp only [linkEnd_outcome]
    cases ended : (decapsulate p fuel link).outcome with
    | ok last =>
      rw [ended] at stops
      exact congrArg Outcome.ok (Option.some.inj stops)
    | left =>
      rw [ended] at stops
      cases stops
    | spun =>
      rw [ended] at stops
      cases stops

/-- Behind the VLAN tags the walk is one over labels. -/
theorem tagWalk_carries {type l2Len stop : Nat} (carries : CarriesMpls p type l2Len off)
    (inside : off + 4 ≤ p.cap) : TagWalk p (fun _ _ => True) type l2Len (some stop) ↔
      LabelWalk p (fun _ _ => True) (mplsBottom p off) (off + 4) stop := by
  have cap := p.cap_lt
  induction carries with
  | @here type l2Len mpls =>
    have kind : tagKind type = .mpls := by
      rcases mpls with rfl | rfl <;> rfl
    rw [tagWalk_mpls kind, Nat.mod_eq_of_lt (by omega)]
    constructor
    · rintro ⟨-, bottom, walk, same⟩
      rwa [Option.some.inj same]
    · exact fun walk => ⟨trivial, stop, walk, rfl⟩
  | vlan behind ih =>
    have before := behind.le
    rw [tagWalk_vlan rfl, Nat.mod_eq_of_lt (by omega), and_iff_right trivial]
    exact ih inside

/-- A walk that reads a label ends behind one that is the bottom. -/
theorem bottom_of_walk {l2Len stop : Nat} {s : Bool}
    (walk : LabelWalk p (fun _ _ => True) s l2Len stop) (here : s = mplsBottom p l2Len) :
    mplsBottom p stop = true := by
  induction walk with
  | bottom => exact here.symm
  | label _ _ ih => exact ih rfl

/-- From the third label on the walk ends in front of the last one. -/
theorem walk_from (stack : Stack p off n) {k : Nat} (inside : k < n) :
    LabelWalk p (fun _ _ => True) (mplsBottom p (off + 4 * k)) (off + 4 * k)
      (off + 4 * (n - 1)) := by
  have cap := p.cap_lt
  have captured := stack.captured
  rw [stack.bottom k inside]
  by_cases last : k + 1 = n
  · rw [decide_eq_true last, ← last]
    exact .bottom
  · rw [decide_eq_false last]
    have next : (off + 4 * k + 4) % 65536 = off + 4 * (k + 1) := by
      rw [Nat.mod_eq_of_lt (by omega)]
      rfl
    refine .label trivial ?_
    rw [next]
    exact walk_from stack (by omega)
termination_by n - k

/-- **The labels** end where the IP header starts if there is one, or if there are two and
the length of the packet passes for a bottom. -/
theorem labels_end_iff (stack : Stack p off n) :
    LabelWalk p (fun _ _ => True) (mplsBottom p off) (off + 4) (off + 4 * n) ↔
      n = 1 ∨ n = 2 ∧ mplsBottom p (off + 8) = true := by
  have cap := p.cap_lt
  have captured := stack.captured
  have first := stack.bottom 0 stack.nonempty
  rw [Nat.mul_zero, Nat.add_zero] at first
  rw [first]
  by_cases single : n = 1
  · subst single
    exact iff_of_true .bottom (.inl rfl)
  · have more := stack.nonempty
    have next : (off + 4 + 4) % 65536 = off + 8 := Nat.mod_eq_of_lt (by omega)
    rw [decide_eq_false (by omega), labelWalk_false, and_iff_right trivial, next]
    constructor
    · intro walk
      have bottom := bottom_of_walk walk rfl
      by_cases two : n = 2
      · subst two
        exact .inr ⟨rfl, bottom⟩
      · have ends := (walk_from stack (by omega : 2 < n)).unique walk
        omega
    · rintro (rfl | ⟨rfl, bottom⟩)
      · exact absurd rfl single
      · rw [bottom]
        exact .bottom

/-- **MPLS.** The header behind the labels is taken exactly for a short stack. -/
theorem takes_behind_labels_iff (stack : Stack p off n) :
    TakesIpHeader p (off + 4 * n) ↔ Short p off n := by
  have captured := stack.captured
  have low := stack.carries.le
  have ninth : mplsBottom p (off + 8) = true ↔ be16 p.data (off + 10) / 256 % 2 = 1 := by
    have small := (p.data (off + 10 + 1)).toNat_lt
    have same : mplsBottom p (off + 8) = true ↔ (p.data (off + 10)).toNat % 2 = 1 :=
      decide_eq_true_iff
    rw [same, be16]
    omega
  cases framed : frame .en10mb p with
  | none =>
    have bridged : stpAddr p 6 = true ∨ stpAddr p 0 = true := by
      unfold frame at framed
      rw [if_neg (by simp only [Datalink.headerLen]; omega)] at framed
      by_contra other
      simp only [if_neg other] at framed
      cases framed
    refine iff_of_false ?_ fun short => short.bridged bridged
    rintro ⟨fuel, taken⟩
    rw [linkLayer_of_unframed framed] at taken
    cases taken
  | some link =>
    have accepted : ¬ (stpAddr p 6 = true ∨ stpAddr p 0 = true) ∧
        link = { type := be16 p.data 12, l2Len := 14 } := by
      unfold frame at framed
      rw [if_neg (by simp only [Datalink.headerLen]; omega)] at framed
      by_cases bridged : stpAddr p 6 = true ∨ stpAddr p 0 = true
      · simp only [if_pos bridged] at framed
        cases framed
      · simp only [if_neg bridged] at framed
        exact ⟨bridged, (Option.some.inj framed).symm⟩
    obtain ⟨bridged, rfl⟩ := accepted
    rw [takesIpHeader_iff framed, tagWalk_carries stack.carries (by omega), labels_end_iff stack,
      ninth]
    exact ⟨fun labels => ⟨bridged, labels⟩, fun short => short.labels⟩

/-! ## Frames -/

/-- A UDP packet behind labels. -/
def labelledFrame (labels : List UInt8) : Packet :=
  .ofBytes (Frames.ethernet (Frames.mac 2) (Frames.mac 1) EtherType.mplsUc
    (labels ++ Frames.ipv4 17 (Frames.host 1) (Frames.host 2) (Frames.udp 4000 53 [])))

theorem stack_labelled {labels : List UInt8} {n : Nat} (nonempty : 0 < n)
    (mpls : be16 (labelledFrame labels).data 12 = EtherType.mplsUc)
    (bottom : ∀ k < n, mplsBottom (labelledFrame labels) (14 + 4 * k) = decide (k + 1 = n))
    (captured : 14 + 4 * n + 20 ≤ (labelledFrame labels).cap)
    (ipv4 : ((labelledFrame labels).data (14 + 4 * n)).toNat / 16 = 4) :
    Stack (labelledFrame labels) 14 n :=
  ⟨.here (.inl mpls), nonempty, bottom, captured, ipv4⟩

/-- The header behind one label is taken. -/
theorem takes_behind_one : TakesIpHeader (labelledFrame [0, 1, 1, 64]) 18 :=
  (takes_behind_labels_iff (stack_labelled (by decide) (by decide) (by decide) (by decide)
    (by decide) : Stack (labelledFrame [0, 1, 1, 64]) 14 1)).mpr ⟨by decide, .inl rfl⟩

/-- Behind two labels the source address is taken for the header. -/
theorem two_labels_missed : Stack (labelledFrame [0, 1, 0, 64, 0, 2, 1, 64]) 14 2 ∧
    ¬ TakesIpHeader (labelledFrame [0, 1, 0, 64, 0, 2, 1, 64]) 22 := by
  refine ⟨stack_labelled (by decide) (by decide) (by decide) (by decide) (by decide), ?_⟩
  have taken : TakesIpHeader (labelledFrame [0, 1, 0, 64, 0, 2, 1, 64]) 34 :=
    ⟨10, by decide +kernel⟩
  have framed : frame .en10mb (labelledFrame [0, 1, 0, 64, 0, 2, 1, 64]) =
      some { type := EtherType.mplsUc, l2Len := 14 } := by
    decide +kernel
  rw [takesIpHeader_iff framed] at taken ⊢
  intro other
  cases taken.unique other

end NetifyAgent.MplsLabels
