import NetifyAgent.LinkWalk

/-! Memory safety of the link layer. The length tests behind the fixed header
count a truncated packet and go on, so the loop is safe exactly on packets whose
tags all lie inside the capture length: a truncated tag is always read. -/
namespace NetifyAgent.LinkBounds
open NetifyAgent.Bytes NetifyAgent.Dissection

section
variable {dl : Datalink} {p : Packet}

/-- A fixed header is read only where it is. -/
theorem datalink_inside (dl : Datalink) (p : Packet) : Every (Inside p) (datalink dl p) := by
  unfold datalink
  by_cases short : p.cap < dl.headerLen
  · cases dl <;> simp_all [Datalink.headerLen, Every, Inside, -bind_pure_comp]
  cases dl <;> simp only [Datalink.headerLen] at short
  case null =>
    simp only [rejectIf_bind, if_neg short, emit_bind]
    intro w logged
    simp only [List.mem_cons] at logged
    rcases logged with rfl | logged
    · simp only [Inside]
      omega
    · split at logged
      · cases logged
      · split at logged <;> cases logged
  case en10mb =>
    simp only [rejectIf_bind, if_neg short, emits_bind]
    split <;> simp [Every, Inside] <;> omega
  case linuxSll =>
    simp only [rejectIf_bind, if_neg short, emit_bind]
    simp [Every, Inside]
    omega
  all_goals simp [Every, Inside]

/-! ## Tags inside the capture length -/

/-- A tag lies inside the capture length. -/
def Fits (p : Packet) : Tag → Nat → Prop
  | .vlan, off | .mpls, off | .label, off => off + 4 ≤ p.cap
  | .pppoe, off => off + 8 ≤ p.cap
  | .session, _ => True

/-- Every tag of the packet lies inside the capture length. -/
def TagsFit (p : Packet) (link : Link) : Prop :=
  ∃ stop, TagWalk p (Fits p) link.type link.l2Len stop

theorem inside_of_fits (tag : Tag) (off : Nat) (fits : Fits p tag off) :
    AllOps (Inside p) p tag off := by
  have bound := p.cap_lt
  intro w member
  cases tag with
  | vlan =>
    simp only [Fits] at fits
    simp only [Tag.ops, if_neg (show ¬ p.cap < off + 4 by omega), List.nil_append,
      List.mem_cons, List.not_mem_nil, or_false] at member
    rcases member with rfl | rfl | rfl
    · show off + 2 ≤ p.cap
      omega
    · trivial
    · show off + 2 + 2 ≤ p.cap
      omega
  | mpls =>
    simp only [Fits] at fits
    simp only [Tag.ops, if_neg (show ¬ p.cap < (off + 4) % 65536 by omega), List.append_nil,
      List.mem_cons, List.not_mem_nil, or_false] at member
    rcases member with rfl | rfl
    · trivial
    · exact fits
  | label =>
    simp only [Fits] at fits
    simp only [Tag.ops, if_neg (show ¬ p.cap < off % 65536 by omega), List.nil_append,
      List.mem_cons, List.not_mem_nil, or_false] at member
    subst member
    show off % 65536 + 4 ≤ p.cap
    omega
  | pppoe =>
    simp only [Fits] at fits
    simp only [Tag.ops, if_neg (show ¬ p.cap < off + 6 by omega), List.cons_append,
      List.nil_append, List.mem_cons, List.not_mem_nil, or_false] at member
    rcases member with rfl | rfl
    · trivial
    · show off + 6 + 2 ≤ p.cap
      omega
  | session =>
    simp only [Tag.ops] at member
    split at member
    · rw [List.mem_singleton.mp member]
      trivial
    · cases member

/-- A packet that the loop refuses without a read past its end had no truncated
tag. -/
theorem fits_of_refused {type l2Len : Nat} {stop : Option Nat}
    (walk : TagWalk p (AllOps (Inside p) p) type l2Len stop) (refused : stop = none) :
    TagWalk p (Fits p) type l2Len none := by
  induction walk with
  | done => cases refused
  | mpls => cases refused
  | pppoe => cases refused
  | discovery kind => exact .discovery kind
  | @vlan _ l2Len _ kind inside _ ih =>
    have last : Inside p (.read (l2Len + 2) 2) := inside _ (by simp [Tag.ops])
    exact .vlan kind last (ih refused)
  | @unsupported _ l2Len kind inside ip =>
    have last : Inside p (.read (l2Len + 6) 2) := inside _ (by simp [Tag.ops])
    exact .unsupported kind last ip

/-! ## Safety -/

/-- Some header of the packet ends behind the capture length. -/
def HeadersRunPast (dl : Datalink) (p : Packet) : Prop :=
  p.cap < dl.headerLen ∨ ∃ link, frame dl p = some link ∧ ¬ TagsFit p link

/-- Decapsulation ends, it reads captured bytes only, and it refuses a packet
whose headers run past them. -/
def LinkLayerSafe (dl : Datalink) (p : Packet) : Prop :=
  ∃ fuel, (linkLayer dl p fuel).outcome ≠ .spun ∧ Every (Inside p) (linkLayer dl p fuel) ∧
    (HeadersRunPast dl p → (linkLayer dl p fuel).outcome = .left)

/-- A loop that keeps to the captured bytes and carries on only behind tags that
fit has found tags that fit. -/
theorem tagsFit_of_safe {link : Link} {fuel : Nat}
    (ended : (decapsulate p fuel link).outcome ≠ .spun)
    (inside : Every (Inside p) (decapsulate p fuel link))
    (refuses : ¬ TagsFit p link → (decapsulate p fuel link).outcome = .left) : TagsFit p link := by
  by_contra truncated
  have left := refuses truncated
  have walk := (decapsulate_adequate trivial trivial ended).mp inside
  rw [left] at walk
  exact truncated ⟨none, fits_of_refused walk rfl⟩

/-- Tags that fit are walked over without a read past the capture length. -/
theorem safe_of_tagsFit {link : Link} (fits : TagsFit p link) :
    ∃ fuel, (decapsulate p fuel link).outcome ≠ .spun ∧
      Every (Inside p) (decapsulate p fuel link) := by
  obtain ⟨stop, walk⟩ := fits
  obtain ⟨fuel, ended, stops⟩ := decapsulate_complete walk link.vlanPacket
  refine ⟨fuel, ended, (decapsulate_adequate trivial trivial ended).mpr ?_⟩
  rw [stops]
  exact walk.mono inside_of_fits

/-- **Decapsulation is safe exactly on packets whose tags all fit.** -/
theorem linkLayer_safe_iff (dl : Datalink) (p : Packet) :
    LinkLayerSafe dl p ↔ ∀ link, frame dl p = some link → TagsFit p link := by
  constructor
  · rintro ⟨fuel, ended, inside, refuses⟩ link framed
    rw [linkLayer_of_frame framed] at ended inside refuses
    simp only [emits_bind, linkEnd_outcome] at ended refuses
    have looped := (linkEnd_every trivial trivial _).mp ((every_emits_bind _ _).mp inside).2
    have settled : (decapsulate p fuel link).outcome ≠ .spun := by
      intro spun
      simp [spun] at ended
    refine tagsFit_of_safe settled looped fun truncated => ?_
    have left := refuses (.inr ⟨link, framed, truncated⟩)
    cases last : (decapsulate p fuel link).outcome with
    | ok link => simp [last] at left
    | left => rfl
    | spun => exact absurd last settled
  · intro fits
    cases framed : frame dl p with
    | none =>
      refine ⟨0, ?_⟩
      rw [linkLayer_of_unframed framed]
      exact ⟨nofun, datalink_inside dl p, fun _ => rfl⟩
    | some link =>
      obtain ⟨fuel, ended, inside⟩ := safe_of_tagsFit (fits link framed)
      refine ⟨fuel, ?_, ?_, ?_⟩
      · rw [linkLayer_of_frame framed]
        simp only [emits_bind, linkEnd_outcome]
        cases last : (decapsulate p fuel link).outcome with
        | ok link => exact nofun
        | left => exact nofun
        | spun => exact absurd last ended
      · rw [linkLayer_of_frame framed, every_emits_bind, linkEnd_every trivial trivial]
        exact ⟨datalink_inside dl p, inside⟩
      · rintro (short | ⟨other, framed', truncated⟩)
        · have long := frame_long framed
          omega
        · rw [framed] at framed'
          cases framed'
          exact absurd (fits link framed) truncated

end

/-- An Ethernet frame that ends with the EtherType of a VLAN tag. -/
def truncatedVlan : Packet := .ofBytes (List.replicate 12 0 ++ [0x81, 0x00])

/-- The tag behind the frame is read although nothing of it was captured. -/
theorem linkLayer_unsafe : ¬ ∀ dl p, LinkLayerSafe dl p := by
  intro safe
  obtain ⟨fuel, ended, inside, _⟩ := safe .en10mb truncatedVlan
  have framed : frame .en10mb truncatedVlan = some ⟨0x8100, 14, false⟩ := by decide
  rw [linkLayer_of_frame framed] at ended inside
  have looped := (linkEnd_every trivial trivial _).mp ((every_emits_bind _ _).mp inside).2
  cases fuel with
  | zero => exact ended rfl
  | succ fuel =>
    rw [decapsulate_succ, show tagKind 0x8100 = .vlan by decide] at looped
    have read : Inside truncatedVlan (.read 14 2) :=
      ((every_emits_bind _ _).mp looped).1 _ (by decide)
    exact absurd read (by decide)

end NetifyAgent.LinkBounds
