import NetifyAgent.LinkLayer

/-! The tags of a packet, as the loop walks over them. A walk is well-founded:
it has an end, where the tags stop or where the code refuses the packet. It
carries a condition on every tag, by its kind and its offset, so that one
induction over the loop serves every question about what the loop does. -/
namespace NetifyAgent
open NetifyAgent.Bytes NetifyAgent.Dissection

/-- The headers the loop reads. An offset is where the header starts, before the
code cuts it to sixteen bits. -/
inductive Tag where
  | vlan
  /-- The outermost MPLS label. -/
  | mpls
  /-- An MPLS label below it. -/
  | label
  | pppoe
  /-- A PPPoE header in front of an IP packet. -/
  | session
  deriving DecidableEq, Repr

/-- What an EtherType announces. -/
inductive TagKind where
  | vlan
  | mpls
  | pppoe
  | discovery
  | other
  deriving DecidableEq, Repr

def tagKind (type : Nat) : TagKind :=
  if type = EtherType.vlan then .vlan
  else if type = EtherType.mplsUc ∨ type = EtherType.mplsMc then .mpls
  else if type = EtherType.pppoe then .pppoe
  else if type = EtherType.pppoeDisc then .discovery
  else .other

/-- PPPoE carries IP. -/
def pppIp (p : Packet) (off : Nat) : Prop :=
  be16 p.data (off + 6) = PPP_IP ∨ be16 p.data (off + 6) = PPP_IPV6

instance (p : Packet) (off : Nat) : Decidable (pppIp p off) := inferInstanceAs (Decidable (_ ∨ _))

/-- The labels below a label whose bottom bit is `s`; the walk ends at `stop`. -/
inductive LabelWalk (p : Packet) (good : Tag → Nat → Prop) : Bool → Nat → Nat → Prop where
  | bottom {l2Len : Nat} : LabelWalk p good true l2Len l2Len
  | label {l2Len stop : Nat} : good .label (l2Len + 4) →
      LabelWalk p good (mplsBottom p ((l2Len + 4) % 65536)) ((l2Len + 4) % 65536) stop →
      LabelWalk p good false l2Len stop

/-- The tags from an EtherType and an offset on. The walk stops at an offset, or
nowhere if the packet is refused. -/
inductive TagWalk (p : Packet) (good : Tag → Nat → Prop) : Nat → Nat → Option Nat → Prop where
  | done {type l2Len : Nat} : tagKind type = .other → TagWalk p good type l2Len (some l2Len)
  | vlan {type l2Len : Nat} {stop : Option Nat} : tagKind type = .vlan → good .vlan l2Len →
      TagWalk p good (be16 p.data (l2Len + 2)) ((l2Len + 4) % 65536) stop →
      TagWalk p good type l2Len stop
  | mpls {type l2Len stop : Nat} : tagKind type = .mpls → good .mpls l2Len →
      LabelWalk p good (mplsBottom p l2Len) ((l2Len + 4) % 65536) stop →
      TagWalk p good type l2Len (some stop)
  | pppoe {type l2Len : Nat} : tagKind type = .pppoe → good .pppoe l2Len → pppIp p l2Len →
      good .session l2Len → TagWalk p good type l2Len (some ((l2Len + 8) % 65536))
  | unsupported {type l2Len : Nat} : tagKind type = .pppoe → good .pppoe l2Len →
      ¬ pppIp p l2Len → TagWalk p good type l2Len none
  | discovery {type l2Len : Nat} : tagKind type = .discovery → TagWalk p good type l2Len none

variable {p : Packet} {good good' : Tag → Nat → Prop}

theorem LabelWalk.mono (weaker : ∀ tag off, good tag off → good' tag off) {s : Bool}
    {l2Len stop : Nat} (walk : LabelWalk p good s l2Len stop) :
    LabelWalk p good' s l2Len stop := by
  induction walk with
  | bottom => exact .bottom
  | label holds _ ih => exact .label (weaker _ _ holds) ih

theorem TagWalk.mono (weaker : ∀ tag off, good tag off → good' tag off) {type l2Len : Nat}
    {stop : Option Nat} (walk : TagWalk p good type l2Len stop) :
    TagWalk p good' type l2Len stop := by
  induction walk with
  | done kind => exact .done kind
  | vlan kind holds _ ih => exact .vlan kind (weaker _ _ holds) ih
  | mpls kind holds labels => exact .mpls kind (weaker _ _ holds) (labels.mono weaker)
  | pppoe kind holds ip session => exact .pppoe kind (weaker _ _ holds) ip (weaker _ _ session)
  | unsupported kind holds ip => exact .unsupported kind (weaker _ _ holds) ip
  | discovery kind => exact .discovery kind

/-! ### What a walk says about its first tag -/

section
variable {type l2Len : Nat} {stop : Option Nat}

theorem tagWalk_other (kind : tagKind type = .other) :
    TagWalk p good type l2Len stop ↔ stop = some l2Len := by
  constructor
  · intro walk
    cases walk <;> simp_all
  · rintro rfl
    exact .done kind

theorem tagWalk_discovery (kind : tagKind type = .discovery) :
    TagWalk p good type l2Len stop ↔ stop = none := by
  constructor
  · intro walk
    cases walk <;> simp_all
  · rintro rfl
    exact .discovery kind

theorem tagWalk_vlan (kind : tagKind type = .vlan) :
    TagWalk p good type l2Len stop ↔ good .vlan l2Len ∧
      TagWalk p good (be16 p.data (l2Len + 2)) ((l2Len + 4) % 65536) stop := by
  constructor
  · intro walk
    cases walk <;> simp_all
  · rintro ⟨holds, walk⟩
    exact .vlan kind holds walk

theorem tagWalk_mpls (kind : tagKind type = .mpls) :
    TagWalk p good type l2Len stop ↔ good .mpls l2Len ∧ ∃ bottom,
      LabelWalk p good (mplsBottom p l2Len) ((l2Len + 4) % 65536) bottom ∧ stop = some bottom := by
  constructor
  · intro walk
    cases walk <;> simp_all
  · rintro ⟨holds, bottom, labels, rfl⟩
    exact .mpls kind holds labels

theorem tagWalk_pppoe (kind : tagKind type = .pppoe) :
    TagWalk p good type l2Len stop ↔ good .pppoe l2Len ∧
      if pppIp p l2Len then good .session l2Len ∧ stop = some ((l2Len + 8) % 65536)
      else stop = none := by
  constructor
  · intro walk
    cases walk <;> simp_all
  · rintro ⟨holds, rest⟩
    split at rest
    · obtain ⟨session, rfl⟩ := rest
      exact .pppoe kind holds ‹_› session
    · subst rest
      exact .unsupported kind holds ‹_›

theorem labelWalk_false {bottom : Nat} : LabelWalk p good false l2Len bottom ↔
    good .label (l2Len + 4) ∧
      LabelWalk p good (mplsBottom p ((l2Len + 4) % 65536)) ((l2Len + 4) % 65536) bottom := by
  constructor
  · intro walk
    cases walk with
    | label holds walk => exact ⟨holds, walk⟩
  · rintro ⟨holds, walk⟩
    exact .label holds walk

/-- A stack of labels has one bottom. -/
theorem LabelWalk.unique {s : Bool} {first second : Nat} (walk : LabelWalk p good s l2Len first)
    (other : LabelWalk p good' s l2Len second) : first = second := by
  induction walk with
  | bottom =>
    cases other
    rfl
  | label _ _ ih => exact ih (labelWalk_false.mp other).2

/-- The tags of a packet have one end. -/
theorem TagWalk.unique {first second : Option Nat} (walk : TagWalk p good type l2Len first)
    (other : TagWalk p good' type l2Len second) : first = second := by
  induction walk with
  | done kind => exact ((tagWalk_other kind).mp other).symm
  | discovery kind => exact ((tagWalk_discovery kind).mp other).symm
  | vlan kind _ _ ih => exact ih ((tagWalk_vlan kind).mp other).2
  | mpls kind _ labels =>
    obtain ⟨_, bottom, below, rfl⟩ := (tagWalk_mpls kind).mp other
    rw [labels.unique below]
  | pppoe kind _ ip _ =>
    have rest := ((tagWalk_pppoe kind).mp other).2
    rw [if_pos ip] at rest
    exact rest.2.symm
  | unsupported kind _ ip =>
    have rest := ((tagWalk_pppoe kind).mp other).2
    rw [if_neg ip] at rest
    exact rest.symm

end

/-- Behind MPLS and PPPoE the loop finds no further tag. -/
@[simp] theorem tagKind_ip : tagKind EtherType.ip = .other := by decide

/-! ## The loop, tag by tag -/

/-- What the loop does at a tag. -/
def Tag.ops (p : Packet) : Tag → Nat → List Op
  | .vlan, off => (if p.cap < off + 4 then [.discard] else []) ++
      [.read off 2, .set (.vlanId (be16 p.data off % 4096)), .read (off + 2) 2]
  | .mpls, off => [.count .mpls, .read off 4] ++
      if p.cap < (off + 4) % 65536 then [.discard] else []
  | .label, off => (if p.cap < off % 65536 then [.discard] else []) ++ [.read (off % 65536) 4]
  | .pppoe, off => .count .pppoe :: (if p.cap < off + 6 then [.discard] else []) ++
      [.read (off + 6) 2]
  | .session, off => if p.cap < (off + 8) % 65536 then [.discard] else []

theorem labels_succ (fuel : Nat) (s : Bool) (l2Len : Nat) :
    labels p (fuel + 1) s l2Len =
      if s then pure l2Len
      else emits (Tag.ops p .label (l2Len + 4)) >>= fun _ =>
        labels p fuel (mplsBottom p ((l2Len + 4) % 65536)) ((l2Len + 4) % 65536) := by
  simp only [labels, Tag.ops, discardIf_bind, emit_bind, emits_bind, List.append_assoc,
    List.singleton_append]

/-- One round of the loop, by the kind of the tag. -/
theorem decapsulate_succ (fuel : Nat) (link : Link) :
    decapsulate p (fuel + 1) link =
      match tagKind link.type with
      | .vlan => emits (Tag.ops p .vlan link.l2Len) >>= fun _ =>
          decapsulate p fuel ⟨be16 p.data (link.l2Len + 2), (link.l2Len + 4) % 65536, true⟩
      | .mpls => emits (Tag.ops p .mpls link.l2Len) >>= fun _ =>
          labels p fuel (mplsBottom p link.l2Len) ((link.l2Len + 4) % 65536) >>= fun l2Len =>
            decapsulate p fuel ⟨EtherType.ip, l2Len, link.vlanPacket⟩
      | .pppoe => emits (Tag.ops p .pppoe link.l2Len) >>= fun _ =>
          if pppIp p link.l2Len then
            emits (Tag.ops p .session link.l2Len) >>= fun _ =>
              decapsulate p fuel ⟨EtherType.ip, (link.l2Len + 8) % 65536, link.vlanPacket⟩
          else reject
      | .discovery => emit (.count .pppoe) >>= fun _ => reject
      | .other => pure link := by
  conv_lhs => unfold decapsulate
  unfold tagKind
  by_cases vlan : link.type = EtherType.vlan
  · simp only [vlan, if_true, Tag.ops, discardIf_bind, emits_bind, List.append_assoc]
  rw [if_neg vlan, if_neg vlan]
  by_cases mpls : link.type = EtherType.mplsUc ∨ link.type = EtherType.mplsMc
  · simp only [mpls, if_true, Tag.ops, discardIf_bind, emits_bind, List.append_assoc]
  rw [if_neg mpls, if_neg mpls]
  by_cases pppoe : link.type = EtherType.pppoe
  · by_cases ip : pppIp p link.l2Len
    · have supported : ¬ (be16 p.data (link.l2Len + 6) ≠ PPP_IP ∧
          be16 p.data (link.l2Len + 6) ≠ PPP_IPV6) := by
        rintro ⟨four, six⟩
        exact ip.elim four six
      simp only [pppoe, if_true, Tag.ops, discardIf_bind, emit_bind, emits_bind, rejectIf_bind,
        supported, if_false, ip, List.cons_append, List.append_assoc, List.nil_append]
    · have unsupported : be16 p.data (link.l2Len + 6) ≠ PPP_IP ∧
          be16 p.data (link.l2Len + 6) ≠ PPP_IPV6 := not_or.mp ip
      simp only [pppoe, if_true, Tag.ops, discardIf_bind, emit_bind, emits_bind, rejectIf_bind,
        unsupported, ne_eq, not_false_eq_true, and_self, ip, if_false, List.cons_append,
        List.append_assoc, List.nil_append]
  rw [if_neg pppoe, if_neg pppoe]
  by_cases discovery : link.type = EtherType.pppoeDisc
  · simp only [discovery, if_true]
  · simp only [discovery, if_false]

/-- The loop over labels never refuses a packet. -/
theorem labels_not_left (fuel : Nat) (s : Bool) (l2Len : Nat) :
    (labels p fuel s l2Len).outcome ≠ .left := by
  induction fuel generalizing s l2Len with
  | zero => exact nofun
  | succ fuel ih =>
    rw [labels_succ]
    cases s with
    | true => exact nofun
    | false => exact ih _ _

/-- Everything the code does at a tag has a property. -/
def AllOps (P : Op → Prop) (p : Packet) (tag : Tag) (off : Nat) : Prop := ∀ w ∈ tag.ops p off, P w

variable {P : Op → Prop}

theorem every_emits_bind {α : Type} (ws : List Op) (f : Unit → Dissect Op α) :
    Every P (emits ws >>= f) ↔ (∀ w ∈ ws, P w) ∧ Every P (f ()) := by
  simp only [Every, emits_bind, List.mem_append, or_imp, forall_and]

theorem labels_adequate {fuel : Nat} {s : Bool} {l2Len stop : Nat}
    (ended : (labels p fuel s l2Len).outcome = .ok stop) :
    Every P (labels p fuel s l2Len) ↔ LabelWalk p (AllOps P p) s l2Len stop := by
  induction fuel generalizing s l2Len with
  | zero => cases ended
  | succ fuel ih =>
    rw [labels_succ] at ended ⊢
    cases s with
    | true =>
      cases ended
      exact ⟨fun _ => .bottom, fun _ => every_pure _⟩
    | false =>
      simp only [Bool.false_eq_true, if_false] at ended ⊢
      rw [every_emits_bind, ih ended, labelWalk_false]
      rfl

/-- Where a finished loop stopped. -/
def stopOf : Outcome Link → Option Nat
  | .ok link => some link.l2Len
  | _ => none

/-- The round behind MPLS or PPPoE is the last. -/
theorem decapsulate_ip {fuel l2Len : Nat} {vlanPacket : Bool}
    (ended : (decapsulate p fuel ⟨EtherType.ip, l2Len, vlanPacket⟩).outcome ≠ .spun) :
    decapsulate p fuel ⟨EtherType.ip, l2Len, vlanPacket⟩ = pure ⟨EtherType.ip, l2Len, vlanPacket⟩ := by
  cases fuel with
  | zero => exact absurd rfl ended
  | succ fuel =>
    rw [decapsulate_succ]
    simp only [tagKind_ip]

/-- The labels of a finished loop have a bottom. -/
theorem labels_of_ended {fuel l2Len : Nat} {s vlanPacket : Bool}
    (ended : (labels p fuel s l2Len >>= fun l2Len =>
      decapsulate p fuel ⟨EtherType.ip, l2Len, vlanPacket⟩).outcome ≠ .spun) :
    ∃ bottom, (labels p fuel s l2Len).outcome = .ok bottom ∧
      decapsulate p fuel ⟨EtherType.ip, bottom, vlanPacket⟩ =
        pure ⟨EtherType.ip, bottom, vlanPacket⟩ := by
  cases below : (labels p fuel s l2Len).outcome with
  | ok bottom =>
    rw [bind_of_ok _ below] at ended
    exact ⟨bottom, rfl, decapsulate_ip ended⟩
  | left => exact absurd below (labels_not_left _ _ _)
  | spun =>
    rw [bind_of_spun _ below] at ended
    exact absurd rfl ended

/-- **A finished loop has walked over the tags.** Everything it did has a
property exactly when the walk has it at every tag. -/
theorem decapsulate_adequate (counted : P (.count .pppoe)) (rejected : P .reject) {fuel : Nat}
    {link : Link} (ended : (decapsulate p fuel link).outcome ≠ .spun) :
    Every P (decapsulate p fuel link) ↔
      TagWalk p (AllOps P p) link.type link.l2Len (stopOf (decapsulate p fuel link).outcome) := by
  induction fuel generalizing link with
  | zero => exact absurd rfl ended
  | succ fuel ih =>
    rw [decapsulate_succ] at ended ⊢
    cases kind : tagKind link.type with
    | other =>
      rw [tagWalk_other kind]
      exact ⟨fun _ => rfl, fun _ => every_pure _⟩
    | discovery =>
      rw [tagWalk_discovery kind]
      exact ⟨fun _ => rfl, fun _ => by simpa [Every] using ⟨counted, rejected⟩⟩
    | vlan =>
      simp only [kind] at ended ⊢
      rw [every_emits_bind, ih ended, tagWalk_vlan kind]
      rfl
    | mpls =>
      simp only [kind] at ended ⊢
      obtain ⟨bottom, below, last⟩ := labels_of_ended ended
      rw [every_emits_bind, bind_of_ok _ below, last, tagWalk_mpls kind]
      refine and_congr Iff.rfl ?_
      simp only [Every, pure_log, List.append_nil, emits_bind, pure_outcome, stopOf,
        Option.some.injEq, exists_eq_right']
      exact labels_adequate below
    | pppoe =>
      simp only [kind] at ended ⊢
      rw [every_emits_bind, tagWalk_pppoe kind]
      refine and_congr Iff.rfl ?_
      by_cases ip : pppIp p link.l2Len
      · simp only [if_pos ip, emits_bind] at ended ⊢
        rw [decapsulate_ip ended]
        simp [Every, stopOf, AllOps]
      · simp [ip, Every, stopOf, rejected]

theorem labels_complete {s : Bool} {l2Len bottom : Nat} (walk : LabelWalk p good s l2Len bottom) :
    ∃ fuel, (labels p fuel s l2Len).outcome = .ok bottom := by
  induction walk with
  | bottom => exact ⟨1, rfl⟩
  | label _ _ ih =>
    obtain ⟨fuel, ended⟩ := ih
    exact ⟨fuel + 1, by rw [labels_succ]; exact ended⟩

/-! ### More fuel changes nothing -/

theorem labels_stable (s : Bool) (l2Len : Nat) : Stable fun fuel => labels p fuel s l2Len := by
  refine stable_of_step fun fuel ended => ?_
  induction fuel generalizing s l2Len with
  | zero => exact absurd rfl ended
  | succ fuel ih =>
    rw [labels_succ fuel] at ended ⊢
    rw [labels_succ (fuel + 1)]
    cases s with
    | true => rfl
    | false =>
      simp only [Bool.false_eq_true, if_false, emits_bind] at ended ⊢
      rw [ih _ _ ended]

theorem labels_more {s : Bool} {fuel more l2Len bottom : Nat}
    (ended : (labels p fuel s l2Len).outcome = .ok bottom) (le : fuel ≤ more) :
    labels p more s l2Len = labels p fuel s l2Len :=
  labels_stable s l2Len fuel more le (by simp [ended])

theorem decapsulate_stable (link : Link) : Stable fun fuel => decapsulate p fuel link := by
  refine stable_of_step fun fuel ended => ?_
  induction fuel generalizing link with
  | zero => exact absurd rfl ended
  | succ fuel ih =>
    rw [decapsulate_succ fuel] at ended ⊢
    rw [decapsulate_succ (fuel + 1)]
    cases kind : tagKind link.type with
    | other => rfl
    | discovery => rfl
    | vlan =>
      simp only [kind, emits_bind] at ended ⊢
      rw [ih _ ended]
    | mpls =>
      simp only [kind, emits_bind] at ended ⊢
      obtain ⟨bottom, below, last⟩ := labels_of_ended ended
      rw [labels_more below (Nat.le_succ fuel), bind_of_ok _ below, bind_of_ok _ below,
        ih _ (by simp [last])]
    | pppoe =>
      simp only [kind, emits_bind] at ended ⊢
      split
      · rename_i ip
        rw [if_pos ip] at ended
        rw [ih _ ended]
      · rfl

/-- **Every walk is taken.** With enough fuel the loop ends where the walk does. -/
theorem decapsulate_complete {type l2Len : Nat} {stop : Option Nat}
    (walk : TagWalk p good type l2Len stop) (vlanPacket : Bool) :
    ∃ fuel, (decapsulate p fuel ⟨type, l2Len, vlanPacket⟩).outcome ≠ .spun ∧
      stopOf (decapsulate p fuel ⟨type, l2Len, vlanPacket⟩).outcome = stop := by
  induction walk generalizing vlanPacket with
  | done kind =>
    refine ⟨1, ?_⟩
    rw [decapsulate_succ]
    simp [kind, stopOf]
  | vlan kind _ _ ih =>
    obtain ⟨fuel, ended, stops⟩ := ih true
    refine ⟨fuel + 1, ?_⟩
    rw [decapsulate_succ]
    simpa [kind] using ⟨ended, stops⟩
  | @mpls _ l2Len _ kind _ labels =>
    obtain ⟨fuel, below⟩ := labels_complete labels
    refine ⟨fuel + 2, ?_⟩
    have more := labels_more below (Nat.le_succ fuel)
    rw [decapsulate_succ]
    simp only [kind, more, bind_of_ok _ below, emits_bind]
    rw [decapsulate_succ]
    simp [stopOf]
  | pppoe kind _ ip _ =>
    refine ⟨2, ?_⟩
    rw [decapsulate_succ]
    simp only [kind, ip, if_true, emits_bind]
    rw [decapsulate_succ]
    simp [stopOf]
  | unsupported kind _ ip =>
    refine ⟨1, ?_⟩
    rw [decapsulate_succ]
    simp [kind, ip, stopOf]
  | discovery kind =>
    refine ⟨1, ?_⟩
    rw [decapsulate_succ]
    simp [kind, stopOf]

/-! ## The fixed header -/

/-- The size of the fixed header. -/
def Datalink.headerLen : Datalink → Nat
  | .null => 4
  | .en10mb => 14
  | .linuxSll => 16
  | .raw | .ipv4 | .ipv6 | .other _ => 0

/-- The EtherType and the end of a fixed header that is accepted. -/
def frame (dl : Datalink) (p : Packet) : Option Link :=
  if p.cap < dl.headerLen then none
  else match dl with
    | .null =>
      if be32 p.data 0 = 2 then some { type := EtherType.ip, l2Len := 4 }
      else if be32 p.data 0 = 24 ∨ be32 p.data 0 = 28 ∨ be32 p.data 0 = 30 then
        some { type := EtherType.ipv6, l2Len := 4 }
      else none
    | .en10mb =>
      if stpAddr p 6 = true ∨ stpAddr p 0 = true then none
      else some { type := be16 p.data 12, l2Len := 14 }
    | .linuxSll => some { type := le16 p.data 14, l2Len := 16 }
    | .raw | .ipv4 | .ipv6 => some { type := 0, l2Len := 0 }
    | .other _ => none

section
variable {dl : Datalink}

/-- The fixed header is accepted or the packet is refused. -/
theorem datalink_outcome (dl : Datalink) (p : Packet) :
    (datalink dl p).outcome =
      match frame dl p with
      | some link => .ok link
      | none => .left := by
  unfold frame datalink
  by_cases short : p.cap < dl.headerLen
  · cases dl <;> simp_all [Datalink.headerLen, -bind_pure_comp]
  rw [if_neg short]
  cases dl <;> simp only [Datalink.headerLen] at short
  case null =>
    simp only [rejectIf_bind, if_neg short, emit_bind]
    split
    · rfl
    · split <;> rfl
  case en10mb =>
    simp only [rejectIf_bind, if_neg short, emits_bind]
    split <;> rfl
  case linuxSll =>
    simp only [rejectIf_bind, if_neg short, emit_bind]
    rfl
  all_goals rfl

theorem datalink_of_frame {link : Link} (framed : frame dl p = some link) :
    (datalink dl p).outcome = .ok link := by
  rw [datalink_outcome, framed]

theorem datalink_of_unframed (refused : frame dl p = none) :
    (datalink dl p).outcome = .left := by
  rw [datalink_outcome, refused]

theorem frame_long {link : Link} (framed : frame dl p = some link) :
    dl.headerLen ≤ p.cap := by
  unfold frame at framed
  split at framed
  · cases framed
  · omega

theorem frame_l2Len {link : Link} (framed : frame dl p = some link) :
    link.l2Len = dl.headerLen := by
  unfold frame at framed
  split at framed
  · cases framed
  cases dl <;> simp only at framed
  case null =>
    split at framed
    · cases framed
      rfl
    · split at framed <;> cases framed
      rfl
  case en10mb =>
    split at framed <;> cases framed
    rfl
  case other => cases framed
  all_goals
    cases framed
    rfl

/-! ## The whole link layer -/

theorem linkLayer_of_unframed (refused : frame dl p = none) (fuel : Nat) :
    linkLayer dl p fuel = ⟨.left, (datalink dl p).log⟩ :=
  bind_of_left _ (datalink_of_unframed refused)

/-- What the code does behind the loop. -/
def linkEnd (link : Link) : Dissect Op Nat :=
  emits (if link.vlanPacket then [.count .vlan, .set .tunnelNone] else [.set .tunnelNone]) >>=
    fun _ => pure link.l2Len

/-- The link layer of a packet with an accepted fixed header is the loop. -/
theorem linkLayer_of_frame {link : Link} (framed : frame dl p = some link) (fuel : Nat) :
    linkLayer dl p fuel = emits (datalink dl p).log >>= fun _ =>
      decapsulate p fuel link >>= linkEnd := by
  have short : ¬ p.cap < link.l2Len := by
    have long := frame_long framed
    rw [frame_l2Len framed]
    omega
  unfold linkLayer
  rw [bind_of_ok _ (datalink_of_frame framed)]
  simp only [discardIf_bind, if_neg short, List.nil_append, emits_bind]
  rfl

theorem linkEnd_bind {α : Type} (link : Link) (f : Nat → Dissect Op α) :
    linkEnd link >>= f = emits (if link.vlanPacket then [.count .vlan, .set .tunnelNone]
      else [.set .tunnelNone]) >>= fun _ => f link.l2Len := by
  unfold linkEnd
  rw [bind_assoc]
  simp only [pure_bind]

theorem linkEnd_outcome (x : Dissect Op Link) :
    (x >>= linkEnd).outcome =
      match x.outcome with
      | .ok link => .ok link.l2Len
      | .left => .left
      | .spun => .spun := by
  cases ended : x.outcome with
  | ok link => rw [bind_of_ok _ ended]; rfl
  | left => rw [bind_of_left _ ended]
  | spun => rw [bind_of_spun _ ended]

theorem linkEnd_every {P : Op → Prop} (counted : P (.count .vlan)) (assigned : P (.set .tunnelNone))
    (x : Dissect Op Link) : Every P (x >>= linkEnd) ↔ Every P x := by
  rw [every_bind]
  refine and_iff_left fun link _ w logged => ?_
  simp only [linkEnd, emits_bind, pure_log, List.append_nil] at logged
  split at logged
  · simp only [List.mem_cons, List.not_mem_nil, or_false] at logged
    rcases logged with rfl | rfl
    · exact counted
    · exact assigned
  · rw [List.mem_singleton.mp logged]
    exact assigned

end

end NetifyAgent
