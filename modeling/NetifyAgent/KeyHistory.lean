import NetifyAgent.Capture
import NetifyAgent.Frames
import NetifyAgent.Lib.Runs
import NetifyAgent.TemplateKey

/-! What a capture thread carries from one packet to the next in its template.
Every field of the key is assigned again before the template is hashed, except
the VLAN id: only a VLAN tag assigns it, and nothing clears it. -/
namespace NetifyAgent.KeyHistory
open NetifyAgent.Bytes NetifyAgent.Dissection NetifyAgent.Runs

/-! ## The template of a thread -/

section
variable {cfg : CaptureConfig} {s : CaptureServices} {p : Packet} {h : Headers}

theorem performed_flow (t : CaptureThread) (ws : List Op) :
    (ws.foldl (CaptureThread.perform p) t).flow = assigned t.flow ws := by
  induction ws generalizing t with
  | nil => rfl
  | cons w ws ih =>
    refine (ih _).trans ?_
    cases w <;> rfl

theorem arrived_flow (t : CaptureThread) :
    (CaptureThread.arrived p (CaptureThread.tsPkt cfg p t)).flow = t.flow := by
  unfold CaptureThread.arrived CaptureThread.tsPkt
  simp only
  split <;> rfl

theorem queuePacket_flow (nf : Flow) (t : CaptureThread) :
    (CaptureThread.queuePacket cfg p h nf t).flow = t.flow := by
  unfold CaptureThread.queuePacket
  simp only
  split_ifs <;> rfl

/-- Behind the dissection the template is hashed and left alone. -/
theorem hashed_flow (t : CaptureThread) :
    (CaptureThread.hashed cfg s p h t).flow = t.flow.hash s.sha1 cfg.tag := by
  unfold CaptureThread.hashed
  simp only
  split
  · unfold CaptureThread.seen
    simp only [queuePacket_flow]
  split
  · rfl
  split
  · rfl
  · unfold CaptureThread.seen
    simp only [queuePacket_flow]

/-- The template after a packet. -/
theorem processPacket_flow {fuel : Nat} {t t' : CaptureThread}
    (taken : CaptureThread.processPacket cfg s fuel p t = some t') :
    t'.flow =
      match (dissect s.extensions cfg.dlType p fuel).outcome with
      | .ok _ => (assigned t.flow (dissect s.extensions cfg.dlType p fuel).log).hash s.sha1 cfg.tag
      | _ => assigned t.flow (dissect s.extensions cfg.dlType p fuel).log := by
  unfold CaptureThread.processPacket at taken
  simp only at taken
  cases outcome : (dissect s.extensions cfg.dlType p fuel).outcome with
  | ok h =>
    rw [outcome] at taken
    cases taken
    simp only [hashed_flow, performed_flow, arrived_flow]
  | left =>
    rw [outcome] at taken
    cases taken
    simp only [performed_flow, arrived_flow]
  | spun =>
    rw [outcome] at taken
    cases taken

theorem template_hash {dl : Datalink} {flow : Flow} (template : Template dl flow)
    (sha1 : List UInt8 → List UInt8) (tag : List UInt8) : Template dl (flow.hash sha1 tag) :=
  ⟨template.vlanId, template.room, template.unset⟩

theorem template_step {t t' : CaptureThread} {action : CaptureAction}
    (template : Template cfg.dlType t.flow)
    (taken : CaptureThread.step cfg s t action = some t') : Template cfg.dlType t'.flow := by
  cases action with
  | packet fuel p =>
    simp only [CaptureThread.step] at taken
    split at taken
    · cases taken
    rw [processPacket_flow taken]
    have still := template.assigned (tame_dissect (W := s.extensions) (p := p) fuel)
    split
    · exact template_hash still _ _
    · exact still
  | share flowBuckets flows =>
    cases taken
    exact template
  | collect =>
    cases taken
    exact template

/-- Every history of a thread that started with a fresh template leaves a
template that tame assignments have made. -/
theorem template_of_history {start t : CaptureThread} (fresh : start.flow = {})
    (history : Reaches (CaptureThread.step cfg s) Always start t) :
    Template cfg.dlType t.flow := by
  refine history.invariant (I := fun t => Template cfg.dlType t.flow) ?_
    fun _ _ _ template taken _ => template_step template taken
  rw [fresh]
  exact template_start _

/-- A packet that reaches `flow.Hash` leaves its key, and the digest of it. -/
theorem processPacket_key {fuel : Nat} {t t' : CaptureThread} {link last : Link}
    (template : Template cfg.dlType t.flow)
    (reached : Reached s.extensions cfg.dlType p fuel link last h)
    (hashed : (dissect s.extensions cfg.dlType p fuel).outcome = .ok h)
    (taken : CaptureThread.processPacket cfg s fuel p t = some t') :
    t'.flow.key =
        packetKey cfg.dlType p h.ip (assigned t.flow (decapsulate p fuel link).log).vlanId ∧
      t'.flow.hashStream cfg.tag = cfg.tag ++ t'.flow.key.encode ∧
      t'.flow.digestLower = s.sha1 (t'.flow.hashStream cfg.tag) := by
  have flow := processPacket_flow taken
  rw [hashed] at flow
  obtain ⟨typed, key⟩ := key_of_dissect template reached
  rw [flow]
  exact ⟨key, Flow.hashStream_key typed cfg.tag, rfl⟩

end

/-! ## Two histories -/

/-- Two templates have one key and one digest. -/
structure SameKey (flow flow' : Flow) : Prop where
  ipVersion : flow.ipVersion = flow'.ipVersion
  ipProtocol : flow.ipProtocol = flow'.ipProtocol
  vlanId : flow.vlanId = flow'.vlanId
  lower : flow.lowerAddr.endpoint = flow'.lowerAddr.endpoint
  upper : flow.upperAddr.endpoint = flow'.upperAddr.endpoint
  digestLower : flow.digestLower = flow'.digestLower

theorem sameKey_of_key {flow flow' : Flow} (key : flow.key = flow'.key)
    (digest : flow.digestLower = flow'.digestLower) : SameKey flow flow' :=
  ⟨congrArg FlowKey.ipVersion key, congrArg FlowKey.ipProtocol key, congrArg FlowKey.vlanId key,
    congrArg FlowKey.lower key, congrArg FlowKey.upper key, digest⟩

/-- **The key of a packet.** After two histories of one thread a packet gets the
same key exactly when the histories left the same VLAN id or the packet starts
with a VLAN tag. -/
theorem key_of_packet {cfg : CaptureConfig} {s : CaptureServices} {p : Packet} {fuel : Nat}
    {h : Headers} {start before before' after after' : CaptureThread} (fresh : start.flow = {})
    (history : Reaches (CaptureThread.step cfg s) Always start before)
    (history' : Reaches (CaptureThread.step cfg s) Always start before')
    (hashed : (dissect s.extensions cfg.dlType p fuel).outcome = .ok h)
    (taken : CaptureThread.processPacket cfg s fuel p before = some after)
    (taken' : CaptureThread.processPacket cfg s fuel p before' = some after') :
    SameKey after.flow after'.flow ↔
      before.flow.vlanId = before'.flow.vlanId ∨ Tagged cfg.dlType p := by
  obtain ⟨link, last, reached⟩ := reached_of_dissect hashed
  have ended : (decapsulate p fuel link).outcome ≠ .spun := by simp [reached.tags]
  have tagged : Tagged cfg.dlType p ↔ tagKind link.type = .vlan := by
    constructor
    · rintro ⟨other, framed, kind⟩
      cases reached.framed.symm.trans framed
      exact kind
    · intro kind
      exact ⟨link, reached.framed, kind⟩
  rw [tagged, ← vlanId_decapsulate ended]
  obtain ⟨key, stream, digest⟩ :=
    processPacket_key (template_of_history fresh history) reached hashed taken
  obtain ⟨key', stream', digest'⟩ :=
    processPacket_key (template_of_history fresh history') reached hashed taken'
  constructor
  · intro same
    have vlanId : after.flow.vlanId = _ := congrArg FlowKey.vlanId key
    have vlanId' : after'.flow.vlanId = _ := congrArg FlowKey.vlanId key'
    have equal := same.vlanId
    rw [vlanId, vlanId'] at equal
    exact equal
  · intro vlanId
    have same : after.flow.key = after'.flow.key := by rw [key, key', vlanId]
    refine sameKey_of_key same ?_
    rw [digest, digest', stream, stream', same]

/-- A packet without a tag gets another key after a packet on VLAN 5. -/
theorem key_carries_vlan : ∃ before after after',
    Reaches (CaptureThread.step (Frames.eth0 .en10mb) Frames.services) Always {} before ∧
    CaptureThread.processPacket (Frames.eth0 .en10mb) Frames.services 2
      (Frames.udpFrame 1 2 4000 53 []) {} = some after ∧
    CaptureThread.processPacket (Frames.eth0 .en10mb) Frames.services 2
      (Frames.udpFrame 1 2 4000 53 []) before = some after' ∧
    after.flow.vlanId ≠ after'.flow.vlanId ∧ after.flow.digestLower ≠ after'.flow.digestLower := by
  have alone : (CaptureThread.processPacket (Frames.eth0 .en10mb) Frames.services 2
      (Frames.udpFrame 1 2 4000 53 []) {}).any (fun after =>
        after.flow.vlanId = 0 ∧ after.flow.digestLower.head? = some 0xfa) = true := by decide +kernel
  have behind : ((CaptureThread.step (Frames.eth0 .en10mb) Frames.services {}
      (.packet 3 (Frames.vlanFrame 5 1 2 4000 53 []))).bind fun before =>
        CaptureThread.processPacket (Frames.eth0 .en10mb) Frames.services 2
          (Frames.udpFrame 1 2 4000 53 []) before).any (fun after =>
        after.flow.vlanId = 5 ∧ after.flow.digestLower.head? = some 0x93) = true := by decide +kernel
  obtain ⟨after, taken, key⟩ := (Option.any_eq_true _ _).mp alone
  obtain ⟨after', taken', key'⟩ := (Option.any_eq_true _ _).mp behind
  obtain ⟨before, tagged, taken'⟩ := Option.bind_eq_some_iff.mp taken'
  simp only [decide_eq_true_eq] at key key'
  refine ⟨before, after, after', .next .start tagged trivial, taken, taken', ?_, ?_⟩
  · rw [key.1, key'.1]
    decide
  · intro same
    have first := key.2
    rw [same, key'.2] at first
    exact absurd first (by decide)

/-- A packet on VLAN 5 keeps its key behind a packet without a tag. -/
theorem key_of_packet_tagged : ∃ before after after',
    Reaches (CaptureThread.step (Frames.eth0 .en10mb) Frames.services) Always {} before ∧
    CaptureThread.processPacket (Frames.eth0 .en10mb) Frames.services 3
      (Frames.vlanFrame 5 1 2 4000 53 []) {} = some after ∧
    CaptureThread.processPacket (Frames.eth0 .en10mb) Frames.services 3
      (Frames.vlanFrame 5 1 2 4000 53 []) before = some after' ∧
    SameKey after.flow after'.flow := by
  have alone : (CaptureThread.processPacket (Frames.eth0 .en10mb) Frames.services 3
      (Frames.vlanFrame 5 1 2 4000 53 []) {}).isSome = true := by decide +kernel
  have behind : ((CaptureThread.step (Frames.eth0 .en10mb) Frames.services {}
      (.packet 2 (Frames.udpFrame 1 2 4000 53 []))).bind fun before =>
        CaptureThread.processPacket (Frames.eth0 .en10mb) Frames.services 3
          (Frames.vlanFrame 5 1 2 4000 53 []) before).isSome = true := by decide +kernel
  obtain ⟨after, taken⟩ := Option.isSome_iff_exists.mp alone
  obtain ⟨after', taken'⟩ := Option.isSome_iff_exists.mp behind
  obtain ⟨before, plain, taken'⟩ := Option.bind_eq_some_iff.mp taken'
  have history : Reaches (CaptureThread.step (Frames.eth0 .en10mb) Frames.services) Always {}
      before := .next .start plain trivial
  have hashed : (dissect .none .en10mb (Frames.vlanFrame 5 1 2 4000 53 []) 3).outcome =
      .ok ⟨⟨18, 4, 17, 20, 38, 8, 0, -1⟩, none, some (46, 0)⟩ := by decide
  have same := key_of_packet rfl .start history hashed taken taken'
  refine ⟨before, after, after', history, taken, taken', same.mpr (.inr ?_)⟩
  exact ⟨⟨0x8100, 14, false⟩, by decide, by decide⟩

end NetifyAgent.KeyHistory
