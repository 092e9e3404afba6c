import NetifyAgent.Lib.Replay
import NetifyAgent.Detection

/-! One account of everything a stage of detection may do to a flow. Between
two entries of the log nothing changes that the later results look at: the
control state stays, completion is never taken back, and the metadata union and
the detected protocol are what the log says. Each stage is traced once here;
later modules use the trace and never open a stage again. -/
namespace NetifyAgent
open NetifyAgent.Bytes NetifyAgent.Overlay NetifyAgent.Replay

/-- The detected protocol and the union it gives a meaning to. -/
structure Held where
  protocol : ProtoId
  metadata : Metadata

def Flow.held (flow : Flow) : Held := ⟨flow.detectedProtocol, flow.metadata⟩

@[simp] theorem settleExpiry_held (flow : Flow) : flow.settleExpiry.held = flow.held := by
  simp only [Flow.settleExpiry]; split <;> rfl

/-- What the tests of `ProcessPacketQueue` read, besides completion. -/
structure Control where
  detectionPackets : UInt8
  expiring : Bool
  expired : Bool
  /-- `ndpi_flow != nullptr`. -/
  ndpi : Bool
  deriving DecidableEq, Repr

def Flow.control (flow : Flow) : Control :=
  ⟨flow.stats.detectionPackets, flow.flags.expiring, flow.flags.expired, flow.ndpiFlow.isSome⟩

/-- The effect of an event on the protocol and the union. -/
def Held.after (h : Held) : Event → Held
  | .protocol p => { h with protocol := p }
  | .store m off vals =>
    { h with metadata := { h.metadata with area := Overlay.store m off vals h.metadata.area } }
  | .strdup slot =>
    { h with metadata := {
        area := Overlay.store .ssl slot (pointerBytes h.metadata.duped) h.metadata.area
        duped := h.metadata.duped + 1 } }
  | _ => h

/-- Events a stage may cause: it writes through the member that the detected
protocol stands for, leaves the pointers of that member alone and replaces
them only while they are null. -/
def Event.Proper (h : Held) : Event → Prop
  | .store m off vals =>
    memberOf h.protocol = some m ∧
      (m = .ssl → off + vals.length ≤ Layout.sslSubjectDn ∨ Layout.sslServerCn ≤ off)
  | .strdup slot =>
    memberOf h.protocol = some .ssl ∧ (slot = Layout.sslSubjectDn ∨ slot = Layout.sslIssuerDn) ∧
      IsNull h.metadata.area slot
  | .alloc | .handOver _ | .reset => False
  | _ => True

/-- Every event is proper where it happens. -/
abbrev Proper : Held → List Event → Prop := Along Held.after Event.Proper

/-- What one stage may do. -/
structure Traced (d d' : Det) : Prop where
  control : d'.flow.control = d.flow.control
  complete : d.flow.flags.detectionComplete = true → d'.flow.flags.detectionComplete = true
  logged : ∃ events, d'.log = d.log ++ events ∧ Proper d.flow.held events ∧
    d'.flow.held = events.foldl Held.after d.flow.held

/-- A stage that leaves the detected protocol alone as well. -/
structure Kept (d d' : Det) : Prop extends Traced d d' where
  protocol : d'.flow.detectedProtocol = d.flow.detectedProtocol

theorem Traced.trans {d e f : Det} (first : Traced d e) (second : Traced e f) : Traced d f := by
  obtain ⟨before, logBefore, properBefore, heldBefore⟩ := first.logged
  obtain ⟨after, logAfter, properAfter, heldAfter⟩ := second.logged
  refine ⟨second.control.trans first.control, fun c => second.complete (first.complete c),
    before ++ after, ?_, ?_, ?_⟩
  · rw [logAfter, logBefore, List.append_assoc]
  · exact (along_append _ _ _).mpr ⟨properBefore, heldBefore ▸ properAfter⟩
  · rw [heldAfter, heldBefore, List.foldl_append]

theorem Kept.trans {d e f : Det} (first : Kept d e) (second : Kept e f) : Kept d f :=
  ⟨first.toTraced.trans second.toTraced, second.protocol.trans first.protocol⟩

theorem Kept.refl (d : Det) : Kept d d :=
  ⟨⟨rfl, id, [], by simp, trivial, rfl⟩, rfl⟩

theorem Traced.refl (d : Det) : Traced d d := (Kept.refl d).toTraced

theorem Traced.ndpi {d d' : Det} (traced : Traced d d') :
    d'.flow.ndpiFlow.isSome = d.flow.ndpiFlow.isSome := congrArg Control.ndpi traced.control

/-! ## Primitive changes -/

/-- Everything the trace follows, as one value. -/
def Flow.followed (flow : Flow) : Held × Control × Bool :=
  (flow.held, flow.control, flow.flags.detectionComplete)

/-- Fields that the trace does not follow may change freely. -/
theorem kept_edit {f : Flow → Flow} {d : Det} (same : (f d.flow).followed = d.flow.followed) :
    Kept d (d.edit f) := by
  simp only [Flow.followed, Prod.mk.injEq] at same
  obtain ⟨held, control, complete⟩ := same
  exact ⟨⟨control, fun c => complete.trans c, [], by simp [Det.edit], trivial, held⟩,
    congrArg Held.protocol held⟩

theorem traced_edit {f : Flow → Flow} {d : Det} (same : (f d.flow).followed = d.flow.followed) :
    Traced d (d.edit f) := (kept_edit same).toTraced

theorem kept_editNdpi (f : NdpiFlow → NdpiFlow) (d : Det) : Kept d (d.editNdpi f) := by
  refine kept_edit ?_
  simp [Flow.followed, Flow.held, Flow.control]

private theorem traced_event {f : Flow → Flow} {d : Det} {e : Event}
    (control : (f d.flow).control = d.flow.control)
    (complete : d.flow.flags.detectionComplete = true → (f d.flow).flags.detectionComplete = true)
    (proper : e.Proper d.flow.held) (held : (f d.flow).held = d.flow.held.after e) :
    Traced d ((d.edit f).note e) :=
  ⟨control, complete, [e], rfl, ⟨proper, trivial⟩, held⟩

theorem kept_note {d : Det} {e : Event} (proper : e.Proper d.flow.held)
    (neutral : d.flow.held.after e = d.flow.held) : Kept d (d.note e) :=
  ⟨traced_event (f := id) rfl id proper neutral.symm, rfl⟩

theorem traced_setProtocol (p : ProtoId) (d : Det) : Traced d (d.setProtocol p) :=
  traced_event rfl id trivial rfl

theorem kept_store {m : Member} {off : Nat} {vals : List Val} {d : Det}
    (owner : memberOf d.flow.detectedProtocol = some m)
    (clear : m = .ssl → off + vals.length ≤ Layout.sslSubjectDn ∨ Layout.sslServerCn ≤ off) :
    Kept d (d.store m off vals) :=
  ⟨traced_event rfl id ⟨owner, clear⟩ rfl, rfl⟩

theorem kept_strdup {slot : Nat} {d : Det} (owner : memberOf d.flow.detectedProtocol = some .ssl)
    (pointer : slot = Layout.sslSubjectDn ∨ slot = Layout.sslIssuerDn)
    (null : IsNull d.flow.metadata.area slot) : Kept d (d.strdup slot) :=
  ⟨traced_event rfl id ⟨owner, pointer, null⟩ rfl, rfl⟩

theorem kept_markComplete (d : Det) : Kept d d.markComplete :=
  ⟨traced_event rfl (fun _ => rfl) trivial rfl, rfl⟩

/-! ## Stages of `ProcessFlow` -/

theorem kept_setDetectedApplication (s : Services) (appId : Nat) (d : Det) :
    Kept d (setDetectedApplication s appId d) := by
  simp only [setDetectedApplication]
  split
  · exact .refl d
  · exact kept_edit rfl

namespace ProcessFlow
variable (s : Services) (d : Det)

theorem kept_classify : Kept d (classify s d) := kept_edit rfl

theorem kept_dnsHint : Kept d (dnsHint s d) := by
  simp only [dnsHint]
  cases s.dhc with
  | none => exact .refl d
  | some lookup =>
    simp only
    split
    · exact .refl d
    · refine (kept_edit (f := fun flow => { flow with flags := { flow.flags with
        dhcHit := (hint lookup d.flow).1 } }) rfl).trans ?_
      split
      · refine (kept_edit (f := fun flow => { flow with
          dnsHostName := (hint lookup d.flow).2 }) rfl).trans ?_
        split
        · exact kept_editNdpi _ _
        · exact .refl _
      · exact .refl _

theorem kept_hostServerName : Kept d (hostServerName d) := kept_edit rfl

theorem kept_twin : Kept d (twin s d) := by
  simp only [twin]
  cases protocolTwins.lookup d.flow.detectedProtocol with
  | none => exact .refl d
  | some app => exact kept_setDetectedApplication s _ d

theorem kept_whileUnknown (app : Flow → Nat) : Kept d (whileUnknown s app d) := by
  simp only [whileUnknown]
  split
  · exact kept_setDetectedApplication s _ d
  · exact .refl d

theorem kept_byName (name : Flow → List UInt8) : Kept d (byName s name d) :=
  kept_whileUnknown s d _

theorem kept_byNetwork : Kept d (byNetwork s d) := by
  simp only [byNetwork]
  split
  · split <;> exact (kept_setDetectedApplication s _ d).trans (kept_whileUnknown s _ _)
  · exact .refl d

end ProcessFlow

/-! ## Metadata -/

/-- A stage that may run while the detected protocol stands for `m`. -/
def Through (m : Member) (stage : Det → Det) : Prop :=
  ∀ d, memberOf d.flow.detectedProtocol = some m → Kept d (stage d)

theorem Through.comp {m : Member} {f g : Det → Det} (first : Through m f) (second : Through m g) :
    Through m fun d => g (f d) := by
  intro d owner
  have kept := first d owner
  exact kept.trans (second (f d) (by rw [kept.protocol, owner]))

theorem Through.ite {m : Member} {c : Det → Prop} [∀ d, Decidable (c d)] {f g : Det → Det}
    (yes : Through m f) (no : Through m g) : Through m fun d => if c d then f d else g d := by
  intro d owner
  show Kept d (if c d then f d else g d)
  split
  · exact yes d owner
  · exact no d owner

/-- Fields of the `ssl` member in front of its pointers or behind them. -/
theorem through_ssl {off : Nat} {vals : Det → List Val}
    (clear : ∀ d, off + (vals d).length ≤ Layout.sslSubjectDn ∨ Layout.sslServerCn ≤ off) :
    Through .ssl fun d => d.store .ssl off (vals d) :=
  fun d owner => kept_store owner fun _ => clear d

/-- The other members hold no pointers. -/
theorem through_store {m : Member} (plain : m ≠ .ssl) (off : Nat) (vals : Det → List Val) :
    Through m fun d => d.store m off (vals d) :=
  fun _ owner => kept_store owner fun same => absurd same plain

theorem through_storeServerCn : Through .ssl fun d => (storeServerCn d).1 := by
  intro d owner
  simp only [storeServerCn]
  split
  · split
    · exact .refl d
    · exact (kept_store owner fun _ => .inr (Nat.le_refl _)).trans (kept_editNdpi _ _)
  · exact .refl d

theorem through_storeDn {slot : Nat} (dn : NdpiFlow → Option (List UInt8))
    (clear : NdpiFlow → NdpiFlow)
    (pointer : slot = Layout.sslSubjectDn ∨ slot = Layout.sslIssuerDn) :
    Through .ssl fun d => (storeDn slot dn clear d).1 := by
  intro d owner
  simp only [storeDn]
  split
  · exact .refl d
  · rename_i unset
    have null : IsNull d.flow.metadata.area slot := by
      simpa [Metadata.pointerSet] using unset
    split
    · exact (kept_strdup owner pointer null).trans (kept_editNdpi _ _)
    · exact .refl d

theorem through_storeIssuerDn : Through .ssl fun d => (storeIssuerDn d).1 :=
  through_storeDn _ _ (.inr rfl)

theorem through_storeSubjectDn : Through .ssl fun d => (storeSubjectDn d).1 :=
  through_storeDn _ _ (.inl rfl)

namespace ProcessFlow
variable (s : Services)

theorem through_tlsMetadata : Through .ssl (tlsMetadata s) := by
  have version : Through .ssl fun d =>
      d.store .ssl Layout.sslVersion (rawBytes (leBytes16 d.ndpi.sslVersion)) :=
    through_ssl fun d => .inl (by simp [Layout.sslVersion, Layout.sslSubjectDn])
  have cipher : Through .ssl fun d =>
      d.store .ssl Layout.sslCipherSuite (rawBytes (leBytes16 d.ndpi.serverCipher)) :=
    through_ssl fun d => .inl (by simp [Layout.sslCipherSuite, Layout.sslSubjectDn])
  have named : Through .ssl fun d => whileUnknown s (appOfServerCn s) (storeServerCn d).1 :=
    through_storeServerCn.comp fun d _ => kept_whileUnknown s d _
  have name : Through .ssl fun d => if (storeServerCn d).2 then
      whileUnknown s (appOfServerCn s) (storeServerCn d).1 else (storeServerCn d).1 :=
    named.ite through_storeServerCn
  exact (((version.comp cipher).comp name).comp through_storeIssuerDn).comp through_storeSubjectDn

theorem through_httpMetadata : Through .http httpMetadata := by
  intro d owner
  unfold httpMetadata
  extract_lets e
  have agent : Kept d e := by
    subst e
    split
    · exact (kept_editNdpi _ d).trans (kept_store owner (by simp))
    · exact .refl d
  split
  · exact agent.trans (kept_store (by rw [agent.protocol, owner]) (by simp))
  · exact agent

theorem through_dhcpMetadata : Through .dhcp dhcpMetadata :=
  (through_store (by decide) Layout.dhcpFingerprint fun d =>
    snprintfBytes Layout.dhcpFpLen d.ndpi.dhcpFingerprint).comp
  (through_store (by decide) Layout.dhcpClassIdent fun d =>
    snprintfBytes Layout.dhcpCiLen d.ndpi.dhcpClassIdent)

theorem through_sshMetadata : Through .ssh sshMetadata :=
  (through_store (by decide) Layout.sshClientAgent fun d =>
    snprintfBytes Layout.sshUaLen d.ndpi.sshClientSignature).comp
  (through_store (by decide) Layout.sshServerAgent fun d =>
    snprintfBytes Layout.sshUaLen d.ndpi.sshServerSignature)

variable (d : Det)

theorem kept_metadata : Kept d (metadata s d) := by
  simp only [metadata]
  split
  · rename_i tls
    exact through_tlsMetadata s d (memberOf_tls tls)
  · split
    · rename_i http
      exact through_httpMetadata d (memberOf_http http)
    · split
      · rename_i dhcp
        exact through_dhcpMetadata d (memberOf_dhcp dhcp)
      · split
        · rename_i ssh
          exact through_sshMetadata d (memberOf_ssh ssh)
        · exact .refl d

theorem kept_hashes : Kept d (hashes s d) := by
  have hashed : Kept d (d.edit fun flow => { flow with digestMdata := s.hashMdata flow }) :=
    kept_edit rfl
  simp only [hashes]
  split
  · exact hashed
  · split
    · split
      · split
        · exact hashed.trans (kept_note trivial rfl)
        · exact hashed
      · split
        · exact kept_edit rfl
        · exact .refl d
    · exact hashed

theorem kept_endpoint (type : AddrType) (mac ip : Addr) : Kept d (endpoint s type mac ip d) := by
  simp only [endpoint]
  split
  · exact kept_note trivial rfl
  · exact .refl d

theorem kept_endpoints : Kept d (endpoints s d) :=
  (kept_endpoint s d _ _ _).trans (kept_endpoint s _ _ _ _)

theorem kept_categories : Kept d (categories s d) := by
  simp only [categories]
  split
  · exact kept_edit rfl
  · exact (kept_edit rfl).trans (kept_edit rfl)

theorem updateLowerMaps_followed (flow : Flow) : flow.updateLowerMaps.followed = flow.followed := by
  simp only [Flow.updateLowerMaps]
  split <;> split <;> rfl

/-- Whatever does not look at the mask is the same after the privacy filters. -/
theorem privacy_view {α : Type} (view : Flow → α) (blind : ∀ (flow : Flow) (lower upper : Bool),
    view { flow with privateLower := lower, privateUpper := upper } = view flow) (flow : Flow) :
    view (privacy s flow) = view flow := by
  have one (lower upper : Flow → Bool) (flow : Flow) :
      view (privateIf lower upper flow) = view flow := by
    unfold privateIf
    split
    · rfl
    · exact blind _ _ _
  have host (host : Family × List UInt8) (flow : Flow) :
      view (privateHost host flow) = view flow := by
    obtain ⟨family, bytes⟩ := host
    cases family with
    | inet => exact one (·.lowerAddr.sinAddr == bytes) (·.upperAddr.sinAddr == bytes) flow
    | inet6 => exact one (·.lowerAddr.sin6Addr == bytes) (·.upperAddr.sin6Addr == bytes) flow
    | unspec => rfl
    | packet => rfl
  have hosts (entries : List (Family × List UInt8)) (flow : Flow) :
      view (entries.foldl (fun flow host => privateHost host flow) flow) = view flow := by
    induction entries generalizing flow with
    | nil => rfl
    | cons entry rest ih => exact (ih _).trans (host entry flow)
  have macs (entries : List (List UInt8)) (flow : Flow) :
      view (entries.foldl (fun flow mac => privateMac mac flow) flow) = view flow := by
    induction entries generalizing flow with
    | nil => rfl
    | cons mac rest ih => exact (ih _).trans (one _ _ flow)
  exact (hosts _ _).trans (macs _ _)

theorem kept_finish : Kept d (finish s d) := by
  have maps := kept_edit (updateLowerMaps_followed d.flow)
  have privacy := kept_edit (privacy_view s Flow.followed (fun _ _ _ => rfl)
    (d.edit Flow.updateLowerMaps).flow)
  have init (e : Det) : Kept e (e.edit fun flow =>
      { flow with flags := { flow.flags with detectionInit := true } }) := kept_edit rfl
  exact (maps.trans privacy).trans (init _)

end ProcessFlow

/-! ## Stages of `ProcessPacket` -/

theorem Kept.owner {d e : Det} {m : Member} (kept : Kept d e)
    (owner : memberOf d.flow.detectedProtocol = some m) :
    memberOf e.flow.detectedProtocol = some m := by
  rw [kept.protocol, owner]

namespace ProcessPacket
variable (s : Services)

theorem kept_setUpdated (updated : Bool) (d : Det) : Kept d (setUpdated updated d) := kept_edit rfl

theorem traced_refineStun (stun : Nat) (a : Answer) (d : Det) :
    Traced d (refineStun s stun a d) := by
  simp only [refineStun]
  split
  · split
    · exact .refl d
    · exact traced_setProtocol _ d
  · exact .refl d

theorem traced_whileUnknown (id : Nat) (d : Det) : Traced d (whileUnknown s id d) := by
  simp only [whileUnknown]
  split
  · exact traced_setProtocol _ d
  · exact .refl d

theorem traced_mapProtocol (stun : Nat) (a : Answer) (d : Det) :
    Traced d (mapProtocol s stun a d) :=
  ((traced_refineStun s stun a d).trans (traced_whileUnknown s _ _)).trans
    (traced_whileUnknown s _ _)

theorem traced_processAlpn (alpn : List UInt8) (client : Bool) (d : Det) :
    Traced d (processAlpn s alpn client d).1 := by
  have chosen : Kept d (d.edit fun flow => { flow with
      tlsAlpnServer := flow.tlsAlpnServer ++ [alpn], tlsAlpnServerSet := true }) := kept_edit rfl
  simp only [processAlpn]
  split
  · dsimp only
    exact traced_edit rfl
  · split
    · exact .refl d
    · split
      · split
        · exact chosen.toTraced
        · dsimp only
          exact (chosen.toTraced.trans (traced_setProtocol _ _)).trans (traced_edit rfl)
      · exact chosen.toTraced

theorem traced_advertisedAlpns (x : Det × Bool) : Traced x.1 (advertisedAlpns s x).1 := by
  simp only [advertisedAlpns]
  split
  · exact (traced_processAlpn s _ _ _).trans (kept_editNdpi _ _).toTraced
  · exact .refl _

theorem traced_negotiatedAlpn (x : Det × Bool) : Traced x.1 (negotiatedAlpn s x).1 := by
  simp only [negotiatedAlpn]
  split
  · exact (traced_processAlpn s _ _ _).trans (kept_editNdpi _ _).toTraced
  · exact .refl _

theorem through_cipherSuite : Through .ssl fun d => (cipherSuite d).1 := by
  intro d owner
  simp only [cipherSuite]
  split
  · exact kept_store owner fun _ => .inl (by simp [Layout.sslCipherSuite, Layout.sslSubjectDn])
  · exact .refl d

theorem through_serverCn : Through .ssl fun d => (serverCn s d).1 := by
  intro d owner
  simp only [serverCn]
  split
  · exact (through_storeServerCn d owner).trans (kept_setDetectedApplication s _ _)
  · exact .refl d

theorem through_serverJa3 : Through .ssl fun d => (serverJa3 d).1 := by
  intro d owner
  simp only [serverJa3]
  split
  · exact .refl d
  · exact kept_store owner fun _ => .inr (by decide)

theorem through_certFingerprint : Through .ssl fun d => (certFingerprint d).1 := by
  intro d owner
  simp only [certFingerprint]
  split
  · exact .refl d
  · exact (kept_store owner fun _ => .inr (by decide)).trans
      (kept_store owner fun _ => .inr (by decide))

theorem kept_update {m : Member} {step : Det → Det × Bool} (through : Through m fun d => (step d).1)
    {x : Det × Bool} (owner : memberOf x.1.flow.detectedProtocol = some m) :
    Kept x.1 (update step x).1 := by
  simp only [update]
  split
  · exact (through x.1 owner).trans (kept_setUpdated true _)
  · exact through x.1 owner

theorem traced_tlsUpdates {d : Det} (owner : memberOf d.flow.detectedProtocol = some .ssl) :
    Traced d (tlsUpdates s d).1 := by
  have next {step : Det → Det × Bool} (through : Through .ssl fun d => (step d).1) {x : Det × Bool}
      (soFar : Kept d x.1) : Kept d (update step x).1 :=
    soFar.trans (kept_update through (soFar.owner owner))
  have stored := next through_certFingerprint (next through_serverJa3
    (next through_storeSubjectDn (next through_storeIssuerDn
      (next (through_serverCn s) (next through_cipherSuite (x := (d, false)) (.refl d))))))
  exact (stored.toTraced.trans (traced_advertisedAlpns s _)).trans (traced_negotiatedAlpn s _)

theorem kept_mdnsUpdate (d : Det) : Kept d (mdnsUpdate d).1 := by
  simp only [mdnsUpdate]
  split
  · exact kept_setUpdated true d
  · exact .refl d

theorem through_sshUpdate : Through .ssh fun d => (sshUpdate d).1 := by
  intro d owner
  simp only [sshUpdate]
  split
  · exact .refl d
  · exact (kept_store owner (by simp)).trans (kept_setUpdated true _)

theorem traced_updates (d : Det) : Traced d (updates s d).1 := by
  have cleared := kept_setUpdated false d
  simp only [updates]
  split
  · rename_i tls
    exact cleared.toTraced.trans (traced_tlsUpdates s (memberOf_tls tls))
  · split
    · exact (cleared.trans (kept_mdnsUpdate _)).toTraced
    · split
      · rename_i ssh
        exact (cleared.trans (through_sshUpdate _ (memberOf_ssh ssh))).toTraced
      · exact cleared.toTraced

end ProcessPacket

/-! ## Functions that need `ndpi_flow` -/

/-- A function that runs to its end whenever there is an nDPI flow. -/
def Runs (f : Det → Except Entered Det) : Prop :=
  ∀ d, d.flow.ndpiFlow.isSome = true → ∃ d', f d = .ok d' ∧ Traced d d'

theorem enter_of_null {entered : Entered} (body : Det → Except Entered Det) {d : Det}
    (null : d.flow.ndpiFlow.isSome = false) : enter entered body d = .error entered := by
  simp [enter, null]

theorem enter_ok {entered : Entered} {body : Det → Except Entered Det} {d d' : Det}
    (done : enter entered body d = .ok d') : body d = .ok d' := by
  unfold enter at done
  split at done
  · exact done
  · cases done

theorem bind_ok {α β : Type} {x : Except Entered α} {f : α → Except Entered β} {b : β}
    (done : x >>= f = .ok b) : ∃ a, x = .ok a ∧ f a = .ok b := by
  cases x with
  | ok a => exact ⟨a, rfl, done⟩
  | error fault => cases done

theorem runs_enter {entered : Entered} {body : Det → Except Entered Det} (runs : Runs body) :
    Runs (enter entered body) := by
  intro d alive
  simpa [enter, alive] using runs d alive

theorem runs_ok {f : Det → Det} (traced : ∀ d, Traced d (f d)) : Runs fun d => .ok (f d) :=
  fun d _ => ⟨f d, rfl, traced d⟩

@[simp] theorem ok_bind {α β : Type} (x : α) (f : α → Except Entered β) :
    Except.ok x >>= f = f x := rfl

@[simp] theorem error_bind {α β : Type} (fault : Entered) (f : α → Except Entered β) :
    Except.error fault >>= f = .error fault := rfl

theorem Runs.bind {f g : Det → Except Entered Det} (first : Runs f) (second : Runs g) :
    Runs fun d => f d >>= g := by
  intro d alive
  obtain ⟨e, ranFirst, traced⟩ := first d alive
  obtain ⟨e', ranSecond, traced'⟩ := second e (traced.ndpi.trans alive)
  exact ⟨e', by simp only [ranFirst, ok_bind, ranSecond], traced.trans traced'⟩

theorem Runs.ite {c : Det → Prop} [∀ d, Decidable (c d)] {f g : Det → Except Entered Det}
    (yes : Runs f) (no : Runs g) : Runs fun d => if c d then f d else g d := by
  intro d alive
  show ∃ d', (if c d then f d else g d) = .ok d' ∧ _
  split
  · exact yes d alive
  · exact no d alive

section
variable (s : Services)

open ProcessFlow in
theorem runs_processFlow : Runs (processFlow s) := by
  refine runs_enter (runs_ok fun d => ?_)
  have named := (((kept_classify s d).trans (kept_dnsHint s _)).trans
    (kept_hostServerName _)).trans (kept_twin s _)
  have applied := ((named.trans (kept_byName s _ Flow.hostServerName)).trans
    (kept_byName s _ Flow.dnsHostName)).trans (kept_byNetwork s _)
  have stored := ((applied.trans (kept_metadata s _)).trans
    (kept_hashes s _)).trans (kept_endpoints s _)
  exact ((stored.trans (kept_categories s _)).trans (kept_finish s _)).toTraced

theorem runs_processRisks : Runs (processRisks s) := by
  refine runs_enter (runs_ok fun d => ?_)
  split
  · exact traced_edit rfl
  · exact Traced.trans (traced_edit rfl) (traced_edit rfl)

theorem traced_guess (a : GiveUp) (d : Det) : Traced d (guess s a d) := by
  simp only [guess]
  split
  · split
    · exact (traced_setProtocol _ _).trans (traced_setProtocol _ _)
    · exact traced_setProtocol _ _
  · exact .refl d

theorem runs_setGuessedProtocol (a : GiveUp) : Runs (setGuessedProtocol s a) :=
  runs_enter (runs_ok fun d => ((kept_editNdpi (fun _ => a.ndpiFlow) d).toTraced.trans
    (traced_guess s a _)).trans (traced_edit rfl))

theorem FlowUpdate.kept_categories (d : Det) : Kept d (FlowUpdate.categories s d) := by
  have application (e : Det) : Kept e (e.edit fun flow =>
      if flow.category.application = 0 ∧ flow.detectedApplication ≠ 0 then
        { flow with category := { flow.category with
          application := s.categoryApp flow.detectedApplication } }
      else flow) := kept_edit (by split <;> rfl)
  have protocol (e : Det) : Kept e (e.edit fun flow =>
      if flow.category.protocol = 0 ∧ flow.detectedProtocol ≠ Proto.unknown then
        { flow with category := { flow.category with
          protocol := s.categoryProto flow.detectedProtocol } }
      else flow) := kept_edit (by split <;> rfl)
  have domain (e : Det) : Kept e (e.edit fun flow =>
      if flow.category.domain = 0 ∧ e.ndpi.hostServerName ≠ [] then
        { flow with category := { flow.category with
          domain := s.categoryDomain e.ndpi.hostServerName } }
      else flow) := kept_edit (by split <;> rfl)
  exact ((application d).trans (protocol _)).trans (domain _)

theorem FlowUpdate.traced_override (nsd : SoftDissector) (d : Det) :
    Traced d (FlowUpdate.override s nsd d) := by
  have application (e : Det) : Kept e (if nsd.aid > -1 then
      if nsd.aid = 0 then e.edit fun flow => { flow with
        detectedApplication := 0
        detectedApplicationName := ""
        category := { flow.category with application := 0 } }
      else setDetectedApplication s nsd.aid.toNat e
    else e) := by
    split
    · split
      · exact kept_edit rfl
      · exact kept_setDetectedApplication s _ e
    · exact .refl e
  have applied := (kept_edit (f := fun flow => { flow with
    flags := { flow.flags with softDissector := true } }) (d := d) rfl).trans (application _)
  simp only [FlowUpdate.override]
  split
  · exact (applied.toTraced.trans (traced_setProtocol _ _)).trans (traced_edit rfl)
  · exact applied.toTraced

theorem FlowUpdate.runs_softDissect {complete : Det → Except Entered Det} (runs : Runs complete) :
    Runs (FlowUpdate.softDissect s complete) := by
  intro d alive
  simp only [FlowUpdate.softDissect]
  split
  · rename_i nsd _
    have traced := FlowUpdate.traced_override s nsd d
    obtain ⟨d', ran, after⟩ := runs _ (traced.ndpi.trans alive)
    exact ⟨d', ran, traced.trans after⟩
  · exact ⟨d, rfl, .refl d⟩

theorem FlowUpdate.runs_body {complete : Det → Except Entered Det} (runs : Runs complete) :
    Runs (FlowUpdate.body s complete) := by
  have categories : Runs fun d => .ok (FlowUpdate.categories s d) :=
    runs_ok fun d => (FlowUpdate.kept_categories s d).toTraced
  have broadcast : Runs fun d => .ok (d.note (.broadcast (FlowUpdate.event d.flow))) :=
    runs_ok fun d => (kept_note (e := .broadcast _) trivial rfl).toTraced
  exact runs_enter ((categories.bind (FlowUpdate.runs_softDissect s runs)).bind broadcast)

/-- Completion runs to its end, and detection is complete then. -/
theorem setDetectionComplete_spec {d : Det} (alive : d.flow.ndpiFlow.isSome = true) :
    ∃ d', setDetectionComplete s d = .ok d' ∧ Traced d d' ∧
      d'.flow.flags.detectionComplete = true := by
  by_cases done : d.flow.flags.detectionComplete = true
  · exact ⟨d, by simp [setDetectionComplete, done], .refl d, done⟩
  · have risks : Runs fun d => if d.flow.flags.risksChecked then .ok d else processRisks s d :=
      (runs_ok fun d => .refl d).ite (runs_processRisks s)
    have marked := (kept_markComplete d).toTraced
    obtain ⟨d', ran, traced⟩ := (risks.bind (FlowUpdate.runs_body s (runs_ok fun d => .refl d)))
      d.markComplete (marked.ndpi.trans alive)
    refine ⟨d', ?_, marked.trans traced, traced.complete rfl⟩
    simpa [setDetectionComplete, done] using ran

theorem runs_setDetectionComplete : Runs (setDetectionComplete s) := by
  intro d alive
  obtain ⟨d', ran, traced, _⟩ := setDetectionComplete_spec s alive
  exact ⟨d', ran, traced⟩

theorem runs_flowUpdate : Runs (flowUpdate s) := FlowUpdate.runs_body s (runs_setDetectionComplete s)

/-- What `FlowUpdate` calls for completion does not matter once detection is
complete, if it returns at once then. -/
theorem FlowUpdate.body_of_complete {complete : Det → Except Entered Det}
    (returns : ∀ d : Det, d.flow.flags.detectionComplete = true → complete d = .ok d) {d : Det}
    (done : d.flow.flags.detectionComplete = true) :
    FlowUpdate.body s complete d = FlowUpdate.body s .ok d := by
  have traced := (FlowUpdate.kept_categories s d).toTraced
  have same : FlowUpdate.softDissect s complete (FlowUpdate.categories s d) =
      FlowUpdate.softDissect s .ok (FlowUpdate.categories s d) := by
    simp only [FlowUpdate.softDissect]
    split
    · exact returns _ ((traced.trans (FlowUpdate.traced_override s _ _)).complete done)
    · rfl
  simp only [FlowUpdate.body, enter, same]

theorem setDetectionComplete_of_complete {d : Det}
    (done : d.flow.flags.detectionComplete = true) : setDetectionComplete s d = .ok d :=
  if_pos done

/-- Once detection is complete `FlowUpdate` has nothing left to complete. -/
theorem flowUpdate_of_complete {d : Det} (done : d.flow.flags.detectionComplete = true) :
    flowUpdate s d = FlowUpdate.body s .ok d :=
  FlowUpdate.body_of_complete s (fun _ => setDetectionComplete_of_complete s) done

/-- The two functions call each other in the source; this is its equation. -/
theorem setDetectionComplete_eq (d : Det) :
    setDetectionComplete s d =
      if d.flow.flags.detectionComplete then .ok d
      else
        (if d.markComplete.flow.flags.risksChecked then .ok d.markComplete
          else processRisks s d.markComplete) >>= flowUpdate s := by
  simp only [setDetectionComplete]
  split
  · rfl
  · have marked : d.markComplete.flow.flags.detectionComplete = true := rfl
    split
    · exact (flowUpdate_of_complete s marked).symm
    · by_cases alive : d.markComplete.flow.ndpiFlow.isSome = true
      · obtain ⟨d', ran, traced⟩ := runs_processRisks s d.markComplete alive
        rw [ran]
        exact (flowUpdate_of_complete s (traced.complete marked)).symm
      · have null := Bool.eq_false_iff.mpr alive
        rw [show processRisks s d.markComplete = .error .processRisks from enter_of_null _ null]
        rfl

namespace ProcessPacket

theorem inspect_spec {d : Det} (alive : d.flow.ndpiFlow.isSome = true) :
    ∃ x, inspect s d = .ok x ∧ Traced d x.1 := by
  simp only [inspect]
  split
  · obtain ⟨d', ran, traced⟩ := runs_processFlow s d alive
    exact ⟨(d', true), by rw [ran]; rfl, traced⟩
  · split
    · exact ⟨_, rfl, traced_updates s d⟩
    · exact ⟨(d, false), rfl, .refl d⟩

theorem conclude_spec (asked : Bool) {x : Det × Bool} (alive : x.1.flow.ndpiFlow.isSome = true) :
    ∃ d', conclude s asked x = .ok d' ∧ Traced x.1 d' := by
  have announce : Runs fun d => if x.2 then flowUpdate s d else .ok d :=
    (runs_flowUpdate s).ite (runs_ok .refl)
  have complete : Runs fun d =>
      if d.flow.flags.detectionInit ∧ extraPackets asked x.1 = false then setDetectionComplete s d
      else .ok d := (runs_setDetectionComplete s).ite (runs_ok .refl)
  exact (announce.bind complete) x.1 alive

/-- There is an nDPI flow once a packet has been handed over. -/
theorem handOver_ndpi (packet : Option Nat) (a : Answer) (d : Det) :
    (handOver packet a (allocate d)).flow.ndpiFlow.isSome = true := by
  by_cases alive : d.flow.ndpiFlow.isSome = true <;>
    simp [handOver, allocate, alive, Det.note, Det.edit, Det.editNdpi]

end ProcessPacket

open ProcessPacket in
/-- An entry that is handed to nDPI is traced from the hand-over on. -/
theorem processPacket_spec (packet : Option Nat) (a : Answer) (d : Det) :
    ∃ d', processPacket s packet a d = .ok d' ∧ Traced (handOver packet a (allocate d)) d' := by
  have alive := handOver_ndpi packet a d
  have mapped := traced_mapProtocol s ndpiProtocolStun a (handOver packet a (allocate d))
  obtain ⟨x, looked, inspected⟩ := inspect_spec s (mapped.ndpi.trans alive)
  obtain ⟨d', ran, concluded⟩ := conclude_spec s
    (mapProtocol s ndpiProtocolStun a (handOver packet a (allocate d))).ndpi.extraPackets
    (inspected.ndpi.trans (mapped.ndpi.trans alive))
  refine ⟨d', ?_, (mapped.trans inspected).trans concluded⟩
  simp only [processPacket, looked]
  exact ran

end

end NetifyAgent
