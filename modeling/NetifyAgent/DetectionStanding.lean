import NetifyAgent.DetectionTrace

/-! What most stages of detection leave alone. The flags of completion and of
updates, the ALPN lists, the digests and the addresses of a flow are changed by
a few named stages only, and only these cause the events that anyone outside
detection acts on. A stage that is not one of them is shown here, once, to leave
all of it standing. -/
namespace NetifyAgent
open NetifyAgent.Bytes NetifyAgent.Overlay

/-- The fields of a flow that few stages change. -/
structure Standing where
  complete : Bool
  updated : Bool
  alpn : List (List UInt8) × Bool
  alpnServer : List (List UInt8) × Bool
  digests : List UInt8 × List UInt8
  addrs : Addr × Addr

def Flow.standing (flow : Flow) : Standing where
  complete := flow.flags.detectionComplete
  updated := flow.flags.detectionUpdated
  alpn := (flow.tlsAlpn, flow.tlsAlpnSet)
  alpnServer := (flow.tlsAlpnServer, flow.tlsAlpnServerSet)
  digests := (flow.digestLower, flow.digestMdata)
  addrs := (flow.lowerAddr, flow.upperAddr)

/-- An event that something outside detection acts on. -/
def Event.outward : Event → Bool
  | .fhcPush _ _ | .broadcast _ | .reset => true
  | _ => false

/-- The fields and the events that few stages touch. -/
def Det.standing (d : Det) : Standing × List Event :=
  (d.flow.standing, d.log.filter Event.outward)

section
variable {s : Services} {d : Det}

theorem stands_edit {f : Flow → Flow} (same : (f d.flow).standing = d.flow.standing) :
    (d.edit f).standing = d.standing := by
  simp only [Det.standing, Det.edit_flow, Det.edit_log, same]

theorem stands_note {e : Event} (quiet : e.outward = false) :
    (d.note e).standing = d.standing := by
  simp [Det.standing, quiet]

theorem stands_setProtocol (p : ProtoId) : (d.setProtocol p).standing = d.standing :=
  (stands_note rfl).trans (stands_edit rfl)

theorem stands_store (m : Member) (off : Nat) (vals : List Val) :
    (d.store m off vals).standing = d.standing :=
  (stands_note rfl).trans (stands_edit rfl)

theorem stands_strdup (slot : Nat) : (d.strdup slot).standing = d.standing := by
  apply (stands_note rfl).trans
  exact stands_edit rfl

theorem stands_editNdpi (f : NdpiFlow → NdpiFlow) : (d.editNdpi f).standing = d.standing :=
  stands_edit rfl

theorem stands_setDetectedApplication (appId : Nat) :
    (setDetectedApplication s appId d).standing = d.standing := by
  unfold setDetectedApplication
  split
  · rfl
  · exact stands_edit rfl

theorem stands_storeServerCn : (storeServerCn d).1.standing = d.standing := by
  unfold storeServerCn
  split
  · split
    · rfl
    · exact (stands_editNdpi _).trans (stands_store _ _ _)
  · rfl

theorem stands_storeDn (slot : Nat) (dn : NdpiFlow → Option (List UInt8))
    (clear : NdpiFlow → NdpiFlow) : (storeDn slot dn clear d).1.standing = d.standing := by
  unfold storeDn
  split
  · rfl
  · split
    · exact (stands_editNdpi _).trans (stands_strdup _)
    · rfl

theorem stands_storeIssuerDn : (storeIssuerDn d).1.standing = d.standing := stands_storeDn _ _ _

theorem stands_storeSubjectDn : (storeSubjectDn d).1.standing = d.standing := stands_storeDn _ _ _

/-! ## Stages of `ProcessFlow` -/

namespace ProcessFlow

theorem stands_dnsHint : (dnsHint s d).standing = d.standing := by
  unfold dnsHint
  split
  · rfl
  · split
    · rfl
    · simp only
      split
      · split
        · exact (stands_editNdpi _).trans ((stands_edit rfl).trans (stands_edit rfl))
        · exact (stands_edit rfl).trans (stands_edit rfl)
      · exact stands_edit rfl

theorem stands_twin : (twin s d).standing = d.standing := by
  unfold twin
  split
  · exact stands_setDetectedApplication _
  · rfl

theorem stands_whileUnknown (app : Flow → Nat) : (whileUnknown s app d).standing = d.standing := by
  unfold whileUnknown
  split
  · exact stands_setDetectedApplication _
  · rfl

theorem stands_byNetwork : (byNetwork s d).standing = d.standing := by
  unfold byNetwork
  split
  · split
    · exact (stands_whileUnknown _).trans (stands_setDetectedApplication _)
    · exact (stands_whileUnknown _).trans (stands_setDetectedApplication _)
  · rfl

theorem stands_tlsMetadata : (tlsMetadata s d).standing = d.standing := by
  unfold tlsMetadata
  simp only
  apply stands_storeSubjectDn.trans
  apply stands_storeIssuerDn.trans
  split
  · rw [stands_whileUnknown, stands_storeServerCn, stands_store, stands_store]
  · rw [stands_storeServerCn, stands_store, stands_store]

theorem stands_httpMetadata : (httpMetadata d).standing = d.standing := by
  unfold httpMetadata
  cases d.ndpi.httpUserAgent with
  | none =>
    simp only
    split
    · exact stands_store _ _ _
    · rfl
  | some agent =>
    simp only
    split
    · rw [stands_store, stands_store, stands_editNdpi]
    · rw [stands_store, stands_editNdpi]

theorem stands_metadata : (metadata s d).standing = d.standing := by
  unfold metadata
  simp only
  split
  · exact stands_tlsMetadata
  · split
    · exact stands_httpMetadata
    · split
      · exact (stands_store _ _ _).trans (stands_store _ _ _)
      · split
        · exact (stands_store _ _ _).trans (stands_store _ _ _)
        · rfl

/-- The part of `ProcessFlow` before the hashing. -/
theorem stands_hashed : (metadata s (byNetwork s (byName s Flow.dnsHostName (byName s
    Flow.hostServerName (twin s (hostServerName (dnsHint s (classify s d)))))))).standing =
      d.standing := by
  rw [stands_metadata, stands_byNetwork]
  unfold byName hostServerName classify
  rw [stands_whileUnknown, stands_whileUnknown, stands_twin, stands_edit rfl, stands_dnsHint]
  exact stands_edit rfl

theorem stands_endpoint (type : AddrType) (mac ip : Addr) :
    (endpoint s type mac ip d).standing = d.standing := by
  unfold endpoint
  split
  · exact stands_note rfl
  · rfl

theorem stands_endpoints : (endpoints s d).standing = d.standing :=
  (stands_endpoint _ _ _).trans (stands_endpoint _ _ _)

theorem stands_categories : (categories s d).standing = d.standing := by
  unfold categories
  simp only
  split
  · exact stands_edit rfl
  · exact (stands_edit rfl).trans (stands_edit rfl)

theorem updateLowerMaps_standing (flow : Flow) : flow.updateLowerMaps.standing = flow.standing := by
  unfold Flow.updateLowerMaps
  simp only
  split <;> split <;> rfl

theorem stands_finish : (finish s d).standing = d.standing := by
  unfold finish
  simp only
  rw [stands_edit rfl, stands_edit (privacy_view s Flow.standing (fun _ _ _ => rfl) _),
    stands_edit (updateLowerMaps_standing _)]

end ProcessFlow

/-! ## Stages of `ProcessPacket` and of completion -/

namespace ProcessPacket

theorem stands_whileUnknown (id : Nat) : (whileUnknown s id d).standing = d.standing := by
  unfold whileUnknown
  split
  · exact stands_setProtocol _
  · rfl

theorem stands_refineStun (stun : Nat) (a : Answer) :
    (refineStun s stun a d).standing = d.standing := by
  unfold refineStun
  split
  · split
    · rfl
    · exact stands_setProtocol _
  · rfl

theorem stands_mapProtocol (stun : Nat) (a : Answer) :
    (mapProtocol s stun a d).standing = d.standing := by
  unfold mapProtocol
  rw [stands_whileUnknown, stands_whileUnknown, stands_refineStun]

theorem stands_allocate : (allocate d).standing = d.standing := by
  unfold allocate
  split
  · rfl
  · exact (stands_note rfl).trans (stands_edit rfl)

theorem stands_handOver (packet : Option Nat) (a : Answer) :
    (handOver packet a d).standing = d.standing :=
  (stands_note rfl).trans (stands_editNdpi _)

theorem stands_cipherSuite : (cipherSuite d).1.standing = d.standing := by
  unfold cipherSuite
  split
  · exact stands_store _ _ _
  · rfl

theorem stands_serverCn : (serverCn s d).1.standing = d.standing := by
  unfold serverCn
  simp only
  split
  · exact (stands_setDetectedApplication _).trans stands_storeServerCn
  · rfl

theorem stands_serverJa3 : (serverJa3 d).1.standing = d.standing := by
  unfold serverJa3
  split
  · rfl
  · exact stands_store _ _ _

theorem stands_certFingerprint : (certFingerprint d).1.standing = d.standing := by
  unfold certFingerprint
  split
  · rfl
  · exact (stands_store _ _ _).trans (stands_store _ _ _)

end ProcessPacket

theorem stands_processRisks {d' : Det} (done : processRisks s d = .ok d') :
    d'.standing = d.standing := by
  unfold processRisks enter at done
  split at done
  · cases done
    apply (stands_edit rfl).trans
    split
    · rfl
    · exact stands_edit rfl
  · cases done

theorem stands_guess (a : GiveUp) : (guess s a d).standing = d.standing := by
  unfold guess
  split
  · simp only
    split
    · exact (stands_setProtocol _).trans (stands_setProtocol _)
    · exact stands_setProtocol _
  · rfl

theorem stands_setGuessedProtocol {a : GiveUp} {d' : Det}
    (done : setGuessedProtocol s a d = .ok d') : d'.standing = d.standing := by
  unfold setGuessedProtocol enter at done
  split at done
  · cases done
    rw [stands_edit rfl, stands_guess, stands_editNdpi]
  · cases done

namespace FlowUpdate

theorem stands_categories : (categories s d).standing = d.standing := by
  unfold categories
  simp only
  rw [stands_edit (by split <;> rfl), stands_edit (by split <;> rfl),
    stands_edit (by split <;> rfl)]

theorem stands_override (nsd : SoftDissector) : (override s nsd d).standing = d.standing := by
  have marked : (d.edit fun flow => { flow with
      flags := { flow.flags with softDissector := true } }).standing = d.standing :=
    stands_edit rfl
  have application : ∀ e : Det, (if nsd.aid > -1 then
      if nsd.aid = 0 then e.edit fun flow => { flow with
        detectedApplication := 0
        detectedApplicationName := ""
        category := { flow.category with application := 0 } }
      else setDetectedApplication s nsd.aid.toNat e
    else e).standing = e.standing := by
    intro e
    split
    · split
      · exact stands_edit rfl
      · exact stands_setDetectedApplication _
    · rfl
  unfold override
  simp only
  split
  · rw [stands_edit rfl, stands_setProtocol, application, marked]
  · rw [application, marked]

end FlowUpdate

end

end NetifyAgent
