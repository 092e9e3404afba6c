import NetifyAgent.DetectionTrace

/-! Where the application of a flow comes from. `ProcessFlow` asks one source after the
other, and asks most of them only while no application is known; the stages between them
leave the application alone. An extra packet brings one source only, the common name of the
server. Each stage is judged by what it does to the application and its category, and by
the rest of the flow, from which every source reads. -/
namespace NetifyAgent.ApplicationSources
open NetifyAgent.Bytes NetifyAgent.Overlay

variable {s : Services} {d d' e f : Det}

/-- `detected_application` and `category.application`. -/
def chosen (d : Det) : Nat × Nat := (d.flow.detectedApplication, d.flow.category.application)

/-! ## Sources in order -/

/-- The first application of a list that is known. -/
def firstKnown (apps : List Nat) : Nat := (apps.find? (· ≠ 0)).getD 0

@[simp] theorem firstKnown_nil : firstKnown [] = 0 := rfl

@[simp] theorem firstKnown_cons (app : Nat) (apps : List Nat) :
    firstKnown (app :: apps) = if app = 0 then firstKnown apps else app := by
  by_cases unknown : app = 0
  · simp [firstKnown, unknown]
  · simp [firstKnown, unknown]

/-- Sources may be asked in groups. -/
theorem firstKnown_append (apps more : List Nat) :
    firstKnown (apps ++ more) = firstKnown (firstKnown apps :: more) := by
  induction apps with
  | nil => simp
  | cons app apps ih =>
    simp only [List.cons_append, firstKnown_cons, ih]
    by_cases unknown : app = 0
    · simp [unknown]
    · simp [unknown]

/-- A known application replaces the one before it, with its category. -/
def pick (s : Services) (app : Nat) (c : Nat × Nat) : Nat × Nat :=
  if app = 0 then c else (app, s.categoryApp app)

/-- An application that is taken only while none is known. -/
def offer (s : Services) (c : Nat × Nat) (app : Nat) : Nat × Nat :=
  if c.1 = 0 then pick s app c else c

def settle (s : Services) (c : Nat × Nat) (apps : List Nat) : Nat × Nat := apps.foldl (offer s) c

theorem pick_fst (app : Nat) (c : Nat × Nat) : (pick s app c).1 = firstKnown [app, c.1] := by
  by_cases unknown : app = 0
  · simp only [pick, unknown, firstKnown_cons, firstKnown_nil, if_true]
    split <;> simp_all
  · simp [pick, unknown]

/-- **Sources asked in order** give the first one known, and the application that was known
before comes first. -/
theorem settle_fst (c : Nat × Nat) (apps : List Nat) :
    (settle s c apps).1 = firstKnown (c.1 :: apps) := by
  induction apps generalizing c with
  | nil =>
    simp only [settle, List.foldl_nil, firstKnown_cons, firstKnown_nil]
    split
    · assumption
    · rfl
  | cons app apps ih =>
    have rest : settle s c (app :: apps) = settle s (offer s c app) apps := rfl
    rw [rest, ih]
    by_cases unknown : c.1 = 0
    · by_cases answered : app = 0
      · simp [offer, pick, unknown, answered]
      · simp [offer, pick, unknown, answered]
    · simp [offer, unknown]

/-- The category is the one of the application. -/
def Consistent (cat : Nat → Nat) (c : Nat × Nat) : Prop := c.2 = if c.1 = 0 then 0 else cat c.1

section
variable {cat : Nat → Nat} {c : Nat × Nat}

theorem consistent_pick (same : s.categoryApp = cat) (app : Nat) (consistent : Consistent cat c) :
    Consistent cat (pick s app c) := by
  unfold pick
  split
  · exact consistent
  · rename_i known
    simp [Consistent, known, same]

theorem consistent_settle (same : s.categoryApp = cat) (apps : List Nat)
    (consistent : Consistent cat c) : Consistent cat (settle s c apps) := by
  induction apps generalizing c with
  | nil => exact consistent
  | cons app apps ih =>
    apply ih
    unfold offer
    split
    · exact consistent_pick same app consistent
    · exact consistent

end

/-! ## The rest of the flow -/

/-- A flow without its application. -/
def blank (flow : Flow) : Flow :=
  { flow with
    detectedApplication := 0
    detectedApplicationName := ""
    category := { flow.category with application := 0 } }

/-- A source that does not look at the application. -/
def Blind {α : Type} (source : Flow → α) : Prop := ∀ flow, source (blank flow) = source flow

/-- A source answers the same for flows that differ in the application at most. -/
theorem Blind.same {α : Type} {source : Flow → α} (blind : Blind source) {flow flow' : Flow}
    (rest : blank flow' = blank flow) : source flow' = source flow := by
  rw [← blind flow', rest, blind flow]

theorem chosen_setDetectedApplication (app : Nat) :
    chosen (setDetectedApplication s app d) = pick s app (chosen d) := by
  unfold setDetectedApplication pick
  split <;> rfl

theorem blank_setDetectedApplication (app : Nat) :
    blank (setDetectedApplication s app d).flow = blank d.flow := by
  unfold setDetectedApplication
  split <;> rfl

/-- A stage that asks sources in order, and changes nothing but the application. -/
structure Asks (s : Services) (apps : List Nat) (d d' : Det) : Prop where
  chosen : chosen d' = settle s (chosen d) apps
  rest : blank d'.flow = blank d.flow

theorem Asks.refl (d : Det) : Asks s [] d d := ⟨rfl, rfl⟩

theorem Asks.trans {apps more : List Nat} (first : Asks s apps d e) (second : Asks s more e f) :
    Asks s (apps ++ more) d f where
  chosen := by rw [second.chosen, first.chosen, settle, settle, settle, List.foldl_append]
  rest := second.rest.trans first.rest

/-! ## Stages of `ProcessFlow` -/

/-- The application of a protocol's twin. -/
def twinApp (s : Services) (flow : Flow) : Nat :=
  match protocolTwins.lookup flow.detectedProtocol with
  | some app => s.appLookup app
  | none => 0

/-- The application of a name; the empty name has none. -/
def nameApp (s : Services) (name : List UInt8) : Nat :=
  if name = [] then 0 else s.appFind (rawBytes name)

/-- The applications of the two networks, the one of the OTHER side first. -/
def networkApps (s : Services) (flow : Flow) : List Nat :=
  if flow.getMasterProtocol = Proto.dns then []
  else if flow.lowerType = .atOther then
    [s.appFindAddr flow.lowerAddr, s.appFindAddr flow.upperAddr]
  else [s.appFindAddr flow.upperAddr, s.appFindAddr flow.lowerAddr]

namespace ProcessFlow
open NetifyAgent.ProcessFlow

theorem chosen_twin : chosen (twin s d) = pick s (twinApp s d.flow) (chosen d) := by
  unfold twin twinApp
  cases protocolTwins.lookup d.flow.detectedProtocol with
  | some app => exact chosen_setDetectedApplication _
  | none => rfl

theorem blank_twin : blank (twin s d).flow = blank d.flow := by
  unfold twin
  split
  · exact blank_setDetectedApplication _
  · rfl

theorem asks_whileUnknown (app : Flow → Nat) : Asks s [app d.flow] d (whileUnknown s app d) := by
  unfold whileUnknown
  split
  · rename_i unknown
    refine ⟨?_, blank_setDetectedApplication _⟩
    rw [chosen_setDetectedApplication]
    simp [settle, offer, chosen, unknown]
  · rename_i known
    exact ⟨by simp [settle, offer, chosen, known], rfl⟩

theorem asks_byName (name : Flow → List UInt8) :
    Asks s [nameApp s (name d.flow)] d (byName s name d) :=
  asks_whileUnknown fun flow => nameApp s (name flow)

/-- Once an application is known no further source is asked. -/
theorem settle_known {c : Nat × Nat} (known : c.1 ≠ 0) (apps : List Nat) : settle s c apps = c := by
  induction apps with
  | nil => rfl
  | cons app apps ih => simpa [settle, offer, known] using ih

/-- Two addresses, the second asked for while the first gave nothing. -/
theorem asks_addrs {near far : Flow → Addr} (blind : Blind far)
    (unknown : d.flow.detectedApplication = 0) :
    Asks s [s.appFindAddr (near d.flow), s.appFindAddr (far d.flow)] d
      (whileUnknown s (fun flow => s.appFindAddr (far flow))
        (setDetectedApplication s (s.appFindAddr (near d.flow)) d)) := by
  have first : Asks s [s.appFindAddr (near d.flow)] d
      (setDetectedApplication s (s.appFindAddr (near d.flow)) d) := by
    refine ⟨?_, blank_setDetectedApplication _⟩
    rw [chosen_setDetectedApplication]
    simp [settle, offer, chosen, unknown]
  rw [← blind.same first.rest]
  exact first.trans (asks_whileUnknown fun flow => s.appFindAddr (far flow))

theorem asks_byNetwork : Asks s (networkApps s d.flow) d (byNetwork s d) := by
  unfold byNetwork
  split
  · rename_i asked
    unfold networkApps
    rw [if_neg asked.1]
    split
    · exact asks_addrs (fun _ => rfl) asked.2
    · exact asks_addrs (fun _ => rfl) asked.2
  · rename_i skipped
    by_cases dns : d.flow.getMasterProtocol = Proto.dns
    · rw [networkApps, if_pos dns]
      exact .refl d
    · have known : (chosen d).1 ≠ 0 := fun unknown => skipped ⟨dns, unknown⟩
      exact ⟨(settle_known known _).symm, rfl⟩

/-- The sources that are asked before the metadata, in their order. -/
theorem asks_names : Asks s (nameApp s d.flow.hostServerName :: nameApp s d.flow.dnsHostName ::
    networkApps s d.flow) d (byNetwork s (byName s Flow.dnsHostName (byName s
      Flow.hostServerName d))) := by
  have host : Asks s [nameApp s d.flow.hostServerName] d (byName s Flow.hostServerName d) :=
    asks_byName _
  have hint := host.trans (asks_byName (s := s) Flow.dnsHostName)
  have network := hint.trans (asks_byNetwork (s := s))
  have sameHint : Blind Flow.dnsHostName := fun _ => rfl
  have sameNetwork : Blind (networkApps s) := fun _ => rfl
  rw [sameHint.same host.rest, sameNetwork.same hint.rest] at network
  exact network

end ProcessFlow

/-! ## The server's common name -/

/-- The union once a common name is stored. -/
def withServerCn (cn : List UInt8) (md : Metadata) : Metadata :=
  let name := rawBytes (setHostname cn Layout.tlsCnLen)
  { md with area := Overlay.store .ssl Layout.sslServerCn name md.area }

/-- The application of a common name that arrives while none is stored. -/
def serverCnApp (s : Services) (flow : Flow) : Nat :=
  match (flow.ndpiFlow.getD {}).serverCn with
  | some cn =>
    if flow.metadata.nonempty Layout.sslServerCn then 0
    else s.appFind ((withServerCn cn flow.metadata).string Layout.sslServerCn)
  | none => 0

/-- Only TLS and QUIC have a server's common name. -/
def commonNameApp (s : Services) (flow : Flow) : Nat :=
  if flow.getMasterProtocol = Proto.tls ∨ flow.getMasterProtocol = Proto.quic then
    serverCnApp s flow
  else 0

/-- The common name lies behind the version and the cipher suite. -/
theorem serverCnApp_congr {flow flow' : Flow} (ndpi : flow'.ndpiFlow = flow.ndpiFlow)
    (behind : ∀ i, Layout.sslServerCn ≤ i → flow'.metadata.area i = flow.metadata.area i) :
    serverCnApp s flow' = serverCnApp s flow := by
  have first : flow'.metadata.nonempty Layout.sslServerCn =
      flow.metadata.nonempty Layout.sslServerCn := by
    rw [Metadata.nonempty, Metadata.nonempty, behind _ (Nat.le_refl _)]
  have stored (cn : List UInt8) : (withServerCn cn flow'.metadata).string Layout.sslServerCn =
      (withServerCn cn flow.metadata).string Layout.sslServerCn := by
    unfold Metadata.string withServerCn
    refine congrArg (List.takeWhile _) (List.map_congr_left fun i _ => ?_)
    simp only [Overlay.store, Nat.le_add_right, if_true]
    split
    · rfl
    · rw [behind _ (Nat.le_add_right _ _)]
  simp only [serverCnApp, ndpi, first, stored]

theorem serverCnApp_store {off : Nat} {vals : List Val} (below : off + vals.length ≤
    Layout.sslServerCn) : serverCnApp s (d.store .ssl off vals).flow = serverCnApp s d.flow :=
  serverCnApp_congr rfl fun _ behind => store_after _ (below.trans behind)

/-- A common name is stored and gives its application, or there is nothing to store. -/
theorem storeServerCn_cases (s : Services) (d : Det) :
    (storeServerCn d).2 = true ∧ appOfServerCn s (storeServerCn d).1.flow = serverCnApp s d.flow ∨
      storeServerCn d = (d, false) ∧ serverCnApp s d.flow = 0 := by
  have same : (d.flow.ndpiFlow.getD {}).serverCn = d.ndpi.serverCn := rfl
  unfold storeServerCn serverCnApp
  rw [same]
  cases d.ndpi.serverCn with
  | none => exact .inr ⟨rfl, rfl⟩
  | some cn =>
    simp only
    by_cases kept : d.flow.metadata.nonempty Layout.sslServerCn = true
    · simp [kept]
    · simp only [kept, Bool.false_eq_true, if_false]
      refine .inl ⟨trivial, ?_⟩
      simp only [appOfServerCn, withServerCn, Det.editNdpi, Det.store, Det.edit_flow, Det.note_flow]

/-! ## Stages that leave the application alone -/

theorem chosen_edit {g : Flow → Flow} (app : (g d.flow).detectedApplication =
      d.flow.detectedApplication) (category : (g d.flow).category.application =
      d.flow.category.application) : chosen (d.edit g) = chosen d :=
  Prod.ext app category

@[simp] theorem chosen_note (event : Event) : chosen (d.note event) = chosen d := rfl

@[simp] theorem chosen_setProtocol (p : ProtoId) : chosen (d.setProtocol p) = chosen d := rfl

@[simp] theorem chosen_store (m : Member) (off : Nat) (vals : List Val) :
    chosen (d.store m off vals) = chosen d := rfl

@[simp] theorem chosen_strdup (slot : Nat) : chosen (d.strdup slot) = chosen d := rfl

@[simp] theorem chosen_editNdpi (g : NdpiFlow → NdpiFlow) : chosen (d.editNdpi g) = chosen d := rfl

@[simp] theorem chosen_storeServerCn : chosen (storeServerCn d).1 = chosen d := by
  unfold storeServerCn
  split
  · split <;> rfl
  · rfl

theorem chosen_storeDn (slot : Nat) (dn : NdpiFlow → Option (List UInt8))
    (clear : NdpiFlow → NdpiFlow) : chosen (storeDn slot dn clear d).1 = chosen d := by
  unfold storeDn
  split
  · rfl
  · split <;> rfl

@[simp] theorem chosen_storeIssuerDn : chosen (storeIssuerDn d).1 = chosen d := chosen_storeDn _ _ _

@[simp] theorem chosen_storeSubjectDn : chosen (storeSubjectDn d).1 = chosen d := chosen_storeDn _ _ _

namespace ProcessFlow
open NetifyAgent.ProcessFlow

theorem chosen_dnsHint : chosen (dnsHint s d) = chosen d := by
  unfold dnsHint
  split
  · rfl
  · split
    · rfl
    · simp only
      split
      · split <;> rfl
      · rfl

theorem chosen_tls : chosen (tlsMetadata s d) = settle s (chosen d) [serverCnApp s d.flow] := by
  have twoBytes (n : Nat) : (rawBytes (leBytes16 n)).length = 2 := rawBytes_length _
  unfold tlsMetadata
  simp only [chosen_storeSubjectDn, chosen_storeIssuerDn]
  generalize stored : (d.store .ssl Layout.sslVersion (rawBytes (leBytes16 d.ndpi.sslVersion))) = e
  have version : serverCnApp s e.flow = serverCnApp s d.flow := by
    rw [← stored]
    exact serverCnApp_store (by rw [twoBytes]; decide)
  have same : chosen e = chosen d := by rw [← stored, chosen_store]
  generalize stored' : e.store .ssl Layout.sslCipherSuite
    (rawBytes (leBytes16 e.ndpi.serverCipher)) = f
  have cipher : serverCnApp s f.flow = serverCnApp s d.flow := by
    rw [← stored', serverCnApp_store (by rw [twoBytes]; decide), version]
  have same' : chosen f = chosen d := by rw [← stored', chosen_store, same]
  rcases storeServerCn_cases s f with ⟨arrived, app⟩ | ⟨missing, app⟩
  · rw [if_pos arrived, (asks_whileUnknown _).chosen, app, chosen_storeServerCn, cipher, same']
  · rw [missing, ← cipher, app]
    simp [settle, offer, pick, same']

/-- The common name is the last source asked. -/
theorem chosen_metadata : chosen (metadata s d) = settle s (chosen d) [commonNameApp s d.flow] := by
  have nothing : chosen d = settle s (chosen d) [0] := by
    simp [settle, offer, pick]
  unfold metadata commonNameApp
  simp only
  split
  · exact chosen_tls
  · rw [← nothing]
    split
    · unfold httpMetadata
      cases d.ndpi.httpUserAgent with
      | none => simp only; split <;> rfl
      | some agent => simp only; split <;> rfl
    · split
      · rfl
      · split <;> rfl

theorem chosen_hashes : chosen (hashes s d) = chosen d := by
  unfold hashes
  split
  · rfl
  · split
    · split
      · simp only
        split <;> rfl
      · split <;> rfl
    · rfl

theorem chosen_endpoints : chosen (endpoints s d) = chosen d := by
  have one (type : AddrType) (mac ip : Addr) (d : Det) :
      chosen (endpoint s type mac ip d) = chosen d := by
    unfold endpoint
    split <;> rfl
  unfold endpoints
  rw [one, one]

theorem chosen_categories : chosen (categories s d) = chosen d := by
  unfold categories
  simp only
  split <;> rfl

theorem chosen_finish : chosen (finish s d) = chosen d := by
  have maps : chosen (d.edit Flow.updateLowerMaps) = chosen d := by
    unfold Flow.updateLowerMaps Det.edit chosen
    simp only
    split <;> split <;> rfl
  have masks : chosen ((d.edit Flow.updateLowerMaps).edit (privacy s)) =
      chosen (d.edit Flow.updateLowerMaps) :=
    privacy_view s (fun flow => (flow.detectedApplication, flow.category.application))
      (fun _ _ _ => rfl) _
  exact masks.trans maps

/-- The flow as its sources are asked: types, host names and hints are filled in. -/
def prepared (s : Services) (d : Det) : Det := hostServerName (dnsHint s (classify s d))

theorem chosen_prepared : chosen (prepared s d) = chosen d :=
  chosen_dnsHint (d := classify s d)

/-- The sources that are asked only while no application is known, in their order. -/
def lowerSources (s : Services) (flow : Flow) : List Nat :=
  nameApp s flow.hostServerName :: nameApp s flow.dnsHostName :: networkApps s flow ++
    [commonNameApp s flow]

/-- All sources in the order in which they count. Only a twin replaces an application that is
known already. -/
def order (s : Services) (flow : Flow) : List Nat :=
  twinApp s flow :: flow.detectedApplication :: lowerSources s flow

theorem blind_lowerSources : Blind (lowerSources s) := fun _ => rfl

theorem chosen_lowerSources :
    chosen (metadata s (byNetwork s (byName s Flow.dnsHostName (byName s Flow.hostServerName d)))) =
      settle s (chosen d) (lowerSources s d.flow) := by
  have names := asks_names (s := s) (d := d)
  have commonName : Blind (commonNameApp s) := fun _ => rfl
  rw [chosen_metadata, commonName.same names.rest, names.chosen, lowerSources]
  simp only [settle, List.foldl_append]

/-- **What `ProcessFlow` does to the application**: a twin replaces the one before it, the
other sources only fill in. -/
theorem chosen_processFlow (done : processFlow s d = .ok d') :
    chosen d' = settle s (pick s (twinApp s (prepared s d).flow) (chosen d))
      (lowerSources s (prepared s d).flow) := by
  have rest : blank (twin s (prepared s d)).flow = blank (prepared s d).flow := blank_twin
  unfold processFlow at done
  have ended := enter_ok done
  cases ended
  rw [chosen_finish, chosen_categories, chosen_endpoints, chosen_hashes,
    chosen_lowerSources]
  rw [← prepared, blind_lowerSources.same rest, chosen_twin, chosen_prepared]

end ProcessFlow

/-! ## Stages of `ProcessPacket` -/

namespace ProcessPacket
open NetifyAgent.ProcessPacket

@[simp] theorem chosen_mapProtocol (stun : Nat) (a : Answer) :
    chosen (mapProtocol s stun a d) = chosen d := by
  have one (id : Nat) (d : Det) : chosen (whileUnknown s id d) = chosen d := by
    unfold whileUnknown
    split <;> rfl
  have refined : chosen (refineStun s stun a d) = chosen d := by
    unfold refineStun
    split
    · split <;> rfl
    · rfl
  unfold mapProtocol
  rw [one, one, refined]

@[simp] theorem chosen_allocate : chosen (allocate d) = chosen d := by
  unfold allocate
  split <;> rfl

@[simp] theorem chosen_handOver (packet : Option Nat) (a : Answer) :
    chosen (handOver packet a d) = chosen d := rfl

/-- The flow as an answer of nDPI is looked at. -/
def answered (s : Services) (packet : Option Nat) (a : Answer) (d : Det) : Det :=
  mapProtocol s ndpiProtocolStun a (handOver packet a (allocate d))

theorem chosen_answered (packet : Option Nat) (a : Answer) :
    chosen (answered s packet a d) = chosen d := by
  unfold answered
  rw [chosen_mapProtocol, chosen_handOver, chosen_allocate]

@[simp] theorem chosen_setUpdated (updated : Bool) : chosen (setUpdated updated d) = chosen d := rfl

theorem chosen_update {step : Det → Det × Bool} {x : Det × Bool}
    (same : ∀ d, chosen (step d).1 = chosen d) : chosen (update step x).1 = chosen x.1 := by
  unfold update
  simp only
  split
  · exact same _
  · exact same _

theorem chosen_processAlpn (alpn : List UInt8) (client : Bool) :
    chosen (processAlpn s alpn client d).1 = chosen d := by
  unfold processAlpn
  split
  · rfl
  · split
    · rfl
    · simp only
      split
      · split <;> rfl
      · rfl

theorem chosen_advertisedAlpns (x : Det × Bool) :
    chosen (advertisedAlpns s x).1 = chosen x.1 := by
  unfold advertisedAlpns
  split
  · exact chosen_processAlpn _ _
  · rfl

theorem chosen_negotiatedAlpn (x : Det × Bool) :
    chosen (negotiatedAlpn s x).1 = chosen x.1 := by
  unfold negotiatedAlpn
  split
  · exact chosen_processAlpn _ _
  · rfl

theorem chosen_serverJa3 : chosen (serverJa3 d).1 = chosen d := by
  unfold serverJa3
  split <;> rfl

theorem chosen_certFingerprint : chosen (certFingerprint d).1 = chosen d := by
  unfold certFingerprint
  split <;> rfl

theorem chosen_cipherSuite : chosen (cipherSuite d).1 = chosen d := by
  unfold cipherSuite
  split <;> rfl

theorem serverCnApp_cipherSuite : serverCnApp s (cipherSuite d).1.flow = serverCnApp s d.flow := by
  unfold cipherSuite
  split
  · exact serverCnApp_store (Nat.le_of_ble_eq_true rfl)
  · rfl

/-- The common name of an extra packet replaces whatever application is known. -/
theorem chosen_serverCn : chosen (serverCn s d).1 = pick s (serverCnApp s d.flow) (chosen d) := by
  unfold serverCn
  rcases storeServerCn_cases s d with ⟨arrived, app⟩ | ⟨missing, app⟩
  · simp only [if_pos arrived]
    rw [chosen_setDetectedApplication, app, chosen_storeServerCn]
  · simp [missing, app, pick]

theorem chosen_tlsUpdates :
    chosen (tlsUpdates s d).1 = pick s (serverCnApp s d.flow) (chosen d) := by
  have cipher : chosen (update cipherSuite (d, false)).1 = chosen d :=
    chosen_update fun _ => chosen_cipherSuite
  have behind : serverCnApp s (update cipherSuite (d, false)).1.flow = serverCnApp s d.flow := by
    unfold update
    simp only
    split
    · exact serverCnApp_cipherSuite
    · exact serverCnApp_cipherSuite
  have cn (x : Det × Bool) : chosen (update (serverCn s) x).1 =
      pick s (serverCnApp s x.1.flow) (chosen x.1) := by
    unfold update
    simp only
    split
    · exact chosen_serverCn
    · exact chosen_serverCn
  unfold tlsUpdates
  simp only
  rw [chosen_negotiatedAlpn, chosen_advertisedAlpns,
    chosen_update fun _ => chosen_certFingerprint, chosen_update fun _ => chosen_serverJa3,
    chosen_update fun _ => chosen_storeSubjectDn, chosen_update fun _ => chosen_storeIssuerDn, cn,
    behind, cipher]

/-- **What an extra packet does to the application**: the common name it brings replaces the
one before it. -/
theorem chosen_updates :
    chosen (updates s d).1 = pick s (commonNameApp s d.flow) (chosen d) := by
  unfold updates commonNameApp
  simp only
  split
  · rename_i tls
    have same : d.flow.getMasterProtocol = Proto.tls ∨ d.flow.getMasterProtocol = Proto.quic := tls
    rw [if_pos same]
    exact chosen_tlsUpdates
  · rename_i other
    have same : ¬ (d.flow.getMasterProtocol = Proto.tls ∨
      d.flow.getMasterProtocol = Proto.quic) := other
    rw [if_neg same]
    split
    · unfold mdnsUpdate
      split <;> rfl
    · split
      · unfold sshUpdate
        split <;> rfl
      · rfl

end ProcessPacket

end NetifyAgent.ApplicationSources
