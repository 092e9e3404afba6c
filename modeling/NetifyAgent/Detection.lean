import Mathlib.Data.List.DropRight
import NetifyAgent.Flow

/-! `ndDetectionThread`. Packets of a flow are handed to nDPI until the protocol
is known and its metadata complete, the packet limit is reached or the flow
expires. The thread keeps a log of what it does to the flow, so that a run can
be judged by its log. What the thread asks of the rest of the agent, and what
nDPI answers, is taken as it comes. -/
namespace NetifyAgent
open NetifyAgent.Bytes NetifyAgent.Overlay

/-- The functions that dereference `ndpi_flow` without a test. -/
inductive Entered where
  | processFlow
  | processRisks
  | setGuessedProtocol
  | flowUpdate
  deriving DecidableEq, Repr

/-- `ndPluginProcessor::Event`, the ones `FlowUpdate` broadcasts. -/
inductive ProcessorEvent where
  | dpiNew
  | dpiUpdate
  | dpiComplete
  deriving DecidableEq, Repr

/-- What happens to a flow. -/
inductive Event where
  /-- `ndpi_malloc`. -/
  | alloc
  /-- `ndpi_detection_process_packet`, with the entry's packet if it has one. -/
  | handOver (packet : Option Nat)
  /-- An assignment to `detected_protocol`. -/
  | protocol (p : ProtoId)
  /-- A write to the metadata union. -/
  | store (m : Member) (off : Nat) (vals : List Val)
  /-- `strdup` into a pointer of the `ssl` member. -/
  | strdup (slot : Nat)
  /-- `detection_complete = true`. -/
  | complete
  | pushEndpoint (mac ip : Addr)
  | fhcPush (digest mdata : List UInt8)
  | broadcast (event : ProcessorEvent)
  | dhcInsert (addr : Addr) (host : List UInt8)
  /-- `ndFlow::Reset(true)`. -/
  | reset
  deriving DecidableEq, Repr

/-- `ndSoftDissector`: application and protocol, `-1` where it names none. -/
structure SoftDissector where
  aid : Int
  pid : Int
  deriving DecidableEq, Repr

/-- What the detection thread looks up elsewhere. -/
structure Services where
  protos : ProtoTables
  classify : AddrType → Addr → AddrType
  /-- `dhc->Lookup`; `none` without a DNS hint cache. -/
  dhc : Option (Addr → Option (List UInt8))
  isIpaddr : List UInt8 → Bool
  appLookup : String → Nat
  /-- `apps.Find(domain)`, for a string as it lies in memory. -/
  appFind : List Val → Nat
  appFindAddr : Addr → Nat
  /-- `apps.Lookup(id, name)`, given the old name. -/
  appName : Nat → String → String
  categoryApp : Nat → Nat
  categoryProto : Nat → Nat
  categoryDomain : List UInt8 → Nat
  protoName : ProtoId → String
  alpnProtos : List UInt8 → Option ProtoId
  /-- `Hash(tag, true)`, which hashes bytes past `detected_protocol` as well. -/
  hashMdata : Flow → List UInt8
  /-- `fhc->Pop`; `none` without a flow hash cache. -/
  fhc : Option (List UInt8 → Option (List UInt8))
  /-- `SoftDissectorMatch`; `none` while soft dissectors are disabled. -/
  softDissectorMatch : Option (Flow → Option SoftDissector)
  /-- `NDPI_MAX_RISK`. -/
  maxRisk : Nat
  riskFind : Nat → Nat
  /-- `ndpi_risk2score`: the score, the client's and the server's. -/
  risk2score : Nat → Nat × Nat × Nat
  privacyFilterMac : List (List UInt8)
  privacyFilterHost : List (Family × List UInt8)

/-- One answer of `ndpi_detection_process_packet` and the state it leaves. -/
structure Answer where
  masterProtocol : Nat
  appProtocol : Nat
  ndpiFlow : NdpiFlow

/-- The answer of `ndpi_detection_giveup`. -/
structure GiveUp where
  guessed : Bool
  masterProtocol : Nat
  appProtocol : Nat
  ndpiFlow : NdpiFlow

/-- What nDPI may be asked while one queue entry is handled. -/
structure Answers where
  first : Answer
  second : Answer
  giveup : GiveUp

/-- Surroundings without caches, filters or soft dissectors, in which nDPI's
protocol numbers are the agent's own. -/
def Services.bare : Services where
  protos := ⟨some, fun _ => []⟩
  classify := fun _ _ => .atOther
  dhc := none
  isIpaddr := fun _ => false
  appLookup := fun _ => 0
  appFind := fun _ => 0
  appFindAddr := fun _ => 0
  appName := fun _ name => name
  categoryApp := fun _ => 0
  categoryProto := fun _ => 0
  categoryDomain := fun _ => 0
  protoName := fun _ => "Unknown"
  alpnProtos := fun _ => none
  hashMdata := fun _ => []
  fhc := none
  softDissectorMatch := none
  maxRisk := 0
  riskFind := fun _ => 0
  risk2score := fun _ => (0, 0, 0)
  privacyFilterMac := []
  privacyFilterHost := []

/-- nDPI answers with one protocol and one state, however often it is asked. -/
def Answers.always (masterProtocol : Nat) (ndpiFlow : NdpiFlow) : Answers where
  first := ⟨masterProtocol, 0, ndpiFlow⟩
  second := ⟨masterProtocol, 0, ndpiFlow⟩
  giveup := ⟨false, 0, 0, ndpiFlow⟩

/-- A flow under detection and what happened to it. -/
structure Det where
  flow : Flow
  log : List Event

namespace Det

def note (e : Event) (d : Det) : Det := { d with log := d.log ++ [e] }

/-- Changes fields of the flow that the log does not follow. -/
def edit (f : Flow → Flow) (d : Det) : Det := { d with flow := f d.flow }

def setProtocol (p : ProtoId) (d : Det) : Det :=
  (d.edit fun flow => { flow with detectedProtocol := p }).note (.protocol p)

/-- Writes bytes through a member of the metadata union. -/
def store (m : Member) (off : Nat) (vals : List Val) (d : Det) : Det :=
  (d.edit fun flow => { flow with
    metadata := { flow.metadata with area := Overlay.store m off vals flow.metadata.area } }).note
    (.store m off vals)

/-- Stores a fresh duplicate of a string in a pointer of the `ssl` member. -/
def strdup (slot : Nat) (d : Det) : Det :=
  (d.edit fun flow => { flow with
    metadata := {
      area := Overlay.store .ssl slot (pointerBytes flow.metadata.duped) flow.metadata.area
      duped := flow.metadata.duped + 1 } }).note (.strdup slot)

@[simp] theorem note_flow (e : Event) (d : Det) : (d.note e).flow = d.flow := rfl
@[simp] theorem note_log (e : Event) (d : Det) : (d.note e).log = d.log ++ [e] := rfl
@[simp] theorem edit_flow (f : Flow → Flow) (d : Det) : (d.edit f).flow = f d.flow := rfl
@[simp] theorem edit_log (f : Flow → Flow) (d : Det) : (d.edit f).log = d.log := rfl

/-- What `ndpi_flow` points to. -/
def ndpi (d : Det) : NdpiFlow := d.flow.ndpiFlow.getD {}

/-- Writes through `ndpi_flow`. -/
def editNdpi (f : NdpiFlow → NdpiFlow) (d : Det) : Det :=
  d.edit fun flow => { flow with ndpiFlow := flow.ndpiFlow.map f }

end Det

/-- A function that dereferences `ndpi_flow` is entered. -/
def enter (entered : Entered) (body : Det → Except Entered Det) (d : Det) : Except Entered Det :=
  if d.flow.ndpiFlow.isSome then body d else .error entered

/-! ## Strings -/

/-- The bytes `nd_set_hostname` keeps in strict mode. -/
def hostnameByte (b : UInt8) : Bool :=
  (48 ≤ b && b ≤ 57) || (65 ≤ b && b ≤ 90) || (97 ≤ b && b ≤ 122) || b == 45 || b == 95 || b == 46

/-- `tolower`. -/
def toLower (b : UInt8) : UInt8 := if 65 ≤ b && b ≤ 90 then b + 32 else b

/-- `nd_set_hostname(dst, src, length)`: the leading name in lower case,
without trailing dots. -/
def setHostname (src : List UInt8) (length : Nat) : List UInt8 :=
  (((src.take length).takeWhile hostnameByte).map toLower).rdropWhile (· == 46)

/-- `isprint`. -/
def printable (b : UInt8) : Bool := 32 ≤ b && b ≤ 126

/-! ## Applications and protocols -/

/-- `SetDetectedApplication`. -/
def setDetectedApplication (s : Services) (appId : Nat) (d : Det) : Det :=
  if appId = 0 then d
  else d.edit fun flow => { flow with
    detectedApplication := appId
    detectedApplicationName := s.appName appId flow.detectedApplicationName
    category := { flow.category with application := s.categoryApp appId } }

/-- `nd_ndpi_proto_find(id, flow)`. -/
def Det.protoFind (s : Services) (id : Nat) (d : Det) : ProtoId :=
  s.protos.find id d.flow.lowerAddr.getPort d.flow.upperAddr.getPort

/-- Protocols that have an application of the same name. -/
def protocolTwins : List (ProtoId × String) :=
  [(Proto.applePush, "netify.apple-push"), (Proto.avast, "netify.avast"),
    (Proto.facebookVoip, "netify.meta-messaging"), (Proto.lineCall, "netify.line"),
    (Proto.nestLogSink, "netify.nest"), (Proto.spotify, "netify.spotify"),
    (Proto.signalCall, "netify.signal"), (Proto.skypeTeamsCall, "netify.teams"),
    (Proto.steam, "netify.steam"), (Proto.syncthing, "netify.syncthing"),
    (Proto.teamviewer, "netify.teamviewer"), (Proto.telegramVoip, "netify.telegram"),
    (Proto.tivoconnect, "netify.tivo"), (Proto.tplinkShp, "netify.tp-link"),
    (Proto.tuyaLp, "netify.tuya-smart"), (Proto.ubntac2, "netify.ubiquiti"),
    (Proto.whatsappCall, "netify.whatsapp"), (Proto.zoom, "netify.zoom")]

/-! ## `ProcessFlow` -/

namespace ProcessFlow

def classify (s : Services) (d : Det) : Det :=
  d.edit fun flow => { flow with
    lowerType := s.classify flow.lowerType flow.lowerAddr
    upperType := s.classify flow.upperType flow.upperAddr }

/-- The host name the hint cache has for one of the addresses. The second
lookup is made when the flag is still clear, the name is the last one found. -/
def hint (lookup : Addr → Option (List UInt8)) (flow : Flow) : Bool × List UInt8 :=
  let lower :=
    if flow.lowerType = .atOther then
      match lookup flow.lowerAddr with
      | some hostname => (true, hostname)
      | none => (false, [])
    else (flow.flags.dhcHit, [])
  if lower.1 = false ∧ flow.upperType = .atOther then
    match lookup flow.upperAddr with
    | some hostname => (true, hostname)
    | none => (false, [])
  else lower

def dnsHint (s : Services) (d : Det) : Det :=
  match s.dhc with
  | none => d
  | some lookup =>
    if d.flow.getMasterProtocol = Proto.dns then d
    else
      let found := hint lookup d.flow
      let d := d.edit fun flow => { flow with flags := { flow.flags with dhcHit := found.1 } }
      if found.1 then
        let d := d.edit fun flow => { flow with dnsHostName := found.2 }
        if d.ndpi.hostServerName = [] ∨ s.isIpaddr d.ndpi.hostServerName then
          d.editNdpi fun n => { n with hostServerName := found.2.take (Layout.hostname - 2) }
        else d
      else d

def hostServerName (d : Det) : Det :=
  d.edit fun flow => { flow with
    hostServerName := setHostname d.ndpi.hostServerName Layout.hostname }

def twin (s : Services) (d : Det) : Det :=
  match protocolTwins.lookup d.flow.detectedProtocol with
  | some app => setDetectedApplication s (s.appLookup app) d
  | none => d

/-- Tries a source of applications while none is known. -/
def whileUnknown (s : Services) (app : Flow → Nat) (d : Det) : Det :=
  if d.flow.detectedApplication = 0 then setDetectedApplication s (app d.flow) d else d

def byName (s : Services) (name : Flow → List UInt8) (d : Det) : Det :=
  whileUnknown s (fun flow => if name flow = [] then 0 else s.appFind (rawBytes (name flow))) d

def byNetwork (s : Services) (d : Det) : Det :=
  if d.flow.getMasterProtocol ≠ Proto.dns ∧ d.flow.detectedApplication = 0 then
    if d.flow.lowerType = .atOther then
      whileUnknown s (fun flow => s.appFindAddr flow.upperAddr)
        (setDetectedApplication s (s.appFindAddr d.flow.lowerAddr) d)
    else
      whileUnknown s (fun flow => s.appFindAddr flow.lowerAddr)
        (setDetectedApplication s (s.appFindAddr d.flow.upperAddr) d)
  else d

end ProcessFlow

/-! ## Metadata -/

/-- Keeps the server's common name while none is stored. -/
def storeServerCn (d : Det) : Det × Bool :=
  match d.ndpi.serverCn with
  | some cn =>
    if d.flow.metadata.nonempty Layout.sslServerCn then (d, false)
    else
      ((d.store .ssl Layout.sslServerCn (rawBytes (setHostname cn Layout.tlsCnLen))).editNdpi
        fun n => { n with serverCn := none }, true)
  | none => (d, false)

/-- The application of the server's common name. -/
def appOfServerCn (s : Services) (flow : Flow) : Nat :=
  s.appFind (flow.metadata.string Layout.sslServerCn)

/-- Keeps a distinguished name while its pointer is null. -/
def storeDn (slot : Nat) (dn : NdpiFlow → Option (List UInt8)) (clear : NdpiFlow → NdpiFlow)
    (d : Det) : Det × Bool :=
  if d.flow.metadata.pointerSet slot then (d, false)
  else if (dn d.ndpi).isSome then ((d.strdup slot).editNdpi clear, true)
  else (d, false)

def storeIssuerDn : Det → Det × Bool :=
  storeDn Layout.sslIssuerDn NdpiFlow.issuerDn fun n => { n with issuerDn := none }

def storeSubjectDn : Det → Det × Bool :=
  storeDn Layout.sslSubjectDn NdpiFlow.subjectDn fun n => { n with subjectDn := none }

namespace ProcessFlow

def tlsMetadata (s : Services) (d : Det) : Det :=
  let d := d.store .ssl Layout.sslVersion (rawBytes (leBytes16 d.ndpi.sslVersion))
  let d := d.store .ssl Layout.sslCipherSuite (rawBytes (leBytes16 d.ndpi.serverCipher))
  let cn := storeServerCn d
  let d := if cn.2 then whileUnknown s (appOfServerCn s) cn.1 else cn.1
  (storeSubjectDn (storeIssuerDn d).1).1

def httpMetadata (d : Det) : Det :=
  let d := match d.ndpi.httpUserAgent with
    | some agent =>
      let agent := agent.takeWhile printable
      (d.editNdpi fun n => { n with httpUserAgent := some agent }).store .http
        Layout.httpUserAgent (snprintfBytes Layout.uaLen agent)
    | none => d
  match d.ndpi.httpUrl with
  | some url => d.store .http Layout.httpUrl (snprintfBytes Layout.uaLen url)
  | none => d

def dhcpMetadata (d : Det) : Det :=
  let d := d.store .dhcp Layout.dhcpFingerprint
    (snprintfBytes Layout.dhcpFpLen d.ndpi.dhcpFingerprint)
  d.store .dhcp Layout.dhcpClassIdent (snprintfBytes Layout.dhcpCiLen d.ndpi.dhcpClassIdent)

def sshMetadata (d : Det) : Det :=
  let d := d.store .ssh Layout.sshClientAgent
    (snprintfBytes Layout.sshUaLen d.ndpi.sshClientSignature)
  d.store .ssh Layout.sshServerAgent (snprintfBytes Layout.sshUaLen d.ndpi.sshServerSignature)

/-- The switch on the master protocol. BitTorrent's branch is disabled. -/
def metadata (s : Services) (d : Det) : Det :=
  let master := d.flow.getMasterProtocol
  if master = Proto.tls ∨ master = Proto.quic then tlsMetadata s d
  else if master = Proto.http ∨ master = Proto.ssdp then httpMetadata d
  else if master = Proto.dhcp then dhcpMetadata d
  else if master = Proto.ssh then sshMetadata d
  else d

def hashes (s : Services) (d : Det) : Det :=
  let hashed (d : Det) := d.edit fun flow => { flow with digestMdata := s.hashMdata flow }
  match s.fhc with
  | none => hashed d
  | some pop =>
    if d.flow.lowerAddr.getPortRaw ≠ 0 ∧ d.flow.upperAddr.getPortRaw ≠ 0 then
      match pop d.flow.digestLower with
      | none =>
        let d := hashed d
        if d.flow.digestLower = d.flow.digestMdata then
          d.note (.fhcPush d.flow.digestLower d.flow.digestMdata)
        else d
      | some cached =>
        if d.flow.digestMdata = cached then
          d.edit fun flow => { flow with flags := { flow.flags with fhcHit := true } }
        else d
    else hashed d

/-- An address type whose endpoints are recorded. -/
def ownSide (t : AddrType) : Bool := t = .atLocal ∨ t = .atLocalNet ∨ t = .atReserved

def endpoint (s : Services) (type : AddrType) (mac ip : Addr) (d : Det) : Det :=
  if ownSide type ∧ s.classify .atNone mac = .atOther then d.note (.pushEndpoint mac ip) else d

def endpoints (s : Services) (d : Det) : Det :=
  let d := endpoint s d.flow.lowerType d.flow.lowerMac d.flow.lowerAddr d
  endpoint s d.flow.upperType d.flow.upperMac d.flow.upperAddr d

def categories (s : Services) (d : Det) : Det :=
  let d := d.edit fun flow => { flow with
    detectedProtocolName := s.protoName flow.detectedProtocol
    category := { flow.category with
      protocol := if flow.detectedProtocol = Proto.unknown then flow.category.protocol
        else s.categoryProto flow.detectedProtocol } }
  if d.ndpi.hostServerName = [] then d
  else d.edit fun flow => { flow with
    category := { flow.category with domain := s.categoryDomain d.ndpi.hostServerName } }

/-- One entry of a privacy filter, with the tests it makes of both sides; the
loops stop once both sides are private. -/
def privateIf (lower upper : Flow → Bool) (flow : Flow) : Flow :=
  if flow.privateLower ∧ flow.privateUpper then flow
  else { flow with
    privateLower := flow.privateLower || lower flow
    privateUpper := flow.privateUpper || upper flow }

def privateMac (mac : List UInt8) : Flow → Flow :=
  privateIf (fun flow => mac == flow.lowerMac.sllAddr) (fun flow => mac == flow.upperMac.sllAddr)

def privateHost (host : Family × List UInt8) : Flow → Flow :=
  match host.1 with
  | .inet => privateIf (fun flow => flow.lowerAddr.sinAddr == host.2)
      (fun flow => flow.upperAddr.sinAddr == host.2)
  | .inet6 => privateIf (fun flow => flow.lowerAddr.sin6Addr == host.2)
      (fun flow => flow.upperAddr.sin6Addr == host.2)
  | _ => id

def privacy (s : Services) (flow : Flow) : Flow :=
  s.privacyFilterHost.foldl (fun flow host => privateHost host flow)
    (s.privacyFilterMac.foldl (fun flow mac => privateMac mac flow) flow)

def finish (s : Services) (d : Det) : Det :=
  let d := d.edit Flow.updateLowerMaps
  let d := d.edit (privacy s)
  d.edit fun flow => { flow with flags := { flow.flags with detectionInit := true } }

end ProcessFlow

open ProcessFlow in
/-- `ndDetectionThread::ProcessFlow`. -/
def processFlow (s : Services) : Det → Except Entered Det :=
  enter .processFlow fun d =>
    let d := twin s (hostServerName (dnsHint s (classify s d)))
    let d := byNetwork s (byName s Flow.dnsHostName (byName s Flow.hostServerName d))
    let d := endpoints s (hashes s (metadata s d))
    .ok (finish s (categories s d))

/-! ## Completion -/

/-- `ndDetectionThread::ProcessRisks`. -/
def processRisks (s : Services) : Det → Except Entered Det :=
  enter .processRisks fun d =>
    let risk := d.ndpi.risk
    let d :=
      if risk = 0 then d
      else d.edit fun flow => { flow with
        risks := ((List.range s.maxRisk).filter fun i => risk.testBit i).foldl
          (fun risks i => risks.insert (s.riskFind i)) flow.risks
        ndpiRiskScore := (s.risk2score risk).1
        ndpiRiskScoreClient := (s.risk2score risk).2.1
        ndpiRiskScoreServer := (s.risk2score risk).2.2 }
    .ok (d.edit fun flow => { flow with flags := { flow.flags with risksChecked := true } })

/-- Takes nDPI's guess, its application if its protocol is not known. -/
def guess (s : Services) (a : GiveUp) (d : Det) : Det :=
  if a.guessed then
    let d := d.setProtocol (d.protoFind s a.masterProtocol)
    if d.flow.detectedProtocol = Proto.unknown then d.setProtocol (d.protoFind s a.appProtocol)
    else d
  else d

/-- `ndDetectionThread::SetGuessedProtocol`. -/
def setGuessedProtocol (s : Services) (a : GiveUp) : Det → Except Entered Det :=
  enter .setGuessedProtocol fun d =>
    .ok ((guess s a (d.editNdpi fun _ => a.ndpiFlow)).edit fun flow =>
      { flow with flags := { flow.flags with detectionGuessed := true } })

namespace FlowUpdate

/-- Fills in the categories that are still unknown. -/
def categories (s : Services) (d : Det) : Det :=
  let d := d.edit fun flow =>
    if flow.category.application = 0 ∧ flow.detectedApplication ≠ 0 then
      { flow with category := { flow.category with
        application := s.categoryApp flow.detectedApplication } }
    else flow
  let d := d.edit fun flow =>
    if flow.category.protocol = 0 ∧ flow.detectedProtocol ≠ Proto.unknown then
      { flow with category := { flow.category with
        protocol := s.categoryProto flow.detectedProtocol } }
    else flow
  d.edit fun flow =>
    if flow.category.domain = 0 ∧ d.ndpi.hostServerName ≠ [] then
      { flow with category := { flow.category with
        domain := s.categoryDomain d.ndpi.hostServerName } }
    else flow

/-- What a matching soft dissector overrides. -/
def override (s : Services) (nsd : SoftDissector) (d : Det) : Det :=
  let d := d.edit fun flow => { flow with flags := { flow.flags with softDissector := true } }
  let d :=
    if nsd.aid > -1 then
      if nsd.aid = 0 then
        d.edit fun flow => { flow with
          detectedApplication := 0
          detectedApplicationName := ""
          category := { flow.category with application := 0 } }
      else setDetectedApplication s nsd.aid.toNat d
    else d
  if nsd.pid > -1 then
    (d.setProtocol nsd.pid.toNat).edit fun flow => { flow with
      category := { flow.category with protocol := s.categoryProto flow.detectedProtocol }
      detectedProtocolName := s.protoName flow.detectedProtocol }
  else d

/-- The event `FlowUpdate` broadcasts in the end. -/
def event (flow : Flow) : ProcessorEvent :=
  if flow.flags.detectionComplete then .dpiComplete
  else if flow.flags.detectionUpdated then .dpiUpdate
  else .dpiNew

/-- A matching soft dissector ends detection. -/
def softDissect (s : Services) (complete : Det → Except Entered Det) (d : Det) :
    Except Entered Det :=
  match s.softDissectorMatch.bind fun m => m d.flow with
  | some nsd => complete (override s nsd d)
  | none => .ok d

/-- The body of `FlowUpdate`, given the `SetDetectionComplete` it calls. -/
def body (s : Services) (complete : Det → Except Entered Det) : Det → Except Entered Det :=
  enter .flowUpdate fun d => do
    let d ← softDissect s complete (categories s d)
    .ok (d.note (.broadcast (event d.flow)))

end FlowUpdate

/-- `detection_complete = true`. -/
def Det.markComplete (d : Det) : Det :=
  (d.edit fun flow => { flow with flags := { flow.flags with detectionComplete := true } }).note
    .complete

/-- `ndDetectionThread::SetDetectionComplete`. The `FlowUpdate` it ends with may
call it again, which returns at once: detection is complete by then. -/
def setDetectionComplete (s : Services) (d : Det) : Except Entered Det :=
  if d.flow.flags.detectionComplete then .ok d
  else do
    let d := d.markComplete
    let d ← (if d.flow.flags.risksChecked then .ok d else processRisks s d)
    FlowUpdate.body s .ok d

/-- `ndDetectionThread::FlowUpdate`. -/
def flowUpdate (s : Services) : Det → Except Entered Det :=
  FlowUpdate.body s (setDetectionComplete s)

/-! ## `ProcessPacket` -/

/-- `ndDetectionThread::ProcessALPN`. A client's list arriving a second time is
taken for the server's choice. -/
def processAlpn (s : Services) (detectedAlpn : List UInt8) (client : Bool) (d : Det) : Det × Bool :=
  if client ∧ d.flow.tlsAlpnSet = false then
    (d.edit fun flow => { flow with
      tlsAlpn := flow.tlsAlpn ++ detectedAlpn.splitOn 44
      tlsAlpnSet := true }, true)
  else if d.flow.tlsAlpnServerSet then (d, false)
  else
    let d := d.edit fun flow => { flow with
      tlsAlpnServer := flow.tlsAlpnServer ++ [detectedAlpn]
      tlsAlpnServerSet := true }
    match s.alpnProtos detectedAlpn with
    | some p =>
      if p = d.flow.detectedProtocol then (d, false)
      else ((d.setProtocol p).edit fun flow => { flow with
        detectedProtocolName := s.protoName p
        flags := { flow.flags with detectionUpdated := true } }, true)
    | none => (d, false)

namespace ProcessPacket

/-- Allocates the nDPI flow unless there is one. -/
def allocate (d : Det) : Det :=
  if d.flow.ndpiFlow.isSome then d
  else (d.edit fun flow => { flow with ndpiFlow := some {} }).note .alloc

def handOver (packet : Option Nat) (a : Answer) (d : Det) : Det :=
  (d.editNdpi fun _ => a.ndpiFlow).note (.handOver packet)

/-- STUN is refined to the application protocol it carries. -/
def refineStun (s : Services) (ndpiStun : Nat) (a : Answer) (d : Det) : Det :=
  if a.masterProtocol = ndpiStun ∧ a.appProtocol ≠ 0 then
    if d.protoFind s a.appProtocol = Proto.todo then d
    else d.setProtocol (d.protoFind s a.appProtocol)
  else d

def whileUnknown (s : Services) (id : Nat) (d : Det) : Det :=
  if d.flow.detectedProtocol = Proto.unknown ∧ id ≠ 0 then d.setProtocol (d.protoFind s id) else d

/-- The protocol of a flow after an answer of nDPI. -/
def mapProtocol (s : Services) (ndpiStun : Nat) (a : Answer) (d : Det) : Det :=
  whileUnknown s a.appProtocol (whileUnknown s a.masterProtocol (refineStun s ndpiStun a d))

def setUpdated (updated : Bool) (d : Det) : Det :=
  d.edit fun flow => { flow with flags := { flow.flags with detectionUpdated := updated } }

/-- Carries one metadata update: the flow is marked updated when it took place. -/
def update (step : Det → Det × Bool) (x : Det × Bool) : Det × Bool :=
  let y := step x.1
  if y.2 then (setUpdated true y.1, true) else (y.1, x.2)

def cipherSuite (d : Det) : Det × Bool :=
  if (d.flow.metadata.area Layout.sslCipherSuite).val = .byte 0 ∧
      (d.flow.metadata.area (Layout.sslCipherSuite + 1)).val = .byte 0 ∧
      d.ndpi.serverCipher ≠ 0 then
    (d.store .ssl Layout.sslCipherSuite (rawBytes (leBytes16 d.ndpi.serverCipher)), true)
  else (d, false)

def serverCn (s : Services) (d : Det) : Det × Bool :=
  let cn := storeServerCn d
  if cn.2 then (setDetectedApplication s (appOfServerCn s cn.1.flow) cn.1, true) else (d, false)

def serverJa3 (d : Det) : Det × Bool :=
  if d.flow.metadata.nonempty Layout.sslServerJa3 ∨ d.ndpi.ja3Server = [] then (d, false)
  else (d.store .ssl Layout.sslServerJa3 (snprintfBytes Layout.tlsJa3Len d.ndpi.ja3Server), true)

def certFingerprint (d : Det) : Det × Bool :=
  if d.flow.metadata.nonempty Layout.sslCertFingerprintFound ∨ d.ndpi.fingerprintSet = false then
    (d, false)
  else
    ((d.store .ssl Layout.sslCertFingerprint
      (rawBytes (d.ndpi.sha1CertificateFingerprint.take Layout.tlsHashLen))).store .ssl
        Layout.sslCertFingerprintFound [.byte 1], true)

/-- The client's ALPN list; its result is not looked at. -/
def advertisedAlpns (s : Services) (x : Det × Bool) : Det × Bool :=
  match x.1.ndpi.advertisedAlpns with
  | some alpns =>
    (((processAlpn s alpns true x.1).1).editNdpi fun n => { n with advertisedAlpns := none }, x.2)
  | none => x

/-- The server's choice; its result replaces what the updates before it said. -/
def negotiatedAlpn (s : Services) (x : Det × Bool) : Det × Bool :=
  match x.1.ndpi.negotiatedAlpn with
  | some alpn =>
    let y := processAlpn s alpn false x.1
    (y.1.editNdpi fun n => { n with negotiatedAlpn := none }, y.2)
  | none => x

def tlsUpdates (s : Services) (d : Det) : Det × Bool :=
  let x := update (serverCn s) (update cipherSuite (d, false))
  let x := update storeSubjectDn (update storeIssuerDn x)
  let x := update certFingerprint (update serverJa3 x)
  negotiatedAlpn s (advertisedAlpns s x)

def mdnsUpdate (d : Det) : Det × Bool :=
  if d.flow.metadata.hasMdnsDomainName d.flow.detectedProtocol then (setUpdated true d, true)
  else (d, false)

def sshUpdate (d : Det) : Det × Bool :=
  if d.flow.metadata.nonempty Layout.sshServerAgent ∨ d.ndpi.sshServerSignature = [] then (d, false)
  else (setUpdated true (d.store .ssh Layout.sshServerAgent
    (snprintfBytes Layout.sshUaLen d.ndpi.sshServerSignature)), true)

/-- The metadata that may still arrive once the protocol is known. -/
def updates (s : Services) (d : Det) : Det × Bool :=
  let d := setUpdated false d
  let master := d.flow.getMasterProtocol
  if master = Proto.tls ∨ master = Proto.quic then tlsUpdates s d
  else if master = Proto.mdns then mdnsUpdate d
  else if master = Proto.ssh then sshUpdate d
  else (d, false)

/-- Looks at the answer: the first time a protocol is known the whole flow is
processed, after that only what has been missing. -/
def inspect (s : Services) (d : Det) : Except Entered (Det × Bool) :=
  if d.flow.flags.detectionInit = false ∧ d.flow.detectedProtocol ≠ Proto.unknown then do
    let d ← processFlow s d
    .ok (d, true)
  else if d.flow.flags.detectionInit then .ok (updates s d)
  else .ok (d, false)

/-- `check_extra_packets`, as it stands when completion is decided. -/
def extraPackets (asked : Bool) (d : Det) : Bool :=
  let master := d.flow.getMasterProtocol
  if (master = Proto.tls ∨ master = Proto.quic) ∧ d.ndpi.certificateProcessed then false else asked

/-- Announces an update and ends detection unless more packets are wanted. -/
def conclude (s : Services) (asked : Bool) (x : Det × Bool) : Except Entered Det := do
  let d ← (if x.2 then flowUpdate s x.1 else .ok x.1)
  if d.flow.flags.detectionInit ∧ extraPackets asked x.1 = false then setDetectionComplete s d
  else .ok d

end ProcessPacket

/-- `NDPI_PROTOCOL_STUN`. -/
def ndpiProtocolStun : Nat := 78

open ProcessPacket in
/-- `ndDetectionThread::ProcessPacket`. -/
def processPacket (s : Services) (packet : Option Nat) (a : Answer) (d : Det) :
    Except Entered Det := do
  let d := mapProtocol s ndpiProtocolStun a (handOver packet a (allocate d))
  let x ← inspect s d
  conclude s d.ndpi.extraPackets x

/-! ## `ProcessPacketQueue` -/

/-- The test for handing an entry to nDPI. -/
def takesPacket (maxDetectionPkts : Nat) (flow : Flow) : Bool :=
  flow.stats.detectionPackets = 0 ∨
    (flow.flags.detectionComplete = false ∧ flow.flags.expiring = false ∧
      flow.stats.detectionPackets.toNat < maxDetectionPkts)

/-- The test for ending detection. -/
def endsDetection (maxDetectionPkts : Nat) (flow : Flow) : Bool :=
  flow.stats.detectionPackets.toNat = maxDetectionPkts ∨
    (flow.flags.expiring = true ∧ flow.flags.expired = false)

/-- `stats.detection_packets++`, on eight bits. -/
def Flow.countDetection (flow : Flow) : Flow :=
  { flow with stats := { flow.stats with detectionPackets := flow.stats.detectionPackets + 1 } }

/-- An expiring flow has expired. -/
def Flow.settleExpiry (flow : Flow) : Flow :=
  if flow.flags.expiring then
    { flow with flags := { flow.flags with expired := true, expiring := false } }
  else flow

section
variable (flow : Flow)

@[simp] theorem Flow.release_flags : flow.release.flags = flow.flags := rfl
@[simp] theorem Flow.release_stats : flow.release.stats = flow.stats := rfl
@[simp] theorem Flow.release_ndpiFlow : flow.release.ndpiFlow = none := rfl

@[simp] theorem Flow.settleExpiry_complete :
    flow.settleExpiry.flags.detectionComplete = flow.flags.detectionComplete := by
  simp only [Flow.settleExpiry]; split <;> rfl

@[simp] theorem Flow.settleExpiry_stats : flow.settleExpiry.stats = flow.stats := by
  simp only [Flow.settleExpiry]; split <;> rfl

@[simp] theorem Flow.settleExpiry_ndpiFlow : flow.settleExpiry.ndpiFlow = flow.ndpiFlow := by
  simp only [Flow.settleExpiry]; split <;> rfl

end

/-- The branch that ends detection. -/
def endDetection (s : Services) (a : Answers) (packet : Option Nat) (d : Det) :
    Except Entered Det := do
  let d ← (if packet.isSome then processPacket s packet a.second d else .ok d)
  let d ← processFlow s d
  let d ← (if d.flow.detectedProtocol = Proto.unknown then setGuessedProtocol s a.giveup d
    else .ok d)
  let d ← setDetectionComplete s d
  .ok (d.edit Flow.settleExpiry)

/-- The body of `ProcessPacketQueue` for one entry. An entry that `ExpireFlow`
queued has no packet. -/
def processEntry (maxDetectionPkts : Nat) (s : Services) (a : Answers) (packet : Option Nat)
    (d : Det) : Except Entered Det := do
  let d ← (if takesPacket maxDetectionPkts d.flow then
      processPacket s packet a.first (d.edit Flow.countDetection)
    else .ok d)
  let d ← (if endsDetection maxDetectionPkts d.flow then endDetection s a packet d else .ok d)
  .ok (if d.flow.flags.detectionComplete then d.edit Flow.release else d)

end NetifyAgent
