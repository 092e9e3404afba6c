import NetifyAgent.Addr
import NetifyAgent.Metadata
import NetifyAgent.Packet

/-! `ndFlow`. One record serves twice, as in the source: a capture thread owns
one flow that it fills from every packet it dissects, and each flow in the flow
map starts as a copy of that template. -/
namespace NetifyAgent
open NetifyAgent.Bytes

/-- `ndAddr::Type`. -/
inductive AddrType where
  | atNone
  | atLocal
  | atLocalNet
  | atReserved
  | atMulticast
  | atBroadcast
  | atOther
  | atError
  deriving DecidableEq, Repr

/-- `ndFlow::lower_map`. -/
inductive LowerMap where
  | unknown
  | local_
  | other
  deriving DecidableEq, Repr

/-- `ndFlow::other_type`. -/
inductive OtherType where
  | unknown
  | unsupported
  | local_
  | multicast
  | broadcast
  | remote
  | error
  deriving DecidableEq, Repr

/-- `ndFlow::tunnel_type`. -/
inductive TunnelType where
  | none
  | gtp
  deriving DecidableEq, Repr

/-- `ndFlow::origin`. -/
inductive Origin where
  | unknown
  | lower
  | upper
  deriving DecidableEq, Repr

/-- `ndFlowStats`. The count of detection packets is an 8-bit atomic. -/
structure FlowStats where
  lowerBytes : Nat := 0
  upperBytes : Nat := 0
  totalBytes : Nat := 0
  lowerPackets : Nat := 0
  upperPackets : Nat := 0
  totalPackets : Nat := 0
  detectionPackets : UInt8 := 0
  deriving DecidableEq, Repr

/-- `ndFlowStats::Reset`. -/
def FlowStats.reset (s : FlowStats) (fullReset : Bool) : FlowStats :=
  { s with
    lowerBytes := 0
    upperBytes := 0
    lowerPackets := 0
    upperPackets := 0
    detectionPackets := if fullReset then 0 else s.detectionPackets }

/-- `ndFlow::flags`. -/
structure FlowFlags where
  detectionComplete : Bool := false
  detectionGuessed : Bool := false
  detectionInit : Bool := false
  detectionUpdated : Bool := false
  dhcHit : Bool := false
  fhcHit : Bool := false
  expired : Bool := false
  expiring : Bool := false
  risksChecked : Bool := false
  softDissector : Bool := false
  tcpFinAck : UInt8 := 0
  deriving DecidableEq, Repr

/-- `ndFlow::gtp`. -/
structure Gtp where
  version : Nat := 0xff
  ipVersion : Nat := 0
  lowerTeid : Nat := 0
  upperTeid : Nat := 0
  lowerType : AddrType := .atNone
  upperType : AddrType := .atNone
  lowerMap : LowerMap := .unknown
  otherType : OtherType := .unknown
  lowerAddr : Addr := {}
  upperAddr : Addr := {}
  deriving DecidableEq, Repr

/-- `ndFlow::category`; zero is `ND_CAT_UNKNOWN`. -/
structure Category where
  application : Nat := 0
  protocol : Nat := 0
  domain : Nat := 0
  deriving DecidableEq, Repr

/-- The fields of `ndpi_flow_struct` that the detection thread reads. A string
is the bytes before its terminating zero, a string behind a pointer is `none`
while the pointer is null. -/
structure NdpiFlow where
  hostServerName : List UInt8 := []
  /-- `extra_packets_func != nullptr`. -/
  extraPackets : Bool := false
  certificateProcessed : Bool := false
  risk : Nat := 0
  sslVersion : Nat := 0
  serverCipher : Nat := 0
  serverCn : Option (List UInt8) := none
  issuerDn : Option (List UInt8) := none
  subjectDn : Option (List UInt8) := none
  ja3Server : List UInt8 := []
  fingerprintSet : Bool := false
  sha1CertificateFingerprint : List UInt8 := []
  advertisedAlpns : Option (List UInt8) := none
  negotiatedAlpn : Option (List UInt8) := none
  httpUserAgent : Option (List UInt8) := none
  httpUrl : Option (List UInt8) := none
  dhcpFingerprint : List UInt8 := []
  dhcpClassIdent : List UInt8 := []
  sshClientSignature : List UInt8 := []
  sshServerSignature : List UInt8 := []
  deriving DecidableEq, Repr

/-- `ndFlow`. -/
structure Flow where
  /-- Negative while no detection thread is assigned. -/
  dpiThreadId : Int := -1
  ipVersion : Nat := 0
  ipProtocol : Nat := 0
  vlanId : Nat := 0
  tcpLastSeq : Nat := 0
  tsFirstSeen : Nat := 0
  tsLastSeen : Nat := 0
  lowerMap : LowerMap := .unknown
  otherType : OtherType := .unknown
  lowerMac : Addr := {}
  upperMac : Addr := {}
  lowerAddr : Addr := {}
  upperAddr : Addr := {}
  tunnelType : TunnelType := .none
  detectedProtocol : ProtoId := Proto.unknown
  /-- Zero is `ND_APP_UNKNOWN`. -/
  detectedApplication : Nat := 0
  detectedProtocolName : String := "Unknown"
  detectedApplicationName : String := ""
  category : Category := {}
  /-- `none` is the null pointer. -/
  ndpiFlow : Option NdpiFlow := none
  digestLower : List UInt8 := []
  digestMdata : List UInt8 := []
  dnsHostName : List UInt8 := []
  hostServerName : List UInt8 := []
  metadata : Metadata := .blank
  tlsAlpn : List (List UInt8) := []
  tlsAlpnServer : List (List UInt8) := []
  tlsAlpnSet : Bool := false
  tlsAlpnServerSet : Bool := false
  privateLower : Bool := false
  privateUpper : Bool := false
  origin : Origin := .unknown
  direction : Int := 0
  lowerType : AddrType := .atNone
  upperType : AddrType := .atNone
  flags : FlowFlags := {}
  gtp : Gtp := {}
  risks : List Nat := []
  ndpiRiskScore : Nat := 0
  ndpiRiskScoreClient : Nat := 0
  ndpiRiskScoreServer : Nat := 0
  stats : FlowStats := {}

/-- `ndFlow(const ndFlow &)`: the key and the capture fields are copied, all
that detection fills in starts over. -/
def Flow.copy (flow : Flow) : Flow where
  ipVersion := flow.ipVersion
  ipProtocol := flow.ipProtocol
  vlanId := flow.vlanId
  tcpLastSeq := flow.tcpLastSeq
  tsFirstSeen := flow.tsFirstSeen
  tsLastSeen := flow.tsLastSeen
  lowerMac := flow.lowerMac
  upperMac := flow.upperMac
  lowerAddr := flow.lowerAddr
  upperAddr := flow.upperAddr
  tunnelType := flow.tunnelType
  gtp := flow.gtp
  digestLower := flow.digestLower

/-- `ndFlow::Reset`. -/
def Flow.reset (flow : Flow) (fullReset : Bool) : Flow :=
  let flow := { flow with stats := flow.stats.reset fullReset }
  if fullReset then
    { flow with
      flags := { flow.flags with
        detectionComplete := false
        detectionGuessed := false
        detectionInit := false
        detectionUpdated := false
        dhcHit := false
        expired := false
        expiring := false
        risksChecked := false
        softDissector := false }
      risks := [] }
  else flow

/-- `ndFlow::Release`. -/
def Flow.release (flow : Flow) : Flow := { flow with ndpiFlow := none }

/-- `ndFlow::GetMasterProtocol`. -/
def Flow.getMasterProtocol (flow : Flow) : ProtoId := Proto.master flow.detectedProtocol

/-! ## Digest -/

/-- Address bytes as `ndFlow::Hash` feeds them to the hash: the hardware
address tells DHCP clients apart that have no address yet. -/
def Flow.hashAddrs (flow : Flow) : List UInt8 :=
  match flow.ipVersion with
  | 4 =>
    let addrs := flow.lowerAddr.sinAddr ++ flow.upperAddr.sinAddr
    if flow.lowerAddr.sinAddr = [0, 0, 0, 0] ∧ flow.upperAddr.sinAddr = [255, 255, 255, 255] then
      addrs ++ flow.lowerMac.sllAddr
    else addrs
  | 6 => flow.lowerAddr.sin6Addr ++ flow.upperAddr.sin6Addr
  | _ => []

/-- The bytes `ndFlow::Hash(device)` feeds to SHA-1, in order. -/
def Flow.hashStream (flow : Flow) (device : List UInt8) : List UInt8 :=
  device ++ ([UInt8.ofNat flow.ipVersion, UInt8.ofNat flow.ipProtocol] ++ leBytes16 flow.vlanId ++
    flow.hashAddrs ++ leBytes16 flow.lowerAddr.getPortRaw ++ leBytes16 flow.upperAddr.getPortRaw)

/-- `ndFlow::Hash(device)`. -/
def Flow.hash (sha1 : List UInt8 → List UInt8) (device : List UInt8) (flow : Flow) : Flow :=
  { flow with digestLower := sha1 (flow.hashStream device) }

/-! ## Direction maps -/

/-- `ndFlow::GetLowerMap`; pairs of types it does not name keep their maps. -/
def getLowerMap (ipVersion : Nat) (lt ut : AddrType) (lm : LowerMap) (ot : OtherType) :
    LowerMap × OtherType :=
  if lt = .atError ∨ ut = .atError then (lm, .error)
  else if lt = .atLocal ∧ ut = .atLocal then (.local_, .local_)
  else if lt = .atLocal ∧ ut = .atLocalNet then (.local_, .local_)
  else if lt = .atLocalNet ∧ ut = .atLocal then (.local_, .local_)
  else if lt = .atMulticast then (.other, .multicast)
  else if ut = .atMulticast then (.local_, .multicast)
  else if lt = .atBroadcast then (.other, .broadcast)
  else if ut = .atBroadcast then (.local_, .broadcast)
  else if lt = .atReserved ∧ ut = .atLocalNet then (.other, .local_)
  else if lt = .atLocalNet ∧ ut = .atReserved then (.local_, .local_)
  else if ipVersion ≠ 6 ∧ lt = .atReserved ∧ ut = .atReserved then (.local_, .local_)
  else if lt = .atReserved ∧ ut = .atLocal then (.other, .remote)
  else if lt = .atLocal ∧ ut = .atReserved then (.local_, .remote)
  else if lt = .atLocalNet ∧ ut = .atLocalNet then (.local_, .local_)
  else if lt = .atOther then (.other, .remote)
  else if ut = .atOther then (.local_, .remote)
  else (lm, ot)

/-- `ndFlow::UpdateLowerMaps`. -/
def Flow.updateLowerMaps (flow : Flow) : Flow :=
  let flow :=
    if flow.lowerMap = .unknown then
      let maps := getLowerMap flow.ipVersion flow.lowerType flow.upperType flow.lowerMap
        flow.otherType
      { flow with lowerMap := maps.1, otherType := maps.2 }
    else flow
  if flow.tunnelType = .gtp ∧ flow.gtp.lowerMap = .unknown then
    let maps := getLowerMap flow.ipVersion flow.gtp.lowerType flow.gtp.upperType
      flow.gtp.lowerMap flow.gtp.otherType
    { flow with gtp := { flow.gtp with lowerMap := maps.1, otherType := maps.2 } }
  else flow

end NetifyAgent
