import NetifyAgent.AddrCache
import NetifyAgent.FlowExprMirror
import NetifyAgent.IpLayer
import NetifyAgent.Json

/-! `ndFlow::Encode` into a JSON document. Every call of `serialize` assigns one member, by one
key or by two. An empty string or list is passed over, and what is neither null nor an object
has no members to assign. The two ends of the flow have the same members under two names each;
`lower_map` says which name belongs to which end. -/
namespace NetifyAgent
open NetifyAgent.AddrCache NetifyAgent.Overlay

/-! ## `ndSerializer` -/

namespace Json

/-- The members that `operator[]` looks at; null becomes an object. `none` is thrown. -/
def members : Json → Option (List (List Char × Json))
  | null => some []
  | object members => some members
  | _ => none

/-- `j[key] = value`. -/
def assign (j : Json) (key : List Char) (value : Json) : Option Json :=
  j.members.map fun members => object (OrderedMap.put key value members)

/-- `j[outer][inner] = value`. -/
def assignIn (j : Json) (outer inner : List Char) (value : Json) : Option Json :=
  j.members.bind fun members =>
    let member := ((object members).find outer).getD null
    (member.assign inner value).map fun member => object (OrderedMap.put outer member members)

/-- `empty()`. -/
def isEmpty : Json → Bool
  | null | array [] | object [] => true
  | _ => false

end Json

/-- What `serialize` is overloaded for. -/
inductive Serialized where
  | string (text : List Char)
  /-- `const char *`. -/
  | chars (text : List Char)
  | number (n : Nat)
  | boolean (b : Bool)
  /-- A `float`, by its representation. -/
  | real (bits : UInt32)
  | strings (texts : List (List Char))
  | json (value : Json)

/-- What the encoder takes from elsewhere, and how it is built. -/
structure EncodeServices where
  ntop : Ntop
  /-- The bytes of the pointers stored in a flow. -/
  pointerByte : Nat → Nat → UInt8
  /-- The string at a pointer, given its bytes. -/
  pointee : List UInt8 → List UInt8
  /-- The number that a document keeps for a `float`. -/
  realNumber : UInt32 → Json
  /-- `_ND_EXTENDED_STATS`. -/
  extendedStats : Bool
  /-- `_ND_USE_CONNTRACK` and `_ND_WITH_CONNTRACK_MDATA`. -/
  conntrackMdata : Bool

/-- A call of `serialize`: the keys and the value. -/
abbrev SerializeCall := List String × Serialized

section
variable (v : EncodeServices)

/-- The value that is assigned, `none` where the call returns without. -/
def Serialized.toJson : Serialized → Option Json
  | .string [] => none
  | .string text | .chars text => some (.string text)
  | .number n => some (.integer n)
  | .boolean b => some (.boolean b)
  | .real bits => some (v.realNumber bits)
  | .strings [] => none
  | .strings texts => some (.array (texts.map .string))
  | .json value => if value.isEmpty then none else some value

/-- `ndSerializer::serialize`. -/
def serialize (call : SerializeCall) (j : Json) : Option Json :=
  match call.2.toJson v with
  | none => some j
  | some value =>
    match call.1 with
    | [key] => j.assign key.toList value
    | [outer, inner] => j.assignIn outer.toList inner.toList value
    | _ => some j

/-- One call after the other. -/
def serializeAll (calls : List SerializeCall) (j : Json) : Option Json :=
  calls.foldlM (fun j call => serialize v call j) j

end

/-! ## The flow -/

/-- The text that an address keeps, and the flags it was made for. -/
structure KeptText where
  cachedFlags : UInt8 := 0
  cachedAddr : List Char := []
  deriving DecidableEq, Repr

/-- `ndFlow` with the fields that only `Encode` reads, and the texts that its addresses keep. -/
structure EncodedFlow extends ExprFlow where
  ctId : Nat := 0
  lowerMacText : KeptText := {}
  upperMacText : KeptText := {}
  lowerAddrText : KeptText := {}
  upperAddrText : KeptText := {}
  gtpLowerAddrText : KeptText := {}
  gtpUpperAddrText : KeptText := {}

/-- `ndFlowStats`; a rate is a `float`. -/
structure EncodedStats extends FlowStats where
  lowerRate : UInt32 := 0
  upperRate : UInt32 := 0
  tcpSeqErrors : Nat := 0
  tcpResets : Nat := 0
  tcpRetrans : Nat := 0

/-- `_lower_mac` to `_upper_rate`, as they are declared. -/
structure EndKeys where
  lowerMac : String := "local_mac"
  upperMac : String := "other_mac"
  lowerIp : String := "local_ip"
  upperIp : String := "other_ip"
  lowerPort : String := "local_port"
  upperPort : String := "other_port"
  lowerBytes : String := "local_bytes"
  upperBytes : String := "other_bytes"
  lowerPackets : String := "local_packets"
  upperPackets : String := "other_packets"
  lowerRate : String := "local_rate"
  upperRate : String := "other_rate"
  deriving DecidableEq, Repr

/-- `switch (lower_map)`. -/
def endKeys : LowerMap → EndKeys
  | .local_ =>
    { lowerMac := "local_mac"
      lowerIp := "local_ip"
      lowerPort := "local_port"
      lowerBytes := "local_bytes"
      lowerPackets := "local_packets"
      upperMac := "other_mac"
      upperIp := "other_ip"
      upperPort := "other_port"
      upperBytes := "other_bytes"
      upperPackets := "other_packets"
      lowerRate := "local_rate"
      upperRate := "other_rate" }
  | .other =>
    { lowerMac := "other_mac"
      lowerIp := "other_ip"
      lowerPort := "other_port"
      lowerBytes := "other_bytes"
      lowerPackets := "other_packets"
      upperMac := "local_mac"
      upperIp := "local_ip"
      upperPort := "local_port"
      upperBytes := "local_bytes"
      upperPackets := "local_packets"
      lowerRate := "other_rate"
      upperRate := "local_rate" }
  | .unknown => {}

/-- The keys of a tunnel, and those of the ends that it takes for its own. -/
structure GtpKeys where
  lowerIp : String
  upperIp : String
  lowerPort : String
  upperPort : String
  lowerTeid : String := "local_teid"
  upperTeid : String := "other_teid"

/-- `switch (gtp.lower_map)`. -/
def gtpKeys (keys : EndKeys) : LowerMap → GtpKeys
  | .local_ =>
    { lowerIp := "local_ip"
      lowerPort := "local_port"
      lowerTeid := "local_teid"
      upperIp := "other_ip"
      upperPort := "other_port"
      upperTeid := "other_teid" }
  | .other =>
    { lowerIp := "other_ip"
      lowerPort := "other_port"
      lowerTeid := "other_teid"
      upperIp := "local_ip"
      upperPort := "local_port"
      upperTeid := "local_teid" }
  | .unknown =>
    { lowerIp := keys.lowerIp
      upperIp := keys.upperIp
      lowerPort := keys.lowerPort
      upperPort := keys.upperPort }

/-- `switch (other_type)`. -/
def otherTypeText : OtherType → List Char
  | .local_ => "local".toList
  | .multicast => "multicast".toList
  | .broadcast => "broadcast".toList
  | .remote => "remote".toList
  | .unsupported => "unsupported".toList
  | .error => "error".toList
  | .unknown => "unknown".toList

/-- `switch (gtp.other_type)`. -/
def gtpOtherTypeText : OtherType → List Char
  | .local_ => "local".toList
  | .remote => "remote".toList
  | .error => "error".toList
  | .unsupported | .unknown | .multicast | .broadcast => "unsupported".toList

/-! ## Texts -/

/-- The bytes of a `string`, a character for a byte. -/
def stringText (bytes : List UInt8) : List Char := bytes.map fun b => Char.ofNat b.toNat

/-- `nd_sha1_to_string`. -/
def sha1ToString (digest : List UInt8) : List Char :=
  (digest.take 20).flatMap hexByte

/-- `sprintf(tohex, "0x%04hx", n)`. -/
def toHex (n : Nat) : List Char :=
  '0' :: 'x' :: hexByte (UInt8.ofNat (n / 256)) ++ hexByte (UInt8.ofNat n)

/-- `htonl` on a little-endian machine. -/
def swapWord (n : Nat) : Nat :=
  n % 256 * 2 ^ 24 + n / 2 ^ 8 % 256 * 2 ^ 16 + n / 2 ^ 16 % 256 * 2 ^ 8 + n / 2 ^ 24 % 256

/-- `ndAddr::GetString`. -/
def KeptText.getString (v : EncodeServices) (kept : KeptText) (addr : Addr) : List Char :=
  (CachedAddr.getString v.ntop ⟨addr, kept.cachedFlags, kept.cachedAddr⟩ 0).2

namespace EncodedFlow
variable (v : EncodeServices) (flow : EncodedFlow)

/-- Bytes of the metadata union. -/
def unionBytes (off n : Nat) : List UInt8 :=
  (List.range n).map fun i => Dns.byteOf v.pointerByte (flow.metadata.area (off + i)).val

/-- The string in a `char` array of the union. -/
def unionText (off : Nat) : List Char := textOf (flow.unionBytes v off (1024 - off))

/-- The string at a pointer of the union. -/
def pointerText (slot : Nat) : List Char := textOf (v.pointee (flow.unionBytes v slot 8))

/-- A word of the union. -/
def unionShort (off : Nat) : Nat :=
  match flow.unionBytes v off 2 with
  | [lo, hi] => lo.toNat + 256 * hi.toNat
  | _ => 0

/-- `ndFlow::HasTLSClientSNI`. -/
def hasTlsClientSni : Bool := usesTls flow.detectedProtocol && flow.hostServerName != []

/-! ## `Encode` -/

/-- Calls that are made under a condition. -/
def callsIf (condition : Bool) (calls : List SerializeCall) : List SerializeCall :=
  if condition then calls else []

def encodeDigest : List SerializeCall :=
  [(["digest"], .string
      (sha1ToString (if flow.digestMdata ≠ [] then flow.digestMdata else flow.digestLower))),
    (["last_seen_at"], .number flow.tsLastSeen)]

def encodeKey : List SerializeCall :=
  [(["ip_nat"], .boolean flow.ipNat),
    (["dhc_hit"], .boolean flow.flags.dhcHit),
    (["soft_dissector"], .boolean flow.flags.softDissector)] ++
  callsIf v.conntrackMdata
    [(["ct_id"], .number flow.ctId),
      (["ct_mark"], .number flow.ctMark)] ++
  [(["ip_version"], .number flow.ipVersion),
    (["ip_protocol"], .number flow.ipProtocol),
    (["vlan_id"], .number flow.vlanId),
    (["other_type"], .string (otherTypeText flow.otherType))]

def encodeOrigin (keys : EndKeys) : List SerializeCall :=
  match flow.origin with
  | .upper => [(["local_origin"], .boolean (if keys.lowerIp = "local_ip" then false else true))]
  | .lower | .unknown =>
    [(["local_origin"], .boolean (if keys.lowerIp = "local_ip" then true else false))]

def encodeMacs (keys : EndKeys) : List SerializeCall :=
  [([keys.lowerMac], .string (
      if flow.privateLower then "00:52:14:00:00:00".toList
      else if flow.lowerMac.isValid then flow.lowerMacText.getString v flow.lowerMac
      else "00:00:00:00:00:00".toList)),
    ([keys.upperMac], .string (
      if flow.privateUpper then "00:52:ff:00:00:00".toList
      else if flow.upperMac.isValid then flow.upperMacText.getString v flow.upperMac
      else "00:00:00:00:00:00".toList))]

/-- `ND_PRIVATE_IPV4` and `ND_PRIVATE_IPV6` stand before the last part. -/
def encodeIps (keys : EndKeys) : List SerializeCall :=
  [([keys.lowerIp],
      if flow.privateLower then
        if flow.ipVersion = 4 then .chars "127.255.0.253".toList
        else .chars "fe:80::ffff:7fff:fd".toList
      else .string (flow.lowerAddrText.getString v flow.lowerAddr)),
    ([keys.upperIp],
      if flow.privateUpper then
        if flow.ipVersion = 4 then .chars "127.255.0.254".toList
        else .chars "fe:80::ffff:7fff:fe".toList
      else .string (flow.upperAddrText.getString v flow.upperAddr))]

def encodePorts (keys : EndKeys) : List SerializeCall :=
  [([keys.lowerPort], .number flow.lowerAddr.getPort),
    ([keys.upperPort], .number flow.upperAddr.getPort)]

def encodeDetection : List SerializeCall :=
  let name (text : String) : List Char := (if text = "" then "Unknown" else text).toList
  [(["detected_protocol"], .number flow.detectedProtocol),
    (["detected_protocol_name"], .string (name flow.detectedProtocolName)),
    (["detected_application"], .number flow.detectedApplication),
    (["detected_application_name"], .string (name flow.detectedApplicationName)),
    (["detection_guessed"], .boolean flow.flags.detectionGuessed),
    (["detection_updated"], .boolean flow.flags.detectionUpdated),
    (["category", "application"], .number flow.category.application),
    (["category", "protocol"], .number flow.category.protocol),
    (["category", "domain"], .number flow.category.domain),
    (["category", "network"], .number flow.categoryNetwork)] ++
  callsIf (flow.dnsHostName != [])
    [(["dns_host_name"], .string (stringText flow.dnsHostName))] ++
  callsIf (flow.hostServerName != [])
    [(["host_server_name"], .string (stringText flow.hostServerName))]

def encodeHttp : List SerializeCall :=
  callsIf (flow.metadata.hasHttpUserAgent flow.detectedProtocol)
    [(["http", "user_agent"], .chars (flow.unionText v Layout.httpUserAgent))] ++
  callsIf (flow.metadata.hasHttpUrl flow.detectedProtocol)
    [(["http", "url"], .chars (flow.unionText v Layout.httpUrl))]

def encodeDhcp : List SerializeCall :=
  callsIf (flow.metadata.hasDhcpFingerprint flow.detectedProtocol)
    [(["dhcp", "fingerprint"], .chars (flow.unionText v Layout.dhcpFingerprint))] ++
  callsIf (flow.metadata.hasDhcpClassIdent flow.detectedProtocol)
    [(["dhcp", "class_ident"], .chars (flow.unionText v Layout.dhcpClassIdent))]

def encodeSsh : List SerializeCall :=
  callsIf (flow.metadata.hasSshClientAgent flow.detectedProtocol)
    [(["ssh", "client"], .chars (flow.unionText v Layout.sshClientAgent))] ++
  callsIf (flow.metadata.hasSshServerAgent flow.detectedProtocol)
    [(["ssh", "server"], .chars (flow.unionText v Layout.sshServerAgent))]

def encodeSsl : List SerializeCall :=
  callsIf (usesTls flow.detectedProtocol)
    ([(["ssl", "version"], .chars (toHex (flow.unionShort v Layout.sslVersion))),
        (["ssl", "cipher_suite"], .chars (toHex (flow.unionShort v Layout.sslCipherSuite)))] ++
      callsIf flow.hasTlsClientSni
        [(["ssl", "client_sni"], .string (stringText flow.hostServerName))] ++
      callsIf (flow.metadata.hasTlsServerCn flow.detectedProtocol)
        [(["ssl", "server_cn"], .chars (flow.unionText v Layout.sslServerCn))] ++
      callsIf (flow.metadata.hasTlsIssuerDn flow.detectedProtocol)
        [(["ssl", "issuer_dn"], .chars (flow.pointerText v Layout.sslIssuerDn))] ++
      callsIf (flow.metadata.hasTlsSubjectDn flow.detectedProtocol)
        [(["ssl", "subject_dn"], .chars (flow.pointerText v Layout.sslSubjectDn))] ++
      callsIf (flow.metadata.hasTlsClientJa3 flow.detectedProtocol)
        [(["ssl", "client_ja3"], .chars (flow.unionText v Layout.sslClientJa3))] ++
      callsIf (flow.metadata.hasTlsServerJa3 flow.detectedProtocol)
        [(["ssl", "server_ja3"], .chars (flow.unionText v Layout.sslServerJa3))] ++
      callsIf (flow.metadata.nonempty Layout.sslCertFingerprintFound)
        [(["ssl", "fingerprint"], .string (sha1ToString
          (flow.unionBytes v Layout.sslCertFingerprint Layout.tlsHashLen)))] ++
      callsIf flow.tlsAlpnSet [(["ssl", "alpn"], .strings (flow.tlsAlpn.map stringText))] ++
      callsIf flow.tlsAlpnServerSet
        [(["ssl", "alpn_server"], .strings (flow.tlsAlpnServer.map stringText))])

def encodeMisc : List SerializeCall :=
  callsIf (flow.metadata.hasBtInfoHash flow.detectedProtocol)
    [(["bt", "info_hash"], .string (sha1ToString
      (flow.unionBytes v (Layout.btInfoHashValid + 1) 20)))] ++
  callsIf (flow.metadata.hasSsdpUserAgent flow.detectedProtocol)
    [(["ssdp", "user_agent"], .chars (flow.unionText v Layout.httpUserAgent))] ++
  callsIf (flow.metadata.hasMdnsDomainName flow.detectedProtocol)
    [(["mdns", "answer"], .chars (flow.unionText v Layout.mdnsDomainName))]

/-- The `set` of risks becomes an array in ascending order. -/
def encodeRisks : List SerializeCall :=
  [(["first_seen_at"], .number flow.tsFirstSeen),
    (["risks", "risks"], .json (.array ((flow.risks.mergeSort (· ≤ ·)).map fun risk =>
      .integer (risk : Nat)))),
    (["risks", "ndpi_risk_score"], .number flow.ndpiRiskScore),
    (["risks", "ndpi_risk_score_client"], .number flow.ndpiRiskScoreClient),
    (["risks", "ndpi_risk_score_server"], .number flow.ndpiRiskScoreServer)]

/-- `encode_includes & ENCODE_METADATA`. -/
def encodeMetadata (keys : EndKeys) : List SerializeCall :=
  flow.encodeKey v ++ flow.encodeOrigin keys ++ flow.encodeMacs v keys ++ flow.encodeIps v keys ++
    flow.encodePorts keys ++ flow.encodeDetection ++ flow.encodeHttp v ++ flow.encodeDhcp v ++
    flow.encodeSsh v ++ flow.encodeSsl v ++ flow.encodeMisc v ++ flow.encodeRisks

/-- `encode_includes & ENCODE_TUNNELS`. -/
def encodeTunnels (keys : EndKeys) : List SerializeCall :=
  match flow.tunnelType with
  | .none => []
  | .gtp =>
    let keys := gtpKeys keys flow.gtp.lowerMap
    [(["gtp", "version"], .number flow.gtp.version),
      (["gtp", "ip_version"], .number flow.gtp.ipVersion),
      (["gtp", keys.lowerIp], .string (flow.gtpLowerAddrText.getString v flow.gtp.lowerAddr)),
      (["gtp", keys.upperIp], .string (flow.gtpUpperAddrText.getString v flow.gtp.upperAddr)),
      (["gtp", keys.lowerPort], .number flow.gtp.lowerAddr.getPort),
      (["gtp", keys.upperPort], .number flow.gtp.upperAddr.getPort),
      (["gtp", keys.lowerTeid], .number (swapWord flow.gtp.lowerTeid)),
      (["gtp", keys.upperTeid], .number (swapWord flow.gtp.upperTeid)),
      (["gtp", "other_type"], .string (gtpOtherTypeText flow.gtp.otherType))]

def encodeBytes (stats : EncodedStats) (keys : EndKeys) : List SerializeCall :=
  [([keys.lowerBytes], .number stats.lowerBytes), ([keys.upperBytes], .number stats.upperBytes)]

def encodePackets (stats : EncodedStats) (keys : EndKeys) : List SerializeCall :=
  [([keys.lowerPackets], .number stats.lowerPackets),
    ([keys.upperPackets], .number stats.upperPackets)]

def encodeTotals (stats : EncodedStats) : List SerializeCall :=
  [(["total_packets"], .number stats.totalPackets),
    (["total_bytes"], .number stats.totalBytes),
    (["detection_packets"], .number stats.detectionPackets.toNat)]

def encodeRates (stats : EncodedStats) (keys : EndKeys) : List SerializeCall :=
  [([keys.lowerRate], .real stats.lowerRate), ([keys.upperRate], .real stats.upperRate)]

def encodeTcp (stats : EncodedStats) : List SerializeCall :=
  callsIf (flow.ipProtocol == IPPROTO_TCP.toNat)
    [(["tcp", "seq_errors"], .number stats.tcpSeqErrors),
      (["tcp", "resets"], .number stats.tcpResets),
      (["tcp", "retrans"], .number stats.tcpRetrans)]

/-- `encode_includes & ENCODE_STATS`. -/
def encodeStats (stats : EncodedStats) (keys : EndKeys) : List SerializeCall :=
  encodeBytes stats keys ++ encodePackets stats keys ++ encodeTotals stats ++
    callsIf v.extendedStats (encodeRates stats keys ++ flow.encodeTcp stats)

/-- The calls that `Encode` makes. -/
def encodeCalls (stats : EncodedStats) (encodeIncludes : UInt8) : List SerializeCall :=
  let keys := endKeys flow.lowerMap
  flow.encodeDigest ++
    callsIf (encodeIncludes &&& 0x01 != 0) (flow.encodeMetadata v keys) ++
    callsIf (encodeIncludes &&& 0x02 != 0) (flow.encodeTunnels v keys) ++
    callsIf (encodeIncludes &&& 0x04 != 0) (flow.encodeStats v stats keys)

/-- `ndFlow::Encode` into a JSON document. `none` is thrown. -/
def encode (stats : EncodedStats) (encodeIncludes : UInt8) (output : Json) : Option Json :=
  serializeAll v (flow.encodeCalls v stats encodeIncludes) output

end EncodedFlow

end NetifyAgent
