import NetifyAgent.Lib.Overlay
import NetifyAgent.Protos

/-! The anonymous union of `ndFlow`: one storage area for the metadata of the
protocols that have any. Which member is in use is not recorded anywhere: the
`Has…` accessors infer it from the detected protocol. -/
namespace NetifyAgent
open NetifyAgent.Overlay

/-- The members of the union. -/
inductive Member where
  | http
  | dhcp
  | ssh
  | ssl
  | smtp
  | bt
  | mdns
  deriving DecidableEq, Repr

/-- The union and the number of strings duplicated for it so far. A duplicate
is numbered in order, so two duplicates are never the same pointer. -/
structure Metadata where
  area : Area Member
  duped : Nat

/-- `http{ { 0 } }` in the constructors. -/
def Metadata.blank : Metadata := ⟨Overlay.blank, 0⟩

/-! ## Layout -/

namespace Layout

def httpUserAgent : Nat := 0
def httpUrl : Nat := 512
def dhcpFingerprint : Nat := 0
def dhcpClassIdent : Nat := 48
def sshClientAgent : Nat := 0
def sshServerAgent : Nat := 48
def sslVersion : Nat := 0
def sslCipherSuite : Nat := 2
def sslSubjectDn : Nat := 8
def sslIssuerDn : Nat := 16
def sslServerCn : Nat := 24
def sslClientJa3 : Nat := 280
def sslServerJa3 : Nat := 313
def sslCertFingerprintFound : Nat := 346
def sslCertFingerprint : Nat := 347
def btInfoHashValid : Nat := 0
def mdnsDomainName : Nat := 0

/-- `ND_FLOW_UA_LEN` and `ND_FLOW_URL_LEN`. -/
def uaLen : Nat := 512
def dhcpFpLen : Nat := 48
def dhcpCiLen : Nat := 96
def sshUaLen : Nat := 48
def tlsCnLen : Nat := 256
def tlsJa3Len : Nat := 33
def tlsHashLen : Nat := 20
/-- `ND_FLOW_HOSTNAME`. -/
def hostname : Nat := 80

end Layout

/-- How many bytes a member takes. -/
def Member.size : Member → Nat
  | .http => 1024
  | .dhcp => 144
  | .ssh => 96
  | .ssl => 367
  | .smtp => 1
  | .bt => 21
  | .mdns => 80

/-- The bytes of a C string as plain data. -/
def rawBytes (bytes : List UInt8) : List Val := bytes.map Val.byte

@[simp] theorem rawBytes_length (bytes : List UInt8) : (rawBytes bytes).length = bytes.length := by
  simp [rawBytes]

/-- What `snprintf(dst, size, "%s", src)` writes: the string, cut to fit, and
its terminating zero. -/
def snprintfBytes (size : Nat) (src : List UInt8) : List Val :=
  rawBytes (src.take (size - 1) ++ [0])

/-- `field[0] != '\0'` for a char array of the union. -/
def Metadata.nonempty (md : Metadata) (off : Nat) : Bool := (md.area off).val != .byte 0

/-- The string that starts at an offset of the union. -/
def Metadata.string (md : Metadata) (off : Nat) : List Val :=
  ((List.range (1024 - off)).map fun i => (md.area (off + i)).val).takeWhile (· != .byte 0)

/-- `pointer != NULL` for a pointer of the union. -/
def Metadata.pointerSet (md : Metadata) (slot : Nat) : Bool := ! decide (IsNull md.area slot)

/-- `bt.info_hash_valid`, the low bit of the first byte. -/
def Metadata.infoHashValid (md : Metadata) : Bool :=
  match (md.area Layout.btInfoHashValid).val with
  | .byte b => b.toNat % 2 == 1
  | .frag _ _ => false

/-! ## Accessors -/

/-- The `Has…` accessors that read the union. -/
inductive Accessor where
  | dhcpFingerprint
  | dhcpClassIdent
  | httpUserAgent
  | httpUrl
  | sshClientAgent
  | sshServerAgent
  | tlsServerCn
  | tlsIssuerDn
  | tlsSubjectDn
  | tlsClientJa3
  | tlsServerJa3
  | btInfoHash
  | ssdpUserAgent
  | mdnsDomainName
  deriving DecidableEq, Repr

/-- `GetMasterProtocol() == ND_PROTO_TLS || detected_protocol == ND_PROTO_QUIC`. -/
def usesTls (p : ProtoId) : Bool := Proto.master p == Proto.tls || p == Proto.quic

namespace Metadata
variable (p : ProtoId) (md : Metadata)

/-- `ndFlow::HasDhcpFingerprint`. -/
def hasDhcpFingerprint : Bool := p == Proto.dhcp && md.nonempty Layout.dhcpFingerprint

/-- `ndFlow::HasDhcpClassIdent`. -/
def hasDhcpClassIdent : Bool := p == Proto.dhcp && md.nonempty Layout.dhcpClassIdent

/-- `ndFlow::HasHttpUserAgent`. -/
def hasHttpUserAgent : Bool := Proto.master p == Proto.http && md.nonempty Layout.httpUserAgent

/-- `ndFlow::HasHttpURL`. -/
def hasHttpUrl : Bool := Proto.master p == Proto.http && md.nonempty Layout.httpUrl

/-- `ndFlow::HasSSHClientAgent`. -/
def hasSshClientAgent : Bool := p == Proto.ssh && md.nonempty Layout.sshClientAgent

/-- `ndFlow::HasSSHServerAgent`. -/
def hasSshServerAgent : Bool := p == Proto.ssh && md.nonempty Layout.sshServerAgent

/-- `ndFlow::HasTLSServerCN`. -/
def hasTlsServerCn : Bool := usesTls p && md.nonempty Layout.sslServerCn

/-- `ndFlow::HasTLSIssuerDN`. -/
def hasTlsIssuerDn : Bool := usesTls p && md.pointerSet Layout.sslIssuerDn

/-- `ndFlow::HasTLSSubjectDN`. -/
def hasTlsSubjectDn : Bool := usesTls p && md.pointerSet Layout.sslSubjectDn

/-- `ndFlow::HasTLSClientJA3`. -/
def hasTlsClientJa3 : Bool := Proto.master p == Proto.tls && md.nonempty Layout.sslClientJa3

/-- `ndFlow::HasTLSServerJA3`. -/
def hasTlsServerJa3 : Bool := Proto.master p == Proto.tls && md.nonempty Layout.sslServerJa3

/-- `ndFlow::HasBTInfoHash`. -/
def hasBtInfoHash : Bool := p == Proto.bittorrent && md.infoHashValid

/-- `ndFlow::HasSSDPUserAgent`. -/
def hasSsdpUserAgent : Bool := Proto.master p == Proto.ssdp && md.nonempty Layout.httpUserAgent

/-- `ndFlow::HasMDNSDomainName`. -/
def hasMdnsDomainName : Bool := p == Proto.mdns && md.nonempty Layout.mdnsDomainName

end Metadata

/-- The accessor a name stands for. -/
def Accessor.holds (p : ProtoId) (md : Metadata) : Accessor → Bool
  | .dhcpFingerprint => md.hasDhcpFingerprint p
  | .dhcpClassIdent => md.hasDhcpClassIdent p
  | .httpUserAgent => md.hasHttpUserAgent p
  | .httpUrl => md.hasHttpUrl p
  | .sshClientAgent => md.hasSshClientAgent p
  | .sshServerAgent => md.hasSshServerAgent p
  | .tlsServerCn => md.hasTlsServerCn p
  | .tlsIssuerDn => md.hasTlsIssuerDn p
  | .tlsSubjectDn => md.hasTlsSubjectDn p
  | .tlsClientJa3 => md.hasTlsClientJa3 p
  | .tlsServerJa3 => md.hasTlsServerJa3 p
  | .btInfoHash => md.hasBtInfoHash p
  | .ssdpUserAgent => md.hasSsdpUserAgent p
  | .mdnsDomainName => md.hasMdnsDomainName p

/-- The member an accessor reads. -/
def Accessor.member : Accessor → Member
  | .dhcpFingerprint | .dhcpClassIdent => .dhcp
  | .httpUserAgent | .httpUrl | .ssdpUserAgent => .http
  | .sshClientAgent | .sshServerAgent => .ssh
  | .tlsServerCn | .tlsIssuerDn | .tlsSubjectDn | .tlsClientJa3 | .tlsServerJa3 => .ssl
  | .btInfoHash => .bt
  | .mdnsDomainName => .mdns

/-- Where the bytes an accessor guards lie: offset and length of the field. -/
def Accessor.field : Accessor → Nat × Nat
  | .dhcpFingerprint => (Layout.dhcpFingerprint, Layout.dhcpFpLen)
  | .dhcpClassIdent => (Layout.dhcpClassIdent, Layout.dhcpCiLen)
  | .httpUserAgent | .ssdpUserAgent => (Layout.httpUserAgent, Layout.uaLen)
  | .httpUrl => (Layout.httpUrl, Layout.uaLen)
  | .sshClientAgent => (Layout.sshClientAgent, Layout.sshUaLen)
  | .sshServerAgent => (Layout.sshServerAgent, Layout.sshUaLen)
  | .tlsServerCn => (Layout.sslServerCn, Layout.tlsCnLen)
  | .tlsIssuerDn => (Layout.sslIssuerDn, 8)
  | .tlsSubjectDn => (Layout.sslSubjectDn, 8)
  | .tlsClientJa3 => (Layout.sslClientJa3, Layout.tlsJa3Len)
  | .tlsServerJa3 => (Layout.sslServerJa3, Layout.tlsJa3Len)
  | .btInfoHash => (Layout.btInfoHashValid, 21)
  | .mdnsDomainName => (Layout.mdnsDomainName, Layout.hostname)

/-- The member the accessors read while `p` is the detected protocol. -/
def memberOf (p : ProtoId) : Option Member :=
  if usesTls p then some .ssl
  else if Proto.master p = Proto.http ∨ Proto.master p = Proto.ssdp then some .http
  else if p = Proto.dhcp then some .dhcp
  else if p = Proto.ssh then some .ssh
  else if p = Proto.bittorrent then some .bt
  else if p = Proto.mdns then some .mdns
  else none

theorem memberOf_tls {p : ProtoId} (is : Proto.master p = Proto.tls ∨ Proto.master p = Proto.quic) :
    memberOf p = some .ssl := by
  rcases is with tls | quic
  · simp [memberOf, usesTls, tls]
  · obtain rfl : p = Proto.quic := Proto.eq_of_master quic (by decide) (by decide) (by decide)
    decide

theorem memberOf_http {p : ProtoId}
    (is : Proto.master p = Proto.http ∨ Proto.master p = Proto.ssdp) :
    memberOf p = some .http := by
  have other : p ≠ Proto.quic := by
    rintro rfl
    exact absurd is (by decide)
  have plain : usesTls p = false := by
    rcases is with http | ssdp
    · simp [usesTls, http, other]
      decide
    · simp [usesTls, ssdp, other]
      decide
  simp [memberOf, plain, is]

theorem memberOf_dhcp {p : ProtoId} (is : Proto.master p = Proto.dhcp) :
    memberOf p = some .dhcp := by
  obtain rfl : p = Proto.dhcp := Proto.eq_of_master is (by decide) (by decide) (by decide)
  decide

theorem memberOf_ssh {p : ProtoId} (is : Proto.master p = Proto.ssh) : memberOf p = some .ssh := by
  obtain rfl : p = Proto.ssh := Proto.eq_of_master is (by decide) (by decide) (by decide)
  decide

/-- The test of the detected protocol that an accessor starts with. -/
def Accessor.speaks (p : ProtoId) : Accessor → Bool
  | .dhcpFingerprint | .dhcpClassIdent => p == Proto.dhcp
  | .httpUserAgent | .httpUrl => Proto.master p == Proto.http
  | .ssdpUserAgent => Proto.master p == Proto.ssdp
  | .sshClientAgent | .sshServerAgent => p == Proto.ssh
  | .tlsServerCn | .tlsIssuerDn | .tlsSubjectDn => usesTls p
  | .tlsClientJa3 | .tlsServerJa3 => Proto.master p == Proto.tls
  | .btInfoHash => p == Proto.bittorrent
  | .mdnsDomainName => p == Proto.mdns

theorem Accessor.speaks_of_holds {a : Accessor} {p : ProtoId} {md : Metadata}
    (holds : a.holds p md = true) : a.speaks p = true := by
  cases a <;> exact (Bool.and_eq_true_iff.mp holds).1

/-- An accessor holds only while the detected protocol stands for its member. -/
theorem Accessor.memberOf_of_holds {a : Accessor} {p : ProtoId} {md : Metadata}
    (holds : a.holds p md = true) : memberOf p = some a.member := by
  have speaks := Accessor.speaks_of_holds holds
  cases a <;> simp only [Accessor.speaks, beq_iff_eq] at speaks
  case httpUserAgent | httpUrl => exact memberOf_http (.inl speaks)
  case ssdpUserAgent => exact memberOf_http (.inr speaks)
  case tlsClientJa3 | tlsServerJa3 => exact memberOf_tls (.inl speaks)
  case tlsServerCn | tlsIssuerDn | tlsSubjectDn => simp [memberOf, speaks, Accessor.member]
  all_goals
    subst speaks
    decide

/-- Every field an accessor guards lies inside its member. -/
theorem Accessor.field_inside (a : Accessor) : a.field.1 + a.field.2 ≤ a.member.size := by
  cases a <;> decide

end NetifyAgent
