import Mathlib.Data.List.Basic

/-! Protocol identifiers. `nd_proto_id_t` is an enum that soft dissectors cast
arbitrary integers to, so an identifier is a number and the enumerators the
modelled code names are constants. -/
namespace NetifyAgent

/-- `nd_proto_id_t`. -/
abbrev ProtoId := Nat

namespace Proto

def unknown : ProtoId := 0
def dns : ProtoId := 5
def http : ProtoId := 7
def mdns : ProtoId := 8
def ssdp : ProtoId := 12
def dhcp : ProtoId := 18
def ftps : ProtoId := 21
def mailPops : ProtoId := 23
def mailSmtps : ProtoId := 29
def ubntac2 : ProtoId := 31
def bittorrent : ProtoId := 37
def skypeTeamsCall : ProtoId := 38
def signalCall : ProtoId := 39
def nestLogSink : ProtoId := 43
def xbox : ProtoId := 47
def qq : ProtoId := 48
def rtsp : ProtoId := 50
def mailImaps : ProtoId := 51
def ppstream : ProtoId := 54
def steam : ProtoId := 74
def stun : ProtoId := 78
def tls : ProtoId := 91
def ssh : ProtoId := 92
def httpConnect : ProtoId := 130
def httpProxy : ProtoId := 131
def teamviewer : ProtoId := 148
def llmnr : ProtoId := 154
def spotify : ProtoId := 156
def quic : ProtoId := 188
def ookla : ProtoId := 191
def https : ProtoId := 196
def applePush : ProtoId := 238
def whatsappCall : ProtoId := 246
def zoom : ProtoId := 248
def ftpsData : ProtoId := 256
def sips : ProtoId := 257
def mqtts : ProtoId := 258
def nntps : ProtoId := 259
def tuyaLp : ProtoId := 304
def avast : ProtoId := 306
def lineCall : ProtoId := 310
def syncthing : ProtoId := 312
def tivoconnect : ProtoId := 313
def tplinkShp : ProtoId := 314
def facebookVoip : ProtoId := 327
def telegramVoip : ProtoId := 333
def todo : ProtoId := 0xffffffff

/-- The case labels of `ndFlow::GetMasterProtocol` that return `ND_PROTO_TLS`. -/
def tlsFamily : List ProtoId :=
  [https, tls, ftps, ftpsData, mailImaps, mailPops, mailSmtps, mqtts, nntps, sips]

/-- Those that return `ND_PROTO_HTTP`. -/
def httpFamily : List ProtoId :=
  [http, httpConnect, httpProxy, ookla, ppstream, qq, rtsp, steam, teamviewer, xbox]

/-- Those that return `ND_PROTO_DNS`. -/
def dnsFamily : List ProtoId := [dns, mdns, llmnr]

/-- `ndFlow::GetMasterProtocol`, as a function of the detected protocol. -/
def master (p : ProtoId) : ProtoId :=
  if p ∈ tlsFamily then tls
  else if p ∈ httpFamily then http
  else if p ∈ dnsFamily then dns
  else p

/-- A protocol is its own master unless it belongs to a family. -/
theorem master_cases (p : ProtoId) :
    master p = tls ∨ master p = http ∨ master p = dns ∨ master p = p := by
  simp only [master]
  split
  · exact .inl rfl
  · split
    · exact .inr (.inl rfl)
    · split
      · exact .inr (.inr (.inl rfl))
      · exact .inr (.inr (.inr rfl))

/-- Outside the three families only a protocol itself has it for a master. -/
theorem eq_of_master {p q : ProtoId} (is : master p = q) (tlsOther : q ≠ tls)
    (httpOther : q ≠ http) (dnsOther : q ≠ dns) : p = q := by
  rcases master_cases p with h | h | h | h
  · exact absurd (is.symm.trans h) tlsOther
  · exact absurd (is.symm.trans h) httpOther
  · exact absurd (is.symm.trans h) dnsOther
  · exact h.symm.trans is

end Proto

/-- `nd_ndpi_protos` and `nd_ndpi_portmap`: nDPI's identifiers to ours, and the
refinements of one nDPI identifier by port. -/
structure ProtoTables where
  protos : Nat → Option ProtoId
  portmap : Nat → List (Nat × ProtoId)

/-- `nd_ndpi_proto_find(id, flow)`; the flow matters through its two ports. -/
def ProtoTables.find (t : ProtoTables) (id lowerPort upperPort : Nat) : ProtoId :=
  if id = 0 then Proto.unknown
  else match (t.portmap id).find? fun e => lowerPort = e.1 ∨ upperPort = e.1 with
    | some e => e.2
    | none => (t.protos id).getD Proto.todo

end NetifyAgent
