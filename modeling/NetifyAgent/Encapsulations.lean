import NetifyAgent.Frames
import NetifyAgent.Relocation

/-! One IP packet behind the headers of different link layers. Every branch of
`switch (dl_type)` finds the protocol type in its own place and byte order, and
one loop looks at it afterwards. -/
namespace NetifyAgent.Encapsulations
open NetifyAgent.Bytes NetifyAgent.Dissection

/-! ## Packets and headers -/

/-- An IP packet from its header on, with what lies behind it in memory. -/
structure IpPacket where
  data : Memory
  captured : Nat
  length : Nat
  tvSec : Nat := 0
  tvUsec : Nat := 0
  version : (data 0).toNat / 16 = 4 ∨ (data 0).toNat / 16 = 6

namespace IpPacket

/-- The packet without a link layer. -/
def packet (ip : IpPacket) : Packet where
  length := UInt16.ofNat ip.length
  caplen := UInt16.ofNat ip.captured
  data := ip.data
  tvSec := ip.tvSec
  tvUsec := ip.tvUsec

/-- The EtherType that announces the packet. -/
def etherType (ip : IpPacket) : Nat := if ipV ip.packet 0 = 4 then EtherType.ip else EtherType.ipv6

/-- The address family that announces the packet. -/
def family (ip : IpPacket) (inet6 : UInt8) : UInt8 := if ipV ip.packet 0 = 4 then 2 else inet6

end IpPacket

/-- The hardware addresses of a frame that is none of the bridge protocols'. -/
structure EtherAddrs where
  dst : List UInt8
  src : List UInt8
  dst_width : dst.length = 6
  src_width : src.length = 6
  dst_host : dst.take 3 ≠ [0x01, 0x80, 0xc2]
  src_host : src.take 3 ≠ [0x01, 0x80, 0xc2]

/-- The byte order of the address family of BSD loopback. -/
inductive ByteOrder where
  | network
  /-- As the capturing host stores it. -/
  | host
  deriving DecidableEq, Repr

/-- The header of a link layer, up to the field that announces what follows. -/
inductive LinkHeader where
  | ethernet (addrs : EtherAddrs)
  /-- `sll_header` up to `sll_protocol`. -/
  | cooked (fields : List UInt8) (width : fields.length = 14)
  /-- The systems number the address family of IPv6 differently. -/
  | loopback (order : ByteOrder) (inet6 : UInt8) (known : inet6 = 24 ∨ inet6 = 28 ∨ inet6 = 30)
  | raw

namespace LinkHeader

def dlType : LinkHeader → Datalink
  | ethernet _ => .en10mb
  | cooked _ _ => .linuxSll
  | loopback _ _ _ => .null
  | raw => .raw

/-- It announces by EtherType. -/
def CarriesTags : LinkHeader → Prop
  | ethernet _ | cooked _ _ => True
  | loopback _ _ _ | raw => False

/-- The header in front of what an EtherType announces. -/
def bytes (ip : IpPacket) (type : Nat) : LinkHeader → List UInt8
  | ethernet addrs => addrs.dst ++ addrs.src ++ Frames.be type
  | cooked fields _ => fields ++ Frames.be type
  | loopback .network inet6 _ => [0, 0, 0, ip.family inet6]
  | loopback .host inet6 _ => [ip.family inet6, 0, 0, 0]
  | raw => []

end LinkHeader

/-- The EtherType in front of the tags. -/
def outerType (type : Nat) : List UInt16 → Nat
  | [] => type
  | _ :: _ => EtherType.vlan

/-- 802.1Q tags by their control information, each with the EtherType of what
follows it. -/
def tagBytes (type : Nat) : List UInt16 → List UInt8
  | [] => []
  | tci :: tags => Frames.be tci.toNat ++ Frames.be (outerType type tags) ++ tagBytes type tags

/-- A way to send IP packets; it leaves room for a header of IPv6. -/
structure Encapsulation where
  link : LinkHeader
  tags : List UInt16 := []
  tagged : tags ≠ [] → link.CarriesTags
  room : link.dlType.headerLen + 4 * tags.length + 40 < 65536

namespace Encapsulation

def headerLen (e : Encapsulation) : Nat := e.link.dlType.headerLen + 4 * e.tags.length

def header (e : Encapsulation) (ip : IpPacket) : List UInt8 :=
  e.link.bytes ip (outerType ip.etherType e.tags) ++ tagBytes ip.etherType e.tags

/-- The packet as it is captured. -/
def frame (e : Encapsulation) (ip : IpPacket) : Packet where
  length := UInt16.ofNat (e.headerLen + ip.length)
  caplen := UInt16.ofNat (e.headerLen + ip.captured)
  data := behind (e.header ip) ip.data
  tvSec := ip.tvSec
  tvUsec := ip.tvUsec

/-- The capture length fits its sixteen bits, and so do the offsets behind all
GTP headers. -/
structure Fits (W : ExtensionWalker) (e : Encapsulation) (ip : IpPacket) : Prop where
  captured : e.headerLen + ip.captured < 65536
  tunnels : HeaderWalk W ip.packet (InReach W ip.packet e.headerLen) 0

/-- What `switch (dl_type)` reads as it was written. -/
def Understood (e : Encapsulation) : Prop :=
  match e.link with
  | .ethernet _ | .raw => True
  | .cooked _ _ => e.tags = []
  | .loopback order _ _ => order = .network

end Encapsulation

section
variable {e : Encapsulation} {ip : IpPacket}

theorem etherType_other (ip : IpPacket) : tagKind ip.etherType = .other := by
  unfold IpPacket.etherType
  split <;> decide

theorem tagBytes_length (type : Nat) (tags : List UInt16) :
    (tagBytes type tags).length = 4 * tags.length := by
  induction tags with
  | nil => rfl
  | cons tci tags ih =>
    simp only [tagBytes, Frames.be, List.length_append, ih, List.length_cons, List.length_nil]
    omega

theorem bytes_length (link : LinkHeader) (ip : IpPacket) (type : Nat) :
    (link.bytes ip type).length = link.dlType.headerLen := by
  cases link with
  | ethernet addrs =>
    simp [LinkHeader.bytes, LinkHeader.dlType, Datalink.headerLen, Frames.be, addrs.dst_width,
      addrs.src_width]
  | cooked fields width =>
    simp [LinkHeader.bytes, LinkHeader.dlType, Datalink.headerLen, Frames.be, width]
  | loopback order inet6 known => cases order <;> rfl
  | raw => rfl

theorem header_length (e : Encapsulation) (ip : IpPacket) : (e.header ip).length = e.headerLen := by
  unfold Encapsulation.header Encapsulation.headerLen
  rw [List.length_append, bytes_length, tagBytes_length]

theorem frame_cap (captured : e.headerLen + ip.captured < 65536) :
    (e.frame ip).cap = e.headerLen + ip.captured := by
  show (UInt16.ofNat (e.headerLen + ip.captured)).toNat = _
  rw [UInt16.toNat_ofNat']
  omega

/-- The frame carries the packet. -/
theorem carried (captured : e.headerLen + ip.captured < 65536) :
    Carried ip.packet (e.frame ip) e.headerLen := by
  constructor
  · intro i
    rw [← header_length e ip]
    exact behind_add _ _ i
  · rw [frame_cap captured]
    show _ = _ + (UInt16.ofNat ip.captured).toNat
    rw [UInt16.toNat_ofNat']
    omega

/-- The frame behind the fixed header. -/
theorem frame_data (e : Encapsulation) (ip : IpPacket) (i : Nat) :
    (e.frame ip).data (e.link.dlType.headerLen + i) =
      behind (tagBytes ip.etherType e.tags) ip.data i := by
  show behind (e.header ip) ip.data _ = _
  rw [Encapsulation.header, behind_append, ← bytes_length e.link ip (outerType ip.etherType e.tags)]
  exact behind_add _ _ i

/-! ## The fixed header -/

theorem type_behind (pre rest : List UInt8) (m : Memory) {type : Nat} (small : type < 65536) :
    be16 (behind (pre ++ Frames.be type ++ rest) m) pre.length = type ∧
      le16 (behind (pre ++ Frames.be type ++ rest) m) pre.length =
        type / 256 + type % 256 * 256 := by
  have first : behind (pre ++ Frames.be type ++ rest) m pre.length = UInt8.ofNat (type / 256) := by
    rw [List.append_assoc, behind_append]
    exact behind_add _ _ 0
  have second : behind (pre ++ Frames.be type ++ rest) m (pre.length + 1) = UInt8.ofNat type := by
    rw [List.append_assoc, behind_append]
    exact behind_add _ _ 1
  unfold be16 le16
  rw [first, second]
  simp only [UInt8.toNat_ofNat']
  omega

theorem etherType_small (ip : IpPacket) : ip.etherType = 0x0800 ∨ ip.etherType = 0x86dd := by
  unfold IpPacket.etherType
  split
  · exact .inl rfl
  · exact .inr rfl

theorem outerType_small (ip : IpPacket) (tags : List UInt16) :
    outerType ip.etherType tags < 65536 := by
  cases tags with
  | nil => rcases etherType_small ip with four | six <;> simp only [outerType] <;> omega
  | cons tci tags =>
    show EtherType.vlan < 65536
    decide

/-- An EtherType that leads to the tags. -/
def Announces (type : Nat) (tags : List UInt16) : Prop :=
  tagKind type = if tags = [] then .other else .vlan

theorem announces_outerType (ip : IpPacket) (tags : List UInt16) :
    Announces (outerType ip.etherType tags) tags := by
  cases tags with
  | nil => exact etherType_other ip
  | cons tci tags => rfl

theorem frame_long (captured : e.headerLen + ip.captured < 65536) :
    ¬ (e.frame ip).cap < e.link.dlType.headerLen := by
  rw [frame_cap captured, Encapsulation.headerLen]
  omega

theorem slice_host (pre rest : List UInt8) (m : Memory) {addr : List UInt8}
    (width : addr.length = 6) (host : addr.take 3 ≠ [0x01, 0x80, 0xc2]) :
    slice (behind (pre ++ (addr ++ rest)) m) pre.length 3 ≠ [0x01, 0x80, 0xc2] := by
  have room : pre.length + 3 ≤ (pre ++ (addr ++ rest)).length := by
    simp only [List.length_append, width]
    omega
  rw [slice_behind _ _ room, List.drop_left, List.take_append_of_le_length (by omega)]
  exact host

theorem frame_ethernet {addrs : EtherAddrs} (link : e.link = .ethernet addrs)
    (captured : e.headerLen + ip.captured < 65536) :
    frame e.link.dlType (e.frame ip) = some ⟨outerType ip.etherType e.tags, 14, false⟩ := by
  have header : (e.frame ip).data = behind (addrs.dst ++ (addrs.src ++
      (Frames.be (outerType ip.etherType e.tags) ++ tagBytes ip.etherType e.tags))) ip.data := by
    show behind (e.header ip) ip.data = _
    simp only [Encapsulation.header, link, LinkHeader.bytes, List.append_assoc]
  have dst := slice_host [] (addrs.src ++ (Frames.be (outerType ip.etherType e.tags) ++
    tagBytes ip.etherType e.tags)) ip.data addrs.dst_width addrs.dst_host
  have src := slice_host addrs.dst (Frames.be (outerType ip.etherType e.tags) ++
    tagBytes ip.etherType e.tags) ip.data addrs.src_width addrs.src_host
  have type := (type_behind (addrs.dst ++ addrs.src) (tagBytes ip.etherType e.tags) ip.data
    (outerType_small ip e.tags)).1
  rw [List.length_append, addrs.dst_width, addrs.src_width] at type
  simp only [List.append_assoc, List.nil_append, List.length_nil] at type dst
  rw [addrs.dst_width] at src
  rw [← header] at type dst src
  unfold frame
  rw [if_neg (frame_long captured)]
  simp only [link, LinkHeader.dlType, stpAddr, dst, src, decide_false, Bool.false_eq_true, or_self,
    if_false, type]

/-- The protocol of a cooked header is read with its bytes exchanged. -/
theorem frame_cooked {fields : List UInt8} {width : fields.length = 14}
    (link : e.link = .cooked fields width) (captured : e.headerLen + ip.captured < 65536) :
    frame e.link.dlType (e.frame ip) =
      some ⟨outerType ip.etherType e.tags / 256 + outerType ip.etherType e.tags % 256 * 256, 16,
        false⟩ := by
  have header : (e.frame ip).data = behind (fields ++ Frames.be (outerType ip.etherType e.tags) ++
      tagBytes ip.etherType e.tags) ip.data := by
    show behind (e.header ip) ip.data = _
    simp only [Encapsulation.header, link, LinkHeader.bytes]
  have type := (type_behind fields (tagBytes ip.etherType e.tags) ip.data
    (outerType_small ip e.tags)).2
  rw [width, ← header] at type
  unfold frame
  rw [if_neg (frame_long captured)]
  simp only [link, LinkHeader.dlType, type]

theorem family_cases (ip : IpPacket) {inet6 : UInt8}
    (known : inet6 = 24 ∨ inet6 = 28 ∨ inet6 = 30) :
    (ip.family inet6 = 2 ∧ ip.etherType = EtherType.ip) ∨
      ((ip.family inet6 = 24 ∨ ip.family inet6 = 28 ∨ ip.family inet6 = 30) ∧
        ip.etherType = EtherType.ipv6) := by
  unfold IpPacket.family IpPacket.etherType
  split
  · exact .inl ⟨rfl, rfl⟩
  · exact .inr ⟨known, rfl⟩

/-- The family of a loopback header is read in network byte order. -/
theorem frame_loopback {order : ByteOrder} {inet6 : UInt8} {known}
    (link : e.link = .loopback order inet6 known) (captured : e.headerLen + ip.captured < 65536) :
    frame e.link.dlType (e.frame ip) =
      if order = .network then some ⟨ip.etherType, 4, false⟩ else none := by
  have header : (e.frame ip).data = behind (e.link.bytes ip (outerType ip.etherType e.tags))
      (behind (tagBytes ip.etherType e.tags) ip.data) := behind_append _ _ _
  unfold frame
  rw [if_neg (frame_long captured)]
  simp only [link, LinkHeader.dlType] at header ⊢
  cases order with
  | network =>
    have family : be32 (e.frame ip).data 0 = (ip.family inet6).toNat := by
      rw [header]
      simp [LinkHeader.bytes, be32, be16]
    rw [family, if_pos rfl]
    rcases family_cases ip known with ⟨four, type⟩ | ⟨six, type⟩
    · rw [four, type]
      rfl
    · rcases six with six | six | six <;> rw [six, type] <;> rfl
  | host =>
    have family : be32 (e.frame ip).data 0 = (ip.family inet6).toNat * 16777216 := by
      rw [header]
      simp [LinkHeader.bytes, be32, be16]
      omega
    have positive : 0 < (ip.family inet6).toNat := by
      rcases family_cases ip known with ⟨four, _⟩ | ⟨six | six | six, _⟩
      · rw [four]
        decide
      · rw [six]
        decide
      · rw [six]
        decide
      · rw [six]
        decide
    rw [family, if_neg (by omega), if_neg (by omega), if_neg (by decide)]

/-- **A header that is understood leads to the tags.** -/
theorem frame_understood (captured : e.headerLen + ip.captured < 65536) (read : e.Understood) :
    ∃ type, frame e.link.dlType (e.frame ip) = some ⟨type, e.link.dlType.headerLen, false⟩ ∧
      Announces type e.tags := by
  have untagged : ¬ e.link.CarriesTags → e.tags = [] := fun plain => by
    by_contra tags
    exact plain (e.tagged tags)
  unfold Encapsulation.Understood at read
  cases link : e.link with
  | ethernet addrs =>
    rw [← link, frame_ethernet link captured, link]
    exact ⟨_, rfl, announces_outerType ip e.tags⟩
  | cooked fields width =>
    rw [link] at read
    rw [← link, frame_cooked link captured, link, show e.tags = [] from read]
    refine ⟨_, rfl, ?_⟩
    show tagKind (ip.etherType / 256 + ip.etherType % 256 * 256) = .other
    rcases etherType_small ip with type | type <;> rw [type] <;> rfl
  | loopback order inet6 known =>
    rw [link] at read untagged
    rw [← link, frame_loopback link captured, link, if_pos read, untagged id]
    exact ⟨_, rfl, etherType_other ip⟩
  | raw =>
    rw [link] at untagged
    rw [untagged id]
    refine ⟨0, ?_, rfl⟩
    unfold frame
    exact if_neg (by exact Nat.not_lt_zero _)

/-! ## The tags -/

/-- What tags assign. -/
def tagAssigns (tags : List UInt16) : List Assign := tags.map fun tci => .vlanId (tci.toNat % 4096)

theorem be_pair (m : Memory) (n : Nat) (rest : List UInt8) {p : Packet} {off : Nat}
    (small : n < 65536) (follows : ∀ i, p.data (off + i) = behind (Frames.be n ++ rest) m i) :
    be16 p.data off = n ∧ ∀ i, p.data (off + 2 + i) = behind rest m i := by
  constructor
  · rw [show be16 p.data off = be16 (behind (Frames.be n ++ rest) m) 0 from
      be16_congr (follows 0) (follows 1)]
    exact (type_behind [] rest m small).1
  · intro i
    rw [Nat.add_assoc, follows, behind_append]
    exact behind_add (Frames.be n) _ i

/-- **The loop finds the tags**, and stops behind them. -/
theorem decapsulate_tags {p : Packet} {m : Memory} {ip : IpPacket} {tags : List UInt16}
    {type l2Len fuel : Nat} (announced : Announces type tags)
    (follows : ∀ i, p.data (l2Len + i) = behind (tagBytes ip.etherType tags) m i)
    (room : l2Len + 4 * tags.length < 65536) (enough : tags.length < fuel) (vlanPacket : Bool) :
    ∃ last, (decapsulate p fuel ⟨type, l2Len, vlanPacket⟩).outcome = .ok last ∧
      last.l2Len = l2Len + 4 * tags.length ∧
      (decapsulate p fuel ⟨type, l2Len, vlanPacket⟩).log.filterMap netAssign = tagAssigns tags := by
  induction tags generalizing type l2Len fuel vlanPacket with
  | nil =>
    obtain ⟨fuel, rfl⟩ : ∃ n, fuel = n + 1 := ⟨fuel - 1, by simp at enough; omega⟩
    have kind : tagKind type = .other := announced
    rw [decapsulate_succ]
    simp only [kind]
    exact ⟨_, rfl, rfl, rfl⟩
  | cons tci tags ih =>
    obtain ⟨fuel, rfl⟩ : ∃ n, fuel = n + 1 := ⟨fuel - 1, by omega⟩
    have kind : tagKind type = .vlan := announced
    simp only [List.length_cons] at room enough
    simp only [tagBytes, List.append_assoc] at follows
    obtain ⟨control, follows⟩ := be_pair m _ _ tci.toNat_lt follows
    obtain ⟨next, follows⟩ := be_pair m _ _ (outerType_small ip tags) follows
    have inside : (l2Len + 4) % 65536 = l2Len + 4 := Nat.mod_eq_of_lt (by omega)
    have follows : ∀ i, p.data (l2Len + 4 + i) = behind (tagBytes ip.etherType tags) m i := follows
    have enough : tags.length < fuel := by omega
    obtain ⟨last, ended, stops, assigns⟩ := ih (announces_outerType ip tags) follows (by omega)
      enough true
    rw [decapsulate_succ]
    simp only [kind, next, inside, emits_bind]
    refine ⟨last, ended, by rw [stops, List.length_cons]; omega, ?_⟩
    rw [List.filterMap_append, assigns]
    simp only [Tag.ops, control]
    split <;> rfl

/-- The fixed header assigns nothing. -/
theorem netAssign_datalink (dl : Datalink) (p : Packet) :
    (datalink dl p).log.filterMap netAssign = [] := by
  have unset : Every (fun w => netAssign w = none) (datalink dl p) :=
    every_datalink (fun _ _ => rfl) (fun _ => rfl) (Eq.refl (netAssign .reject)) dl
  exact List.filterMap_eq_nil_iff.mpr unset

/-- The packet by itself, behind what its tags assign. -/
def plainly (W : ExtensionWalker) (tags : List UInt16) (ip : IpPacket) (fuel : Nat) :
    Dissect Op Headers :=
  emits ((tagAssigns tags).map .set ++ [.set .tunnelNone]) >>= fun _ =>
    behindLink W .raw ip.packet fuel 0

/-- **A frame that is understood is dissected like the packet by itself.** -/
theorem alike_plainly {W : ExtensionWalker} (portable : Portable W) (fits : e.Fits W ip)
    (read : e.Understood) {fuel : Nat} (enough : e.tags.length < fuel) :
    Alike netAssign (fun _ _ => True) (plainly W e.tags ip fuel)
      (dissect W e.link.dlType (e.frame ip) fuel) := by
  obtain ⟨type, framed, announced⟩ := frame_understood fits.captured read
  have room := fits.captured
  unfold Encapsulation.headerLen at room
  obtain ⟨last, ended, stops, assigns⟩ := decapsulate_tags announced (frame_data e ip) (by omega)
    enough false
  have rest : Alike netAssign (fun _ _ => True) (behindLink W .raw ip.packet fuel 0)
      (behindLink W e.link.dlType (e.frame ip) fuel e.headerLen) :=
    alike_behindLink portable (carried fits.captured) fits.tunnels fuel
  have shown : ((tagAssigns e.tags).map Op.set).filterMap netAssign = tagAssigns e.tags := by
    unfold tagAssigns
    rw [List.map_map, List.filterMap_map]
    exact congrFun List.filterMap_eq_map e.tags
  rw [dissect_of_frame framed, emits_bind, bind_of_ok _ ended, linkEnd_bind, emits_bind, stops]
  refine ⟨?_, rest.outcome⟩
  simp only [plainly, emits_bind, List.filterMap_append, shown, netAssign_datalink, assigns,
    List.nil_append, rest.log, List.append_assoc]
  split <;> rfl

end

end NetifyAgent.Encapsulations
