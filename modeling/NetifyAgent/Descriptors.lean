import NetifyAgent.Frames

/-! `ndPacket` as the three capture back ends build it. Each allocates a buffer, copies the frame
into it and passes two lengths on, which the constructor cuts to sixteen bits. The packet ring puts
a VLAN tag back that the kernel has stripped, and the netfilter queue puts an Ethernet header in
front of what it was given. -/
namespace NetifyAgent
open Bytes

/-- `ndPacket` with its buffer. -/
structure NdPacket where
  status : UInt8
  length : UInt16
  caplen : UInt16
  data : List UInt8
  tvSec : Nat := 0
  tvUsec : Nat := 0
  deriving DecidableEq, Repr

namespace NdPacket

def STATUS_INIT : UInt8 := 0
def STATUS_OK : UInt8 := 0x01
def STATUS_FILTERED : UInt8 := 0x04
def STATUS_VLAN_TAG_RESTORED : UInt8 := 0x08

/-- What `ProcessPacket` sees of it; the memory behind the buffer is that of the heap. -/
def packet (p : NdPacket) (past : Memory) : Packet where
  length := p.length
  caplen := p.caplen
  data := behind p.data past
  tvSec := p.tvSec
  tvUsec := p.tvUsec

end NdPacket

/-! ## libpcap -/

/-- What `pcap_next_ex` returns: `caplen` bytes of a frame. -/
structure PcapFrame where
  pktData : List UInt8
  len : UInt32
  tvSec : Nat := 0
  tvUsec : Nat := 0
  captured : pktData.length ≤ len.toNat

/-- The body of the loop of `ndCapturePcap::Entry`; `heap` is the memory that is allocated. -/
def pcapPacket (f : PcapFrame) (heap : Memory) : NdPacket where
  status := NdPacket.STATUS_OK
  length := f.len.toUInt16
  caplen := UInt16.ofNat f.pktData.length
  data := slice (store heap 0 f.pktData) 0 f.pktData.length
  tvSec := f.tvSec
  tvUsec := f.tvUsec

/-! ## The packet ring -/

def TP_STATUS_VLAN_VALID : UInt32 := 0x10
def TP_STATUS_VLAN_TPID_VALID : UInt32 := 0x40

/-- `2 * ETH_ALEN`. -/
def ND_VLAN_OFFSET : Nat := 12

/-- An entry of the ring. The frame lies at `tp_mac`, with room for a tag in front of it that is
not part of `tpacket3_hdr`. -/
structure RingEntry where
  memory : Memory
  tpLen : UInt32
  tpSnaplen : UInt32
  tpMac : Nat
  tpStatus : UInt32 := 0
  tpVlanTci : UInt32 := 0
  tpVlanTpid : UInt16 := 0
  tpSec : UInt32 := 0
  tpNsec : UInt32 := 0
  captured : tpSnaplen ≤ tpLen
  reserved : 4 ≤ tpMac

/-- `bpf_filter` of the instructions, the packet, its length and its captured length. -/
abbrev BpfProgram := List UInt8 → UInt32 → UInt32 → UInt32

/-- `ndPacketRing::ApplyFilter`. -/
def applyFilter (filter : Option BpfProgram) (pkt : List UInt8) (length snaplen : UInt32) : Bool :=
  match filter with
  | some bfInsns => bfInsns pkt length snaplen = 0
  | none => false

namespace RingEntry

/-- The captured bytes of the frame. -/
def frame (e : RingEntry) : List UInt8 := slice e.memory e.tpMac e.tpSnaplen.toNat

/-- The kernel has stripped a tag. -/
def Stripped (e : RingEntry) : Prop :=
  e.tpVlanTci ≠ 0 ∨ e.tpStatus &&& TP_STATUS_VLAN_VALID ≠ 0

instance (e : RingEntry) : Decidable e.Stripped := inferInstanceAs (Decidable (_ ∨ _))

/-- It is put back. -/
def Restores (e : RingEntry) : Prop := e.Stripped ∧ ND_VLAN_OFFSET ≤ e.tpSnaplen.toNat

instance (e : RingEntry) : Decidable e.Restores := inferInstanceAs (Decidable (_ ∧ _))

/-- `ntohs(tag->vlan_tpid)`. -/
def vlanTpid (e : RingEntry) : UInt16 :=
  if e.tpVlanTpid ≠ 0 ∧ e.tpStatus &&& TP_STATUS_VLAN_TPID_VALID ≠ 0 then e.tpVlanTpid else 0x8100

/-- `ntohs(tag->vlan_tci)`. -/
def vlanTci (e : RingEntry) : UInt16 := e.tpVlanTci.toUInt16

/-- `tag`, as it is stored. -/
def tag (e : RingEntry) : List UInt8 := Frames.be e.vlanTpid.toNat ++ Frames.be e.vlanTci.toNat

/-- The memory after the hardware addresses were moved and the tag was written behind them. -/
def restored (e : RingEntry) : Memory :=
  let data := e.tpMac - 4
  let moved := store e.memory data (slice e.memory (data + 4) ND_VLAN_OFFSET)
  store moved (data + ND_VLAN_OFFSET) e.tag

/-- `data`, `tp_len`, `tp_snaplen` and `status` in front of the filter. The bytes at `data` are
those that are copied later. -/
def prepared (e : RingEntry) : List UInt8 × UInt32 × UInt32 × UInt8 :=
  if e.Restores then
    (slice e.restored (e.tpMac - 4) (e.tpSnaplen + 4).toNat, e.tpLen + 4, e.tpSnaplen + 4,
      NdPacket.STATUS_INIT ||| NdPacket.STATUS_VLAN_TAG_RESTORED)
  else (e.frame, e.tpLen, e.tpSnaplen, NdPacket.STATUS_INIT)

end RingEntry

/-- `ndPacketRing::CopyPacket`: the packet, and `status`. -/
def copyPacket (filter : Option BpfProgram) (e : RingEntry) (heap : Memory) :
    Option NdPacket × UInt8 :=
  let (data, tpLen, tpSnaplen, status) := e.prepared
  if applyFilter filter data tpLen tpSnaplen then (none, NdPacket.STATUS_FILTERED)
  else
    let pkt : NdPacket :=
      { status
        length := tpLen.toUInt16
        caplen := tpSnaplen.toUInt16
        data := slice (store heap 0 data) 0 tpSnaplen.toNat
        tvSec := e.tpSec.toNat
        tvUsec := e.tpNsec.toNat / 1000 }
    (some pkt, status ||| NdPacket.STATUS_OK)

/-! ## The netfilter queue -/

/-- `nfqnl_msg_packet_hw::hw_addr`. -/
structure HwAddr where
  bytes : List UInt8
  width : bytes.length = 8

/-- The attributes of a message, as far as the callback reads them. -/
structure NfqMessage where
  /-- `nfqnl_msg_packet_hdr::hw_protocol`, as it is stored. -/
  packetHdr : Option (UInt8 × UInt8)
  hwaddr : Option HwAddr := none
  payload : List UInt8
  /-- `ntohl` of the attribute. -/
  capLen : Option UInt32 := none
  timestamp : Option (Nat × Nat) := none
  room : payload.length < 65536
  captured : ∀ c ∈ capLen, payload.length ≤ c.toNat

/-- `sizeof(struct ether_header)`. -/
def ETHER_HDR_LEN : Nat := 14

/-- `sizeof(struct ether_addr)`. -/
def ETH_ALEN : Nat := 6

/-- `pkt_caplen`. -/
def NfqMessage.pktCaplen (m : NfqMessage) : UInt32 := m.capLen.getD (UInt32.ofNat m.payload.length)

/-- The packet that `ndCaptureNFQueue_Callback` pushes, or `MNL_CB_ERROR`; `now` is the time of
`gettimeofday`. -/
def nfqPacket (now : Nat × Nat) (m : NfqMessage) (heap : Memory) : Option NdPacket :=
  m.packetHdr.map fun hwProtocol =>
    let zeroed := store heap 0 (List.replicate ETH_ALEN 0)
    let typed := store zeroed 12 [hwProtocol.1, hwProtocol.2]
    let hdrEth :=
      match m.hwaddr with
      | some hwAddr => store typed 6 (hwAddr.bytes.take ETH_ALEN)
      | none => typed
    let pktData := store hdrEth ETHER_HDR_LEN m.payload
    let tv := m.timestamp.getD now
    { status := NdPacket.STATUS_OK
      length := m.pktCaplen.toUInt16
      caplen := UInt16.ofNat (ETHER_HDR_LEN + m.payload.length)
      data := slice pktData 0 (ETHER_HDR_LEN + m.payload.length)
      tvSec := tv.1
      tvUsec := tv.2 }

/-! ## Deliveries -/

/-- What a back end is handed, with what else it looks at. -/
inductive Delivery where
  | pcap (f : PcapFrame)
  | tpv3 (filter : Option BpfProgram) (e : RingEntry)
  | nfq (now : Nat × Nat) (m : NfqMessage)

namespace Delivery

/-- The packet that is built, if one is. -/
def build : Delivery → Memory → Option NdPacket
  | pcap f, heap => some (pcapPacket f heap)
  | tpv3 filter e, heap => (copyPacket filter e heap).1
  | nfq now m, heap => nfqPacket now m heap

/-- The length of the frame as it was sent, with the link header. -/
def wireLength : Delivery → Nat
  | pcap f => f.len.toNat
  | tpv3 _ e => e.tpLen.toNat + if e.Stripped then 4 else 0
  | nfq _ m => ETHER_HDR_LEN + (m.capLen.map UInt32.toNat).getD m.payload.length

/-- **A faithful descriptor**: the capture length is the size of the buffer, the wire length is that
of the frame, and what the heap has held before is not found in the buffer. -/
structure Faithful (d : Delivery) : Prop where
  caplen : ∀ heap, ∀ p ∈ d.build heap, p.caplen.toNat = p.data.length
  length : ∀ heap, ∀ p ∈ d.build heap, p.length.toNat = d.wireLength
  within : ∀ heap, ∀ p ∈ d.build heap, p.caplen ≤ p.length
  data : ∀ heap heap', (d.build heap).map NdPacket.data = (d.build heap').map NdPacket.data

/-- The frame is shorter than 64 KiB and, if a tag was stripped, long enough for it to be put back.
No message of a netfilter queue is whole unless it is refused. -/
def Whole : Delivery → Prop
  | pcap f => f.len.toNat < 65536
  | tpv3 filter e =>
    applyFilter filter e.prepared.1 e.prepared.2.1 e.prepared.2.2.1 = true ∨
      ((tpv3 filter e).wireLength < 65536 ∧ (e.Stripped → ND_VLAN_OFFSET ≤ e.tpSnaplen.toNat))
  | nfq _ m => m.packetHdr = none

/-! ## What is built -/

theorem toUInt16_eq_iff {n : UInt32} {len : Nat} (same : n.toNat = len) :
    n.toUInt16.toNat = len ↔ len < 65536 := by
  rw [UInt32.toNat_toUInt16, same]
  omega

/-- A buffer that is overwritten as a whole holds nothing of the heap. -/
theorem copied (heap : Memory) (bytes : List UInt8) :
    slice (store heap 0 bytes) 0 bytes.length = bytes := slice_store heap bytes 0

theorem pcap_faithful_iff (f : PcapFrame) : Faithful (pcap f) ↔ f.len.toNat < 65536 := by
  have within := f.captured
  have data : ∀ heap, (pcapPacket f heap).data = f.pktData := fun heap => copied heap _
  constructor
  · intro faithful
    exact (toUInt16_eq_iff rfl).mp (faithful.length (fun _ => 0) _ rfl)
  · intro short
    have caplen : (UInt16.ofNat f.pktData.length).toNat = f.pktData.length := by
      rw [UInt16.toNat_ofNat']
      omega
    have length : f.len.toUInt16.toNat = f.len.toNat := (toUInt16_eq_iff rfl).mpr short
    refine ⟨?_, ?_, ?_, fun heap heap' => ?_⟩
    · rintro heap p ⟨⟩
      rw [data]
      exact caplen
    · rintro heap p ⟨⟩
      exact length
    · rintro heap p ⟨⟩
      rw [UInt16.le_iff_toNat_le]
      show (UInt16.ofNat _).toNat ≤ f.len.toUInt16.toNat
      rw [caplen, length]
      exact within
    · show some (pcapPacket f heap).data = some (pcapPacket f heap').data
      rw [data, data]

end Delivery

namespace RingEntry

/-- The frame as it is copied. -/
theorem prepared_length (e : RingEntry) : e.prepared.1.length = e.prepared.2.2.1.toNat := by
  unfold prepared
  split <;> exact slice_length _ _ _

end RingEntry

namespace Delivery

/-- What the ring builds of a frame that the filter accepts. -/
theorem tpv3_build {filter : Option BpfProgram} {e : RingEntry}
    (accepted : ¬ applyFilter filter e.prepared.1 e.prepared.2.1 e.prepared.2.2.1 = true)
    (heap : Memory) :
    (tpv3 filter e).build heap = some
      { status := e.prepared.2.2.2
        length := e.prepared.2.1.toUInt16
        caplen := e.prepared.2.2.1.toUInt16
        data := e.prepared.1
        tvSec := e.tpSec.toNat
        tvUsec := e.tpNsec.toNat / 1000 } := by
  show (copyPacket filter e heap).1 = _
  unfold copyPacket
  simp only [if_neg accepted, ← e.prepared_length, copied]

/-- The lengths of a frame that is shorter than 64 KiB. -/
theorem prepared_lengths {filter : Option BpfProgram} {e : RingEntry}
    (short : (tpv3 filter e).wireLength < 65536)
    (long : e.Stripped → ND_VLAN_OFFSET ≤ e.tpSnaplen.toNat) :
    e.prepared.2.1.toNat = (tpv3 filter e).wireLength ∧
      e.prepared.2.2.1.toNat ≤ (tpv3 filter e).wireLength := by
  have within := UInt32.le_iff_toNat_le.mp e.captured
  simp only [wireLength] at short ⊢
  unfold RingEntry.prepared
  by_cases stripped : e.Stripped
  · rw [if_pos stripped] at short ⊢
    rw [if_pos ⟨stripped, long stripped⟩]
    simp only [UInt32.toNat_add, UInt32.reduceToNat]
    omega
  · rw [if_neg stripped] at short ⊢
    rw [if_neg fun restores => stripped restores.1]
    exact ⟨rfl, within⟩

theorem tpv3_faithful_iff (filter : Option BpfProgram) (e : RingEntry) :
    Faithful (tpv3 filter e) ↔ Whole (tpv3 filter e) := by
  by_cases refused : applyFilter filter e.prepared.1 e.prepared.2.1 e.prepared.2.2.1 = true
  · have none_ : ∀ heap, (tpv3 filter e).build heap = none := fun heap => by
      show (copyPacket filter e heap).1 = none
      unfold copyPacket
      simp only [if_pos refused]
    refine iff_of_true ⟨?_, ?_, ?_, fun heap heap' => ?_⟩ (.inl refused)
    · intro heap p built
      cases (none_ heap).symm.trans built
    · intro heap p built
      cases (none_ heap).symm.trans built
    · intro heap p built
      cases (none_ heap).symm.trans built
    · rw [none_, none_]
  · have built := tpv3_build refused
    constructor
    · intro faithful
      have length := faithful.length (fun _ => 0) _ (built _)
      simp only [UInt32.toNat_toUInt16] at length
      have short : (tpv3 filter e).wireLength < 65536 := by
        rw [← length]
        exact Nat.mod_lt _ (by decide)
      refine .inr ⟨short, fun stripped => ?_⟩
      by_contra early
      simp only [wireLength, if_pos stripped] at length short
      unfold RingEntry.prepared at length
      rw [if_neg fun restores => early restores.2] at length
      simp only at length
      omega
    · rintro (accepted | ⟨short, long⟩)
      · exact absurd accepted refused
      obtain ⟨length, caplen⟩ := prepared_lengths short long
      have narrow : e.prepared.2.1.toUInt16.toNat = (tpv3 filter e).wireLength :=
        (toUInt16_eq_iff length).mpr short
      have capNarrow : e.prepared.2.2.1.toUInt16.toNat = e.prepared.2.2.1.toNat :=
        (toUInt16_eq_iff rfl).mpr (Nat.lt_of_le_of_lt caplen short)
      refine ⟨?_, ?_, ?_, fun heap heap' => by rw [built, built]⟩
      · intro heap p found
        cases (built heap).symm.trans found
        exact capNarrow.trans e.prepared_length.symm
      · intro heap p found
        cases (built heap).symm.trans found
        exact narrow
      · intro heap p found
        cases (built heap).symm.trans found
        rw [UInt16.le_iff_toNat_le]
        show e.prepared.2.2.1.toUInt16.toNat ≤ e.prepared.2.1.toUInt16.toNat
        rw [capNarrow, narrow]
        exact caplen

/-- No descriptor of a netfilter queue has the length of the frame. -/
theorem nfq_faithful_iff (now : Nat × Nat) (m : NfqMessage) :
    Faithful (nfq now m) ↔ m.packetHdr = none := by
  constructor
  · intro faithful
    by_contra some_
    obtain ⟨hwProtocol, header⟩ := Option.ne_none_iff_exists'.mp some_
    obtain ⟨p, built⟩ : ∃ p, (nfq now m).build (fun _ => 0) = some p := by
      show ∃ p, nfqPacket now m _ = some p
      unfold nfqPacket
      rw [header]
      exact ⟨_, rfl⟩
    have length := faithful.length _ p built
    have cut : p.length = m.pktCaplen.toUInt16 := by
      have whole : nfqPacket now m (fun _ => 0) = some p := built
      unfold nfqPacket at whole
      rw [header] at whole
      cases whole
      rfl
    have told : m.pktCaplen.toNat = (m.capLen.map UInt32.toNat).getD m.payload.length := by
      have room := m.room
      unfold NfqMessage.pktCaplen
      cases m.capLen with
      | some c => rfl
      | none =>
        show (UInt32.ofNat _).toNat = _
        rw [UInt32.toNat_ofNat']
        show _ % 2 ^ 32 = m.payload.length
        omega
    rw [cut, UInt32.toNat_toUInt16, told] at length
    simp only [wireLength, ETHER_HDR_LEN] at length
    omega
  · intro refused
    have none_ : ∀ heap, (nfq now m).build heap = none := fun heap => by
      show m.packetHdr.map _ = none
      rw [refused]
      rfl
    refine ⟨?_, ?_, ?_, fun heap heap' => by rw [none_, none_]⟩
    · intro heap p built
      cases (none_ heap).symm.trans built
    · intro heap p built
      cases (none_ heap).symm.trans built
    · intro heap p built
      cases (none_ heap).symm.trans built

/-- **Which descriptors are faithful.** -/
theorem faithful_iff (d : Delivery) : Faithful d ↔ Whole d := by
  cases d with
  | pcap f => exact pcap_faithful_iff f
  | tpv3 filter e => exact tpv3_faithful_iff filter e
  | nfq now m => exact nfq_faithful_iff now m

/-- A message with a payload of 20 bytes and no hardware address. -/
def bareMessage : NfqMessage where
  packetHdr := some (0x08, 0x00)
  payload := List.replicate 20 0x45
  room := by decide
  captured := by simp

/-- Its capture length is larger than its wire length, and its header holds what the heap held. -/
theorem bareMessage_unfaithful : ¬ Faithful (nfq (0, 0) bareMessage) ∧
    (∀ heap, ((nfq (0, 0) bareMessage).build heap).map (fun p => (p.caplen, p.length)) =
      some (34, 20)) ∧
    ((nfq (0, 0) bareMessage).build fun _ => 0).map NdPacket.data ≠
      ((nfq (0, 0) bareMessage).build fun _ => 1).map NdPacket.data := by
  refine ⟨fun faithful => ?_, fun _ => rfl, by decide⟩
  have within := faithful.within (fun _ => 0) _ rfl
  exact absurd within (by decide)

end Delivery

end NetifyAgent
