import NetifyAgent.PacketRing
import NetifyAgent.VlanRestoration

/-! What the packet ring hands over. Whatever the kernel and the capture thread do in
turn, `ProcessPacket` is called with the frames the kernel has handed over, each once
and in order, but for those that the filter rejects and that are counted. -/
namespace NetifyAgent
open Bytes RingBuffer Runs

/-! ## Frames -/

namespace RingFrame
variable (f : RingFrame)

/-- The kernel has stripped a tag, and there is room to put it back. -/
def Tagged : Prop :=
  (f.vlanTci ≠ 0 ∨ f.status &&& TP_STATUS_VLAN_VALID ≠ 0) ∧ ND_VLAN_OFFSET ≤ f.bytes.length

instance : Decidable f.Tagged := inferInstanceAs (Decidable (_ ∧ _))

/-- The bytes of the tag. -/
def tag : List UInt8 :=
  let tpid :=
    if f.vlanTpid ≠ 0 ∧ f.status &&& TP_STATUS_VLAN_TPID_VALID ≠ 0 then f.vlanTpid else 0x8100
  Frames.be tpid.toNat ++ Frames.be f.vlanTci.toUInt16.toNat

/-- The frame as it was on the wire. -/
def wire : List UInt8 :=
  if f.Tagged then f.bytes.take 12 ++ (f.tag ++ f.bytes.drop 12) else f.bytes

/-- Its length there. -/
def wireLen : UInt32 := if f.Tagged then f.len + 4 else f.len

/-- The filter rejects the frame. -/
def Rejected (filter : Option BpfProgram) : Prop :=
  applyFilter filter f.wire f.wireLen (UInt32.ofNat f.wire.length) = true

instance (filter : Option BpfProgram) : Decidable (f.Rejected filter) :=
  inferInstanceAs (Decidable (_ = true))

/-- The packet that is made of the frame, unless the filter rejects it. -/
def packet (filter : Option BpfProgram) : Option NdPacket :=
  if f.Rejected filter then none
  else some {
    status := if f.Tagged then NdPacket.STATUS_VLAN_TAG_RESTORED else NdPacket.STATUS_INIT
    length := f.wireLen.toUInt16
    caplen := (UInt32.ofNat f.wire.length).toUInt16
    data := f.wire
    tvSec := f.sec.toNat
    tvUsec := f.nsec.toNat / 1000 }

/-- What is counted of the frame when it is copied. -/
def count (filter : Option BpfProgram) (stats : NdPacketStats) : NdPacketStats :=
  if f.Rejected filter then
    { stats with
      pkt := { stats.pkt with
        captureFiltered := stats.pkt.captureFiltered + 1
        discard := stats.pkt.discard + 1
        discardBytes := stats.pkt.discardBytes + UInt64.ofNat f.bytes.length } }
  else stats

end RingFrame

/-- The kernel has written the frame at an offset of a block, behind a header and room
for a tag. -/
structure EntryIs (m : Memory) (off : Nat) (f : RingFrame) : Prop where
  sec : le32 m (off + 4) = f.sec.toNat
  nsec : le32 m (off + 8) = f.nsec.toNat
  snaplen : le32 m (off + 12) = f.bytes.length
  len : le32 m (off + 16) = f.len.toNat
  status : le32 m (off + 20) = f.status.toNat
  mac : 52 ≤ le16 m (off + 24)
  tci : le32 m (off + 32) = f.vlanTci.toNat
  tpid : le16 m (off + 36) = f.vlanTpid.toNat
  frame : slice m (off + le16 m (off + 24)) f.bytes.length = f.bytes
  captured : f.bytes.length ≤ f.len.toNat
  small : f.bytes.length + 4 < 2 ^ 32

/-- The frames lie one behind the other from an offset on, each as far on as the header
of the one in front says. -/
def Laid (m : Memory) : Nat → List RingFrame → Prop
  | _, [] => True
  | off, f :: rest =>
    EntryIs m off f ∧ (rest ≠ [] → le16 m (off + 24) + f.bytes.length ≤ le32 m off) ∧
      Laid m (off + le32 m off) rest

instance (m : Memory) (off : Nat) (f : RingFrame) : Decidable (EntryIs m off f) :=
  decidable_of_iff (le32 m (off + 4) = f.sec.toNat ∧ le32 m (off + 8) = f.nsec.toNat ∧
      le32 m (off + 12) = f.bytes.length ∧ le32 m (off + 16) = f.len.toNat ∧
      le32 m (off + 20) = f.status.toNat ∧ 52 ≤ le16 m (off + 24) ∧
      le32 m (off + 32) = f.vlanTci.toNat ∧ le16 m (off + 36) = f.vlanTpid.toNat ∧
      slice m (off + le16 m (off + 24)) f.bytes.length = f.bytes ∧
      f.bytes.length ≤ f.len.toNat ∧ f.bytes.length + 4 < 2 ^ 32)
    ⟨fun ⟨a, b, c, d, e, g, h, i, j, k, l⟩ => ⟨a, b, c, d, e, g, h, i, j, k, l⟩,
      fun ⟨a, b, c, d, e, g, h, i, j, k, l⟩ => ⟨a, b, c, d, e, g, h, i, j, k, l⟩⟩

instance laidDecidable (m : Memory) :
    ∀ (off : Nat) (frames : List RingFrame), Decidable (Laid m off frames)
  | _, [] => .isTrue trivial
  | off, f :: rest =>
    have := laidDecidable m (off + le32 m off) rest
    inferInstanceAs (Decidable (EntryIs m off f ∧
      (rest ≠ [] → le16 m (off + 24) + f.bytes.length ≤ le32 m off) ∧
      Laid m (off + le32 m off) rest))

section
variable {m m' : Memory} {off : Nat} {f : RingFrame}

theorem le32_congr {off' : Nat} (same : ∀ i < 4, m (off + i) = m' (off' + i)) :
    le32 m off = le32 m' off' := by
  have first := le16_congr (same 0 (by omega)) (same 1 (by omega))
  have second := @le16_congr m m' (off + 2) (off' + 2)
    (same 2 (by omega)) (same 3 (by omega))
  simp only [le32, first, second, Nat.add_zero] at *

theorem EntryIs.congr (entry : EntryIs m off f) (same : ∀ i, off ≤ i → m' i = m i) :
    EntryIs m' off f := by
  have word (k : Nat) : le32 m' (off + k) = le32 m (off + k) :=
    le32_congr fun i _ => same _ (by omega)
  have half (k : Nat) : le16 m' (off + k) = le16 m (off + k) :=
    le16_congr (same _ (by omega)) (same _ (by omega))
  obtain ⟨sec, nsec, snaplen, len, status, mac, tci, tpid, frame, captured, small⟩ := entry
  refine ⟨?_, ?_, ?_, ?_, ?_, ?_, ?_, ?_, ?_, captured, small⟩
  any_goals rwa [word]
  any_goals rwa [half]
  rw [half, slice_congr fun i _ => same _ (by omega)]
  exact frame

theorem Laid.congr {frames : List RingFrame} (laid : Laid m off frames)
    (same : ∀ i, off ≤ i → m' i = m i) : Laid m' off frames := by
  induction frames generalizing off with
  | nil => trivial
  | cons f rest ih =>
    obtain ⟨entry, room, later⟩ := laid
    have next : le32 m' off = le32 m off := le32_congr fun i _ => same _ (by omega)
    have mac : le16 m' (off + 24) = le16 m (off + 24) :=
      le16_congr (same _ (by omega)) (same _ (by omega))
    refine ⟨entry.congr same, ?_, ?_⟩
    · rwa [mac, next]
    · rw [next]
      exact ih later fun i behind => same i (by omega)

/-- What the header says of an entry. -/
structure Reads (e : RingEntry) (f : RingFrame) : Prop where
  frame : e.frame = f.bytes
  snaplen : e.tpSnaplen.toNat = f.bytes.length
  len : e.tpLen = f.len
  status : e.tpStatus = f.status
  tci : e.tpVlanTci = f.vlanTci
  tpid : e.tpVlanTpid = f.vlanTpid
  sec : e.tpSec = f.sec
  nsec : e.tpNsec = f.nsec

theorem EntryIs.reads (entry : EntryIs m off f) :
    ∃ e, entryAt m off = some e ∧ Reads e f ∧ e.tpMac = le16 m (off + 24) ∧
      e.memory = fun i => m (off + i) := by
  have short : (UInt32.ofNat f.bytes.length).toNat = f.bytes.length := by
    rw [UInt32.toNat_ofNat']
    have := entry.small
    omega
  have sane : UInt32.ofNat (le32 m (off + 12)) ≤ UInt32.ofNat (le32 m (off + 16)) ∧
      4 ≤ le16 m (off + 24) := by
    refine ⟨?_, by have := entry.mac; omega⟩
    rw [entry.snaplen, entry.len, UInt32.le_iff_toNat_le, short, UInt32.ofNat_toNat]
    exact entry.captured
  refine ⟨_, dif_pos sane, ?_, rfl, rfl⟩
  constructor
  · show slice (fun i => m (off + i)) (le16 m (off + 24))
      (UInt32.ofNat (le32 m (off + 12))).toNat = _
    have here : slice (fun i => m (off + i)) (le16 m (off + 24)) f.bytes.length =
        slice m (off + le16 m (off + 24)) f.bytes.length :=
      slice_congr fun i _ => by rw [Nat.add_assoc]
    rw [entry.snaplen, short, here, entry.frame]
  · show (UInt32.ofNat (le32 m (off + 12))).toNat = _
    rw [entry.snaplen, short]
  · show UInt32.ofNat (le32 m (off + 16)) = _
    rw [entry.len, UInt32.ofNat_toNat]
  · show UInt32.ofNat (le32 m (off + 20)) = _
    rw [entry.status, UInt32.ofNat_toNat]
  · show UInt32.ofNat (le32 m (off + 32)) = _
    rw [entry.tci, UInt32.ofNat_toNat]
  · show UInt16.ofNat (le16 m (off + 36)) = _
    rw [entry.tpid, UInt16.ofNat_toNat]
  · show UInt32.ofNat (le32 m (off + 4)) = _
    rw [entry.sec, UInt32.ofNat_toNat]
  · show UInt32.ofNat (le32 m (off + 8)) = _
    rw [entry.nsec, UInt32.ofNat_toNat]

end

section
variable {e : RingEntry} {f : RingFrame} (reads : Reads e f)
include reads

theorem Reads.restores_tagged : e.Restores ↔ f.Tagged := by
  unfold RingEntry.Restores RingEntry.Stripped RingFrame.Tagged
  rw [reads.tci, reads.status, reads.snaplen]

theorem Reads.tag : e.tag = f.tag := by
  unfold RingEntry.tag RingEntry.vlanTpid RingEntry.vlanTci RingFrame.tag
  rw [reads.tpid, reads.status, reads.tci]

theorem Reads.prepared (small : f.bytes.length + 4 < 2 ^ 32) :
    e.prepared = (f.wire, f.wireLen, UInt32.ofNat f.wire.length,
      if f.Tagged then NdPacket.STATUS_VLAN_TAG_RESTORED else NdPacket.STATUS_INIT) := by
  have snaplen : e.tpSnaplen = UInt32.ofNat f.bytes.length := by
    rw [← reads.snaplen, UInt32.ofNat_toNat]
  unfold RingEntry.prepared RingFrame.wire RingFrame.wireLen
  by_cases tagged : f.Tagged
  · have long : ND_VLAN_OFFSET ≤ e.tpSnaplen.toNat := by
      rw [reads.snaplen]
      exact tagged.2
    have grown : (e.tpSnaplen + 4).toNat = e.tpSnaplen.toNat + 4 := by
      rw [UInt32.toNat_add, reads.snaplen]
      show (f.bytes.length + 4) % 2 ^ 32 = _
      omega
    have width : (f.bytes.take 12 ++ (f.tag ++ f.bytes.drop 12)).length = f.bytes.length + 4 := by
      have := tagged.2
      have tag : f.tag.length = 4 := by rw [← reads.tag, RingEntry.tag_length]
      simp only [ND_VLAN_OFFSET] at this
      simp only [List.length_append, List.length_take, List.length_drop, tag]
      omega
    rw [if_pos (reads.restores_tagged.mpr tagged), if_pos tagged, if_pos tagged, if_pos tagged, grown,
      RingEntry.slice_restored long, reads.frame, reads.tag, reads.len, width]
    refine Prod.ext rfl (Prod.ext rfl (Prod.ext ?_ rfl))
    rw [← UInt32.toNat_inj, grown, reads.snaplen, UInt32.toNat_ofNat']
    omega
  · rw [if_neg fun restores => tagged (reads.restores_tagged.mp restores), if_neg tagged,
      if_neg tagged, if_neg tagged, reads.frame, reads.len, snaplen]

/-- `CopyPacket` makes the packet of the frame, whatever `new` returns. -/
theorem Reads.copyPacket (small : f.bytes.length + 4 < 2 ^ 32) (filter : Option BpfProgram)
    (heap : Memory) : (copyPacket filter e heap).1 = f.packet filter := by
  unfold NetifyAgent.copyPacket RingFrame.packet
  rw [reads.prepared small]
  by_cases rejected : f.Rejected filter
  · rw [if_pos rejected]
    simp only [if_pos (show applyFilter filter f.wire _ _ = true from rejected)]
  · have width : (UInt32.ofNat f.wire.length).toNat = f.wire.length := by
      have same := e.prepared_length
      rw [reads.prepared small] at same
      exact same.symm
    rw [if_neg rejected]
    simp only [if_neg (show ¬ applyFilter filter f.wire _ _ = true from rejected)]
    rw [width, slice_store, reads.sec, reads.nsec]

/-- What is counted of the status it leaves. -/
theorem Reads.countStatus (small : f.bytes.length + 4 < 2 ^ 32) (filter : Option BpfProgram)
    (heap : Memory) (stats : NdPacketStats) :
    countStatus (NetifyAgent.copyPacket filter e heap).2 f.bytes.length stats =
      f.count filter stats := by
  unfold NetifyAgent.copyPacket RingFrame.count
  rw [reads.prepared small]
  by_cases rejected : f.Rejected filter
  · rw [if_pos rejected]
    simp only [if_pos (show applyFilter filter f.wire _ _ = true from rejected)]
    rfl
  · rw [if_neg rejected]
    simp only [if_neg (show ¬ applyFilter filter f.wire _ _ = true from rejected)]
    split <;> rfl

end

/-- A tag is put back into the room in front of the frame and over its addresses. -/
theorem afterCopy_same {m : Memory} {off : Nat} {f : RingFrame} {e : RingEntry} (reads : Reads e f)
    (mac : 52 ≤ e.tpMac) (whole : e.memory = fun i => m (off + i)) {i : Nat}
    (beside : i < off + 48 ∨ off + (e.tpMac + f.bytes.length) ≤ i) :
    afterCopy m off e i = m i := by
  unfold afterCopy
  split
  · rename_i restores
    have long := restores.2
    rw [reads.snaplen] at long
    simp only [ND_VLAN_OFFSET] at long
    show (if off ≤ i then e.restored (i - off) else m i) = m i
    split
    · rename_i behind
      have outside : i - off < e.tpMac - 4 ∨ e.tpMac + 12 ≤ i - off := by omega
      simp only [RingEntry.restored, ND_VLAN_OFFSET]
      rw [store_outside _ _ (by rw [RingEntry.tag_length]; omega),
        store_outside _ _ (by rw [slice_length]; omega), whole]
      simp only
      congr 1
      omega
    · rfl
  · rfl

/-- The packets of frames. -/
def packets (filter : Option BpfProgram) (frames : List RingFrame) : List NdPacket :=
  frames.filterMap fun f => f.packet filter

theorem packets_cons (filter : Option BpfProgram) (f : RingFrame) (rest : List RingFrame) :
    packets filter (f :: rest) = (f.packet filter).toList ++ packets filter rest := by
  unfold packets
  rw [List.filterMap_cons]
  cases f.packet filter <;> rfl

theorem packets_append (filter : Option BpfProgram) (a b : List RingFrame) :
    packets filter (a ++ b) = packets filter a ++ packets filter b := List.filterMap_append

/-- What is counted of frames that are copied. -/
def tally (filter : Option BpfProgram) (frames : List RingFrame) (stats : NdPacketStats) :
    NdPacketStats :=
  frames.foldl (fun stats f => f.count filter stats) stats

/-- **A block** is copied frame by frame: the queue gets the packets of its frames. -/
theorem processPackets_spec (filter : Option BpfProgram) (heap : Memory) {frames : List RingFrame}
    {off : Nat} {s : Copying} (laid : Laid s.memory off frames) :
    ∃ memory, processPackets filter heap frames.length off s =
      some ⟨memory, tally filter frames s.stats,
        s.pktQueue ++ packets filter frames⟩ := by
  induction frames generalizing off s with
  | nil => exact ⟨s.memory, by simp [processPackets, tally, packets]⟩
  | cons f rest ih =>
    obtain ⟨entry, room, later⟩ := laid
    obtain ⟨e, found, reads, mac, whole⟩ := entry.reads
    have bound := entry.mac
    rw [← mac] at bound room
    have same {i : Nat} (beside : i < off + 48 ∨ off + (e.tpMac + f.bytes.length) ≤ i) :
        afterCopy s.memory off e i = s.memory i := afterCopy_same reads bound whole beside
    have next : le32 (afterCopy s.memory off e) off = le32 s.memory off :=
      le32_congr fun i _ => same (by omega)
    have snaplen : le32 (afterCopy s.memory off e) (off + 12) = f.bytes.length := by
      rw [← entry.snaplen]
      exact le32_congr fun i _ => same (by omega)
    have laid : Laid (afterCopy s.memory off e) (off + le32 s.memory off) rest := by
      cases rest with
      | nil => trivial
      | cons g rest =>
        have fits := room (List.cons_ne_nil g rest)
        exact later.congr fun i behind => same (by omega)
    obtain ⟨memory, copied⟩ := ih (s := ⟨afterCopy s.memory off e, f.count filter s.stats,
      s.pktQueue ++ (f.packet filter).toList⟩) laid
    refine ⟨memory, ?_⟩
    rw [List.length_cons, processPackets]
    simp only [found, Option.bind_eq_bind, Option.bind_some, reads.copyPacket entry.small, next,
      snaplen, reads.countStatus entry.small, copied]
    rw [List.append_assoc, ← packets_cons]
    rfl

/-! ## Runs -/

/-- The block, if the kernel has handed it over. -/
def RingBlock.full (b : RingBlock) : Option RingBlock :=
  if b.blockStatus &&& TP_STATUS_USER ≠ 0 then some b else none

/-- The frames lie in the block as its descriptor says. -/
def RingBlock.Carries (b : RingBlock) (frames : List RingFrame) : Prop :=
  b.numPkts = frames.length ∧ Laid b.memory b.offsetToFirstPkt frames

instance (b : RingBlock) (frames : List RingFrame) : Decidable (b.Carries frames) :=
  inferInstanceAs (Decidable (_ ∧ _))

namespace RingThread

/-- The kernel hands over no block but one it has filled. -/
def Kernel (_ : RingThread) : Action → Prop
  | .close block frames => block.blockStatus &&& TP_STATUS_USER ≠ 0 ∧ block.Carries frames
  | _ => True

instance : DecidableRel Kernel
  | _, .close block frames => inferInstanceAs (Decidable (_ ∧ block.Carries frames))
  | _, .next | _, .process | _, .release | _, .hand _ => .isTrue trivial

/-- The blocks in the ring whose frames have not been copied. -/
def uncopied (t : RingThread) (items : List (RingBlock × List RingFrame)) :
    List (RingBlock × List RingFrame) :=
  match t.phase with
  | .processed _ => items.tail
  | _ => items

/-- Where the thread stands when the oldest block in the ring is at `base`. -/
def Stands (t : RingThread) (base : Nat) (items : List (RingBlock × List RingFrame)) : Prop :=
  match t.phase with
  | .next entry | .processed entry =>
    entry = base ∧ t.ring.itBlock = behind t.ring.blocks.length base ∧ items ≠ []
  | _ => t.ring.itBlock = base

/-- The ring is a queue of blocks, and what was copied out of them was handed over or is
about to be. -/
structure Flowing (filter : Option BpfProgram) (t : RingThread) (base : Nat)
    (items : List (RingBlock × List RingFrame)) (consumed : List RingFrame) : Prop where
  holds : Holds (t.ring.blocks.map RingBlock.full) base (items.map Prod.fst)
  kernelAt : t.kernelAt = (base + items.length) % t.ring.blocks.length
  stands : t.Stands base items
  carried : ∀ x ∈ t.uncopied items, x.1.Carries x.2
  published : t.published = consumed ++ (t.uncopied items).flatMap Prod.snd
  copied : packets filter consumed = t.handed ++ t.pktQueue
  counted : t.stats = tally filter consumed {}
  empty : t.phase = .idle ∨ (∃ entry, t.phase = .next entry) → t.pktQueue = []

theorem flowing_start (filter : Option BpfProgram) {size : Nat} (positive : 0 < size) :
    Flowing filter (start size) 0 [] [] where
  holds := by
    simp only [start, List.map_replicate]
    exact holds_free positive
  kernelAt := by simp [start]
  stands := rfl
  carried := fun _ here => absurd here List.not_mem_nil
  published := rfl
  copied := rfl
  counted := rfl
  empty _ := rfl

section
variable {filter : Option BpfProgram} {heap : Memory} {t t' : RingThread} {base : Nat}
  {items : List (RingBlock × List RingFrame)} {consumed : List RingFrame}

/-- A block of the ring, and whether it is full. -/
theorem full_getElem {blocks : List RingBlock} {i : Nat} {b : RingBlock}
    (here : blocks[i]? = some b) : (blocks.map RingBlock.full)[i]? = some b.full := by
  rw [List.getElem?_map, here]
  rfl

/-- The oldest block, if it is full. -/
theorem Flowing.front (flowing : Flowing filter t base items consumed) {b : RingBlock}
    (here : t.ring.blocks[base]? = some b) (full : b.blockStatus &&& TP_STATUS_USER ≠ 0) :
    ∃ frames rest, items = (b, frames) :: rest := by
  have first := flowing.holds.front
  rw [full_getElem here, RingBlock.full, if_pos full] at first
  have first := Option.some.inj first
  cases items with
  | nil => cases first
  | cons x rest =>
    obtain ⟨block, frames⟩ := x
    obtain rfl := Option.some.inj first
    exact ⟨frames, rest, rfl⟩

/-- The oldest block is in its place. -/
theorem Flowing.oldest {b : RingBlock} {frames : List RingFrame}
    {rest : List (RingBlock × List RingFrame)}
    (flowing : Flowing filter t base ((b, frames) :: rest) consumed) :
    t.ring.blocks[base]? = some b ∧ b.blockStatus &&& TP_STATUS_USER ≠ 0 := by
  have first := flowing.holds.front
  rw [List.getElem?_map] at first
  cases here : t.ring.blocks[base]? with
  | none => rw [here] at first; cases first
  | some block =>
    rw [here] at first
    have full : block.full = some b := Option.some.inj first
    unfold RingBlock.full at full
    split at full
    · rename_i user
      obtain rfl := Option.some.inj full
      exact ⟨rfl, user⟩
    · cases full

theorem Flowing.close (flowing : Flowing filter t base items consumed) {block : RingBlock}
    {frames : List RingFrame} (kernel : Kernel t (.close block frames))
    (taken : t.step filter heap (.close block frames) = some t') :
    Flowing filter t' base (items ++ [(block, frames)]) consumed := by
  obtain ⟨user, carries⟩ := kernel
  obtain ⟨holds, kernelAt, stands, carried, published, copied, counted, empty⟩ := flowing
  simp only [step] at taken
  split at taken
  · rename_i old here
    split at taken
    · rename_i kept
      obtain rfl := Option.some.inj taken
      have size : (t.ring.blocks.map RingBlock.full).length = t.ring.blocks.length :=
        List.length_map _
      have count : (items.map Prod.fst).length = items.length := List.length_map _
      have free : old.full = none := by
        rw [RingBlock.full, kept]
        rfl
      have room := holds.free_iff.mp (by
        rw [size, count, ← kernelAt, full_getElem here, free])
      have pushed := holds.push room block
      rw [size, count, ← kernelAt] at pushed
      have uncopied : t.uncopied (items ++ [(block, frames)]) =
          t.uncopied items ++ [(block, frames)] := by
        unfold RingThread.uncopied
        split
        · rename_i entry phase
          unfold Stands at stands
          rw [phase] at stands
          exact List.tail_append_of_ne_nil stands.2.2
        · rfl
      constructor
      · simp only [List.map_set, List.map_append, List.map_cons, List.map_nil]
        rwa [show block.full = some block from if_pos user]
      · simp only [List.length_set, List.length_append, List.length_singleton]
        have inside : t.kernelAt < t.ring.blocks.length := (List.getElem?_eq_some_iff.mp here).1
        rw [behind_eq inside, kernelAt, Nat.mod_add_mod, Nat.add_assoc]
      · unfold Stands at stands ⊢
        cases phase : t.phase <;> simp only [phase, List.length_set] at stands ⊢
        case next => exact ⟨stands.1, stands.2.1, by simp⟩
        case processed => exact ⟨stands.1, stands.2.1, by simp⟩
        all_goals exact stands
      · show ∀ x ∈ t.uncopied (items ++ [(block, frames)]), _
        rw [uncopied]
        intro x here
        rcases List.mem_append.mp here with earlier | last
        · exact carried x earlier
        · obtain rfl := List.mem_singleton.mp last
          exact carries
      · show t.published ++ frames = consumed ++ (t.uncopied _).flatMap Prod.snd
        rw [uncopied, List.flatMap_append, published, List.append_assoc]
        simp
      · exact copied
      · exact counted
      · exact empty
    · cases taken
  · cases taken

theorem Flowing.next (flowing : Flowing filter t base items consumed)
    (taken : t.step filter heap .next = some t') : Flowing filter t' base items consumed := by
  simp only [step] at taken
  split at taken
  · rename_i idle
    have place : t.ring.itBlock = base := by
      have stands := flowing.stands
      unfold Stands at stands
      rwa [idle] at stands
    unfold PacketRing.next at taken
    rw [place] at taken
    cases here : t.ring.blocks[base]? with
    | none =>
      rw [here] at taken
      obtain rfl := Option.some.inj taken
      exact flowing
    | some block =>
      by_cases user : block.blockStatus &&& TP_STATUS_USER ≠ 0
      · rw [here] at taken
        simp only [if_pos user] at taken
        obtain rfl := Option.some.inj taken
        obtain ⟨frames, rest, rfl⟩ := flowing.front here user
        have pending : t.uncopied ((block, frames) :: rest) = (block, frames) :: rest := by
          unfold RingThread.uncopied
          rw [idle]
        have empty := flowing.empty (.inl idle)
        obtain ⟨holds, kernelAt, -, carried, published, copied, counted, -⟩ := flowing
        rw [pending] at carried published
        exact ⟨holds, kernelAt, ⟨rfl, rfl, List.cons_ne_nil _ _⟩, carried, published, copied,
          counted, fun _ => empty⟩
      · rw [here] at taken
        simp only [if_neg user] at taken
        obtain rfl := Option.some.inj taken
        exact flowing
  · cases taken

theorem Flowing.process (flowing : Flowing filter t base items consumed)
    (taken : t.step filter heap .process = some t') :
    ∃ items' consumed', Flowing filter t' base items' consumed' := by
  simp only [step] at taken
  split at taken
  · rename_i entry phase
    have stands := flowing.stands
    unfold Stands at stands
    rw [phase] at stands
    obtain ⟨rfl, next, nonempty⟩ := stands
    obtain ⟨⟨block, frames⟩, rest, rfl⟩ := List.exists_cons_of_ne_nil nonempty
    obtain ⟨here, user⟩ := flowing.oldest
    have pending : t.uncopied ((block, frames) :: rest) = (block, frames) :: rest := by
      unfold RingThread.uncopied
      rw [phase]
    have empty := flowing.empty (.inr ⟨entry, phase⟩)
    obtain ⟨holds, kernelAt, -, carried, published, copied, counted, -⟩ := flowing
    rw [pending] at carried published
    obtain ⟨count, laid⟩ := carried _ List.mem_cons_self
    simp only at count laid
    obtain ⟨memory, done⟩ := processPackets_spec filter heap (s := ⟨block.memory, t.stats,
      t.pktQueue⟩) laid
    rw [← count] at done
    rw [here, Option.bind_eq_bind, Option.bind_some, done, Option.bind_eq_bind,
      Option.bind_some] at taken
    obtain rfl := Option.some.inj taken
    refine ⟨({ block with memory := memory }, frames) :: rest, consumed ++ frames, ?_⟩
    constructor
    · simp only [List.map_set]
      rw [show RingBlock.full { block with memory := memory } = some { block with memory := memory }
        from if_pos user]
      exact holds.exchange _
    · simpa using kernelAt
    · refine ⟨rfl, ?_, List.cons_ne_nil _ _⟩
      simpa using next
    · exact fun x later => carried x (List.mem_cons_of_mem _ later)
    · show t.published = consumed ++ frames ++ rest.flatMap Prod.snd
      rw [published, List.flatMap_cons, List.append_assoc]
    · show packets filter (consumed ++ frames) = t.handed ++ (t.pktQueue ++ packets filter frames)
      rw [packets_append, copied, List.append_assoc]
    · show tally filter frames t.stats = tally filter (consumed ++ frames) {}
      rw [counted, tally, tally, tally, List.foldl_append]
    · rintro (idle | ⟨_, next⟩)
      · cases idle
      · cases next
  · cases taken

theorem Flowing.release (flowing : Flowing filter t base items consumed)
    (taken : t.step filter heap .release = some t') :
    ∃ base' items', Flowing filter t' base' items' consumed := by
  simp only [step] at taken
  split at taken
  · rename_i entry phase
    have stands := flowing.stands
    unfold Stands at stands
    rw [phase] at stands
    obtain ⟨rfl, next, nonempty⟩ := stands
    obtain ⟨⟨block, frames⟩, rest, rfl⟩ := List.exists_cons_of_ne_nil nonempty
    obtain ⟨here, user⟩ := flowing.oldest
    have pending : t.uncopied ((block, frames) :: rest) = rest := by
      unfold RingThread.uncopied
      rw [phase]
      rfl
    obtain ⟨holds, kernelAt, -, carried, published, copied, counted, -⟩ := flowing
    rw [pending] at carried published
    rw [here, Option.bind_eq_bind, Option.bind_some] at taken
    obtain rfl := Option.some.inj taken
    have inside : entry < t.ring.blocks.length := (List.getElem?_eq_some_iff.mp here).1
    have popped := holds.pop
    rw [List.length_map] at popped
    have around : t.kernelAt = (behind t.ring.blocks.length entry + rest.length) %
        t.ring.blocks.length := by
      rw [kernelAt, behind_eq inside, add_mod_right, List.length_cons]
    have free : RingBlock.full { block with blockStatus := TP_STATUS_KERNEL } = none :=
      if_neg (by simp [TP_STATUS_KERNEL])
    refine ⟨behind t.ring.blocks.length entry, rest, ?_⟩
    by_cases nothing : t.pktQueue = []
    · rw [if_pos nothing]
      refine ⟨?_, by simpa using around, next, carried, published, copied, counted,
        fun _ => nothing⟩
      simp only [List.map_set, free]
      exact popped
    · rw [if_neg nothing]
      refine ⟨?_, by simpa using around, next, carried, published, copied, counted, ?_⟩
      · simp only [List.map_set, free]
        exact popped
      · rintro (idle | ⟨_, next⟩)
        · cases idle
        · cases next
  · cases taken

theorem Flowing.hand (flowing : Flowing filter t base items consumed) {throws : Bool}
    (taken : t.step filter heap (.hand throws) = some t') :
    Flowing filter t' base items consumed := by
  simp only [step] at taken
  split at taken
  · rename_i pkt rest phase queue
    obtain rfl := Option.some.inj taken
    have pending : t.uncopied items = items := by
      unfold RingThread.uncopied
      rw [phase]
    obtain ⟨holds, kernelAt, stands, carried, published, copied, counted, -⟩ := flowing
    rw [pending] at carried published
    unfold Stands at stands
    rw [phase] at stands
    have copied : packets filter consumed = t.handed ++ [pkt] ++ rest := by
      rw [copied, queue, List.append_assoc]
      rfl
    cases throws
    · by_cases last : rest = []
      · exact ⟨holds, kernelAt, by simpa [Stands, last] using stands,
          by simpa [uncopied, last] using carried, by simpa [uncopied, last] using published,
          copied, counted, fun _ => last⟩
      · exact ⟨holds, kernelAt, by simpa [Stands, last] using stands,
          by simpa [uncopied, last] using carried, by simpa [uncopied, last] using published,
          copied, counted, by simp [last]⟩
    · exact ⟨holds, kernelAt, stands, carried, published, copied, counted, by simp⟩
  · cases taken

/-- **Step lemma.** -/
theorem Flowing.step {a : Action} (flowing : Flowing filter t base items consumed)
    (taken : t.step filter heap a = some t') (kernel : Kernel t a) :
    ∃ base' items' consumed', Flowing filter t' base' items' consumed' := by
  cases a with
  | close block frames => exact ⟨_, _, _, flowing.close kernel taken⟩
  | next => exact ⟨_, _, _, flowing.next taken⟩
  | process => exact ⟨_, flowing.process taken⟩
  | release =>
    obtain ⟨base', items', after⟩ := flowing.release taken
    exact ⟨base', items', consumed, after⟩
  | hand throws => exact ⟨_, _, _, flowing.hand taken⟩

/-- **Run lemma.** -/
theorem flowing_reached {size : Nat} (positive : 0 < size)
    (reached : Reaches (RingThread.step filter heap) Kernel (start size) t) :
    ∃ base items consumed, Flowing filter t base items consumed := by
  refine reached.invariant (I := fun t => ∃ base items consumed,
    Flowing filter t base items consumed) ⟨0, [], [], flowing_start filter positive⟩ ?_
  rintro s a t ⟨base, items, consumed, flowing⟩ taken kernel
  exact flowing.step taken kernel

end

/-- The frames that the filter rejects. -/
def rejections (filter : Option BpfProgram) (frames : List RingFrame) : Nat :=
  frames.countP fun f => decide (f.Rejected filter)

/-- A frame that is rejected is counted as filtered and as discarded. -/
theorem tally_counts (filter : Option BpfProgram) (frames : List RingFrame)
    (stats : NdPacketStats) :
    (tally filter frames stats).pkt.captureFiltered =
        stats.pkt.captureFiltered + UInt64.ofNat (rejections filter frames) ∧
      (tally filter frames stats).pkt.discard =
        stats.pkt.discard + UInt64.ofNat (rejections filter frames) := by
  induction frames generalizing stats with
  | nil => simp [tally, rejections]
  | cons f rest ih =>
    obtain ⟨filtered, discard⟩ := ih (f.count filter stats)
    have step : tally filter (f :: rest) stats = tally filter rest (f.count filter stats) := rfl
    by_cases rejected : f.Rejected filter
    · have more : rejections filter (f :: rest) = rejections filter rest + 1 :=
        List.countP_cons_of_pos (decide_eq_true rejected)
      rw [step, filtered, discard, more, UInt64.ofNat_add]
      simp only [RingFrame.count, if_pos rejected]
      have turn (a b : UInt64) : a + 1 + b = a + (b + 1) := by
        rw [UInt64.add_assoc, UInt64.add_comm 1]
      exact ⟨turn _ _, turn _ _⟩
    · have same : rejections filter (f :: rest) = rejections filter rest :=
        List.countP_cons_of_neg (by simpa using rejected)
      rw [step, filtered, discard, same]
      simp only [RingFrame.count, if_neg rejected, and_self]

/-- Every frame is made a packet of or rejected. -/
theorem packets_count (filter : Option BpfProgram) (frames : List RingFrame) :
    (packets filter frames).length + rejections filter frames = frames.length := by
  induction frames with
  | nil => rfl
  | cons f rest ih =>
    rw [packets_cons, List.length_append, List.length_cons]
    by_cases rejected : f.Rejected filter
    · have more : rejections filter (f :: rest) = rejections filter rest + 1 :=
        List.countP_cons_of_pos (decide_eq_true rejected)
      rw [more, RingFrame.packet, if_pos rejected, Option.toList_none, List.length_nil]
      omega
    · have same : rejections filter (f :: rest) = rejections filter rest :=
        List.countP_cons_of_neg (by simpa using rejected)
      rw [same, RingFrame.packet, if_neg rejected, Option.toList_some, List.length_singleton]
      omega

/-- **Frames in order.** Whatever the kernel and the thread do in turn, the packets that
`ProcessPacket` was called with and those in the queue are those of the frames handed
over up to some frame, each once and in order, and each frame up to there that is none
of them was rejected by the filter and counted. When the thread finds no block to take,
it has come to the last frame. -/
theorem frames_in_order (filter : Option BpfProgram) (heap : Memory) {size : Nat}
    (positive : 0 < size) {t : RingThread}
    (reached : Reaches (RingThread.step filter heap) Kernel (start size) t) :
    ∃ consumed ahead, t.published = consumed ++ ahead ∧
      packets filter consumed = t.handed ++ t.pktQueue ∧
      consumed.length = t.handed.length + t.pktQueue.length + rejections filter consumed ∧
      t.stats.pkt.captureFiltered = UInt64.ofNat (rejections filter consumed) ∧
      t.stats.pkt.discard = t.stats.pkt.captureFiltered ∧
      (t.phase = .idle → t.ring.next.1 = none → ahead = [] ∧ t.pktQueue = []) := by
  obtain ⟨base, items, consumed, flowing⟩ := flowing_reached positive reached
  obtain ⟨filtered, discard⟩ := tally_counts filter consumed {}
  refine ⟨consumed, _, flowing.published, flowing.copied, ?_, ?_, ?_,
    fun idle none => ⟨?_, ?_⟩⟩
  · rw [← packets_count filter consumed, flowing.copied, List.length_append]
  · rw [flowing.counted, filtered]
    exact UInt64.zero_add _
  · rw [flowing.counted, filtered, discard]
  · have place : t.ring.itBlock = base := by
      have stands := flowing.stands
      unfold Stands at stands
      rwa [idle] at stands
    have nothing : items = [] := by
      by_contra some
      obtain ⟨⟨block, frames⟩, rest, rfl⟩ := List.exists_cons_of_ne_nil some
      obtain ⟨here, user⟩ := flowing.oldest
      unfold PacketRing.next at none
      rw [place, here] at none
      simp only [if_pos user] at none
      cases none
    unfold RingThread.uncopied
    rw [idle, nothing]
    rfl
  · exact flowing.empty (.inl idle)

/-! ## A frame of three bytes -/

def shortFrame : RingFrame := { bytes := [1, 2, 3], len := 3 }

/-- A block with that frame. -/
def shortBlock : RingBlock where
  blockStatus := TP_STATUS_USER
  numPkts := 1
  offsetToFirstPkt := 48
  memory i :=
    if i = 60 ∨ i = 64 then 3 else if i = 72 then 68 else if 116 ≤ i then UInt8.ofNat (i - 115)
    else 0

/-- The kernel hands the block over, and the thread copies the frame and processes it. -/
def shortRun : List Action :=
  [.close shortBlock [shortFrame], .next, .process, .release, .hand false]

theorem shortFrame_in_order : ∃ t : RingThread, t.handed = packets none [shortFrame] ∧
    ∃ consumed ahead, t.published = consumed ++ ahead ∧
      packets none consumed = t.handed ++ t.pktQueue ∧
      consumed.length = t.handed.length + t.pktQueue.length + rejections none consumed ∧
      t.stats.pkt.captureFiltered = UInt64.ofNat (rejections none consumed) ∧
      t.stats.pkt.discard = t.stats.pkt.captureFiltered ∧
      (t.phase = .idle → t.ring.next.1 = none → ahead = [] ∧ t.pktQueue = []) := by
  have ran : (exec (RingThread.step none fun _ => 0) Kernel (start 1) shortRun).any
      (fun t => decide (t.handed = packets none [shortFrame])) = true := by
    decide +kernel
  obtain ⟨t, reached, handed⟩ := reached_of_exec ran
  exact ⟨t, of_decide_eq_true handed, frames_in_order none (fun _ => 0) (by decide) reached⟩

end RingThread
end NetifyAgent
