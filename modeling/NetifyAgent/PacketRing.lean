import NetifyAgent.Descriptors
import NetifyAgent.Lib.RingBuffer
import NetifyAgent.Lib.Runs
import NetifyAgent.StatsMerge

/-! The ring that the kernel and a TPv3 capture thread share. The kernel hands blocks
of frames over, one behind the other, and goes on to the next one only when it is free
again; the thread copies the frames out of a block, gives it back, and processes the
copies. -/
namespace NetifyAgent
open Bytes RingBuffer

/-! ## Frames in a block -/

/-- A captured frame, with what `tpacket3_hdr` says of it. -/
structure RingFrame where
  bytes : List UInt8
  /-- The length on the wire. -/
  len : UInt32
  sec : UInt32 := 0
  nsec : UInt32 := 0
  status : UInt32 := 0
  vlanTci : UInt32 := 0
  vlanTpid : UInt16 := 0
  deriving DecidableEq, Repr

/-- The `tpacket3_hdr` at an offset of a block, and what is behind it. It is `none`
where the header is none the kernel writes. -/
def entryAt (m : Memory) (off : Nat) : Option RingEntry :=
  let tpSnaplen := UInt32.ofNat (le32 m (off + 12))
  let tpLen := UInt32.ofNat (le32 m (off + 16))
  let tpMac := le16 m (off + 24)
  if sane : tpSnaplen ≤ tpLen ∧ 4 ≤ tpMac then
    some {
      memory := fun i => m (off + i)
      tpSec := UInt32.ofNat (le32 m (off + 4))
      tpNsec := UInt32.ofNat (le32 m (off + 8))
      tpSnaplen := tpSnaplen
      tpLen := tpLen
      tpStatus := UInt32.ofNat (le32 m (off + 20))
      tpMac := tpMac
      tpVlanTci := UInt32.ofNat (le32 m (off + 32))
      tpVlanTpid := UInt16.ofNat (le16 m (off + 36))
      captured := sane.1
      reserved := sane.2 }
  else none

/-- The block after `CopyPacket` of the entry at an offset, which puts a VLAN tag back
in place. -/
def afterCopy (m : Memory) (off : Nat) (e : RingEntry) : Memory :=
  if e.Restores then fun i => if off ≤ i then e.restored (i - off) else m i else m

/-- What the loop of `ProcessPackets` works on. -/
structure Copying where
  memory : Memory
  stats : NdPacketStats
  pktQueue : List NdPacket

/-- What `ProcessPackets` counts of a packet with this status and `tp_snaplen`. -/
def countStatus (status : UInt8) (snaplen : Nat) (stats : NdPacketStats) : NdPacketStats :=
  let stats :=
    if status &&& NdPacket.STATUS_FILTERED ≠ 0 then
      { stats with pkt := { stats.pkt with captureFiltered := stats.pkt.captureFiltered + 1 } }
    else stats
  if status &&& NdPacket.STATUS_OK = 0 then
    { stats with
      pkt := { stats.pkt with
        discard := stats.pkt.discard + 1
        discardBytes := stats.pkt.discardBytes + UInt64.ofNat snaplen } }
  else stats

/-- The loop of `ndPacketRingBlock::ProcessPackets` for so many packets, from the entry
at an offset on; `heap` is the memory that `new` returns. -/
def processPackets (filter : Option BpfProgram) (heap : Memory) :
    Nat → Nat → Copying → Option Copying
  | 0, _, s => some s
  | packets + 1, entry, s => do
    let e ← entryAt s.memory entry
    let (pkt, status) := copyPacket filter e heap
    let memory := afterCopy s.memory entry e
    processPackets filter heap packets (entry + le32 memory entry) {
      memory := memory
      stats := countStatus status (le32 memory (entry + 12)) s.stats
      pktQueue := s.pktQueue ++ pkt.toList }

/-! ## The ring -/

def TP_STATUS_KERNEL : UInt32 := 0
def TP_STATUS_USER : UInt32 := 1

/-- `ndPacketRingBlock`, with the members of `tpacket_block_desc` that are read. -/
structure RingBlock where
  blockStatus : UInt32 := TP_STATUS_KERNEL
  numPkts : Nat := 0
  offsetToFirstPkt : Nat := 0
  memory : Memory := fun _ => 0

/-- `ndPacketRing`, as far as it goes round. -/
structure PacketRing where
  blocks : List RingBlock
  itBlock : Nat

/-- `ndPacketRing::Next`: the place of the block that is returned. -/
def PacketRing.next (ring : PacketRing) : Option Nat × PacketRing :=
  match ring.blocks[ring.itBlock]? with
  | some block =>
    if block.blockStatus &&& TP_STATUS_USER ≠ 0 then
      (some ring.itBlock, { ring with itBlock := behind ring.blocks.length ring.itBlock })
    else (none, ring)
  | none => (none, ring)

/-- Where the loop of `ndCaptureTPv3::Entry` stands. -/
inductive RingPhase where
  /-- In front of `Next`. -/
  | idle
  /-- `Next` has returned a block. -/
  | next (entry : Nat)
  /-- Its packets have been copied. -/
  | processed (entry : Nat)
  /-- It has been released, and the packets in the queue are processed. -/
  | queued
  /-- `ProcessPacket` has thrown. -/
  | offline
  deriving DecidableEq, Repr

/-- The thread and the kernel, and what has passed between them. -/
structure RingThread where
  ring : PacketRing
  pktQueue : List NdPacket := []
  stats : NdPacketStats := {}
  phase : RingPhase := .idle
  /-- The block that the kernel fills. -/
  kernelAt : Nat := 0
  /-- The frames of all blocks that the kernel has handed over. -/
  published : List RingFrame := []
  /-- The packets that `ProcessPacket` was called with. -/
  handed : List NdPacket := []

namespace RingThread

/-- What happens next. -/
inductive Action where
  /-- The kernel hands over the block it has filled with these frames. -/
  | close (block : RingBlock) (frames : List RingFrame)
  | next
  | process
  | release
  /-- `ProcessPacket` of the next packet in the queue returns, or throws. -/
  | hand (throws : Bool)

variable (filter : Option BpfProgram) (heap : Memory)

/-- One step of the kernel or the thread. -/
def step (t : RingThread) : Action → Option RingThread
  | .close block frames =>
    match t.ring.blocks[t.kernelAt]? with
    | some old =>
      -- a block that has not been released freezes the queue
      if old.blockStatus = TP_STATUS_KERNEL then
        some { t with
          ring := { t.ring with blocks := t.ring.blocks.set t.kernelAt block }
          kernelAt := behind t.ring.blocks.length t.kernelAt
          published := t.published ++ frames }
      else none
    | none => none
  | .next =>
    if t.phase = .idle then
      match t.ring.next with
      | (some entry, ring) => some { t with ring := ring, phase := .next entry }
      | (none, ring) => some { t with ring := ring }
    else none
  | .process =>
    match t.phase with
    | .next entry => do
      let block ← t.ring.blocks[entry]?
      let s ← processPackets filter heap block.numPkts block.offsetToFirstPkt
        ⟨block.memory, t.stats, t.pktQueue⟩
      some { t with
        ring := { t.ring with blocks := t.ring.blocks.set entry { block with memory := s.memory } }
        stats := s.stats
        pktQueue := s.pktQueue
        phase := .processed entry }
    | _ => none
  | .release =>
    match t.phase with
    | .processed entry => do
      let block ← t.ring.blocks[entry]?
      some { t with
        ring := { t.ring with
          blocks := t.ring.blocks.set entry { block with blockStatus := TP_STATUS_KERNEL } }
        phase := if t.pktQueue = [] then .idle else .queued }
    | _ => none
  | .hand throws =>
    match t.phase, t.pktQueue with
    | .queued, pkt :: rest =>
      some { t with
        pktQueue := rest
        handed := t.handed ++ [pkt]
        phase := if throws then .offline else if rest = [] then .idle else .queued }
    | _, _ => none

/-- A ring of so many free blocks. -/
def start (size : Nat) : RingThread where
  ring := ⟨List.replicate size {}, 0⟩

end RingThread
end NetifyAgent
