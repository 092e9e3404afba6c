import NetifyAgent.DetectionTrace

/-! `ndCaptureThread::ProcessDNSPacket`. The capture thread reads DNS, mDNS and
LLMNR messages of a flow itself: answers go to the DNS hint cache, and the name
in an mDNS pointer record is kept in the metadata union, whatever protocol the
detection thread has found by then. The resolver library parses the message. -/
namespace NetifyAgent
open NetifyAgent.Bytes NetifyAgent.Overlay

/-- `ns_rr`: a resource record; its data starts at an offset of the message. -/
structure NsRr where
  type : Nat
  name : List UInt8
  rdata : Nat

/-- `ns_msg`: the flags and sections that are looked at. A record that does not
parse is `none`. -/
structure NsMsg where
  rcode : Nat
  qr : Nat
  questions : List (Option NsRr)
  answers : List (Option NsRr)

namespace Dns

def nsTA : Nat := 1
def nsTPtr : Nat := 12
def nsTAaaa : Nat := 28

def isAddress (type : Nat) : Bool := type == nsTA || type == nsTAaaa

/-- The name of the first address question. -/
def host (msg : NsMsg) : Option (List UInt8) :=
  msg.questions.findSome? fun rr => rr.bind fun rr =>
    if isAddress rr.type then some rr.name else none

/-- The inner loop over one label: `left` bytes of it are still to be copied. -/
def copyLabel (pkt : Memory) (pktLen : Nat) : Nat → Nat → Nat → Det → Nat × Nat × Det
  | 0, p, i, d => (p, i, d)
  | left + 1, p, i, d =>
    if i < Layout.hostname - 1 ∧ p < pktLen then
      copyLabel pkt pktLen left (p + 1) (i + 1)
        (d.store .mdns (Layout.mdnsDomainName + i) [.byte (pkt p)])
    else (p, i, d)

/-- Follows a compression pointer. -/
def follow (pkt : Memory) (p : Nat) : Nat :=
  if (pkt p).toNat / 64 = 3 then (pkt (p + 1)).toNat + (pkt p).toNat % 64 * 256 else p

/-- The separator in front of every label but the first. -/
def separate (i : Nat) (d : Det) : Nat × Det :=
  if i = 0 then (i, d) else (i + 1, d.store .mdns (Layout.mdnsDomainName + i) [.byte 46])

/-- The loop over the labels of a pointer record. Compression pointers can send
it in circles, so it takes fuel. -/
def copyName (pkt : Memory) (pktLen : Nat) : Nat → Nat → Nat → Det → Det
  | 0, _, _, d => d
  | fuel + 1, p, i, d =>
    if pkt p ≠ 0 ∧ p < pktLen ∧ i < Layout.hostname - 1 then
      let p := follow pkt p
      let dot := separate i d
      let label := copyLabel pkt pktLen (pkt p).toNat (p + 1) dot.1 dot.2
      copyName pkt pktLen fuel label.1 label.2.1 label.2.2
    else d

/-- A byte of the union, given the bytes of the pointers stored in it. -/
def byteOf (pointerByte : Nat → Nat → UInt8) : Val → UInt8
  | .byte b => b
  | .frag ptr k => pointerByte ptr k

/-- The bytes up to and including the terminating zero. -/
def untilZero : List UInt8 → List UInt8
  | [] => []
  | b :: rest => if b = 0 then [0] else b :: untilZero rest

/-- `nd_set_hostname` without strictness: what cannot be printed is replaced. -/
def setHostnameLoose (src : List UInt8) : List UInt8 :=
  ((untilZero src).map fun b => if printable b || b == 0 then b else 95).rdropWhile (· == 46)

/-- `nd_set_hostname(domain_name, domain_name, ND_FLOW_HOSTNAME, false)`. -/
def sanitize (pointerByte : Nat → Nat → UInt8) (d : Det) : Det :=
  if d.flow.metadata.nonempty Layout.mdnsDomainName then
    d.store .mdns Layout.mdnsDomainName (rawBytes (setHostnameLoose
      ((List.range Layout.hostname).map fun i =>
        byteOf pointerByte (d.flow.metadata.area (Layout.mdnsDomainName + i)).val)))
  else d

/-- A pointer record: its name is stored unless there is one already. -/
def pointerRecord (pointerByte : Nat → Nat → UInt8) (fuel : Nat) (pkt : Memory) (pktLen : Nat)
    (rr : NsRr) (d : Det) : Det :=
  if d.flow.metadata.hasMdnsDomainName d.flow.detectedProtocol then d
  else sanitize pointerByte (copyName pkt pktLen fuel rr.rdata 0 d)

/-- The address in a record. -/
def address (pkt : Memory) (rr : NsRr) : Addr :=
  if rr.type = nsTA then ({} : Addr).createIn (slice pkt rr.rdata 4)
  else ({} : Addr).createIn6 (slice pkt rr.rdata 16)

/-- One answer record. -/
def answer (pointerByte : Nat → Nat → UInt8) (fuel : Nat) (pkt : Memory) (pktLen : Nat)
    (proto : ProtoId) (host : Option (List UInt8)) (d : Det) : Option NsRr → Det
  | none => d
  | some rr =>
    if rr.type = nsTPtr then
      if proto = Proto.mdns then pointerRecord pointerByte fuel pkt pktLen rr d else d
    else if isAddress rr.type ∧ proto = Proto.dns then
      match host with
      | some host => d.note (.dhcInsert (address pkt rr) host)
      | none => d
    else d

end Dns

open Dns in
/-- `ndCaptureThread::ProcessDNSPacket`: the flow afterwards, and whether the
message is a query. `msg` is what `ns_initparse` makes of the payload. -/
def processDnsPacket (pointerByte : Nat → Nat → UInt8) (fuel : Nat) (msg : Option NsMsg)
    (pkt : Memory) (pktLen : Nat) (proto : ProtoId) (d : Det) : Det × Bool :=
  match msg with
  | none => (d, false)
  | some msg =>
    if msg.rcode ≠ 0 then (d, false)
    else if (host msg).isSome ∧ msg.qr = 0 then (d, true)
    else if msg.qr ≠ 1 then (d, false)
    else (msg.answers.foldl (answer pointerByte fuel pkt pktLen proto (host msg)) d, false)

/-! ## What a message may change -/

namespace Dns

/-- Events the capture thread causes while it reads a message. -/
def Wrote : Event → Prop
  | .store .mdns _ _ | .dhcInsert _ _ => True
  | _ => False

/-- Reading a message changes nothing of the flow but the union, and that only
through the `mdns` member. -/
structure Read (d d' : Det) : Prop where
  frame : d'.flow = { d.flow with metadata := d'.flow.metadata }
  logged : ∃ events, d'.log = d.log ++ events ∧ (∀ e ∈ events, Wrote e) ∧
    d'.flow.held = events.foldl Held.after d.flow.held

theorem Read.refl (d : Det) : Read d d := ⟨rfl, [], by simp, by simp, rfl⟩

theorem Read.trans {d e f : Det} (first : Read d e) (second : Read e f) : Read d f := by
  obtain ⟨before, logBefore, wroteBefore, heldBefore⟩ := first.logged
  obtain ⟨after, logAfter, wroteAfter, heldAfter⟩ := second.logged
  refine ⟨?_, before ++ after, ?_, ?_, ?_⟩
  · rw [second.frame, first.frame]
  · rw [logAfter, logBefore, List.append_assoc]
  · simpa [or_imp, forall_and] using ⟨wroteBefore, wroteAfter⟩
  · rw [heldAfter, heldBefore, List.foldl_append]

theorem read_store (off : Nat) (vals : List Val) (d : Det) : Read d (d.store .mdns off vals) :=
  ⟨rfl, [.store .mdns off vals], rfl, by simp [Wrote], rfl⟩

theorem read_copyLabel (pkt : Memory) (pktLen left p i : Nat) (d : Det) :
    Read d (copyLabel pkt pktLen left p i d).2.2 := by
  induction left generalizing p i d with
  | zero => exact .refl d
  | succ left ih =>
    simp only [copyLabel]
    split
    · exact (read_store _ _ d).trans (ih _ _ _)
    · exact .refl d

theorem read_separate (i : Nat) (d : Det) : Read d (separate i d).2 := by
  simp only [separate]
  split
  · exact .refl d
  · exact read_store _ _ d

theorem read_copyName (pkt : Memory) (pktLen fuel p i : Nat) (d : Det) :
    Read d (copyName pkt pktLen fuel p i d) := by
  induction fuel generalizing p i d with
  | zero => exact .refl d
  | succ fuel ih =>
    simp only [copyName]
    split
    · exact ((read_separate i d).trans (read_copyLabel _ _ _ _ _ _)).trans (ih _ _ _)
    · exact .refl d

theorem read_pointerRecord (pointerByte : Nat → Nat → UInt8) (fuel : Nat) (pkt : Memory)
    (pktLen : Nat) (rr : NsRr) (d : Det) :
    Read d (pointerRecord pointerByte fuel pkt pktLen rr d) := by
  simp only [pointerRecord]
  split
  · exact .refl d
  · refine (read_copyName pkt pktLen fuel rr.rdata 0 d).trans ?_
    simp only [sanitize]
    split
    · exact read_store _ _ _
    · exact .refl _

theorem read_answer (pointerByte : Nat → Nat → UInt8) (fuel : Nat) (pkt : Memory) (pktLen : Nat)
    (proto : ProtoId) (host : Option (List UInt8)) (d : Det) (record : Option NsRr) :
    Read d (answer pointerByte fuel pkt pktLen proto host d record) := by
  cases record with
  | none => exact .refl d
  | some rr =>
    simp only [answer]
    split
    · split
      · exact read_pointerRecord _ _ _ _ _ d
      · exact .refl d
    · split
      · split
        · exact ⟨rfl, [.dhcInsert _ _], rfl, by simp [Wrote], rfl⟩
        · exact .refl d
      · exact .refl d

theorem read_processDnsPacket (pointerByte : Nat → Nat → UInt8) (fuel : Nat) (msg : Option NsMsg)
    (pkt : Memory) (pktLen : Nat) (proto : ProtoId) (d : Det) :
    Read d (processDnsPacket pointerByte fuel msg pkt pktLen proto d).1 := by
  cases msg with
  | none => exact .refl d
  | some msg =>
    simp only [processDnsPacket]
    split
    · exact .refl d
    · split
      · exact .refl d
      · split
        · exact .refl d
        · show Read d (msg.answers.foldl _ d)
          induction msg.answers generalizing d with
          | nil => exact .refl d
          | cons record rest ih => exact (read_answer _ _ _ _ _ _ d record).trans (ih _)

end Dns

end NetifyAgent
