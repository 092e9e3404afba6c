import NetifyAgent.Dns
import NetifyAgent.DetectionEntry

/-! One flow and the three threads that share it. The capture thread queues the
packets of the flow, reads its DNS messages and resets it when a query arrives
after detection is complete; the instance thread expires it; the detection
thread takes one entry after the other off the queue. Each test and each
assignment that another thread can come between is a step of its own. -/
namespace NetifyAgent

/-- Where the capture thread stands between its test and the queue. -/
inductive CaptureState where
  | idle
  | accepted
  deriving DecidableEq, Repr

/-- Where `ndInstance::ExpireFlow` stands. -/
inductive ExpireState where
  | idle
  /-- `detection_complete` was tested and was clear. -/
  | incomplete
  /-- `expiring` was set. -/
  | marked
  deriving DecidableEq, Repr

/-- A flow with its queue. An entry is a packet's number, or `none` when
`ExpireFlow` queued it. -/
structure FlowQueue where
  det : Det
  queue : List (Option Nat) := []
  nextPacket : Nat := 0
  capture : CaptureState := .idle
  expire : ExpireState := .idle
  /-- The function a null `ndpi_flow` was dereferenced in. -/
  fault : Option Entered := none

/-- A DNS message as the capture thread finds it in a packet. -/
structure DnsMessage where
  pointerByte : Nat → Nat → UInt8
  fuel : Nat
  msg : Option NsMsg
  pkt : Bytes.Memory
  pktLen : Nat
  proto : ProtoId

/-- The steps of the three threads. -/
inductive Action where
  /-- The capture thread reads the DNS message in a packet. -/
  | dns (m : DnsMessage)
  /-- The message is a query and detection is complete: the flow starts over. -/
  | reset
  /-- The capture thread finds that the flow still wants packets. -/
  | accept
  /-- `QueuePacket` with a packet. -/
  | queuePacket
  /-- `ExpireFlow` tests `detection_complete`. -/
  | expireTest
  /-- `ExpireFlow` tests and sets `expiring`. -/
  | expireMark
  /-- `ExpireFlow` looks for the detection thread of the flow. -/
  | expireQueue (found : Bool)
  /-- One round of `ProcessPacketQueue`. -/
  | detect (s : Services) (a : Answers)

/-- A round of the detection thread in which nDPI finds one protocol. -/
def Action.detectAs (masterProtocol : Nat) : Action := .detect .bare (.always masterProtocol {})

/-- The capture thread queues `n` packets. -/
def Action.queuePackets (n : Nat) : List Action :=
  (List.replicate n [Action.accept, .queuePacket]).flatten

/-- The test that ends `ndCaptureThread::ProcessPacket`. -/
def wantsPacket (maxDetectionPkts : Nat) (flow : Flow) : Bool :=
  flow.flags.detectionComplete = false ∧ flow.flags.expired = false ∧
    flow.stats.detectionPackets.toNat ≤ maxDetectionPkts

/-- `nf->Reset(true); nf->stats = flow.stats`, where the template's statistics
were never counted. -/
def Flow.restart (flow : Flow) : Flow := { flow.reset true with stats := {} }

def Flow.setExpired (flow : Flow) : Flow :=
  { flow with flags := { flow.flags with expired := true } }

def Flow.setExpiring (flow : Flow) : Flow :=
  { flow with flags := { flow.flags with expiring := true } }

namespace FlowQueue

/-- A flow that was just inserted into the flow map. -/
def fresh (template : Flow) : FlowQueue where
  det := ⟨template.copy, []⟩

/-- What an action does, or `none` where its thread cannot take it. -/
def act (maxDetectionPkts : Nat) (q : FlowQueue) : Action → Option FlowQueue
  | .dns m =>
    if q.capture = .idle then some { q with
      det := (processDnsPacket m.pointerByte m.fuel m.msg m.pkt m.pktLen m.proto q.det).1 }
    else none
  | .reset =>
    if q.capture = .idle ∧ q.det.flow.flags.detectionComplete = true then
      some { q with det := (q.det.edit Flow.restart).note .reset }
    else none
  | .accept =>
    if q.capture = .idle ∧ wantsPacket maxDetectionPkts q.det.flow = true then
      some { q with capture := .accepted }
    else none
  | .queuePacket =>
    if q.capture = .accepted then some { q with
      queue := q.queue ++ [some q.nextPacket]
      nextPacket := q.nextPacket + 1
      capture := .idle }
    else none
  | .expireTest =>
    if q.expire = .idle then
      if q.det.flow.flags.detectionComplete then some { q with det := q.det.edit Flow.setExpired }
      else some { q with expire := .incomplete }
    else none
  | .expireMark =>
    if q.expire = .incomplete then
      if q.det.flow.flags.expiring then some { q with expire := .idle }
      else some { q with det := q.det.edit Flow.setExpiring, expire := .marked }
    else none
  | .expireQueue found =>
    if q.expire = .marked then
      if found then some { q with queue := q.queue ++ [none], expire := .idle }
      else some { q with det := q.det.edit Flow.setExpired, expire := .idle }
    else none
  | .detect s a =>
    match q.queue with
    | [] => none
    | packet :: rest =>
      match processEntry maxDetectionPkts s a packet q.det with
      | .ok d => some { q with det := d, queue := rest }
      | .error entered => some { q with queue := rest, fault := some entered }

/-- One step. Nothing happens after a fault. -/
def step (maxDetectionPkts : Nat) (q : FlowQueue) (action : Action) : Option FlowQueue :=
  if q.fault = none then q.act maxDetectionPkts action else none

end FlowQueue

end NetifyAgent
