import NetifyAgent.Descriptors
import NetifyAgent.Lib.Runs

/-! The capture thread of a netfilter queue. The kernel holds every packet of the queue until
it is given a verdict. The thread receives a datagram, the callback copies the packet of each
message and accepts it, and the copies are processed when the datagram has been read. The first
callback that fails ends the thread. -/
namespace NetifyAgent.NfqCapture
open Bytes Runs

/-! ## The callback -/

/-- A message of the queue, with what the callback needs besides the packet. -/
structure QueueMessage where
  /-- `nfq_nlmsg_parse` succeeds. -/
  parses : Bool := true
  /-- Its attributes, with the packet header where there is one. -/
  attributes : NfqMessage
  /-- `ntohs(nfg->res_id)`. -/
  resId : UInt16
  /-- `ntohl(pkt_hdr->packet_id)`. -/
  packetId : UInt32
  /-- The time of `gettimeofday`. -/
  now : Nat × Nat := (0, 0)
  /-- `mnl_socket_sendto` succeeds. -/
  sends : Bool := true

/-- What `mnl_cb_run` comes to in a datagram. -/
inductive NlMessage where
  | packet (m : QueueMessage)
  /-- A control message, which libmnl answers itself. -/
  | control (ret : Int)

/-- A message of type `NFQNL_MSG_VERDICT`. -/
structure Verdict where
  queue : UInt16
  packetId : UInt32
  verdict : Nat
  deriving DecidableEq, Repr

def NF_ACCEPT : Nat := 1

def MNL_CB_ERROR : Int := -1
def MNL_CB_STOP : Int := 0
def MNL_CB_OK : Int := 1

/-- The verdict on a message. -/
def QueueMessage.accept (m : QueueMessage) : Verdict := ⟨m.resId, m.packetId, NF_ACCEPT⟩

/-- What the callbacks of a thread have done. -/
structure Answered where
  /-- The messages that the callback was called with. -/
  called : List QueueMessage := []
  /-- Those whose packet was pushed. -/
  pushed : List QueueMessage := []
  /-- What was sent to the kernel. -/
  verdicts : List Verdict := []
  pktQueue : List NdPacket := []

/-- `ndCaptureNFQueue_Callback`; `heap` is the memory that is allocated. -/
def callback (heap : Memory) (m : QueueMessage) (s : Answered) : Int × Answered :=
  let s := { s with called := s.called ++ [m] }
  if m.parses then
    match nfqPacket m.now m.attributes heap with
    | some pkt =>
      let s := { s with pushed := s.pushed ++ [m], pktQueue := s.pktQueue ++ [pkt] }
      if m.sends then (MNL_CB_OK, { s with verdicts := s.verdicts ++ [m.accept] })
      else (MNL_CB_ERROR, s)
    | none => (MNL_CB_ERROR, s)
  else (MNL_CB_ERROR, s)

/-- `mnl_cb_run`: the messages of a datagram, as long as none stops it. -/
def mnlCbRun (heap : Memory) : List NlMessage → Answered → Int × Answered
  | [], s => (MNL_CB_OK, s)
  | .control ret :: rest, s =>
    if ret ≤ MNL_CB_STOP then (ret, s) else mnlCbRun heap rest s
  | .packet m :: rest, s =>
    let (ret, s) := callback heap m s
    if ret ≤ MNL_CB_STOP then (ret, s) else mnlCbRun heap rest s

/-! ## The thread -/

/-- Where `ndCaptureNFQueue::Entry` stands. -/
inductive NfqPoint where
  /-- In front of the loop. -/
  | loop
  | select
  | recvfrom
  /-- The packets in the queue are processed. -/
  | queued
  /-- `Entry` has returned, after an error or not. -/
  | returned (failed : Bool)
  | thrown
  deriving DecidableEq

/-- What `mnl_socket_recvfrom` returns. -/
inductive Received where
  | datagram (messages : List NlMessage)
  /-- `ENOBUFS`. -/
  | noBuffers
  | error

/-- `ndCaptureNFQueue`, with what has passed. -/
structure Listening where
  answered : Answered := {}
  dropped : Nat := 0
  /-- The capture state is `STATE_ONLINE`, and `STATE_OFFLINE` otherwise. -/
  online : Bool := true
  terminate : Bool := false
  point : NfqPoint := .loop
  /-- The packets that `ProcessPacket` was called with. -/
  handed : List NdPacket := []

/-- What happens next. -/
inductive Action where
  /-- Another thread calls `Terminate`. -/
  | terminate
  /-- The test of the loop. -/
  | loop
  /-- `select`: the descriptor is ready or not, or the call fails. -/
  | select (ready : Option Bool)
  | recvfrom (r : Received)
  /-- `ProcessPacket` of the next packet returns, or throws. -/
  | process (throws : Bool)

/-- One step. -/
def step (heap : Memory) (s : Listening) : Action → Option Listening
  | .terminate => some { s with terminate := true }
  | .loop =>
    match s.point with
    | .loop => some (
      if s.terminate then { s with online := false, point := .returned false }
      else { s with point := .select })
    | _ => none
  | .select ready =>
    match s.point with
    | .select => some { s with
      point := match ready with
        | some true => .recvfrom
        | some false => .loop
        | none => .thrown }
    | _ => none
  | .recvfrom r =>
    match s.point with
    | .recvfrom => some (
      match r with
      | .noBuffers => { s with dropped := s.dropped + 1, point := .loop }
      | .error => { s with online := false, point := .returned true }
      | .datagram messages =>
        let (ret, answered) := mnlCbRun heap messages s.answered
        if ret < 0 then
          { s with answered := answered, online := false, point := .returned true }
        else { s with
          answered := answered, point := if answered.pktQueue = [] then .loop else .queued })
    | _ => none
  | .process throws =>
    match s.point, s.answered.pktQueue with
    | .queued, pkt :: rest => some { s with
      answered := { s.answered with pktQueue := rest }
      handed := s.handed ++ [pkt]
      online := !throws && s.online
      point := if throws then .thrown else if rest = [] then .loop else .queued }
    | _, _ => none

/-! ## Every run -/

/-- Every message that the callback was called with was pushed and accepted. -/
def Prompt (s : Answered) : Prop :=
  s.pushed = s.called ∧ s.verdicts = s.called.map QueueMessage.accept

/-- The callback has failed with the last one. -/
def Broken (s : Answered) : Prop :=
  ∃ before m, s.called = before ++ [m] ∧ s.verdicts = before.map QueueMessage.accept ∧
    (s.pushed = before ∨ s.pushed = before ++ [m])

/-- The packets of the messages that were pushed. -/
def Packets (heap : Memory) (handed : List NdPacket) (s : Answered) : Prop :=
  s.pushed.map (fun m => nfqPacket m.now m.attributes heap) = (handed ++ s.pktQueue).map some

variable {heap : Memory} {handed : List NdPacket} {a : Answered}

/-- **The callback** fails with the message it is called with, or accepts it. -/
theorem callback_spec (m : QueueMessage) (prompt : Prompt a) (packets : Packets heap handed a) :
    Packets heap handed (callback heap m a).2 ∧
      ((callback heap m a).1 = MNL_CB_OK ∧ Prompt (callback heap m a).2 ∨
        (callback heap m a).1 = MNL_CB_ERROR ∧ Broken (callback heap m a).2) := by
  obtain ⟨pushed, verdicts⟩ := prompt
  unfold callback
  split
  · split
    · rename_i pkt built
      have more : Packets heap handed { a with
          called := a.called ++ [m], pushed := a.pushed ++ [m], pktQueue := a.pktQueue ++ [pkt] } := by
        unfold Packets at packets ⊢
        simp [packets, built]
      split
      · exact ⟨more, .inl ⟨rfl, by simp [Prompt, pushed, verdicts]⟩⟩
      · exact ⟨more, .inr ⟨rfl, a.called, m, rfl, verdicts, .inr (by simp [pushed])⟩⟩
    · exact ⟨packets, .inr ⟨rfl, a.called, m, rfl, verdicts, .inl pushed⟩⟩
  · exact ⟨packets, .inr ⟨rfl, a.called, m, rfl, verdicts, .inl pushed⟩⟩

/-- **A datagram**: unless an error stops it, every message was accepted that was come to. -/
theorem mnlCbRun_spec (messages : List NlMessage) (prompt : Prompt a)
    (packets : Packets heap handed a) :
    Packets heap handed (mnlCbRun heap messages a).2 ∧
      (Prompt (mnlCbRun heap messages a).2 ∨
        (mnlCbRun heap messages a).1 < 0 ∧ Broken (mnlCbRun heap messages a).2) := by
  induction messages generalizing a with
  | nil => exact ⟨packets, .inl prompt⟩
  | cons m rest ih =>
    cases m with
    | control ret =>
      simp only [mnlCbRun]
      split
      · exact ⟨packets, .inl prompt⟩
      · exact ih prompt packets
    | packet m =>
      obtain ⟨packets', ⟨ok, prompt'⟩ | ⟨error, broken⟩⟩ := callback_spec m prompt packets
      · simp only [mnlCbRun, ok]
        exact ih prompt' packets'
      · simp only [mnlCbRun, error]
        exact ⟨packets', .inr ⟨Int.negSucc_lt_zero 0, broken⟩⟩

/-- What holds of the packets and the verdicts. -/
structure Sound (heap : Memory) (s : Listening) : Prop where
  packets : Packets heap s.handed s.answered
  answered : Prompt s.answered ∨ s.point = .returned true ∧ Broken s.answered
  empty : s.point ∈ [.loop, .select, .recvfrom, .returned false] → s.answered.pktQueue = []
  returned : ∀ failed, s.point = .returned failed → s.online = false

variable {s t : Listening}

theorem Sound.prompt (sound : Sound heap s) (running : s.point ≠ .returned true) :
    Prompt s.answered :=
  sound.answered.resolve_right fun broken => running broken.1

/-- The thread goes on without a packet. -/
theorem Sound.move (sound : Sound heap s) {p : NfqPoint}
    (there : s.point ∈ [.loop, .select, .recvfrom]) {online : Bool} {dropped : Nat}
    (returned : ∀ failed, p = .returned failed → online = false) :
    Sound heap { s with online := online, dropped := dropped, point := p } := by
  have running : s.point ≠ .returned true := by
    intro same
    simp [same] at there
  refine ⟨sound.packets, .inl (sound.prompt running), fun _ => sound.empty ?_, returned⟩
  simp only [List.mem_cons] at there ⊢
  tauto

/-- **One step** of the thread. -/
theorem sound_step {action : Action} (sound : Sound heap s)
    (taken : step heap s action = some t) : Sound heap t := by
  cases action with
  | terminate =>
    cases taken
    exact { sound with }
  | loop =>
    simp only [step] at taken
    split at taken
    · rename_i point
      cases taken
      split
      · exact sound.move (by simp [point]) fun _ _ => rfl
      · exact sound.move (by simp [point]) nofun
    · cases taken
  | select ready =>
    simp only [step] at taken
    split at taken
    · rename_i point
      cases taken
      split
      · exact sound.move (by simp [point]) nofun
      · exact sound.move (by simp [point]) nofun
      · exact sound.move (by simp [point]) nofun
    · cases taken
  | recvfrom r =>
    simp only [step] at taken
    split at taken
    · rename_i point
      cases taken
      cases r with
      | noBuffers => exact sound.move (by simp [point]) nofun
      | error => exact sound.move (by simp [point]) fun _ _ => rfl
      | datagram messages =>
        obtain ⟨packets, answered⟩ := mnlCbRun_spec messages
          (sound.prompt (by rw [point]; exact nofun)) sound.packets
        simp only
        split
        · exact ⟨packets, answered.imp_right fun broken => ⟨rfl, broken.2⟩, nofun, fun _ _ => rfl⟩
        · rename_i running
          have prompt := answered.resolve_right fun broken => running broken.1
          split
          · exact ⟨packets, .inl prompt, fun _ => ‹_›, nofun⟩
          · exact ⟨packets, .inl prompt, nofun, nofun⟩
    · cases taken
  | process throws =>
    simp only [step] at taken
    split at taken
    · rename_i pkt rest point queue
      cases taken
      have packets := sound.packets
      have prompt := sound.prompt (by rw [point]; exact nofun)
      refine ⟨?_, .inl prompt, fun there => ?_, fun failed same => ?_⟩
      · unfold Packets at packets ⊢
        simpa [queue] using packets
      · simp only at there ⊢
        split at there
        · simp at there
        · split at there
          · assumption
          · simp at there
      · split at same
        · cases same
        · split at same <;> cases same
    · cases taken

/-- **Every packet is accepted.** In every run the packets that `ProcessPacket` was called with, and
behind them those in the queue, are those of the messages that were pushed, in their order. As
long as the thread has not failed, every message that the callback was called with was pushed and
given one verdict, to accept the packet under its own number, in that order; and at most the last
one has none when it has failed. A thread that returns because it is told leaves no packet behind. -/
theorem verdicts_once (reached : Reaches (step heap) Always {} s) :
    s.answered.pushed.map (fun m => nfqPacket m.now m.attributes heap) =
        (s.handed ++ s.answered.pktQueue).map some ∧
      (s.point ≠ .returned true → s.answered.pushed = s.answered.called ∧
        s.answered.verdicts = s.answered.called.map QueueMessage.accept) ∧
      s.answered.verdicts <+: s.answered.called.map QueueMessage.accept ∧
      s.answered.called.length ≤ s.answered.verdicts.length + 1 ∧
      (s.point = .returned false → s.answered.pktQueue = [] ∧ s.online = false) := by
  have sound : Sound heap s := by
    refine reached.invariant ?_ fun _ _ _ before taken _ => sound_step before taken
    exact ⟨rfl, .inl ⟨rfl, rfl⟩, fun _ => rfl, nofun⟩
  refine ⟨sound.packets, fun running => sound.prompt running, ?_, ?_, fun point =>
    ⟨sound.empty (by simp [point]), sound.returned _ point⟩⟩
  · rcases sound.answered with ⟨-, verdicts⟩ | ⟨-, before, m, called, verdicts, -⟩
    · simp [verdicts]
    · rw [verdicts, called, List.map_append]
      exact List.prefix_append ..
  · rcases sound.answered with ⟨-, verdicts⟩ | ⟨-, before, m, called, verdicts, -⟩
    · simp [verdicts]
    · simp [called, verdicts]

/-- A message whose verdict is sent or not. -/
def emptyPacket (packetId : UInt32) (sends : Bool) : QueueMessage where
  attributes := ⟨some (8, 0), none, [], none, none, by decide, nofun⟩
  resId := 0
  packetId := packetId
  sends := sends

/-- The second verdict cannot be sent, and both packets stay in the queue. -/
theorem verdicts_unsent : ∃ s : Listening, s.point = .returned true ∧
    s.answered.verdicts = [⟨0, 7, NF_ACCEPT⟩] ∧ s.answered.called.length = 2 ∧
    s.answered.verdicts <+: s.answered.called.map QueueMessage.accept ∧
    s.answered.called.length ≤ s.answered.verdicts.length + 1 := by
  have found : (exec (step fun _ => 0) Always {} [.loop, .select (some true),
      .recvfrom (.datagram
        [.packet (emptyPacket 7 true), .packet (emptyPacket 8 false)])]).any (fun s =>
        s.point = .returned true ∧ s.answered.verdicts = [⟨0, 7, NF_ACCEPT⟩] ∧
          s.answered.called.length = 2) = true := by
    decide +kernel
  obtain ⟨s, reached, ended⟩ := reached_of_exec found
  obtain ⟨point, verdicts, called⟩ := of_decide_eq_true ended
  obtain ⟨-, -, sent, least, -⟩ := verdicts_once reached
  exact ⟨s, point, verdicts, called, sent, least⟩

end NetifyAgent.NfqCapture
