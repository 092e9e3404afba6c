import NetifyAgent.Descriptors
import NetifyAgent.Lib.Runs

/-! The capture thread of libpcap. It opens a device or a file, hands every frame that is read
to `ProcessPacket`, and opens a device again that has failed. Another thread may tell it to
terminate between any two of its steps; a file that was read to its end tells it too. -/
namespace NetifyAgent.PcapCapture
open Bytes Runs

/-! ## The thread -/

/-- What is captured from. -/
inductive PcapSource where
  | device
  /-- A capture file: the frames that libpcap reads and its filter lets pass, up to the end of
  the file or, if it is damaged, up to there. -/
  | file (frames : List PcapFrame) (damaged : Bool)

deriving instance DecidableEq for PcapFrame

/-- What `pcap_next_ex` returns. -/
inductive NextEx where
  | packet (f : PcapFrame)
  | timeout
  /-- `PCAP_ERROR`. -/
  | error
  /-- `PCAP_ERROR_BREAK`. -/
  | endOfFile
  /-- Any other error. -/
  | other
  deriving DecidableEq

/-- What becomes of `OpenCapture`. -/
inductive Opening where
  | failed
  /-- The filter is refused, and the handle is closed again. -/
  | filterRefused
  | opened

/-- `nd_capture_states`. -/
inductive NdCaptureStates where
  | init
  | online
  | offline
  deriving DecidableEq, Repr

/-- Where `ndCapturePcap::Entry` stands. -/
inductive PcapPoint where
  /-- In front of the loop. -/
  | loop
  | select
  /-- There is no handle. -/
  | noHandle
  /-- In front of the inner loop. -/
  | reading
  | nextEx
  /-- A frame was copied. -/
  | copied (pkt : NdPacket)
  | returned
  | thrown
  /-- The destructor is done. -/
  | deleted
  deriving DecidableEq

/-- The packet that `ProcessPacket` is called with next. -/
def PcapPoint.inHand : PcapPoint → Option NdPacket
  | .copied pkt => some pkt
  | _ => none

/-- `ndCapturePcap`, with what has passed. -/
structure Capturing where
  /-- The handle in use; handles are numbered as they are opened. -/
  pcap : Option Nat := none
  opened : Nat := 0
  closed : List Nat := []
  /-- The number of frames that the handle of a file has given. -/
  position : Nat := 0
  captureState : NdCaptureStates := .init
  terminate : Bool := false
  /-- Another thread has called `Terminate`. -/
  told : Bool := false
  point : PcapPoint := .loop
  /-- The frames that were read. -/
  given : List PcapFrame := []
  /-- The packets that `ProcessPacket` was called with. -/
  handed : List NdPacket := []

/-- What happens next. -/
inductive Action where
  /-- Another thread calls `Terminate`. -/
  | terminate
  /-- The test of the loop. -/
  | loop
  /-- `select`: the descriptor is ready or not, or the call fails. -/
  | select (ready : Option Bool)
  /-- The test of the inner loop. -/
  | read
  | nextEx (r : NextEx)
  /-- `ProcessPacket` returns, or throws. -/
  | process (throws : Bool)
  /-- The interface is up or not, and `OpenCapture`. -/
  | openCapture (up : Bool) (o : Opening)
  /-- `~ndCapturePcap`. -/
  | delete

namespace PcapSource

def isFile : PcapSource → Bool
  | device => false
  | file .. => true

/-- The frames of a file. -/
def frames : PcapSource → List PcapFrame
  | device => []
  | file frames _ => frames

end PcapSource

namespace Capturing

variable (source : PcapSource)

/-- What is done with the result of `pcap_next_ex`; `heap` is the memory that is allocated. -/
def nextEx (heap : Memory) (s : Capturing) (h : Nat) : NextEx → Capturing
  | .packet f => { s with
    point := .copied (pcapPacket f heap), given := s.given ++ [f], position := s.position + 1 }
  | .timeout => { s with point := .loop }
  | .error =>
    if source.isFile then { s with captureState := .offline, terminate := true, point := .loop }
    else { s with
      captureState := .offline, pcap := none, closed := s.closed ++ [h], point := .loop }
  | .endOfFile => { s with captureState := .offline, terminate := true, point := .loop }
  | .other => { s with captureState := .offline, point := .loop }

/-- `OpenCapture` and what is done with its result. -/
def openCapture (s : Capturing) : Opening → Capturing
  | .failed => { s with captureState := .offline, point := .loop }
  | .filterRefused => { s with
    captureState := .offline, opened := s.opened + 1, closed := s.closed ++ [s.opened]
    point := .loop }
  | .opened => { s with
    pcap := some s.opened, opened := s.opened + 1, position := 0, captureState := .online
    point := .loop }

/-- One step. -/
def step (heap : Memory) (s : Capturing) : Action → Option Capturing
  | .terminate => some { s with terminate := true, told := true }
  | .loop =>
    match s.point with
    | .loop => some (
      if s.terminate then { s with captureState := .offline, point := .returned }
      else { s with point := if s.pcap = none then .noHandle else .select })
    | _ => none
  | .select ready =>
    match s.point with
    | .select => some { s with
      point := match ready with
        | some true => .reading
        | some false => .loop
        | none => .thrown }
    | _ => none
  | .read =>
    match s.point with
    | .reading => some { s with point := if s.terminate then .loop else .nextEx }
    | _ => none
  | .nextEx r =>
    match s.point, s.pcap with
    | .nextEx, some h => some (s.nextEx source heap h r)
    | _, _ => none
  | .process throws =>
    match s.point with
    | .copied pkt => some { s with
      handed := s.handed ++ [pkt], point := if throws then .thrown else .reading }
    | _ => none
  | .openCapture up o =>
    match s.point with
    | .noHandle => some (
      -- the second test of `ShouldTerminate`
      if s.terminate then { s with point := .loop }
      else if source.isFile = false ∧ up = false then
        { s with captureState := .offline, point := .loop }
      else s.openCapture o)
    | _ => none
  | .delete =>
    match s.point with
    | .returned | .thrown => some { s with
      pcap := none, closed := s.closed ++ s.pcap.toList, point := .deleted }
    | _ => none

end Capturing

/-- What `pcap_next_ex` returns at some frame of a file. -/
def answer (frames : List PcapFrame) (damaged : Bool) (position : Nat) : NextEx :=
  match frames[position]? with
  | some f => .packet f
  | none => if damaged then .error else .endOfFile

/-- What libpcap returns: the frames of a file in their order, and then that it ends. -/
def Libpcap (source : PcapSource) (s : Capturing) : Action → Prop
  | .nextEx r =>
    match source with
    | .device => r ≠ .endOfFile
    | .file frames damaged => r = answer frames damaged s.position
  | _ => True

instance (source : PcapSource) : DecidableRel (Libpcap source)
  | s, .nextEx r =>
    match source with
    | .device => inferInstanceAs (Decidable (r ≠ .endOfFile))
    | .file frames damaged => inferInstanceAs (Decidable (r = answer frames damaged s.position))
  | _, .terminate | _, .loop | _, .select _ | _, .read | _, .process _ | _, .openCapture .. =>
    .isTrue trivial
  | _, .delete => .isTrue trivial

/-! ## Every run -/

/-- A thread that goes on with a handle has one. -/
def PcapPoint.Stands (pcap : Option Nat) : PcapPoint → Prop
  | .noHandle | .deleted => pcap = none
  | .select | .reading | .nextEx | .copied _ => pcap ≠ none
  | .loop | .returned | .thrown => True

/-- What holds of the handles and the frames. -/
structure Sound (source : PcapSource) (heap : Memory) (s : Capturing) : Prop where
  stands : s.point.Stands s.pcap
  handles : s.closed ++ s.pcap.toList = List.range s.opened
  handed : s.given.map (pcapPacket · heap) = s.handed ++ s.point.inHand.toList
  online : s.captureState = .online → s.pcap ≠ none ∨ s.point = .deleted
  returned : s.point = .returned → s.terminate = true ∧ s.captureState = .offline
  /-- A file is opened once. -/
  file : source.isFile = true →
    s.given = source.frames.take s.position ∧ (s.pcap = none → s.point = .deleted ∨ s.position = 0)
  told : s.terminate = true → s.told = false →
    source.isFile = true ∧ source.frames.length ≤ s.position

variable {source : PcapSource} {heap : Memory} {s t : Capturing}

/-- Nothing but the thread's place and the tests of it have changed. -/
theorem Sound.move (sound : Sound source heap s) {p : PcapPoint} (stands : p.Stands s.pcap)
    (inHand : p.inHand = s.point.inHand) (returned : p ≠ .returned) (there : s.point ≠ .deleted) :
    Sound source heap { s with point := p } := by
  refine { sound with
    stands := stands
    handed := inHand ▸ sound.handed
    online := fun online => .inl ((sound.online online).resolve_right there)
    returned := fun same => absurd same returned
    file := fun file => ⟨(sound.file file).1, fun none => .inr ?_⟩ }
  exact ((sound.file file).2 none).resolve_left there

theorem Sound.empty (sound : Sound source heap s) (inHand : s.point.inHand = none) :
    s.given.map (pcapPacket · heap) = s.handed := by
  simpa [inHand] using sound.handed

/-- The thread turns offline in front of the loop. -/
theorem Sound.offline (sound : Sound source heap s) (inHand : s.point.inHand = none)
    (there : s.point ≠ .deleted) :
    Sound source heap { s with captureState := .offline, point := .loop } := by
  refine { sound with
    stands := trivial
    handed := (sound.empty inHand).trans (List.append_nil _).symm
    online := nofun
    returned := nofun
    file := fun file => ⟨(sound.file file).1, fun none => .inr ?_⟩ }
  exact ((sound.file file).2 none).resolve_left there

/-- A file gives its frames in their order, and nothing else before its end. -/
theorem Libpcap.file {r : NextEx} (meets : Libpcap source s (.nextEx r))
    (file : source.isFile = true) : (∃ f, source.frames[s.position]? = some f ∧ r = .packet f) ∨
      source.frames.length ≤ s.position ∧ (r = .error ∨ r = .endOfFile) := by
  cases source with
  | device => cases file
  | file frames damaged =>
    simp only [Libpcap, answer] at meets
    split at meets
    · exact .inl ⟨_, ‹_›, meets⟩
    · refine .inr ⟨List.getElem?_eq_none_iff.mp ‹_›, ?_⟩
      cases damaged with
      | true => exact .inl meets
      | false => exact .inr meets

/-- The thread terminates itself at the end of a file. -/
theorem Sound.ends (sound : Sound source heap s) (point : s.point = .nextEx)
    (file : source.isFile = true) (ends : source.frames.length ≤ s.position) :
    Sound source heap { s with captureState := .offline, terminate := true, point := .loop } := by
  have there := sound.offline (by rw [point]; rfl) (by rw [point]; exact nofun)
  exact { there with
    returned := nofun
    told := fun _ _ => ⟨file, ends⟩ }

theorem sound_nextEx {h : Nat} {r : NextEx} (sound : Sound source heap s)
    (point : s.point = .nextEx) (pcap : s.pcap = some h) (meets : Libpcap source s (.nextEx r)) :
    Sound source heap (s.nextEx source heap h r) := by
  have inHand : s.point.inHand = none := by rw [point]; rfl
  have there : s.point ≠ .deleted := by rw [point]; exact nofun
  have handed := sound.empty inHand
  have open_ : s.pcap ≠ none := by rw [pcap]; exact nofun
  simp only [Capturing.nextEx]
  cases r with
  | packet f =>
    refine { sound with
      stands := open_
      handed := by rw [List.map_append, handed]; rfl
      online := fun _ => .inl open_
      returned := nofun
      file := fun file => ⟨?_, fun none => absurd none open_⟩
      told := fun terminate own => ?_ }
    · rcases meets.file file with ⟨f', next, same⟩ | ⟨-, error | ended⟩
      · cases same
        rw [List.take_add_one, next, (sound.file file).1]
        rfl
      · cases error
      · cases ended
    · obtain ⟨file, ends⟩ := sound.told terminate own
      exact ⟨file, Nat.le_succ_of_le ends⟩
  | timeout => exact sound.move trivial inHand.symm nofun there
  | error =>
    simp only
    split
    · rename_i file
      rcases meets.file file with ⟨f, -, same⟩ | ⟨ends, -⟩
      · cases same
      · exact sound.ends point file ends
    · rename_i device
      have handles := sound.handles
      rw [pcap] at handles
      exact { sound with
        stands := trivial
        handles := by simpa using handles
        handed := by rw [handed]; exact (List.append_nil _).symm
        online := nofun
        returned := nofun
        file := fun file => absurd file device }
  | endOfFile =>
    cases file : source.isFile with
    | true =>
      rcases meets.file file with ⟨f, -, same⟩ | ⟨ends, -⟩
      · cases same
      · exact sound.ends point file ends
    | false =>
      cases source with
      | device => exact absurd rfl meets
      | file frames damaged => cases file
  | other => exact sound.offline inHand there

/-- A handle is opened where there is none. -/
theorem sound_openCapture {o : Opening} (sound : Sound source heap s)
    (point : s.point = .noHandle) : Sound source heap (s.openCapture o) := by
  have none : s.pcap = none := by
    have stands := sound.stands
    rw [point] at stands
    exact stands
  have there : s.point ≠ .deleted := by rw [point]; exact nofun
  have inHand : s.point.inHand = Option.none := by rw [point]; rfl
  have closed : s.closed = List.range s.opened := by simpa [none] using sound.handles
  simp only [Capturing.openCapture]
  cases o with
  | failed => exact sound.offline inHand there
  | filterRefused =>
    refine { sound.offline inHand there with
      stands := trivial
      returned := nofun
      online := nofun
      handles := ?_ }
    simp [none, closed, List.range_succ]
  | opened =>
    refine { sound.offline inHand there with
      stands := trivial
      handles := by simp [closed, List.range_succ]
      online := fun _ => .inl nofun
      returned := nofun
      file := fun file => ?_
      told := fun terminate own => ?_ }
    · obtain ⟨given, start⟩ := sound.file file
      have position := (start none).resolve_left there
      exact ⟨by simpa [position] using given, nofun⟩
    · obtain ⟨file, ends⟩ := sound.told terminate own
      have position := ((sound.file file).2 none).resolve_left there
      rw [position] at ends
      exact ⟨file, ends⟩

/-- **One step** of the thread, or of the one that tells it to terminate. -/
theorem sound_step {a : Action} (sound : Sound source heap s)
    (taken : s.step source heap a = some t) (meets : Libpcap source s a) :
    Sound source heap t := by
  cases a with
  | terminate =>
    cases taken
    exact { sound with
      returned := fun point => ⟨rfl, (sound.returned point).2⟩
      told := fun _ own => nomatch own }
  | loop =>
    simp only [Capturing.step] at taken
    split at taken
    · rename_i point
      cases taken
      have inHand : s.point.inHand = none := by rw [point]; rfl
      have there : s.point ≠ .deleted := by rw [point]; exact nofun
      split
      · rename_i terminate
        have offline := sound.offline inHand there
        refine { offline with
          stands := trivial
          returned := fun _ => ⟨terminate, rfl⟩
          online := nofun
          file := fun file => ⟨(offline.file file).1, fun none => .inr ?_⟩ }
        exact ((sound.file file).2 none).resolve_left there
      · split
        · exact sound.move ‹_› inHand.symm nofun there
        · exact sound.move ‹_› inHand.symm nofun there
    · cases taken
  | select ready =>
    simp only [Capturing.step] at taken
    split at taken
    · rename_i point
      cases taken
      have inHand : s.point.inHand = none := by rw [point]; rfl
      have there : s.point ≠ .deleted := by rw [point]; exact nofun
      have stands : s.pcap ≠ none := by
        have stands := sound.stands
        rw [point] at stands
        exact stands
      split
      · exact sound.move stands inHand.symm nofun there
      · exact sound.move trivial inHand.symm nofun there
      · exact sound.move trivial inHand.symm nofun there
    · cases taken
  | read =>
    simp only [Capturing.step] at taken
    split at taken
    · rename_i point
      cases taken
      have inHand : s.point.inHand = none := by rw [point]; rfl
      have there : s.point ≠ .deleted := by rw [point]; exact nofun
      have stands : s.pcap ≠ none := by
        have stands := sound.stands
        rw [point] at stands
        exact stands
      split
      · exact sound.move trivial inHand.symm nofun there
      · exact sound.move stands inHand.symm nofun there
    · cases taken
  | nextEx r =>
    simp only [Capturing.step] at taken
    split at taken
    · rename_i h point pcap
      cases taken
      exact sound_nextEx sound point pcap meets
    · cases taken
  | process throws =>
    simp only [Capturing.step] at taken
    split at taken
    · rename_i pkt point
      cases taken
      have there : s.point ≠ .deleted := by rw [point]; exact nofun
      have stands : s.pcap ≠ none := by
        have stands := sound.stands
        rw [point] at stands
        exact stands
      have handed := sound.handed
      rw [point] at handed
      refine { sound with
        stands := ?_
        handed := ?_
        online := fun _ => .inl stands
        returned := ?_
        file := fun file => ⟨(sound.file file).1, fun none => absurd none stands⟩ }
      · cases throws with
        | true => trivial
        | false => exact stands
      · cases throws with
        | true => simpa [PcapPoint.inHand] using handed
        | false => simpa [PcapPoint.inHand] using handed
      · cases throws with
        | true => exact nofun
        | false => exact nofun
    · cases taken
  | openCapture up o =>
    simp only [Capturing.step] at taken
    split at taken
    · rename_i point
      cases taken
      have inHand : s.point.inHand = none := by rw [point]; rfl
      have there : s.point ≠ .deleted := by rw [point]; exact nofun
      split
      · exact sound.move trivial inHand.symm nofun there
      · split
        · exact sound.offline inHand there
        · exact sound_openCapture sound point
    · cases taken
  | delete =>
    have deleted (inHand : s.point.inHand = none) : Sound source heap { s with
        pcap := none, closed := s.closed ++ s.pcap.toList, point := .deleted } :=
      { sound with
        stands := rfl
        handles := by simpa using sound.handles
        handed := (sound.empty inHand).trans (List.append_nil _).symm
        online := fun _ => .inr rfl
        returned := nofun
        file := fun file => ⟨(sound.file file).1, fun _ => .inl rfl⟩ }
    simp only [Capturing.step] at taken
    split at taken
    · rename_i point
      cases taken
      exact deleted (by rw [point]; rfl)
    · rename_i point
      cases taken
      exact deleted (by rw [point]; rfl)
    · cases taken

/-- **Every frame once.** In every run the packets that `ProcessPacket` was called with and the
one that is next are those of the frames that were read, in their order; every handle that was
opened is in use or was closed, and was closed once, and a running thread is online only where
it has one. A file is read once: its frames are read from
the first on, and a thread that returns without being told has come to the last. A thread that
reads from a device returns only when it is told, and is offline then. -/
theorem frames_once (heap : Memory)
    (reached : Reaches (Capturing.step source heap) (Libpcap source) {} s) :
    s.given.map (pcapPacket · heap) = s.handed ++ s.point.inHand.toList ∧
      s.closed ++ s.pcap.toList = List.range s.opened ∧
      (s.captureState = .online → s.pcap ≠ none ∨ s.point = .deleted) ∧
      (source.isFile = true → s.given = source.frames.take s.position) ∧
      (s.point = .returned → s.captureState = .offline ∧ (s.told = false →
        source.isFile = true ∧ s.handed = source.frames.map (pcapPacket · heap))) ∧
      (s.point = .deleted → s.closed = List.range s.opened) := by
  have sound : Sound source heap s := by
    refine reached.invariant ?_ fun _ _ _ before taken meets => sound_step before taken meets
    exact {
      stands := trivial
      handles := rfl
      handed := rfl
      online := nofun
      returned := nofun
      file := fun _ => ⟨rfl, fun _ => .inr rfl⟩
      told := nofun }
  refine ⟨sound.handed, sound.handles, sound.online, fun file => (sound.file file).1, fun point => ?_,
    fun point => ?_⟩
  · obtain ⟨terminate, offline⟩ := sound.returned point
    refine ⟨offline, fun own => ?_⟩
    obtain ⟨file, ends⟩ := sound.told terminate own
    have handed := sound.handed
    rw [point, (sound.file file).1, List.take_of_length_le ends] at handed
    exact ⟨file, by simpa [PcapPoint.inHand] using handed.symm⟩
  · have none : s.pcap = none := by
      have stands := sound.stands
      rw [point] at stands
      exact stands
    simpa [none] using sound.handles

/-- Two frames, of which the second was cut off. -/
def twoFrames : PcapSource :=
  .file [⟨[1, 2], 2, 0, 0, by decide⟩, ⟨[3], 4, 1, 0, by decide⟩] false

def twoFramesRun : List Action :=
  [.loop, .openCapture true .filterRefused, .loop, .openCapture true .opened, .loop,
    .select (some true), .read, .nextEx (answer twoFrames.frames false 0), .process false, .read,
    .nextEx (answer twoFrames.frames false 1), .process false, .read, .nextEx .endOfFile, .loop]

theorem twoFrames_once : ∃ s : Capturing, s.point = .returned ∧ s.told = false ∧
    (s.point = .returned → s.captureState = .offline ∧ (s.told = false →
      twoFrames.isFile = true ∧
        s.handed = twoFrames.frames.map (pcapPacket · fun _ => 0))) := by
  have found : (exec (Capturing.step twoFrames fun _ => 0) (Libpcap twoFrames) {}
      twoFramesRun).any (fun s => s.point = .returned ∧ s.told = false) = true := by
    decide +kernel
  obtain ⟨s, reached, ended⟩ := reached_of_exec found
  obtain ⟨point, told⟩ := of_decide_eq_true ended
  exact ⟨s, point, told, (frames_once _ reached).2.2.2.2.1⟩

end NetifyAgent.PcapCapture
