import Mathlib.Data.List.Nodup
import NetifyAgent.SinkQueue

/-! What becomes of the payloads of a sink. A payload is queued, pulled into the private
queue and popped, unless a later pull finds too many bytes there and deletes it. The model
keeps what was queued, delivered and deleted beside the queues, so that each payload can be
followed from its `QueuePayload` on. -/
namespace NetifyAgent.SinkDeliveries
open Runs SinkQueue

/-! ## Payloads and deletions -/

/-- A payload that has been handed to `QueuePayload`, and how many were before it. -/
structure Queued where
  place : Nat
  payload : SinkPayload
  deriving DecidableEq, Repr

def Queued.length (p : Queued) : Nat := p.payload.length

/-- The bytes of some payloads. -/
def bytes (l : List Queued) : Nat := total (l.map Queued.payload)

/-- A `delete p` of the inner loop of `PullPayloadQueue`, with what the loop found. -/
structure Deletion where
  victim : Queued
  plqSize : Nat
  plqPrivate : List Queued
  /-- What had been queued, and neither delivered nor deleted, in the order of queueing. -/
  undelivered : List Queued
  deriving DecidableEq, Repr

/-! ## The queue of a sink -/

/-- `ndPluginSink`. A size counts bytes that are in memory, so it fits `size_t`. -/
structure PayloadQueue where
  plqSize : Nat := 0
  plqPublic : List Queued := []
  plqPrivate : List Queued := []
  /-- The sink waits in `WaitOnPayloadQueue` for `plq_cond`. -/
  waiting : Bool := false
  /-- What was handed to `QueuePayload` so far. -/
  queued : List Queued := []
  /-- What `PopPayloadQueue` has returned so far. -/
  delivered : List Queued := []
  deletions : List Deletion := []
  /-- The last payload pulled. -/
  pulled : Option Queued := none
  deriving DecidableEq, Repr

def PayloadQueue.deleted (s : PayloadQueue) : List Queued := s.deletions.map Deletion.victim

def PayloadQueue.undelivered (s : PayloadQueue) : List Queued :=
  s.queued.filter fun p => decide (p ∉ s.delivered ∧ p ∉ s.deleted)

/-- `QueuePayload`. It pushes the payload before anything in it can throw. -/
def PayloadQueue.queuePayload (s : PayloadQueue) (payload : SinkPayload) : PayloadQueue :=
  { s with
    plqPublic := s.plqPublic ++ [⟨s.queued.length, payload⟩]
    queued := s.queued ++ [⟨s.queued.length, payload⟩] }

/-- The body of the inner loop, where `p` is in front of `rest`. -/
def PayloadQueue.delete (s : PayloadQueue) (p : Queued) (rest : List Queued) : PayloadQueue :=
  { s with
    plqPrivate := rest
    plqSize := s.plqSize - p.length
    deletions := s.deletions ++ [⟨p, s.plqSize, s.plqPrivate, s.undelivered⟩] }

/-- `while (plq_private.size() && plq_size > plq_size_max)`, over what is in `plq_private`. -/
def PayloadQueue.makeRoom (sizeMax : Nat) : List Queued → PayloadQueue → PayloadQueue
  | [], s => s
  | p :: rest, s => if sizeMax < s.plqSize then makeRoom sizeMax rest (s.delete p rest) else s

/-- What the outer loop does behind the inner one, where `p` is in front of `rest`. -/
def PayloadQueue.transfer (s : PayloadQueue) (p : Queued) (rest : List Queued) : PayloadQueue :=
  { s with
    plqPublic := rest
    plqSize := s.plqSize + p.length
    plqPrivate := s.plqPrivate ++ [p]
    pulled := some p }

/-- `do ... while (plq_public.size() > 0)`, over what is in `plq_public`. -/
def PayloadQueue.pullLoop (sizeMax : Nat) : List Queued → PayloadQueue → PayloadQueue
  | [], s => s
  | p :: rest, s => pullLoop sizeMax rest ((s.makeRoom sizeMax s.plqPrivate).transfer p rest)

/-- `PullPayloadQueue`. It returns 0 where nothing is public, whatever is private. -/
def PayloadQueue.pullPayloadQueue (sizeMax : Nat) (s : PayloadQueue) : PayloadQueue × Nat :=
  if s.plqPublic = [] then (s, 0)
  else (s.pullLoop sizeMax s.plqPublic, (s.pullLoop sizeMax s.plqPublic).plqPrivate.length)

/-- `WaitOnPayloadQueue`, until it returns or waits. -/
def PayloadQueue.waitOnPayloadQueue (sizeMax timeout : Nat) (s : PayloadQueue) : PayloadQueue :=
  let (t, entries) := s.pullPayloadQueue sizeMax
  { t with waiting := decide (0 < timeout ∧ entries = 0) }

/-- `WaitOnPayloadQueue`, from its wait on. It pulls once more, or throws. -/
def PayloadQueue.wake (sizeMax : Nat) (throws : Bool) (s : PayloadQueue) : PayloadQueue :=
  { if throws then s else (s.pullPayloadQueue sizeMax).1 with waiting := false }

/-- `PopPayloadQueue`. -/
def PayloadQueue.popPayloadQueue (s : PayloadQueue) : PayloadQueue :=
  match s.plqPrivate with
  | [] => s
  | p :: rest =>
    { s with
      plqPrivate := rest
      plqSize := s.plqSize - p.length
      delivered := s.delivered ++ [p] }

/-- Processors queue at any time; the sink calls one function at a time. -/
inductive Action where
  | queuePayload (payload : SinkPayload)
  | waitOnPayloadQueue (timeout : Nat)
  | wake (throws : Bool)
  | popPayloadQueue
  deriving DecidableEq, Repr

def step (sizeMax : Nat) (s : PayloadQueue) : Action → Option PayloadQueue
  | .queuePayload payload => some (s.queuePayload payload)
  | .waitOnPayloadQueue timeout =>
    if s.waiting then none else some (s.waitOnPayloadQueue sizeMax timeout)
  | .wake throws => if s.waiting then some (s.wake sizeMax throws) else none
  | .popPayloadQueue => if s.waiting then none else some s.popPayloadQueue

/-! ## The account -/

/-- Where a payload may be. -/
inductive Place where
  | plqPublic
  | plqPrivate
  | delivered
  | deleted
  deriving DecidableEq, Repr

/-- What is in a place. -/
def PayloadQueue.held (s : PayloadQueue) : Place → List Queued
  | .plqPublic => s.plqPublic
  | .plqPrivate => s.plqPrivate
  | .delivered => s.delivered
  | .deleted => s.deleted

/-- A deletion is of the oldest undelivered payload, while the private payloads hold too
many bytes, and takes no more off `plq_size` than it counts. -/
structure Deletion.Justified (sizeMax : Nat) (d : Deletion) : Prop where
  size : d.plqSize = bytes d.plqPrivate
  exceeds : sizeMax < bytes d.plqPrivate
  oldest : d.undelivered.head? = some d.victim
  fits : d.victim.length ≤ d.plqSize

/-- No byte and no payload is lost, invented or counted twice. -/
structure Accounted (sizeMax : Nat) (s : PayloadQueue) : Prop where
  size : s.plqSize = bytes s.plqPrivate
  /-- A pop takes no more off `plq_size` than it counts. -/
  fits : ∀ p rest, s.plqPrivate = p :: rest → p.length ≤ s.plqSize
  order : s.delivered.Sublist s.queued
  once : s.delivered.Nodup
  place : ∀ p ∈ s.queued, ∃! place, p ∈ s.held place
  known : ∀ place, (s.held place).Sublist s.queued ∧ (s.held place).Nodup
  deletions : ∀ d ∈ s.deletions, d.Justified sizeMax
  /-- Before the first pull there is nothing private; after a pull there is no more than
  allowed and the last payload pulled. -/
  bound : s.plqSize ≤ sizeMax + (s.pulled.elim 0 Queued.length)

/-! ## The row of payloads -/

section
variable {sizeMax : Nat} {s t : PayloadQueue} {p : Queued} {rest : List Queued}

@[simp] theorem bytes_nil : bytes [] = 0 := rfl

@[simp] theorem bytes_cons (p : Queued) (l : List Queued) :
    bytes (p :: l) = p.length + bytes l := rfl

@[simp] theorem bytes_append (l m : List Queued) : bytes (l ++ m) = bytes l + bytes m := by
  unfold bytes
  rw [List.map_append, total_append]

/-- What was queued stands in a row: what has left the queues, what is private, and what is
public. -/
structure InRow (sizeMax : Nat) (s : PayloadQueue) (gone : List Queued) : Prop where
  places : s.queued.map Queued.place = List.range s.queued.length
  row : s.queued = gone ++ (s.plqPrivate ++ s.plqPublic)
  left : gone.Perm (s.delivered ++ s.deleted)
  delivered : s.delivered.Sublist gone
  deleted : s.deleted.Sublist gone
  size : s.plqSize = bytes s.plqPrivate
  deletions : ∀ d ∈ s.deletions, d.Justified sizeMax
  bound : s.plqSize ≤ sizeMax + (s.pulled.elim 0 Queued.length)

variable {gone : List Queued}

theorem InRow.nodup (inRow : InRow sizeMax s gone) : s.queued.Nodup := by
  apply List.Nodup.of_map Queued.place
  rw [inRow.places]
  exact List.nodup_range

/-- What is undelivered is what the queues hold. -/
theorem InRow.undelivered (inRow : InRow sizeMax s gone) :
    s.undelivered = s.plqPrivate ++ s.plqPublic := by
  have nodup := inRow.nodup
  rw [inRow.row] at nodup
  obtain ⟨-, -, apart⟩ := List.nodup_append.mp nodup
  have away : ∀ p, (p ∉ s.delivered ∧ p ∉ s.deleted) ↔ p ∉ gone := fun p => by
    rw [inRow.left.mem_iff, List.mem_append, not_or]
  unfold PayloadQueue.undelivered
  simp only [away]
  rw [inRow.row, List.filter_append, List.filter_eq_nil_iff.mpr, List.nil_append,
    List.filter_eq_self.mpr]
  · intro p member
    rw [decide_eq_true_eq]
    exact fun left => apart p left p member rfl
  · intro p member
    simpa using member

/-- The four places, the one that is left first in front. -/
def Place.all : List Place := [.delivered, .deleted, .plqPrivate, .plqPublic]

theorem InRow.filed (inRow : InRow sizeMax s gone) : (Place.all.flatMap s.held).Perm s.queued := by
  have whole : Place.all.flatMap s.held =
      (s.delivered ++ s.deleted) ++ (s.plqPrivate ++ s.plqPublic) := by
    simp [Place.all, PayloadQueue.held]
  rw [whole, inRow.row]
  exact inRow.left.symm.append_right _

/-- No payload is in two places. -/
theorem InRow.apart (inRow : InRow sizeMax s gone) {a b : Place} (first : p ∈ s.held a)
    (second : p ∈ s.held b) : a = b := by
  have nodup := inRow.filed.nodup_iff.mpr inRow.nodup
  have disjoint := (List.nodup_flatMap.mp nodup).2
  have symm : Std.Symm (Function.onFun List.Disjoint s.held) := ⟨fun _ _ h => h.symm⟩
  by_contra differ
  have all : ∀ c, c ∈ Place.all := by
    intro c
    cases c <;> decide
  exact disjoint.forall (all a) (all b) differ first second

/-- The row says where each payload is. -/
theorem InRow.accounted (inRow : InRow sizeMax s gone) : Accounted sizeMax s where
  size := inRow.size
  fits p rest front := by
    rw [inRow.size, front, bytes_cons]
    exact Nat.le_add_right _ _
  order := inRow.delivered.trans (by rw [inRow.row]; exact List.sublist_append_left _ _)
  once := inRow.nodup.sublist
    (inRow.delivered.trans (by rw [inRow.row]; exact List.sublist_append_left _ _))
  place p queued := by
    have filed := inRow.filed.mem_iff.mpr queued
    obtain ⟨place, -, held⟩ := List.mem_flatMap.mp filed
    exact ⟨place, held, fun other too => inRow.apart too held⟩
  known place := by
    have part : (s.held place).Sublist s.queued := by
      rw [inRow.row]
      cases place with
      | plqPublic =>
        exact (List.sublist_append_right _ _).trans (List.sublist_append_right _ _)
      | plqPrivate =>
        exact (List.sublist_append_left _ _).trans (List.sublist_append_right _ _)
      | delivered => exact inRow.delivered.trans (List.sublist_append_left _ _)
      | deleted => exact inRow.deleted.trans (List.sublist_append_left _ _)
    exact ⟨part, inRow.nodup.sublist part⟩
  deletions := inRow.deletions
  bound := inRow.bound

/-! ## What the calls keep -/

theorem inRow_queuePayload (inRow : InRow sizeMax s gone) (payload : SinkPayload) :
    InRow sizeMax (s.queuePayload payload) gone where
  places := by
    simp only [PayloadQueue.queuePayload, List.map_append, inRow.places, List.length_append,
      List.length_singleton, List.map_cons, List.map_nil]
    exact List.range_succ.symm
  row := by
    simp only [PayloadQueue.queuePayload]
    rw [← List.append_assoc s.plqPrivate, ← List.append_assoc gone, ← inRow.row]
  left := inRow.left
  delivered := inRow.delivered
  deleted := inRow.deleted
  size := inRow.size
  deletions := inRow.deletions
  bound := inRow.bound

/-- A deletion takes the oldest undelivered payload off the row. -/
theorem inRow_delete (inRow : InRow sizeMax s gone) (front : s.plqPrivate = p :: rest)
    (exceeds : sizeMax < s.plqSize) : InRow sizeMax (s.delete p rest) (gone ++ [p]) where
  places := inRow.places
  row := by
    have row := inRow.row
    rw [front] at row
    simpa [PayloadQueue.delete] using row
  left := by
    have less := inRow.left.append_right [p]
    simpa [PayloadQueue.delete, PayloadQueue.deleted] using less
  delivered := inRow.delivered.trans (List.sublist_append_left _ _)
  deleted := by
    have more := inRow.deleted.append_right [p]
    simpa [PayloadQueue.delete, PayloadQueue.deleted] using more
  size := by
    have size := inRow.size
    rw [front, bytes_cons] at size
    simp only [PayloadQueue.delete]
    omega
  deletions d member := by
    rcases List.mem_append.mp member with before | here
    · exact inRow.deletions d before
    · rw [List.mem_singleton.mp here]
      refine ⟨inRow.size, inRow.size ▸ exceeds, ?_, ?_⟩
      · show s.undelivered.head? = some p
        rw [inRow.undelivered, front]
        rfl
      · show p.length ≤ s.plqSize
        rw [inRow.size, front, bytes_cons]
        exact Nat.le_add_right _ _
  bound := (Nat.sub_le _ _).trans inRow.bound

/-- The inner loop leaves no more than allowed. -/
theorem inRow_makeRoom (inRow : InRow sizeMax s gone) : ∃ gone,
    InRow sizeMax (s.makeRoom sizeMax s.plqPrivate) gone ∧
      (s.makeRoom sizeMax s.plqPrivate).plqSize ≤ sizeMax ∧
      (s.makeRoom sizeMax s.plqPrivate).plqPublic = s.plqPublic := by
  generalize front : s.plqPrivate = l
  induction l generalizing s gone with
  | nil =>
    have size := inRow.size
    rw [front, bytes_nil] at size
    refine ⟨gone, inRow, ?_, rfl⟩
    show s.plqSize ≤ sizeMax
    omega
  | cons p rest ih =>
    unfold PayloadQueue.makeRoom
    split
    · rename_i exceeds
      exact ih (inRow_delete inRow front exceeds) rfl
    · rename_i within
      exact ⟨gone, inRow, Nat.le_of_not_lt within, rfl⟩

theorem inRow_transfer (inRow : InRow sizeMax s gone) (within : s.plqSize ≤ sizeMax)
    (front : s.plqPublic = p :: rest) : InRow sizeMax (s.transfer p rest) gone where
  places := inRow.places
  row := by
    have row := inRow.row
    rw [front] at row
    simpa [PayloadQueue.transfer] using row
  left := inRow.left
  delivered := inRow.delivered
  deleted := inRow.deleted
  size := by
    simp only [PayloadQueue.transfer, bytes_append, bytes_cons, bytes_nil, Nat.add_zero]
    rw [inRow.size]
  deletions := inRow.deletions
  bound := Nat.add_le_add_right within _

/-- The outer loop, by the payloads it pulls. -/
theorem inRow_pullLoop (inRow : InRow sizeMax s gone) :
    ∃ gone, InRow sizeMax (s.pullLoop sizeMax s.plqPublic) gone := by
  generalize front : s.plqPublic = l
  induction l generalizing s gone with
  | nil => exact ⟨gone, inRow⟩
  | cons p rest ih =>
    obtain ⟨gone, room, within, same⟩ := inRow_makeRoom inRow
    exact ih (inRow_transfer room within (same.trans front)) rfl

theorem inRow_pullPayloadQueue (inRow : InRow sizeMax s gone) :
    ∃ gone, InRow sizeMax (s.pullPayloadQueue sizeMax).1 gone := by
  unfold PayloadQueue.pullPayloadQueue
  split
  · exact ⟨gone, inRow⟩
  · exact inRow_pullLoop inRow

/-- Whether the sink waits has no part in the row. -/
theorem inRow_waiting (inRow : InRow sizeMax s gone) (waiting : Bool) :
    InRow sizeMax { s with waiting := waiting } gone :=
  ⟨inRow.places, inRow.row, inRow.left, inRow.delivered, inRow.deleted, inRow.size,
    inRow.deletions, inRow.bound⟩

/-- A pop takes the oldest undelivered payload off the row. -/
theorem inRow_popPayloadQueue (inRow : InRow sizeMax s gone) :
    ∃ gone, InRow sizeMax s.popPayloadQueue gone := by
  unfold PayloadQueue.popPayloadQueue
  split
  · exact ⟨gone, inRow⟩
  · rename_i p rest front
    have row := inRow.row
    have size := inRow.size
    rw [front] at row size
    refine ⟨gone ++ [p], inRow.places, by simpa using row, ?_, inRow.delivered.append_right _,
      inRow.deleted.trans (List.sublist_append_left _ _), ?_, inRow.deletions,
      (Nat.sub_le _ _).trans inRow.bound⟩
    · calc gone ++ [p]
        _ |>.Perm (s.delivered ++ s.deleted ++ [p]) := inRow.left.append_right _
        _ |>.Perm (s.delivered ++ ([p] ++ s.deleted)) := by
          rw [List.append_assoc]
          exact List.perm_append_comm.append_left _
        _ = _ := (List.append_assoc _ _ _).symm
    · rw [bytes_cons] at size
      show s.plqSize - p.length = bytes rest
      omega

/-- **Steps.** Every call keeps the row. -/
theorem inRow_step {action : Action} (inRow : InRow sizeMax s gone)
    (taken : step sizeMax s action = some t) : ∃ gone, InRow sizeMax t gone := by
  cases action with
  | queuePayload payload =>
    cases taken
    exact ⟨gone, inRow_queuePayload inRow payload⟩
  | waitOnPayloadQueue timeout =>
    simp only [step, Option.ite_none_left_eq_some, Option.some.injEq] at taken
    obtain ⟨-, rfl⟩ := taken
    obtain ⟨gone, pulled⟩ := inRow_pullPayloadQueue inRow
    exact ⟨gone, inRow_waiting pulled _⟩
  | wake throws =>
    simp only [step, Option.ite_none_right_eq_some, Option.some.injEq] at taken
    obtain ⟨-, rfl⟩ := taken
    unfold PayloadQueue.wake
    cases throws with
    | true => exact ⟨gone, inRow_waiting inRow _⟩
    | false =>
      obtain ⟨gone, pulled⟩ := inRow_pullPayloadQueue inRow
      exact ⟨gone, inRow_waiting pulled _⟩
  | popPayloadQueue =>
    simp only [step, Option.ite_none_left_eq_some, Option.some.injEq] at taken
    obtain ⟨-, rfl⟩ := taken
    exact inRow_popPayloadQueue inRow

theorem inRow_start : InRow sizeMax {} [] :=
  ⟨rfl, rfl, .refl _, List.Sublist.slnil, List.Sublist.slnil, rfl,
    fun _ member => absurd member List.not_mem_nil, Nat.zero_le _⟩

/-- **The account of a sink.** However its queue is filled, pulled and emptied, each payload
is in one place, delivered in the order of queueing or deleted with cause, and the bytes
counted are those of the private queue. -/
theorem accounted_reached (reached : Reaches (step sizeMax) Always {} s) :
    Accounted sizeMax s := by
  have row : ∃ gone, InRow sizeMax s gone := by
    refine reached.invariant (I := fun s => ∃ gone, InRow sizeMax s gone) ⟨[], inRow_start⟩ ?_
    intro s action t held taken _
    obtain ⟨gone, inRow⟩ := held
    exact inRow_step inRow taken
  obtain ⟨gone, inRow⟩ := row
  exact inRow.accounted

/-- A sink that allows three bytes waits for its first payloads, pulls seven bytes in one
call, and deletes both payloads before it pulls a third. -/
theorem accounted_overflow : ∃ s, Reaches (step 3) Always {} s ∧ Accounted 3 s ∧
    s.deleted.map Queued.place = [0, 1] ∧ s.delivered.map Queued.place = [2] := by
  have found : (exec (step 3) Always {}
      [.waitOnPayloadQueue 1, .queuePayload ⟨[1, 2], 0, .header⟩,
        .queuePayload ⟨[1, 2, 3, 4, 5], 0, .body⟩, .wake false,
        .queuePayload ⟨[1], 1, .header⟩, .waitOnPayloadQueue 0, .popPayloadQueue]).any
      (fun s => s.deleted.map Queued.place = [0, 1] ∧ s.delivered.map Queued.place = [2]) =
        true := by
    decide
  obtain ⟨s, reached, ends⟩ := reached_of_exec found
  exact ⟨s, reached, accounted_reached reached, of_decide_eq_true ends⟩

/-! ## The loops over payloads alone -/

/-- What is private, and how many bytes are counted for it. -/
def PayloadQueue.pile (s : PayloadQueue) : List SinkPayload × Nat :=
  (s.plqPrivate.map Queued.payload, s.plqSize)

/-- Numbered payloads are deleted as payloads are. -/
theorem makeRoom_pile (s : PayloadQueue) : (s.makeRoom sizeMax s.plqPrivate).pile =
    SinkQueue.makeRoom sizeMax (s.plqPrivate.map Queued.payload) s.plqSize := by
  generalize front : s.plqPrivate = l
  induction l generalizing s with
  | nil =>
    unfold PayloadQueue.makeRoom PayloadQueue.pile
    rw [front]
    rfl
  | cons p rest ih =>
    unfold PayloadQueue.makeRoom
    rw [List.map_cons, SinkQueue.makeRoom]
    split
    · exact ih (s.delete p rest) rfl
    · unfold PayloadQueue.pile
      rw [front, List.map_cons]

theorem pullLoop_pile (l : List Queued) (s : PayloadQueue) : (s.pullLoop sizeMax l).pile =
    SinkQueue.pullLoop sizeMax (l.map Queued.payload) (s.plqPrivate.map Queued.payload)
      s.plqSize := by
  induction l generalizing s with
  | nil => rfl
  | cons p rest ih =>
    have room := @makeRoom_pile sizeMax s
    unfold PayloadQueue.pullLoop
    rw [List.map_cons, SinkQueue.pullLoop, ih, ← room]
    simp [PayloadQueue.transfer, PayloadQueue.pile, Queued.length]

/-- **A pull** deletes as many of the oldest payloads as have to go before the last one is
pulled, and no others. -/
theorem pullPayloadQueue_pile (size : s.plqSize = bytes s.plqPrivate)
    (some : s.plqPublic ≠ []) : (s.pullPayloadQueue sizeMax).1.plqPrivate.map Queued.payload =
      ((s.plqPrivate ++ s.plqPublic).map Queued.payload).drop
        (surplus sizeMax ((s.plqPrivate ++ s.plqPublic.dropLast).map Queued.payload)) := by
  have none : s.plqPublic.map Queued.payload ≠ [] := by simpa using some
  have pulled := @pullLoop_pile sizeMax s.plqPublic s
  rw [size, bytes, pullLoop_eq _ _ none] at pulled
  unfold PayloadQueue.pullPayloadQueue
  rw [if_neg some]
  simpa [PayloadQueue.pile, List.map_dropLast] using congrArg Prod.fst pulled

end

end NetifyAgent.SinkDeliveries
