import Mathlib.Data.Finset.Insert
import Mathlib.Data.List.AList
import NetifyAgent.Addr
import NetifyAgent.Lib.Runs

/-! The endpoints of an interface in two buffers. Detection threads push into the
one that the flag selects, under a lock; the update thread flips the flag without
the lock and clears the buffer that is selected then. A report has exactly what was
pushed between two flips as long as no push reads the flag between a flip and the
clearing that follows it. -/
namespace NetifyAgent
open Runs

section
variable {α : Type} [DecidableEq α]

/-- `ndInterfaceEndpoints`: the addresses seen with each hardware address, as
`ndAddrEqual` tells them apart. -/
abbrev InterfaceEndpoints (α : Type) [DecidableEq α] := AList fun _ : α => Finset α

/-- `emplace`, or `Push` where there is an entry, and what is returned. -/
def InterfaceEndpoints.push (endpoints : InterfaceEndpoints α) (mac ip : α) :
    InterfaceEndpoints α × Bool :=
  match endpoints.lookup mac with
  | none => (endpoints.insert mac {ip}, true)
  | some addrs => (endpoints.insert mac (insert ip addrs), decide (ip ∉ addrs))

/-- A pair of addresses is in a buffer. -/
def InterfaceEndpoints.Holds (endpoints : InterfaceEndpoints α) (mac ip : α) : Prop :=
  ∃ addrs, endpoints.lookup mac = some addrs ∧ ip ∈ addrs

end

/-- Where the thread stands in `PushEndpoint` that holds the lock. -/
inductive PushPoint (α : Type) where
  | locked (mac ip : α)
  /-- The flag was read. -/
  | loaded (mac ip : α) (snapshot : Bool)
  deriving DecidableEq, Repr

/-- Where the update thread stands in `NextEndpointSnapshot`. -/
inductive SnapshotPoint where
  | idle
  /-- The flag was exchanged for its opposite. -/
  | flipped (snapshot : Bool)
  deriving DecidableEq, Repr

/-- The buffers of an interface and where the threads stand. -/
structure EndpointSystem (α : Type) [DecidableEq α] where
  endpoints : Bool → InterfaceEndpoints α := fun _ => ∅
  endpointSnapshot : Bool := false
  /-- The holder of the lock. -/
  push : Option (PushPoint α) := none
  update : SnapshotPoint := .idle
  /-- What the last call of `NextEndpointSnapshot` returned. -/
  returned : Option Bool := none
  /-- The pairs pushed since the last flip. -/
  pushed : List (α × α) := []
  /-- The pairs pushed between the last two flips. -/
  due : List (α × α) := []

/-- The steps of the threads. -/
inductive EndpointAction (α : Type) where
  /-- `PushEndpoint` takes the lock. -/
  | push (mac ip : α)
  /-- It reads the flag. -/
  | load
  /-- It stores the pair and releases the lock. -/
  | store
  /-- `NextEndpointSnapshot` exchanges the flag. -/
  | flip
  /-- `ClearEndpoints`, under the lock, and the return. -/
  | clear
  deriving DecidableEq, Repr

namespace EndpointSystem
variable {α : Type} [DecidableEq α]

def step (s : EndpointSystem α) : EndpointAction α → Option (EndpointSystem α)
  | .push mac ip => if s.push = none then some { s with push := some (.locked mac ip) } else none
  | .load =>
    match s.push with
    | some (.locked mac ip) =>
      some { s with
        push := some (.loaded mac ip s.endpointSnapshot)
        pushed := (mac, ip) :: s.pushed }
    | _ => none
  | .store =>
    match s.push with
    | some (.loaded mac ip snapshot) =>
      some { s with
        endpoints := Function.update s.endpoints snapshot ((s.endpoints snapshot).push mac ip).1
        push := none }
    | _ => none
  | .flip =>
    match s.update with
    | .idle =>
      some { s with
        endpointSnapshot := !s.endpointSnapshot
        update := .flipped s.endpointSnapshot
        pushed := []
        due := s.pushed }
    | .flipped _ => none
  | .clear =>
    match s.update with
    | .flipped snapshot =>
      if s.push = none then
        some { s with
          endpoints := Function.update s.endpoints s.endpointSnapshot ∅
          update := .idle
          returned := some snapshot }
      else none
    | .idle => none

/-- `ndInterface::LastEndpointSnapshot`. -/
def lastEndpointSnapshot (s : EndpointSystem α) : Bool := !s.endpointSnapshot

/-- Until the next flip the last snapshot is the one that was returned, and its
buffer has exactly what was pushed between the last two flips. -/
def Reports (s : EndpointSystem α) : Prop :=
  s.update = .idle → ∀ snapshot, s.returned = some snapshot →
    snapshot = s.lastEndpointSnapshot ∧
      ∀ mac ip, (s.endpoints snapshot).Holds mac ip ↔ (mac, ip) ∈ s.due

/-- No push reads the flag between a flip and its clearing. -/
def Apart (s : EndpointSystem α) (a : EndpointAction α) : Prop := a = .load → s.update = .idle

/-! ## What is kept -/

/-- A pair that a push is about to store. -/
def Pending (s : EndpointSystem α) (mac ip : α) : Prop :=
  ∃ snapshot, s.push = some (.loaded mac ip snapshot)

/-- A buffer has some pairs, or is about to have them. -/
def Collects (s : EndpointSystem α) (snapshot : Bool) (pairs : List (α × α)) : Prop :=
  (∀ mac ip, (s.endpoints snapshot).Holds mac ip ∨ Pending s mac ip ↔ (mac, ip) ∈ pairs) ∧
    ∀ mac ip flag, s.push = some (.loaded mac ip flag) → flag = snapshot

/-- What the buffers have between two calls, and within one. -/
structure Kept (s : EndpointSystem α) : Prop where
  idle : s.update = .idle → Collects s s.endpointSnapshot s.pushed ∧
    ∀ mac ip, (s.endpoints (!s.endpointSnapshot)).Holds mac ip ↔ (mac, ip) ∈ s.due
  flipped : ∀ snapshot, s.update = .flipped snapshot →
    snapshot = (!s.endpointSnapshot) ∧ s.pushed = [] ∧ Collects s snapshot s.due
  returned : s.update = .idle → ∀ snapshot, s.returned = some snapshot →
    snapshot = !s.endpointSnapshot

theorem holds_push (endpoints : InterfaceEndpoints α) (mac ip mac' ip' : α) :
    (endpoints.push mac ip).1.Holds mac' ip' ↔
      endpoints.Holds mac' ip' ∨ (mac' = mac ∧ ip' = ip) := by
  unfold InterfaceEndpoints.push InterfaceEndpoints.Holds
  cases found : endpoints.lookup mac with
  | none =>
    by_cases same : mac' = mac
    · subst same
      simp [found]
    · simp [AList.lookup_insert_ne same, same]
  | some addrs =>
    by_cases same : mac' = mac
    · subst same
      simp [found, or_comm]
    · simp [AList.lookup_insert_ne same, same]

theorem holds_empty (mac ip : α) : ¬ (∅ : InterfaceEndpoints α).Holds mac ip := by
  rintro ⟨addrs, found, -⟩
  rw [AList.lookup_empty] at found
  cases found

theorem kept_start : Kept ({} : EndpointSystem α) where
  idle _ := by
    have none : ∀ mac ip, ¬ Pending ({} : EndpointSystem α) mac ip := by
      rintro mac ip ⟨snapshot, held⟩
      cases held
    refine ⟨⟨fun mac ip => ?_, fun mac ip flag held => by cases held⟩, fun mac ip => ?_⟩
    · simp [none, holds_empty]
    · simp [holds_empty]
  flipped _ other := by cases other
  returned _ _ other := by cases other

section
variable {s t : EndpointSystem α}

theorem kept_push (kept : Kept s) {mac ip : α} (taken : step s (.push mac ip) = some t) :
    Kept t := by
  simp only [step] at taken
  split at taken
  case isFalse => cases taken
  case isTrue free =>
    cases taken
    have collects {snapshot : Bool} {pairs : List (α × α)} (before : Collects s snapshot pairs) :
        Collects { s with push := some (.locked mac ip) } snapshot pairs := by
      refine ⟨fun mac' ip' => ?_, fun mac' ip' flag held => by cases held⟩
      rw [← before.1 mac' ip']
      simp [Pending, free]
    refine ⟨fun idle => ⟨collects (kept.idle idle).1, (kept.idle idle).2⟩, ?_, kept.returned⟩
    intro snapshot flipped
    obtain ⟨same, empty, before⟩ := kept.flipped snapshot flipped
    exact ⟨same, empty, collects before⟩

theorem kept_load (kept : Kept s) (apart : s.update = .idle)
    (taken : step s .load = some t) : Kept t := by
  simp only [step] at taken
  split at taken
  · rename_i mac ip held
    cases taken
    obtain ⟨⟨collects, -⟩, due⟩ := kept.idle apart
    refine ⟨fun _ => ⟨⟨fun mac' ip' => ?_, ?_⟩, due⟩, fun snapshot flipped => ?_, kept.returned⟩
    · have before := collects mac' ip'
      have none : ¬ Pending s mac' ip' := by
        rintro ⟨snapshot, other⟩
        rw [held] at other
        cases other
      rw [List.mem_cons, ← before]
      simp only [Pending, Option.some.injEq, PushPoint.loaded.injEq, Prod.mk.injEq]
      constructor
      · rintro (here | ⟨snapshot, rfl, rfl, -⟩)
        · exact .inr (.inl here)
        · exact .inl ⟨rfl, rfl⟩
      · rintro (⟨rfl, rfl⟩ | here | pending)
        · exact .inr ⟨_, rfl, rfl, rfl⟩
        · exact .inl here
        · exact absurd pending none
    · intro mac' ip' flag loaded
      cases loaded
      rfl
    · exact absurd (apart.symm.trans flipped) (by simp)
  · cases taken

theorem kept_store (kept : Kept s) (taken : step s .store = some t) : Kept t := by
  simp only [step] at taken
  split at taken
  · rename_i mac ip flag held
    cases taken
    have pending (mac' ip' : α) : Pending s mac' ip' ↔ (mac' = mac ∧ ip' = ip) := by
      unfold Pending
      rw [held]
      constructor
      · rintro ⟨snapshot, same⟩
        cases same
        exact ⟨rfl, rfl⟩
      · rintro ⟨rfl, rfl⟩
        exact ⟨flag, rfl⟩
    have collects {snapshot : Bool} {pairs : List (α × α)} (before : Collects s snapshot pairs) :
        Collects { s with
          endpoints := Function.update s.endpoints flag ((s.endpoints flag).push mac ip).1
          push := none } snapshot pairs := by
      obtain rfl : flag = snapshot := before.2 mac ip flag held
      refine ⟨fun mac' ip' => ?_, fun mac' ip' flag loaded => by cases loaded⟩
      rw [← before.1 mac' ip', pending]
      simp [Pending, holds_push]
    have other {snapshot : Bool} (apart : snapshot ≠ flag) :
        Function.update s.endpoints flag ((s.endpoints flag).push mac ip).1 snapshot =
          s.endpoints snapshot := Function.update_of_ne apart _ _
    refine ⟨fun idle => ?_, fun snapshot flipped => ?_, kept.returned⟩
    · obtain ⟨before, due⟩ := kept.idle idle
      refine ⟨collects before, fun mac' ip' => ?_⟩
      have selected : flag = s.endpointSnapshot := before.2 mac ip flag held
      rw [← due mac' ip']
      simp only
      rw [other (by rw [selected]; simp)]
    · obtain ⟨same, empty, before⟩ := kept.flipped snapshot flipped
      exact ⟨same, empty, collects before⟩
  · cases taken

theorem kept_flip (kept : Kept s) (taken : step s .flip = some t) : Kept t := by
  simp only [step] at taken
  split at taken
  case h_1 idle =>
    cases taken
    refine ⟨fun other => (by cases other), fun snapshot flipped => ?_, fun other => (by cases other)⟩
    cases flipped
    exact ⟨(Bool.not_not _).symm, rfl, (kept.idle idle).1⟩
  case h_2 => cases taken

theorem kept_clear (kept : Kept s) (taken : step s .clear = some t) : Kept t := by
  simp only [step] at taken
  split at taken
  case h_1 snapshot flipped =>
    split at taken
    case isFalse => cases taken
    case isTrue free =>
      cases taken
      obtain ⟨same, empty, before⟩ := kept.flipped snapshot flipped
      have none (mac ip : α) : ¬ Pending s mac ip := by
        rintro ⟨flag, held⟩
        rw [free] at held
        cases held
      refine ⟨fun _ => ⟨⟨fun mac ip => ?_, ?_⟩, fun mac ip => ?_⟩, fun _ other => (by cases other), ?_⟩
      · rw [empty]
        simp [Pending, free, holds_empty]
      · intro mac ip flag held
        rw [free] at held
        cases held
      · rw [← before.1 mac ip, same]
        simp [none]
      · intro _ snapshot' returned
        cases returned
        exact same
  case h_2 => cases taken

theorem kept_step (kept : Kept s) {a : EndpointAction α} (taken : step s a = some t)
    (apart : Apart s a) : Kept t := by
  cases a with
  | push mac ip => exact kept_push kept taken
  | load => exact kept_load kept (apart rfl) taken
  | store => exact kept_store kept taken
  | flip => exact kept_flip kept taken
  | clear => exact kept_clear kept taken

end

/-- **Endpoint snapshots.** Where no push reads the flag between a flip and its
clearing, every report has exactly the pairs pushed between two flips. -/
theorem endpoints_reported (s : EndpointSystem α) (reached : Reaches step Apart {} s) :
    Reports s := by
  have kept : Kept s :=
    reached.invariant kept_start fun s a t kept taken apart => kept_step kept taken apart
  intro idle snapshot returned
  have same := kept.returned idle snapshot returned
  refine ⟨same, fun mac ip => ?_⟩
  rw [same]
  exact (kept.idle idle).2 mac ip

/-! ## A push between flip and clearing -/

/-- 10.0.0.1. -/
def hostIp : Addr := { family := .inet, sinAddr := [10, 0, 0, 1] }

/-- A hardware address. -/
def hostMac : Addr := { family := .packet, sin6Addr := [0, 0, 0, 0, 2, 0, 0, 0, 0, 1] }

instance (s : EndpointSystem Addr) (a : EndpointAction Addr) : Decidable (Apart s a) :=
  inferInstanceAs (Decidable (_ → _))

/-- One interval with a push and the call that ends it. -/
def oneInterval : List (EndpointAction Addr) :=
  [.push hostMac hostIp, .load, .store, .flip, .clear]

/-- The pair of one interval is reported. -/
theorem one_interval_reported :
    ∃ s, Reaches step Apart ({} : EndpointSystem Addr) s ∧ s.due = [(hostMac, hostIp)] ∧
      Reports s := by
  have found : (exec step Apart ({} : EndpointSystem Addr) oneInterval).any
      (fun s => decide (s.due = [(hostMac, hostIp)])) = true := by decide +kernel
  obtain ⟨s, reached, due⟩ := reached_of_exec found
  exact ⟨s, reached, of_decide_eq_true due, endpoints_reported s reached⟩

/-- A push that reads the flag between a flip and its clearing. -/
def pushInside : List (EndpointAction Addr) :=
  [.flip, .push hostMac hostIp, .load, .store, .clear, .flip, .clear]

/-- The pair is in no report. -/
theorem endpoint_lost :
    ∃ s, Reaches step Always ({} : EndpointSystem Addr) s ∧ ¬ Reports s := by
  have found : (exec step Always ({} : EndpointSystem Addr) pushInside).any (fun s =>
      decide (s.update = .idle ∧ s.returned = some true ∧ s.due = [(hostMac, hostIp)] ∧
        (s.endpoints true).lookup hostMac = none)) = true := by decide +kernel
  obtain ⟨s, reached, all⟩ := reached_of_exec found
  obtain ⟨idle, returned, due, absent⟩ := of_decide_eq_true all
  refine ⟨s, reached, fun reports => ?_⟩
  have holds := ((reports idle true returned).2 hostMac hostIp).mpr (by rw [due]; simp)
  obtain ⟨addrs, here, -⟩ := holds
  rw [absent] at here
  cases here

end EndpointSystem
end NetifyAgent
