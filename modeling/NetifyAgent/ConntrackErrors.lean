import NetifyAgent.ConntrackTables

/-! Events that `ndConntrackFlow::Update` rejects. A new connection is rejected
in the constructor, whose exception is caught, and leaves no trace. An update of
a stored flow is rejected after its fields are overwritten, and the exception
passes the lock. -/
namespace NetifyAgent.ConntrackErrors
open NetifyAgent.Runs ConntrackFlow ConntrackThread

/-- Attributes are missing or the address family is not supported. -/
def Rejected (ct : NfConntrack) : Prop :=
  (∀ af ∈ ct.l3Proto, af ≠ 2 ∧ af ≠ 10) ∨ ct.l4Proto = none ∨
    (ct.orig.ipv4.src = none ∧ ct.orig.ipv6.src = none) ∨
    (ct.orig.ipv4.dst = none ∧ ct.orig.ipv6.dst = none)

/-- The flow object that an update of the event's id is applied to. -/
def stored (t : ConntrackThread) (ct : NfConntrack) : Option ConntrackFlow :=
  (t.ctIdMap.lookup (ct.id.getD 0)).bind t.ctFlowMap.lookup

/-- `Update` is called for the event, and rejects it. -/
def UpdateRejects (t : ConntrackThread) (type : MsgType) (ct : NfConntrack) : Prop :=
  Rejected ct ∧ (type = .new ∨ (type = .update ∧ stored t ct ≠ none))

/-- What a rejected event must not change of a flow. -/
def tupleOf (f : ConntrackFlow) :
    Ends SockAddr × Ends SockAddr × Ends UInt16 × Ends UInt16 × Ends Bool × Ends Bool × List UInt8 :=
  (f.origAddr, f.replAddr, f.origPort, f.replPort, f.origAddrValid, f.replAddrValid, f.digest)

/-- Both maps have the same entries, with the same tuples. -/
structure SameTables (t u : ConntrackThread) : Prop where
  ids : ∀ id, u.ctIdMap.lookup id = t.ctIdMap.lookup id
  flows : ∀ digest,
    (u.ctFlowMap.lookup digest).map tupleOf = (t.ctFlowMap.lookup digest).map tupleOf

/-- The event is processed without an exception and without a lock that is left
taken, and changes nothing if it is rejected. -/
structure Handled (sha1 : List UInt8 → List UInt8) (now : Nat) (raw : Raw) (type : MsgType)
    (ct : NfConntrack) (t : ConntrackThread) : Prop where
  returned : (t.processConntrackEvent sha1 now raw type ct).2 = none
  unlocked : (t.processConntrackEvent sha1 now raw type ct).1.locked = false
  unchanged : UpdateRejects t type ct →
    SameTables t (t.processConntrackEvent sha1 now raw type ct).1

section
variable {sha1 : List UInt8 → List UInt8} {now : Nat} {raw : Raw} {ct : NfConntrack}
  {t : ConntrackThread}

/-- `Update` throws exactly on the events that it is said to reject. -/
theorem update_throws (sha1 : List UInt8 → List UInt8) (now : Nat) (f : ConntrackFlow) :
    (f.update sha1 now ct).2 ≠ none ↔ Rejected ct := by
  unfold ConntrackFlow.update Rejected
  cases ct.l3Proto with
  | none => simp
  | some af =>
    by_cases unsupported : af ≠ 2 ∧ af ≠ 10
    · simp [unsupported]
    · cases ct.l4Proto with
      | none => simp [unsupported]
      | some l4 => simp only [unsupported, if_false]; split <;> simp_all

/-- An event that ends without an exception releases the lock. -/
theorem unlocked_of_returned {type : MsgType}
    (returned : (t.processConntrackEvent sha1 now raw type ct).2 = none) :
    (t.processConntrackEvent sha1 now raw type ct).1.locked = false := by
  unfold processConntrackEvent at returned ⊢
  split at returned
  · rfl
  · cases returned

/-- Only an update can end with an exception, and only with what `Update` throws. -/
theorem thrown_iff (sha1 : List UInt8 → List UInt8) (now : Nat) (raw : Raw) (type : MsgType) :
    (t.processConntrackEvent sha1 now raw type ct).2 ≠ none ↔
      type = .update ∧ stored t ct ≠ none ∧ Rejected ct := by
  have passed : (t.processConntrackEvent sha1 now raw type ct).2 =
      (processEvent sha1 now raw type ct t).2 := by
    unfold processConntrackEvent
    split <;> rename_i ended <;> rw [ended]
  rw [passed]
  cases type with
  | update =>
    simp only [processEvent, processUpdate, stored]
    cases known : t.ctIdMap.lookup (ct.id.getD 0) with
    | none => simp
    | some digest =>
      cases found : t.ctFlowMap.lookup digest with
      | none => simp [found]
      | some old =>
        simp only [Option.bind_some, found, ne_eq, reduceCtorEq, not_false_eq_true, true_and]
        rw [← update_throws sha1 now old]
        rcases updated : old.update sha1 now ct with ⟨f, _ | thrown⟩
        · simp only
          split <;> simp
        · simp
  | _ => simp [processEvent]

/-- A new connection that is rejected leaves no trace. -/
theorem new_rejected (rejected : Rejected ct) :
    (t.processConntrackEvent sha1 now raw .new ct).1 = { t with locked := false } := by
  have throws := (update_throws sha1 now
    { id := ct.id.getD 0, origAddr := raw.1, replAddr := raw.2 }).mpr rejected
  unfold processConntrackEvent processEvent processNew construct
  rcases made : ConntrackFlow.update sha1 now ct _ with ⟨f, _ | thrown⟩
  · rw [made] at throws
    exact absurd rfl throws
  · rfl

/-- **Rejected events.** Processing an event goes as it should unless the event
is an update of a flow that is stored, and is rejected. -/
theorem handled_iff (sha1 : List UInt8 → List UInt8) (now : Nat) (raw : Raw) (type : MsgType)
    (ct : NfConntrack) (t : ConntrackThread) : Handled sha1 now raw type ct t ↔
      ¬ (type = .update ∧ stored t ct ≠ none ∧ Rejected ct) := by
  rw [← thrown_iff sha1 now raw]
  constructor
  · intro handled
    exact not_not.mpr handled.returned
  · intro quiet
    have returned := not_not.mp quiet
    refine ⟨returned, unlocked_of_returned returned, ?_⟩
    rintro ⟨rejected, rfl | ⟨rfl, found⟩⟩
    · rw [new_rejected rejected]
      exact ⟨fun _ => rfl, fun _ => rfl⟩
    · exact absurd ((thrown_iff sha1 now raw .update).mpr ⟨rfl, found, rejected⟩) quiet

end

open ConntrackTables in
/-- An update without the layer 3 protocol, of a connection that is known, ends
with an exception, a lock that is taken, and a flow whose addresses are all
invalid. -/
theorem update_escapes : ∃ t ct, Reaches (ConntrackThread.step sha1) Always {} t ∧
    ¬ Handled sha1 0 zeroed .update ct t ∧
    (t.processConntrackEvent sha1 0 zeroed .update ct).1.locked = true ∧
    (stored t ct).map (·.replAddrValid) = some ⟨true, true⟩ ∧
    (stored (t.processConntrackEvent sha1 0 zeroed .update ct).1 ct).map (·.replAddrValid) =
      some ⟨false, false⟩ := by
  have run : (exec (ConntrackThread.step sha1) Always {} [event .new (question 1 0xa00f)]).any
      (fun t => (t.processConntrackEvent sha1 0 zeroed .update { id := some 1 }).2 =
          some "ATTR_ORIG_L3PROTO not set" ∧
        (t.processConntrackEvent sha1 0 zeroed .update { id := some 1 }).1.locked = true ∧
        (stored t { id := some 1 }).map (·.replAddrValid) = some ⟨true, true⟩ ∧
        (stored (t.processConntrackEvent sha1 0 zeroed .update { id := some 1 }).1
          { id := some 1 }).map (·.replAddrValid) = some ⟨false, false⟩) = true := by
    decide +kernel
  obtain ⟨t, reached, found⟩ := reached_of_exec run
  obtain ⟨thrown, found⟩ := of_decide_eq_true found
  refine ⟨t, { id := some 1 }, reached, fun handled => ?_, found⟩
  rw [handled.returned] at thrown
  cases thrown

end NetifyAgent.ConntrackErrors
