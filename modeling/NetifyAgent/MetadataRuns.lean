import NetifyAgent.DetectionRuns

/-! The metadata union over whole runs. Detection writes through the member that
the detected protocol stands for, and reads the same way, so what it reads is
what it wrote as long as the protocol keeps standing for one member. The
protocol can change afterwards, though, and the capture thread writes through
the `mdns` member whatever the protocol is. The results say what is read as it
was written in the runs where neither happens at a wrong moment. -/
namespace NetifyAgent.MetadataRuns
open NetifyAgent.Overlay NetifyAgent.Replay NetifyAgent.Runs NetifyAgent.DetectionEntry
open NetifyAgent.FlowQueue NetifyAgent.DetectionRuns

/-- What the destructor of a flow passes to `free`, in order. -/
def freed (p : ProtoId) (md : Metadata) : List (List Val) :=
  (if md.hasTlsIssuerDn p then [slotBytes md.area Layout.sslIssuerDn] else []) ++
    if md.hasTlsSubjectDn p then [slotBytes md.area Layout.sslSubjectDn] else []

/-- The union is read as it was written. -/
structure ReadAsWritten (h : Held) : Prop where
  /-- What an accessor guards was written through its member, or is untouched. -/
  guarded : ∀ a : Accessor, a.holds h.protocol h.metadata = true →
    ∀ i, a.field.1 ≤ i → i < a.field.1 + a.field.2 →
      (h.metadata.area i).writer = some a.member ∨ h.metadata.area i = ⟨.byte 0, none⟩
  issuer : h.metadata.hasTlsIssuerDn h.protocol = true →
    ∃ ptr < h.metadata.duped, Points .ssl h.metadata.area Layout.sslIssuerDn ptr
  subject : h.metadata.hasTlsSubjectDn h.protocol = true →
    ∃ ptr < h.metadata.duped, Points .ssl h.metadata.area Layout.sslSubjectDn ptr
  /-- The destructor frees duplicates only, each of them once. -/
  freed : ∃ ptrs : List Nat, ptrs.Nodup ∧ (∀ ptr ∈ ptrs, ptr < h.metadata.duped) ∧
    freed h.protocol h.metadata = ptrs.map pointerBytes

/-- Where a protocol is assigned, the union holds nothing written through
another member than the one the protocol stands for; where the capture thread
writes, the protocol stands for no member or for the one it writes through. -/
def Fits (h : Held) : Event → Prop
  | .protocol p => ∀ m, memberOf p = some m → Owned m m.size h.metadata.area
  | .store .mdns _ _ => memberOf h.protocol = none ∨ memberOf h.protocol = some .mdns
  | _ => True

instance decidableFits (h : Held) : (e : Event) → Decidable (Fits h e)
  | .protocol p => decidable_of_iff
      (∀ m ∈ memberOf p, Owned m m.size h.metadata.area) (by simp [Fits, Option.mem_def])
  | .store .mdns _ _ => inferInstanceAs (Decidable (_ ∨ _))
  | .store .http _ _ | .store .dhcp _ _ | .store .ssh _ _ | .store .ssl _ _ | .store .smtp _ _
  | .store .bt _ _ | .alloc | .handOver _ | .strdup _ | .complete | .pushEndpoint _ _
  | .fhcPush _ _ | .broadcast _ | .dhcInsert _ _ | .reset => .isTrue trivial

/-! ## The invariant -/

/-- A pointer of the `ssl` member is null or a duplicate. -/
def SlotSound (md : Metadata) (slot : Nat) : Prop :=
  IsNull md.area slot ∨ ∃ ptr < md.duped, Points .ssl md.area slot ptr

theorem SlotSound.lt {md : Metadata} {slot ptr : Nat} (sound : SlotSound md slot)
    (points : Points .ssl md.area slot ptr) : ptr < md.duped := by
  rcases sound with null | ⟨other, lt, same⟩
  · exact absurd null points.not_null
  · rwa [points.unique same]

/-- A sound slot stays sound where its bytes stay and no duplicate is given back. -/
theorem SlotSound.congr {md md' : Metadata} {slot : Nat} (sound : SlotSound md slot)
    (same : ∀ k < 8, md'.area (slot + k) = md.area (slot + k)) (more : md.duped ≤ md'.duped) :
    SlotSound md' slot :=
  sound.imp (·.congr same) fun ⟨ptr, lt, points⟩ => ⟨ptr, by omega, points.congr same⟩

/-- The pointers of the `ssl` member are null or two different duplicates. -/
structure PointersSound (md : Metadata) : Prop where
  subject : SlotSound md Layout.sslSubjectDn
  issuer : SlotSound md Layout.sslIssuerDn
  apart : ∀ ptr, Points .ssl md.area Layout.sslSubjectDn ptr →
    ¬ Points .ssl md.area Layout.sslIssuerDn ptr

/-- The current member owns the union, and wherever the `ssl` member owns it
its pointers are sound. -/
structure UnionSound (h : Held) : Prop where
  owned : ∀ m, memberOf h.protocol = some m → Owned m m.size h.metadata.area
  untouched : Untouched h.metadata.area
  pointers : Owned .ssl Member.ssl.size h.metadata.area → PointersSound h.metadata

theorem unionSound_blank (p : ProtoId) : UnionSound ⟨p, .blank⟩ where
  owned m _ := owned_blank m m.size
  untouched := untouched_blank
  pointers _ := {
    subject := .inl fun _ _ => rfl
    issuer := .inl fun _ _ => rfl
    apart := fun _ points => absurd (fun _ _ => rfl) points.not_null }

/-- Only the bytes of the two slots matter for the pointers. -/
theorem PointersSound.congr {area : Area Member} {md : Metadata} (sound : PointersSound md)
    (same : ∀ i, Layout.sslSubjectDn ≤ i → i < Layout.sslServerCn → area i = md.area i) :
    PointersSound { md with area } := by
  have subject : ∀ k < 8, area (Layout.sslSubjectDn + k) = md.area (Layout.sslSubjectDn + k) :=
    fun k hk => same _ (by omega) (by simp only [Layout.sslSubjectDn, Layout.sslServerCn]; omega)
  have issuer : ∀ k < 8, area (Layout.sslIssuerDn + k) = md.area (Layout.sslIssuerDn + k) :=
    fun k hk => same _ (by simp only [Layout.sslSubjectDn, Layout.sslIssuerDn]; omega)
      (by simp only [Layout.sslIssuerDn, Layout.sslServerCn]; omega)
  exact ⟨sound.subject.congr subject (Nat.le_refl _), sound.issuer.congr issuer (Nat.le_refl _),
    fun ptr first second => sound.apart ptr (first.congr fun k hk => (subject k hk).symm)
      (second.congr fun k hk => (issuer k hk).symm)⟩

/-- A write through the current member keeps the union sound, and so does a
write while the protocol stands for no member. -/
theorem unionSound_store {h : Held} (sound : UnionSound h) {m : Member} {off : Nat}
    {vals : List Val} (current : ∀ n, memberOf h.protocol = some n → n = m)
    (clear : m = .ssl → memberOf h.protocol = some .ssl ∧
      (off + vals.length ≤ Layout.sslSubjectDn ∨ Layout.sslServerCn ≤ off)) :
    UnionSound (h.after (.store m off vals)) where
  owned n member := by
    obtain rfl := current n member
    exact owned_store (sound.owned n member) off vals
  untouched := untouched_store sound.untouched m off vals
  pointers owned := by
    by_cases same : m = .ssl
    · obtain ⟨ssl, outside⟩ := clear same
      refine (sound.pointers (sound.owned _ ssl)).congr fun i lo hi => ?_
      rcases outside with below | above
      · exact store_after _ (by omega)
      · exact store_before _ _ (by omega)
    · have kept : ∀ i < Member.ssl.size,
          store m off vals h.metadata.area i = h.metadata.area i :=
        fun i hi => store_foreign same owned hi
      have before : Owned .ssl Member.ssl.size h.metadata.area := by
        intro i hi
        rw [← kept i hi]
        exact owned i hi
      refine (sound.pointers before).congr fun i _ hi => kept i ?_
      simp only [Layout.sslServerCn] at hi
      simp only [Member.size]
      omega

/-- A duplicate goes into a pointer of the current member. -/
theorem unionSound_strdup {h : Held} (sound : UnionSound h) {slot : Nat}
    (ssl : memberOf h.protocol = some .ssl)
    (pointer : slot = Layout.sslSubjectDn ∨ slot = Layout.sslIssuerDn) :
    UnionSound (h.after (.strdup slot)) where
  owned n member := by
    obtain rfl : .ssl = n := Option.some.inj (ssl.symm.trans member)
    exact owned_store (sound.owned _ ssl) slot _
  untouched := untouched_store sound.untouched _ _ _
  pointers _ := by
    have before := sound.pointers (sound.owned _ ssl)
    have points := points_store .ssl h.metadata.area slot h.metadata.duped
    have stored : SlotSound (h.after (.strdup slot)).metadata slot :=
      .inr ⟨_, Nat.lt_succ_self _, points⟩
    rcases pointer with rfl | rfl
    · have same : ∀ k < 8, (h.after (.strdup Layout.sslSubjectDn)).metadata.area
          (Layout.sslIssuerDn + k) = h.metadata.area (Layout.sslIssuerDn + k) :=
        fun k _ => store_after _ (by simp [Layout.sslSubjectDn, Layout.sslIssuerDn])
      refine ⟨stored, before.issuer.congr same (Nat.le_succ _), fun ptr first second => ?_⟩
      have lt := before.issuer.lt (second.congr fun k hk => (same k hk).symm)
      exact absurd (first.unique points) (Nat.ne_of_lt lt)
    · have same : ∀ k < 8, (h.after (.strdup Layout.sslIssuerDn)).metadata.area
          (Layout.sslSubjectDn + k) = h.metadata.area (Layout.sslSubjectDn + k) :=
        fun k hk => store_before _ _ (by simp only [Layout.sslSubjectDn, Layout.sslIssuerDn]; omega)
      refine ⟨before.subject.congr same (Nat.le_succ _), stored, fun ptr first second => ?_⟩
      have lt := before.subject.lt (first.congr fun k hk => (same k hk).symm)
      exact absurd (second.unique points) (Nat.ne_of_lt lt)

/-- What may happen to a flow: a stage of detection, the capture thread reading
a message, or an event that leaves the union alone. -/
def Lawful (h : Held) (e : Event) : Prop := e.Proper h ∨ Dns.Wrote e ∨ h.after e = h

/-- Lawful events that fit keep the union sound. -/
theorem unionSound_after {h : Held} {e : Event} (sound : UnionSound h) (lawful : Lawful h e)
    (fits : Fits h e) : UnionSound (h.after e) := by
  rcases lawful with proper | wrote | same
  · cases e with
    | protocol p => exact ⟨fits, sound.untouched, sound.pointers⟩
    | store m off vals =>
      exact unionSound_store sound (fun n member => Option.some.inj (member.symm.trans proper.1))
        fun same => ⟨same ▸ proper.1, proper.2 same⟩
    | strdup slot => exact unionSound_strdup sound proper.1 proper.2.1
    | _ => exact sound
  · cases e with
    | store m off vals =>
      cases m with
      | mdns =>
        refine unionSound_store sound (fun n member => ?_) (by simp)
        rcases fits with none | mdns
        · rw [none] at member
          cases member
        · exact Option.some.inj (member.symm.trans mdns)
      | _ => exact wrote.elim
    | dhcInsert addr host => exact sound
    | _ => exact wrote.elim
  · rw [same]
    exact sound

/-- A sound union is read as it was written. -/
theorem UnionSound.readAsWritten {h : Held} (sound : UnionSound h) : ReadAsWritten h := by
  have pointers {a : Accessor} (reads : a.member = .ssl)
      (holds : a.holds h.protocol h.metadata = true) : PointersSound h.metadata :=
    sound.pointers (sound.owned .ssl (reads ▸ Accessor.memberOf_of_holds holds))
  have issuer (holds : h.metadata.hasTlsIssuerDn h.protocol = true) :
      ∃ ptr < h.metadata.duped, Points .ssl h.metadata.area Layout.sslIssuerDn ptr :=
    (pointers (a := .tlsIssuerDn) rfl holds).issuer.resolve_left (by
      simpa [Metadata.pointerSet] using (Bool.and_eq_true_iff.mp holds).2)
  have subject (holds : h.metadata.hasTlsSubjectDn h.protocol = true) :
      ∃ ptr < h.metadata.duped, Points .ssl h.metadata.area Layout.sslSubjectDn ptr :=
    (pointers (a := .tlsSubjectDn) rfl holds).subject.resolve_left (by
      simpa [Metadata.pointerSet] using (Bool.and_eq_true_iff.mp holds).2)
  refine ⟨fun a holds i lo hi => ?_, issuer, subject, ?_⟩
  · have owned := sound.owned _ (Accessor.memberOf_of_holds holds)
    rcases owned i (by have := a.field_inside; omega) with unwritten | written
    · exact .inr (sound.untouched i unwritten)
    · exact .inl written
  · by_cases hasIssuer : h.metadata.hasTlsIssuerDn h.protocol = true <;>
      by_cases hasSubject : h.metadata.hasTlsSubjectDn h.protocol = true
    · obtain ⟨p, lt, points⟩ := issuer hasIssuer
      obtain ⟨q, lt', points'⟩ := subject hasSubject
      have apart : p ≠ q := by
        rintro rfl
        exact (pointers (a := .tlsIssuerDn) rfl hasIssuer).apart p points' points
      exact ⟨[p, q], by simpa using apart, by simp [lt, lt'],
        by simp [freed, hasIssuer, hasSubject, points.slotBytes, points'.slotBytes]⟩
    · obtain ⟨p, lt, points⟩ := issuer hasIssuer
      exact ⟨[p], by simp, by simp [lt], by simp [freed, hasIssuer, hasSubject, points.slotBytes]⟩
    · obtain ⟨q, lt, points⟩ := subject hasSubject
      exact ⟨[q], by simp, by simp [lt], by simp [freed, hasIssuer, hasSubject, points.slotBytes]⟩
    · exact ⟨[], by simp, by simp, by simp [freed, hasIssuer, hasSubject]⟩

/-! ## Steps and runs -/

/-- The log accounts for every change of the union, and each of its events is
lawful where it happens. -/
def Moved (d d' : Det) : Prop :=
  ∃ events, d'.log = d.log ++ events ∧ Along Held.after Lawful d.flow.held events ∧
    d'.flow.held = events.foldl Held.after d.flow.held

theorem Moved.trans {d e f : Det} (first : Moved d e) (second : Moved e f) : Moved d f := by
  obtain ⟨before, logBefore, lawfulBefore, heldBefore⟩ := first
  obtain ⟨later, logLater, lawfulLater, heldLater⟩ := second
  refine ⟨before ++ later, by rw [logLater, logBefore, List.append_assoc],
    (along_append _ _ _).mpr ⟨lawfulBefore, heldBefore ▸ lawfulLater⟩, ?_⟩
  rw [heldLater, heldBefore, List.foldl_append]

theorem moved_of_same {d d' : Det} (log : d'.log = d.log) (held : d'.flow.held = d.flow.held) :
    Moved d d' := ⟨[], by simp [log], trivial, held⟩

theorem moved_of_traced {d d' : Det} (traced : Traced d d') : Moved d d' := by
  obtain ⟨events, log, proper, held⟩ := traced.logged
  exact ⟨events, log, proper.mono fun _ _ => .inl, held⟩

/-- Events that leave the union alone wherever they happen. -/
theorem moved_of_neutral {d d' : Det} (events : List Event)
    (log : d'.log = d.log ++ events) (held : d'.flow.held = d.flow.held)
    (neutral : ∀ e ∈ events, ∀ h : Held, h.after e = h) : Moved d d' := by
  refine ⟨events, log, along_of_forall fun e member h => .inr (.inr (neutral e member h)), ?_⟩
  rw [held]
  clear log held
  generalize d.flow.held = h
  induction events with
  | nil => rfl
  | cons e events ih =>
    rw [List.foldl_cons, neutral e List.mem_cons_self]
    exact ih fun e' later => neutral e' (List.mem_cons_of_mem e later)

theorem moved_handOver (packet : Option Nat) (answer : Answer) (d : Det) :
    Moved d (ProcessPacket.handOver packet answer (ProcessPacket.allocate d)) := by
  obtain ⟨events, log, allocs⟩ := handOver_log d packet answer
  refine moved_of_neutral _ (log.trans (List.append_assoc _ _ _)) ?_ fun e member h => ?_
  · simp only [ProcessPacket.handOver, ProcessPacket.allocate]
    split <;> rfl
  · rcases List.mem_append.mp member with alloc | handed
    · rw [allocs e alloc]
      rfl
    · rw [List.mem_singleton.mp handed]
      rfl

theorem moved_entry {maxDetectionPkts : Nat} {s : Services} {a : Answers} {packet : Option Nat}
    {d d' : Det} (ran : processEntry maxDetectionPkts s a packet d = .ok d') : Moved d d' := by
  obtain ⟨e, f, takenE, ended, rfl⟩ := processEntry_ok ran
  have ordinary : Moved d e := by
    rcases takenE with ⟨_, traced⟩ | ⟨_, rfl⟩
    · exact ((moved_of_same rfl rfl).trans (moved_handOver packet a.first
        (d.edit Flow.countDetection))).trans (moved_of_traced traced)
    · exact moved_of_same rfl rfl
  have ending : Moved e f := by
    rcases ended with ⟨_, g, traced, _, rfl⟩ | ⟨_, rfl⟩
    · have again : Moved e (DetectionEntry.ending a packet e) := by
        simp only [DetectionEntry.ending]
        split
        · exact moved_handOver packet a.second e
        · exact moved_of_same rfl rfl
      exact (again.trans (moved_of_traced traced)).trans
        (moved_of_same rfl (settleExpiry_held g.flow))
    · exact moved_of_same rfl rfl
  exact (ordinary.trans ending).trans (moved_of_same (released_log f) (released_held f))

variable {maxDetectionPkts : Nat} {template : Flow} {q q' : FlowQueue} {action : Action}

theorem moved_step (taken : step maxDetectionPkts q action = some q') : Moved q.det q'.det := by
  obtain ⟨_, ⟨aside, _⟩ | ⟨_, _, rfl⟩ | ⟨s, a, _, handled⟩⟩ := step_cases taken
  · obtain ⟨events, log, wrote, held⟩ := aside.logged
    exact ⟨events, log, along_of_forall fun e member _ => .inr (.inl (wrote e member)), held⟩
  · exact moved_of_neutral [.reset] rfl rfl (by simp [Held.after])
  · cases handled with
    | done _ ran => exact moved_entry ran
    | faulted => exact moved_of_same rfl rfl

/-- The protocol and the union that a log leaves behind. -/
def replay (log : List Event) : Held := log.foldl Held.after ⟨Proto.unknown, .blank⟩

/-- What a step logs fits the union as the step finds it. -/
def Fitting (maxDetectionPkts : Nat) (q : FlowQueue) (action : Action) : Prop :=
  ∀ q', step maxDetectionPkts q action = some q' →
    Along Held.after Fits q.det.flow.held (q'.det.log.drop q.det.log.length)

/-- The log accounts for the union from the start, with lawful events that fit. -/
structure Logged (q : FlowQueue) : Prop where
  held : q.det.flow.held = replay q.det.log
  lawful : Along Held.after (fun h e => Lawful h e ∧ Fits h e) ⟨Proto.unknown, .blank⟩ q.det.log

theorem logged_step (logged : Logged q) (taken : step maxDetectionPkts q action = some q')
    (met : Fitting maxDetectionPkts q action) : Logged q' := by
  obtain ⟨events, log, lawful, held⟩ := moved_step taken
  have fits := met q' taken
  rw [log, List.drop_left] at fits
  have both := lawful.and fits
  rw [logged.held] at both held
  refine ⟨?_, ?_⟩
  · rw [held, log, replay, replay, List.foldl_append]
  · rw [log]
    exact (along_append _ _ _).mpr ⟨logged.lawful, both⟩

/-- **The union is read as it was written** at every point of a run that assigns
protocols and reads mDNS names only where they fit. -/
theorem read_as_written (maxDetectionPkts : Nat) (template : Flow) (q : FlowQueue)
    (reached : Reaches (step maxDetectionPkts) (Fitting maxDetectionPkts) (fresh template) q) :
    q.det.flow.held = replay q.det.log ∧
      ∀ log, log <+: q.det.log → ReadAsWritten (replay log) := by
  have start : Logged (fresh template) := ⟨rfl, trivial⟩
  have accounted : Logged q := reached.invariant start
    fun _ _ _ logged taken met => logged_step logged taken met
  refine ⟨accounted.held, fun log isPrefix => ?_⟩
  exact ((accounted.lawful.of_isPrefix isPrefix).invariant (I := UnionSound)
    (fun _ _ sound both => unionSound_after sound both.1 both.2)
    (unionSound_blank Proto.unknown)).readAsWritten

instance : DecidableRel (Fitting maxDetectionPkts) := fun q action =>
  decidable_of_iff (∀ q' ∈ step maxDetectionPkts q action,
    Along Held.after Fits q.det.flow.held (q'.det.log.drop q.det.log.length)) Iff.rfl

/-- A packet in which nDPI finds an HTTP request with this user agent. -/
def userAgent (s : Services) (agent : List UInt8) : List Action :=
  [.accept, .queuePacket, .detect s (.always Proto.http { httpUserAgent := some agent })]

/-- A user agent that is read as it was written. -/
theorem read_as_written_userAgent : ∃ q : FlowQueue,
    q.det.flow.metadata.hasHttpUserAgent q.det.flow.detectedProtocol = true ∧
      ReadAsWritten (replay q.det.log) := by
  have found : (exec (step 32) (Fitting 32) (fresh {}) (userAgent .bare [99, 117, 114, 108])).map
      (fun q => q.det.flow.metadata.hasHttpUserAgent q.det.flow.detectedProtocol) = some true := by
    decide +kernel
  obtain ⟨q, done, holds⟩ := Option.map_eq_some_iff.mp found
  exact ⟨q, holds, (read_as_written 32 {} q (reaches_of_exec done)).2 _ List.prefix_rfl⟩

/-- A soft dissector that finds TLS in every flow. -/
def softTls : Services :=
  { Services.bare with softDissectorMatch := some fun _ => some ⟨-1, Proto.tls⟩ }

/-- A soft dissector turns an HTTP flow into a TLS flow: the bytes of the user
agent are taken for the pointers to the distinguished names. -/
theorem read_through_another_member :
    ¬ ∀ (maxDetectionPkts : Nat) (template : Flow) (q : FlowQueue),
      Reaches (step maxDetectionPkts) Always (fresh template) q →
      q.det.flow.held = replay q.det.log ∧
        ∀ log, log <+: q.det.log → ReadAsWritten (replay log) := by
  intro claim
  have found : (exec (step 32) Always (fresh {}) (userAgent softTls (List.replicate 24 65))).map
      (fun q => (q.det.flow.metadata.hasTlsIssuerDn q.det.flow.detectedProtocol,
        (q.det.flow.metadata.area Layout.sslIssuerDn).writer)) = some (true, some .http) := by
    decide +kernel
  obtain ⟨q, done, facts⟩ := Option.map_eq_some_iff.mp found
  obtain ⟨held, safe⟩ := claim 32 {} q (reaches_of_exec done)
  have read := safe _ List.prefix_rfl
  rw [← held] at read
  simp only [Prod.mk.injEq] at facts
  obtain ⟨ptr, _, points⟩ := read.issuer facts.1
  have writer := facts.2.symm.trans (congrArg Cell.writer (points 0 (by decide)))
  cases writer

end NetifyAgent.MetadataRuns
