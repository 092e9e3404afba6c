import Mathlib.Logic.Function.Basic
import NetifyAgent.Flow
import NetifyAgent.Lib.Runs

/-! The statistics of a flow in intervals. The capture thread counts every packet
in the totals and in the counters of the running interval, one counter at a time;
the update thread reads the counters for its report and later sets them to zero, if
the flow's state lets it. Reports and counters add up to the totals as long as a
report reads nothing that an earlier one has read, and a counter is set to zero with
nothing in it that was not read. -/
namespace NetifyAgent
open Runs

/-- The counters of `ndFlowStats` that packets add to. -/
inductive StatsField where
  | lowerBytes
  | upperBytes
  | totalBytes
  | lowerPackets
  | upperPackets
  | totalPackets
  deriving DecidableEq, Repr

namespace FlowStats

def get (stats : FlowStats) : StatsField → Nat
  | .lowerBytes => stats.lowerBytes
  | .upperBytes => stats.upperBytes
  | .totalBytes => stats.totalBytes
  | .lowerPackets => stats.lowerPackets
  | .upperPackets => stats.upperPackets
  | .totalPackets => stats.totalPackets

def set (stats : FlowStats) (value : Nat) : StatsField → FlowStats
  | .lowerBytes => { stats with lowerBytes := value }
  | .upperBytes => { stats with upperBytes := value }
  | .totalBytes => { stats with totalBytes := value }
  | .lowerPackets => { stats with lowerPackets := value }
  | .upperPackets => { stats with upperPackets := value }
  | .totalPackets => { stats with totalPackets := value }

theorem get_set (stats : FlowStats) (value : Nat) (f g : StatsField) :
    (stats.set value f).get g = if g = f then value else stats.get g := by
  cases f <;> cases g <;> rfl

end FlowStats

/-- What the capture thread does to a counter. -/
inductive StatsStore where
  | add (field : StatsField) (n : Nat)
  /-- `ndFlowStats::Reset` and the assignment of empty statistics. -/
  | clear (field : StatsField)
  deriving DecidableEq, Repr

/-- Where the update thread stands, as far as the flow is concerned. -/
inductive UpdatePoint where
  | idle
  /-- In `EVENT_FLOW_MAP`, with these counters still to be read. -/
  | reporting (ahead : List StatsField)
  /-- Between the report and `ProcessFlows`. -/
  | reported
  /-- In `Reset`, with these counters still to be set to zero. -/
  | resetting (ahead : List StatsField)
  deriving DecidableEq, Repr

/-- A flow and where the threads stand. -/
structure FlowReport where
  stats : FlowStats := {}
  /-- The flow is in the flow map. -/
  inMap : Bool := false
  detectionInit : Bool := false
  expired : Bool := false
  /-- What is left to do for the packet in hand. -/
  capture : List StatsStore := []
  update : UpdatePoint := .idle
  /-- The sum of what reports read. -/
  reported : StatsField → Nat := fun _ => 0
  /-- What reports read of a counter since it was last set to zero. -/
  read : StatsField → Nat := fun _ => 0

/-- The steps of the threads, and what detection does to the flow. -/
inductive ReportAction where
  /-- `InsertUnlocked`. -/
  | insert
  /-- A packet. For a DNS query on a detected flow the statistics are cleared. -/
  | packet (lower : Bool) (length : Nat) (query : Bool)
  /-- The next counter for the packet in hand. -/
  | count
  /-- `EVENT_FLOW_MAP`. A flow that is not yet in the map has no report. -/
  | broadcast
  /-- The report reads its next counter. -/
  | read
  /-- `ProcessFlows` comes to the flow. -/
  | visit
  /-- The next counter is set to zero. -/
  | zero
  | flags (detectionInit expired : Bool)
  deriving DecidableEq, Repr

namespace FlowReport

/-- The counters of an interval, in the order of `Encode`. -/
def intervalFields : List StatsField := [.lowerBytes, .upperBytes, .lowerPackets, .upperPackets]

/-- What `ProcessPacket` does to the counters. -/
def packetStores (lower : Bool) (length : Nat) (query : Bool) : List StatsStore :=
  [.add .totalPackets 1, .add .totalBytes length] ++
    (if lower then [.add .lowerPackets 1, .add .lowerBytes length]
    else [.add .upperPackets 1, .add .upperBytes length]) ++
    (if query then
      [.clear .lowerBytes, .clear .upperBytes, .clear .lowerPackets, .clear .upperPackets,
        .clear .lowerBytes, .clear .upperBytes, .clear .totalBytes, .clear .lowerPackets,
        .clear .upperPackets, .clear .totalPackets]
    else [])

/-- A counter is set to zero. -/
def clear (s : FlowReport) (field : StatsField) : FlowReport :=
  { s with stats := s.stats.set 0 field, read := Function.update s.read field 0 }

def step (s : FlowReport) : ReportAction → Option FlowReport
  | .insert => if s.inMap then none else some { s with inMap := true }
  | .packet lower length query =>
    if s.inMap ∧ s.capture = [] then
      some { s with capture := packetStores lower length query }
    else none
  | .count =>
    match s.capture with
    | [] => none
    | .add field n :: rest =>
      some { s with stats := s.stats.set (s.stats.get field + n) field, capture := rest }
    | .clear field :: rest => some { s.clear field with capture := rest }
  | .broadcast =>
    if s.update = .idle then
      some { s with update := if s.inMap then .reporting intervalFields else .reported }
    else none
  | .read =>
    match s.update with
    | .reporting (field :: ahead) =>
      some { s with
        reported := Function.update s.reported field (s.reported field + s.stats.get field)
        read := Function.update s.read field (s.stats.get field)
        update := if ahead = [] then .reported else .reporting ahead }
    | _ => none
  | .visit =>
    if s.update = .reported then
      if s.inMap ∧ ¬ s.expired ∧ s.detectionInit ∧
          (s.stats.lowerPackets ≠ 0 ∨ s.stats.upperPackets ≠ 0) then
        some { s with update := .resetting intervalFields }
      else some { s with update := .idle }
    else none
  | .zero =>
    match s.update with
    | .resetting (field :: ahead) =>
      some { s.clear field with update := if ahead = [] then .idle else .resetting ahead }
    | _ => none
  | .flags detectionInit expired => some { s with detectionInit, expired }

/-! ## Conservation -/

/-- What is added to a counter by stores that are still to come. -/
def toAdd (field : StatsField) : List StatsStore → Nat
  | [] => 0
  | .add other n :: rest => (if other = field then n else 0) + toAdd field rest
  | .clear _ :: rest => toAdd field rest

/-- What is in a counter of the interval and was read by no report. -/
def unreported (s : FlowReport) (field : StatsField) : Nat := s.stats.get field - s.read field

/-- Two counters of the interval add up to a total: what was reported of them, what
is unreported and what is left to count of the packet in hand. -/
def AddsUp (s : FlowReport) (lower upper total : StatsField) : Prop :=
  s.reported lower + s.reported upper + s.unreported lower + s.unreported upper +
      toAdd lower s.capture + toAdd upper s.capture =
    s.stats.get total + toAdd total s.capture

instance (s : FlowReport) (lower upper total : StatsField) : Decidable (AddsUp s lower upper total) :=
  inferInstanceAs (Decidable (_ = _))

/-- No packet is missing from the reports or in two of them. -/
structure Conserves (s : FlowReport) : Prop where
  bytes : AddsUp s .lowerBytes .upperBytes .totalBytes
  packets : AddsUp s .lowerPackets .upperPackets .totalPackets

/-- A report reads a counter of which nothing was read since it was zero, a counter is
set to zero when all that is in it was read, and no query clears the statistics. -/
def orderly (s : FlowReport) : ReportAction → Bool
  | .read =>
    match s.update with
    | .reporting (field :: _) => s.read field = 0
    | _ => true
  | .zero =>
    match s.update with
    | .resetting (field :: _) => s.stats.get field = s.read field
    | _ => true
  | .packet _ _ query => !query
  | _ => true

/-- The condition on the steps. -/
def Orderly (s : FlowReport) (a : ReportAction) : Prop := orderly s a = true

instance : DecidableRel Orderly := fun s a => inferInstanceAs (Decidable (orderly s a = true))

theorem orderly_read {s : FlowReport} {field : StatsField} {ahead : List StatsField}
    (reporting : s.update = .reporting (field :: ahead)) :
    Orderly s .read ↔ s.read field = 0 := by
  unfold Orderly orderly
  simp only [reporting, decide_eq_true_eq]

theorem orderly_zero {s : FlowReport} {field : StatsField} {ahead : List StatsField}
    (resetting : s.update = .resetting (field :: ahead)) :
    Orderly s .zero ↔ s.stats.get field = s.read field := by
  unfold Orderly orderly
  simp only [resetting, decide_eq_true_eq]

/-! ## What the steps keep -/

/-- Two counters of an interval and their total. -/
inductive Triple : StatsField → StatsField → StatsField → Prop
  | bytes : Triple .lowerBytes .upperBytes .totalBytes
  | packets : Triple .lowerPackets .upperPackets .totalPackets

section
variable {s t : FlowReport} {lower upper total field : StatsField}

theorem addsUp_count (triple : Triple lower upper total) (sum : AddsUp s lower upper total)
    (bounded : ∀ f, s.read f ≤ s.stats.get f) {n : Nat} {rest : List StatsStore}
    (next : s.capture = .add field n :: rest) :
    AddsUp { s with stats := s.stats.set (s.stats.get field + n) field, capture := rest }
      lower upper total := by
  have boundedLower := bounded lower
  have boundedUpper := bounded upper
  unfold AddsUp unreported at sum ⊢
  rw [next] at sum
  simp only [toAdd, FlowStats.get_set] at sum ⊢
  cases triple <;> cases field <;> simp only [reduceCtorEq, ↓reduceIte] at sum ⊢ <;> omega

theorem addsUp_read (triple : Triple lower upper total) (sum : AddsUp s lower upper total)
    (fresh : s.read field = 0) (update : UpdatePoint) :
    AddsUp { s with
      reported := Function.update s.reported field (s.reported field + s.stats.get field)
      read := Function.update s.read field (s.stats.get field)
      update } lower upper total := by
  unfold AddsUp unreported at sum ⊢
  simp only [Function.update_apply]
  cases triple <;> cases field <;> simp only [reduceCtorEq, ↓reduceIte] at sum ⊢ <;> omega

theorem addsUp_zero (triple : Triple lower upper total) (sum : AddsUp s lower upper total)
    (interval : field ∈ intervalFields) (all : s.stats.get field = s.read field)
    (update : UpdatePoint) : AddsUp { s.clear field with update } lower upper total := by
  unfold AddsUp unreported at sum ⊢
  simp only [clear, Function.update_apply, FlowStats.get_set]
  cases triple <;> cases field <;> simp only [reduceCtorEq, ↓reduceIte] at sum ⊢ <;>
    first | omega | exact absurd interval (by decide)

theorem toAdd_packet (triple : Triple lower upper total) (low : Bool) (length : Nat) :
    toAdd lower (packetStores low length false) + toAdd upper (packetStores low length false) =
      toAdd total (packetStores low length false) := by
  cases triple <;> cases low <;> simp [packetStores, toAdd]

/-- Sums and counters that conserve the traffic, with stores that go on doing so. -/
structure Kept (s : FlowReport) : Prop where
  sums : ∀ lower upper total, Triple lower upper total → AddsUp s lower upper total
  bounded : ∀ field, s.read field ≤ s.stats.get field
  adds : ∀ store ∈ s.capture, ∃ field n, store = .add field n
  interval : ∀ ahead, s.update = .resetting ahead → ∀ field ∈ ahead, field ∈ intervalFields

theorem kept_start : Kept {} where
  sums _ _ _ triple := by cases triple <;> rfl
  bounded _ := Nat.zero_le _
  adds _ member := by cases member
  interval _ other := by cases other

/-- A step that leaves the counters and the packet in hand alone. -/
theorem kept_same (kept : Kept s) (stats : t.stats = s.stats) (reported : t.reported = s.reported)
    (read : t.read = s.read) (capture : t.capture = s.capture)
    (interval : ∀ ahead, t.update = .resetting ahead → ∀ field ∈ ahead, field ∈ intervalFields) :
    Kept t := by
  refine ⟨fun lower upper total triple => ?_, ?_, ?_, interval⟩
  · have sum := kept.sums lower upper total triple
    unfold AddsUp unreported at sum ⊢
    rw [stats, reported, read, capture]
    exact sum
  · rw [stats, read]
    exact kept.bounded
  · rw [capture]
    exact kept.adds

theorem kept_packet (kept : Kept s) {low : Bool} {length : Nat}
    (taken : step s (.packet low length false) = some t) : Kept t := by
  simp only [step] at taken
  split at taken
  case isFalse => cases taken
  case isTrue free =>
    cases taken
    refine ⟨fun lower upper total triple => ?_, kept.bounded, ?_, kept.interval⟩
    · have sum := kept.sums lower upper total triple
      have added := toAdd_packet triple low length
      unfold AddsUp unreported at sum ⊢
      rw [free.2] at sum
      simp only [toAdd] at sum
      simp only
      omega
    · intro store member
      cases low <;> simp [packetStores] at member <;> rcases member with rfl | rfl | rfl | rfl <;>
        exact ⟨_, _, rfl⟩

theorem kept_count (kept : Kept s) (taken : step s .count = some t) : Kept t := by
  simp only [step] at taken
  split at taken
  · cases taken
  · rename_i field n rest next
    cases taken
    refine ⟨fun lower upper total triple => ?_, fun other => ?_, fun store member => ?_, kept.interval⟩
    · exact addsUp_count triple (kept.sums lower upper total triple) kept.bounded next
    · have bounded := kept.bounded other
      rw [FlowStats.get_set]
      split
      · next same =>
        subst same
        simp only
        omega
      · exact bounded
    · exact kept.adds store (next ▸ List.mem_cons_of_mem _ member)
  · rename_i field rest next
    obtain ⟨f, n, other⟩ := kept.adds _ (next ▸ List.mem_cons_self ..)
    cases other

theorem kept_read (kept : Kept s) (orderly : Orderly s .read) (taken : step s .read = some t) :
    Kept t := by
  simp only [step] at taken
  split at taken
  · rename_i field ahead reporting
    cases taken
    refine ⟨fun lower upper total triple => ?_, fun other => ?_, kept.adds, fun left resets => ?_⟩
    · exact addsUp_read triple (kept.sums lower upper total triple)
        ((orderly_read reporting).mp orderly) _
    · simp only [Function.update_apply]
      split
      · next same =>
        subst same
        exact Nat.le_refl _
      · exact kept.bounded other
    · simp only at resets
      split at resets <;> cases resets
  · cases taken

theorem kept_zero (kept : Kept s) (orderly : Orderly s .zero) (taken : step s .zero = some t) :
    Kept t := by
  simp only [step] at taken
  split at taken
  · rename_i field ahead resetting
    cases taken
    have interval := kept.interval _ resetting
    refine ⟨fun lower upper total triple => ?_, fun other => ?_, kept.adds, fun left resets => ?_⟩
    · exact addsUp_zero triple (kept.sums lower upper total triple)
        (interval field (List.mem_cons_self ..)) ((orderly_zero resetting).mp orderly) _
    · simp only [clear, Function.update_apply, FlowStats.get_set]
      split
      · exact Nat.le_refl _
      · exact kept.bounded other
    · simp only at resets
      split at resets
      · cases resets
      · cases resets
        exact fun other member => interval other (List.mem_cons_of_mem _ member)
  · cases taken

theorem kept_step (kept : Kept s) {a : ReportAction} (taken : step s a = some t)
    (orderly : Orderly s a) : Kept t := by
  cases a with
  | insert =>
    simp only [step] at taken
    split at taken
    · cases taken
    · cases taken
      exact kept_same kept rfl rfl rfl rfl kept.interval
  | packet lower length query =>
    obtain rfl : query = false := by simpa [Orderly, FlowReport.orderly] using orderly
    exact kept_packet kept taken
  | count => exact kept_count kept taken
  | broadcast =>
    simp only [step] at taken
    split at taken
    · cases taken
      refine kept_same kept rfl rfl rfl rfl fun ahead other => ?_
      simp only at other
      split at other <;> cases other
    · cases taken
  | read => exact kept_read kept orderly taken
  | visit =>
    simp only [step] at taken
    split at taken
    · split at taken
      · cases taken
        refine kept_same kept rfl rfl rfl rfl fun ahead resets => ?_
        cases resets
        exact fun field member => member
      · cases taken
        exact kept_same kept rfl rfl rfl rfl fun ahead other => (by cases other)
    · cases taken
  | zero => exact kept_zero kept orderly taken
  | flags detectionInit expired =>
    cases taken
    exact kept_same kept rfl rfl rfl rfl kept.interval

end

/-- A report that reads a counter conserves the traffic only if nothing of it was read
before. -/
theorem conserves_read_iff {s t : FlowReport} (kept : Kept s) {field : StatsField}
    {ahead : List StatsField} (reporting : s.update = .reporting (field :: ahead))
    (interval : field ∈ intervalFields) (taken : step s .read = some t) :
    Conserves t ↔ s.read field = 0 := by
  constructor
  · intro conserves
    have bytes := conserves.bytes
    have packets := conserves.packets
    have before := kept.sums _ _ _ .bytes
    have before' := kept.sums _ _ _ .packets
    have bounded := kept.bounded field
    simp only [step, reporting] at taken
    cases taken
    unfold AddsUp unreported at bytes packets before before'
    simp only [Function.update_apply] at bytes packets
    cases field <;> simp only [reduceCtorEq, ↓reduceIte] at bytes packets <;>
      first | omega | exact absurd interval (by decide)
  · intro fresh
    have after := kept_read kept ((orderly_read reporting).mpr fresh) taken
    exact ⟨after.sums _ _ _ .bytes, after.sums _ _ _ .packets⟩

/-- Setting a counter to zero conserves the traffic only if all of it was read. -/
theorem conserves_zero_iff {s t : FlowReport} (kept : Kept s) {field : StatsField}
    {ahead : List StatsField} (resetting : s.update = .resetting (field :: ahead))
    (taken : step s .zero = some t) : Conserves t ↔ s.stats.get field = s.read field := by
  constructor
  · intro conserves
    have bytes := conserves.bytes
    have packets := conserves.packets
    have before := kept.sums _ _ _ .bytes
    have before' := kept.sums _ _ _ .packets
    have bounded := kept.bounded field
    simp only [step, resetting] at taken
    cases taken
    unfold AddsUp unreported at bytes packets before before'
    simp only [clear, Function.update_apply, FlowStats.get_set] at bytes packets
    cases field <;> simp only [reduceCtorEq, ↓reduceIte] at bytes packets <;> omega
  · intro all
    have after := kept_zero kept ((orderly_zero resetting).mpr all) taken
    exact ⟨after.sums _ _ _ .bytes, after.sums _ _ _ .packets⟩

/-! ## One interval -/

/-- A packet of 100 bytes, its report and the reset. -/
def oneReport : List ReportAction :=
  [.insert, .flags true false, .packet true 100 false, .count, .count, .count, .count,
    .broadcast, .read, .read, .read, .read, .visit, .zero, .zero, .zero, .zero]

/-- A packet of 50 bytes between the report and the reset. -/
def packetBetween : List ReportAction :=
  [.insert, .flags true false, .packet true 100 false, .count, .count, .count, .count,
    .broadcast, .read, .read, .read, .read, .packet true 50 false, .count, .count, .count, .count,
    .visit, .zero, .zero, .zero, .zero]

/-- A flow whose detection has not begun is reported twice. -/
def reportedTwice : List ReportAction :=
  [.insert, .packet true 100 false, .count, .count, .count, .count,
    .broadcast, .read, .read, .read, .read, .visit, .broadcast, .read, .read, .read, .read, .visit]

end FlowReport
end NetifyAgent
