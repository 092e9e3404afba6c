import NetifyAgent.FlowMap
import NetifyAgent.Lib.Index

/-! The number of flows and its limit, for any number of capture threads and any
interleaving. The counter is ahead of the map by the flows that a running purge
has erased and behind it by those inserted and not yet counted. The limit is
tested on the counter, so every thread but one may pass the test for a flow that
another is about to count: the map may exceed the limit by that many. -/
namespace NetifyAgent.FlowCount
open NetifyAgent.Index NetifyAgent.Runs NetifyAgent.Threads FlowSystem

variable {threads buckets : Nat} {t t' : FlowSystem threads buckets} {maxFlows : Nat}
  {i : Fin threads} {digest : List UInt8}

/-- A thread that has inserted its flow and not counted it. -/
def uncounted : CapturePoint → Nat
  | .inserted _ => 1
  | _ => 0

/-- A thread that has passed the limit and not counted its flow. -/
def underWay : CapturePoint → Nat
  | .admitted _ | .accepted _ | .inserted _ => 1
  | _ => 0

/-- The entries of the flow map. -/
def entries (t : FlowSystem threads buckets) : Nat := total (fun m => m.keys.length) t.bucket

/-- Flows inserted but not yet counted. -/
def insertedNotCounted (t : FlowSystem threads buckets) : Nat := total uncounted t.capture

/-- Flows erased by the running `ProcessFlows` and not yet subtracted. -/
def erasedNotSubtracted (t : FlowSystem threads buckets) : Nat :=
  if t.purge = .idle then 0 else t.flowsPurged

/-- What a move does to a sum. -/
theorem total_move (t : FlowSystem threads buckets) {f : CapturePoint → Nat} {p : CapturePoint}
    {a b : Nat} (before : f (t.capture i) = a) (after : f p = b) :
    total f (Function.update t.capture i p) + a = total f t.capture + b := by
  rw [← before, ← after]
  exact total_update f t.capture i p

variable [NeZero buckets]

/-- Locks are held by those who think so, what was inserted is there, and the
numbers add up. -/
structure Counted (maxFlows : Nat) (t : FlowSystem threads buckets) : Prop where
  held : ∀ i d, (t.capture i).digest = some d →
    t.bucketLock (hashToBucket buckets d) = some (.capture i)
  walking : ∀ b ahead, t.purge = .walking b ahead → t.bucketLock b = some .instance_
  present : ∀ i d, t.capture i = .inserted d →
    (t.bucket (hashToBucket buckets d)).lookup d ≠ none
  law : t.flows + insertedNotCounted t = entries t + erasedNotSubtracted t
  limit : 0 < maxFlows → t.flows + total underWay t.capture ≤ maxFlows + (threads - 1)

/-! ## What a change does to the sums -/

theorem underWay_le (p : CapturePoint) : underWay p ≤ 1 := by
  cases p <;> simp [underWay]

theorem uncounted_le (p : CapturePoint) : uncounted p ≤ underWay p := by
  cases p <;> simp [uncounted, underWay]

/-- Uncounted flows are all in the map. -/
theorem uncounted_le_entries (counted : Counted maxFlows t) : insertedNotCounted t ≤ entries t := by
  let place (i : Fin threads) : Fin buckets :=
    match (t.capture i).digest with
    | some d => hashToBucket buckets d
    | none => 0
  have inserted : ∀ i, uncounted (t.capture i) ≠ 0 → ∃ d, t.capture i = .inserted d := by
    intro i busy
    cases point : t.capture i <;> simp_all [uncounted]
  have placed : ∀ i d, t.capture i = .inserted d → place i = hashToBucket buckets d := by
    intro i d point
    simp only [place, point, CapturePoint.digest]
  refine total_le_stores (fun p => (uncounted_le p).trans (underWay_le p)) place ?_ ?_
  · intro i busy
    obtain ⟨d, point⟩ := inserted i busy
    have there := counted.present i d point
    rw [placed i d point]
    exact List.length_pos_of_mem (lookup_ne_none.mp there)
  · intro i j busy busy' same
    obtain ⟨d, point⟩ := inserted i busy
    obtain ⟨d', point'⟩ := inserted j busy'
    have mine := counted.held i d (by rw [point]; rfl)
    have theirs := counted.held j d' (by rw [point']; rfl)
    rw [placed i d point, placed j d' point'] at same
    rw [same, theirs] at mine
    cases mine
    rfl

/-! ## The steps of a capture thread -/

-- The equations of the steps are made once here, before the lemmas that split them.
attribute [local simp] captureStep purgeStep

/-- A move that inserts and counts nothing. -/
theorem law_move (counted : Counted maxFlows t) {p : CapturePoint}
    (before : uncounted (t.capture i) = 0) (after : uncounted p = 0) :
    t.flows + total uncounted (Function.update t.capture i p) =
      entries t + erasedNotSubtracted t := by
  have law : t.flows + total uncounted t.capture = entries t + erasedNotSubtracted t := counted.law
  have counts := total_move t before after
  omega

/-- A move that does not pass the limit. -/
theorem limit_move (counted : Counted maxFlows t) {p : CapturePoint}
    (fewer : underWay p ≤ underWay (t.capture i)) (some_limit : 0 < maxFlows) :
    t.flows + total underWay (Function.update t.capture i p) ≤ maxFlows + (threads - 1) := by
  have limit := counted.limit some_limit
  have ways := total_update underWay t.capture i p
  omega

/-- A thread that moves on holds what it held. -/
theorem held_move (counted : Counted maxFlows t) {p : CapturePoint}
    (same : p.digest = (t.capture i).digest) (j : Fin threads) (d : List UInt8)
    (holds : (Function.update t.capture i p j).digest = some d) :
    t.bucketLock (hashToBucket buckets d) = some (.capture j) := by
  by_cases mine : j = i
  · subst mine
    rw [Function.update_self, same] at holds
    exact counted.held j d holds
  · rw [Function.update_of_ne mine] at holds
    exact counted.held j d holds

/-- A flow that was inserted stays in the map while others move. -/
theorem present_move (counted : Counted maxFlows t) {p : CapturePoint}
    (other : ∀ d, p ≠ .inserted d) (j : Fin threads) (d : List UInt8)
    (inserted : Function.update t.capture i p j = .inserted d) :
    (t.bucket (hashToBucket buckets d)).lookup d ≠ none := by
  by_cases mine : j = i
  · subst mine
    rw [Function.update_self] at inserted
    exact absurd inserted (other d)
  · rw [Function.update_of_ne mine] at inserted
    exact counted.present j d inserted

/-- A thread that gives its lock back leaves the other locks alone. -/
theorem held_release (counted : Counted maxFlows t) {p : CapturePoint} {digest : List UInt8}
    (mine : (t.capture i).digest = some digest) (done : p.digest = none) (j : Fin threads)
    (d : List UInt8) (holds : (Function.update t.capture i p j).digest = some d) :
    Function.update t.bucketLock (hashToBucket buckets digest) none (hashToBucket buckets d) =
      some (.capture j) := by
  have lock := counted.held i digest mine
  by_cases same : j = i
  · subst same
    rw [Function.update_self, done] at holds
    cases holds
  · rw [Function.update_of_ne same] at holds
    have theirs := counted.held j d holds
    have apart : hashToBucket buckets d ≠ hashToBucket buckets digest := by
      intro equal
      rw [equal, lock] at theirs
      cases theirs
      exact same rfl
    rw [Function.update_of_ne apart]
    exact theirs

/-- The instance thread keeps its bucket when another lock is given back. -/
theorem walking_release (counted : Counted maxFlows t) {digest : List UInt8}
    (mine : (t.capture i).digest = some digest) (b : Fin buckets) (ahead : List (List UInt8))
    (walks : t.purge = .walking b ahead) :
    Function.update t.bucketLock (hashToBucket buckets digest) none b = some .instance_ := by
  have theirs := counted.walking b ahead walks
  have apart : b ≠ hashToBucket buckets digest := by
    rintro rfl
    rw [counted.held i digest mine] at theirs
    cases theirs
  rw [Function.update_of_ne apart]
  exact theirs

theorem counted_lookup (counted : Counted maxFlows t)
    (taken : t.captureStep maxFlows i (.lookup i digest) = some t') : Counted maxFlows t' := by
  simp only [captureStep] at taken
  split at taken
  · rename_i free
    cases taken
    have apart : ∀ b o, t.bucketLock b = some o → b ≠ hashToBucket buckets digest := by
      rintro b o lock rfl
      rw [free.2] at lock
      cases lock
    generalize point : (if (t.bucket (hashToBucket buckets digest)).lookup digest = none then
      CapturePoint.missing digest else CapturePoint.leaving digest) = p
    have quiet : p.digest = some digest ∧ (∀ d, p ≠ .inserted d) ∧ uncounted p = 0 ∧
        underWay p = 0 := by
      subst point
      split <;> simp [CapturePoint.digest, uncounted, underWay]
    obtain ⟨named, other, none, aside⟩ := quiet
    refine ⟨?_, ?_, present_move counted other, ?_, ?_⟩
    · intro j d holds
      simp only [setCapture, setLock] at holds ⊢
      by_cases mine : j = i
      · subst mine
        rw [Function.update_self, named] at holds
        cases holds
        exact Function.update_self _ _ _
      · rw [Function.update_of_ne mine] at holds
        have theirs := counted.held j d holds
        rw [Function.update_of_ne (apart _ _ theirs)]
        exact theirs
    · intro b ahead walks
      have theirs := counted.walking b ahead walks
      simp only [setCapture, setLock]
      rw [Function.update_of_ne (apart _ _ theirs)]
      exact theirs
    · exact law_move counted (by rw [free.1]; rfl) none
    · exact limit_move counted (by rw [aside]; exact Nat.zero_le _)
  · cases taken

theorem counted_limit (counted : Counted maxFlows t)
    (taken : t.captureStep maxFlows i (.limit i) = some t') : Counted maxFlows t' := by
  simp only [captureStep] at taken
  split at taken
  · rename_i digest stands
    cases taken
    generalize point : (if 0 < maxFlows ∧ maxFlows < t.flows + 1 then
      CapturePoint.leaving digest else CapturePoint.admitted digest) = p
    have quiet : p.digest = some digest ∧ (∀ d, p ≠ .inserted d) ∧ uncounted p = 0 := by
      subst point
      split <;> simp [CapturePoint.digest, uncounted]
    obtain ⟨named, other, none⟩ := quiet
    refine ⟨held_move counted (by rw [stands, named]; rfl), counted.walking,
      present_move counted other, law_move counted (by rw [stands]; rfl) none, ?_⟩
    · intro some_limit
      have limit := counted.limit some_limit
      have idle : underWay (t.capture i) = 0 := by
        rw [stands]
        rfl
      have room : total underWay t.capture < threads := total_lt (i := i) underWay_le idle
      subst point
      simp only [setCapture]
      split
      · have ways := total_move t (p := .leaving digest) (b := 0) idle rfl
        omega
      · have ways := total_move t (p := .admitted digest) (b := 1) idle rfl
        omega
  · cases taken

theorem counted_scan (counted : Counted maxFlows t) {refused : Bool}
    (taken : t.captureStep maxFlows i (.scan i refused) = some t') : Counted maxFlows t' := by
  simp only [captureStep] at taken
  split at taken
  · rename_i digest stands
    cases taken
    generalize point : (if refused = true then CapturePoint.leaving digest
      else CapturePoint.accepted digest) = p
    have quiet : p.digest = some digest ∧ (∀ d, p ≠ .inserted d) ∧ uncounted p = 0 := by
      subst point
      split <;> simp [CapturePoint.digest, uncounted]
    obtain ⟨named, other, none⟩ := quiet
    refine ⟨held_move counted (by rw [stands, named]; rfl), counted.walking,
      present_move counted other, law_move counted (by rw [stands]; rfl) none,
      limit_move counted ?_⟩
    rw [stands]
    exact underWay_le p
  · cases taken

theorem counted_insert (counted : Counted maxFlows t)
    (taken : t.captureStep maxFlows i (.insert i) = some t') : Counted maxFlows t' := by
  simp only [captureStep] at taken
  split at taken
  · rename_i digest stands
    split at taken
    · rename_i absent
      cases taken
      refine ⟨held_move counted (by rw [stands]; rfl), counted.walking, ?_, ?_,
        limit_move counted (by rw [stands]; exact Nat.le_refl _)⟩
      · intro j d inserted
        simp only [setCapture, setBucket] at inserted ⊢
        by_cases same : hashToBucket buckets d = hashToBucket buckets digest
        · rw [same, Function.update_self]
          by_cases mine : d = digest
          · rw [mine, AList.lookup_insert]
            simp
          · rw [AList.lookup_insert_ne mine, ← same]
            refine counted.present j d ?_
            by_cases me : j = i
            · subst me
              rw [Function.update_self] at inserted
              cases inserted
              exact absurd rfl mine
            · rwa [Function.update_of_ne me] at inserted
        · rw [Function.update_of_ne same]
          refine counted.present j d ?_
          by_cases me : j = i
          · subst me
            rw [Function.update_self] at inserted
            cases inserted
            exact absurd rfl same
          · rwa [Function.update_of_ne me] at inserted
      · have law : t.flows + total uncounted t.capture = entries t + erasedNotSubtracted t :=
          counted.law
        have counts := total_move t (f := uncounted) (p := .inserted digest) (a := 0) (b := 1)
          (by rw [stands]; rfl) rfl
        have stored := total_update (fun m : FlowBucket => m.keys.length) t.bucket
          (hashToBucket buckets digest)
          ((t.bucket (hashToBucket buckets digest)).insert digest {})
        rw [length_insert, if_pos absent] at stored
        have more : total (fun m : FlowBucket => m.keys.length) (Function.update t.bucket
            (hashToBucket buckets digest) ((t.bucket (hashToBucket buckets digest)).insert
              digest {})) = entries t + 1 := by
          unfold entries
          omega
        show t.flows + total uncounted (Function.update t.capture i (.inserted digest)) =
          total (fun m : FlowBucket => m.keys.length) _ + erasedNotSubtracted t
        simp only [setCapture, setBucket]
        omega
    · cases taken
      have mine : (t.capture i).digest = some digest := by
        rw [stands]
        rfl
      exact ⟨held_release counted mine rfl, walking_release counted mine,
        present_move counted (by simp), law_move counted (by rw [stands]; rfl) rfl,
        limit_move counted (Nat.zero_le _)⟩
  · cases taken

theorem counted_count (counted : Counted maxFlows t)
    (taken : t.captureStep maxFlows i (.count i) = some t') : Counted maxFlows t' := by
  simp only [captureStep] at taken
  split at taken
  · rename_i digest stands
    cases taken
    refine ⟨held_move counted (by rw [stands]; rfl), counted.walking,
      present_move counted (by simp), ?_, fun some_limit => ?_⟩
    · have law : t.flows + total uncounted t.capture = entries t + erasedNotSubtracted t :=
        counted.law
      have counts := total_move t (f := uncounted) (p := .leaving digest) (a := 1) (b := 0)
        (by rw [stands]; rfl) rfl
      show t.flows + 1 + total uncounted (Function.update t.capture i (.leaving digest)) =
        entries t + erasedNotSubtracted t
      omega
    · have limit := counted.limit some_limit
      have ways := total_move t (f := underWay) (p := .leaving digest) (a := 1) (b := 0)
        (by rw [stands]; rfl) rfl
      show t.flows + 1 + total underWay (Function.update t.capture i (.leaving digest)) ≤ _
      omega
  · cases taken

theorem counted_release (counted : Counted maxFlows t)
    (taken : t.captureStep maxFlows i (.release i) = some t') : Counted maxFlows t' := by
  simp only [captureStep] at taken
  split at taken
  · rename_i digest stands
    cases taken
    have mine : (t.capture i).digest = some digest := by
      rw [stands]
      rfl
    exact ⟨held_release counted mine rfl, walking_release counted mine,
      present_move counted (by simp), law_move counted (by rw [stands]; rfl) rfl,
      limit_move counted (Nat.zero_le _)⟩
  · cases taken

/-! ## The steps of the instance thread -/

theorem counted_start (counted : Counted maxFlows t) (taken : t.purgeStep .start = some t') :
    Counted maxFlows t' := by
  simp only [purgeStep] at taken
  split at taken
  · rename_i idle
    cases taken
    refine ⟨counted.held, fun b ahead walks => (by cases walks), counted.present, ?_, counted.limit⟩
    have law := counted.law
    unfold erasedNotSubtracted at law ⊢
    rw [if_pos idle] at law
    rw [if_neg (by simp)]
    exact law
  · cases taken

theorem counted_acquire (counted : Counted maxFlows t) (taken : t.purgeStep .acquire = some t') :
    Counted maxFlows t' := by
  simp only [purgeStep] at taken
  split at taken
  · rename_i b next
    split at taken
    · rename_i inside
      split at taken
      · rename_i free
        cases taken
        refine ⟨fun j d holds => ?_, fun b' ahead walks => ?_, counted.present, ?_,
          counted.limit⟩
        · have theirs := counted.held j d holds
          have apart : hashToBucket buckets d ≠ ⟨b, inside⟩ := by
            intro same
            rw [same, free] at theirs
            cases theirs
          show Function.update t.bucketLock _ _ _ = _
          rw [Function.update_of_ne apart]
          exact theirs
        · cases walks
          exact Function.update_self _ _ _
        · have law := counted.law
          unfold erasedNotSubtracted at law ⊢
          rw [if_neg (by simp [next])] at law
          rw [if_neg (by simp)]
          exact law
      · cases taken
    · cases taken
  · cases taken

/-- A flow whose bucket a capture thread holds is not in the bucket that the
instance thread walks. -/
theorem apart_of_walking (counted : Counted maxFlows t) {b : Fin buckets}
    {ahead : List (List UInt8)} (walks : t.purge = .walking b ahead) {j : Fin threads}
    {d : List UInt8} (holds : (t.capture j).digest = some d) : hashToBucket buckets d ≠ b := by
  intro same
  have theirs := counted.held j d holds
  rw [same, counted.walking b ahead walks] at theirs
  cases theirs

theorem counted_visit (counted : Counted maxFlows t) (taken : t.purgeStep .visit = some t') :
    Counted maxFlows t' := by
  simp only [purgeStep] at taken
  split at taken
  · rename_i b digest ahead walks
    have lock := counted.walking b _ walks
    have law := counted.law
    unfold erasedNotSubtracted at law
    rw [if_neg (by simp [walks])] at law
    split at taken
    · rename_i flow found
      split at taken
      · cases taken
        refine ⟨counted.held, fun b' ahead' same => ?_, fun j d inserted => ?_, ?_,
          counted.limit⟩
        · cases same
          exact lock
        · have apart := apart_of_walking counted walks (congrArg CapturePoint.digest inserted)
          show (Function.update t.bucket b _ _).lookup d ≠ none
          rw [Function.update_of_ne apart]
          exact counted.present j d inserted
        · have less := length_erase (t := t.bucket b) (x := digest) (by simp [found])
          have stored := total_update (fun m : FlowBucket => m.keys.length) t.bucket b
            ((t.bucket b).erase digest)
          have fewer : total (fun m : FlowBucket => m.keys.length)
              (Function.update t.bucket b ((t.bucket b).erase digest)) + 1 = entries t := by
            unfold entries
            omega
          unfold erasedNotSubtracted
          rw [if_neg (by simp)]
          show t.flows + insertedNotCounted t =
            total (fun m : FlowBucket => m.keys.length) _ + (t.flowsPurged + 1)
          simp only [setBucket]
          omega
      · cases taken
        refine ⟨counted.held, fun b' ahead' same => ?_, counted.present, ?_, counted.limit⟩
        · cases same
          exact lock
        · unfold erasedNotSubtracted
          rw [if_neg (by simp)]
          exact law
    · cases taken
  · cases taken

theorem counted_releaseBucket (counted : Counted maxFlows t)
    (taken : t.purgeStep .releaseBucket = some t') : Counted maxFlows t' := by
  simp only [purgeStep] at taken
  split at taken
  · rename_i b walks
    cases taken
    refine ⟨fun j d holds => ?_, fun b' ahead same => (by cases same), counted.present, ?_,
      counted.limit⟩
    · show Function.update t.bucketLock b none _ = _
      rw [Function.update_of_ne (apart_of_walking counted walks holds)]
      exact counted.held j d holds
    · have law := counted.law
      unfold erasedNotSubtracted at law ⊢
      rw [if_neg (by simp [walks])] at law
      rw [if_neg (by simp)]
      exact law
  · cases taken

/-- The subtraction never takes more than was counted. -/
theorem counted_finish (counted : Counted maxFlows t) (taken : t.purgeStep .finish = some t') :
    Counted maxFlows t' := by
  simp only [purgeStep] at taken
  split at taken
  · rename_i b next
    split at taken
    · cases taken
    · cases taken
      have inside := uncounted_le_entries counted
      have law := counted.law
      unfold erasedNotSubtracted at law
      rw [if_neg (by simp [next])] at law
      refine ⟨counted.held, fun b' ahead same => (by cases same), counted.present, ?_,
        fun some_limit => ?_⟩
      · show t.flows - t.flowsPurged + insertedNotCounted t = entries t + 0
        omega
      · have limit := counted.limit some_limit
        show t.flows - t.flowsPurged + total underWay t.capture ≤ _
        omega
  · cases taken

theorem counted_change (counted : Counted maxFlows t) {flow : MapFlow}
    (taken : t.step maxFlows (.change digest flow) = some t') : Counted maxFlows t' := by
  simp only [step] at taken
  split at taken
  · cases taken
  · rename_i here
    cases taken
    refine ⟨counted.held, counted.walking, fun j d inserted => ?_, ?_, counted.limit⟩
    · have there := counted.present j d inserted
      show (Function.update t.bucket _ _ _).lookup d ≠ none
      by_cases same : hashToBucket buckets d = hashToBucket buckets digest
      · rw [same, Function.update_self]
        by_cases mine : d = digest
        · rw [mine, AList.lookup_insert]
          simp
        · rw [AList.lookup_insert_ne mine, ← same]
          exact there
      · rw [Function.update_of_ne same]
        exact there
    · have stored := total_update (fun m : FlowBucket => m.keys.length) t.bucket
        (hashToBucket buckets digest) ((t.bucket (hashToBucket buckets digest)).insert digest flow)
      rw [length_insert, if_neg here] at stored
      have same : total (fun m : FlowBucket => m.keys.length) (Function.update t.bucket
          (hashToBucket buckets digest) ((t.bucket (hashToBucket buckets digest)).insert digest
            flow)) = entries t := by
        unfold entries
        omega
      show t.flows + insertedNotCounted t =
        total (fun m : FlowBucket => m.keys.length) _ + erasedNotSubtracted t
      simp only [setBucket, same]
      exact counted.law

/-! ## Every interleaving -/

theorem counted_start_state : Counted maxFlows ({} : FlowSystem threads buckets) := by
  refine ⟨fun _ _ holds => (by cases holds), fun _ _ walks => (by cases walks),
    fun _ _ inserted => (by cases inserted), ?_, fun _ => ?_⟩
  · simp [insertedNotCounted, entries, erasedNotSubtracted, total, uncounted]
  · simp [total, underWay]

theorem counted_reached (reached : Reaches (FlowSystem.step maxFlows) Always {} t) :
    Counted maxFlows t := by
  refine reached.invariant counted_start_state fun u action v counted taken _ => ?_
  cases action with
  | lookup i digest => exact counted_lookup counted taken
  | limit i => exact counted_limit counted taken
  | scan i refused => exact counted_scan counted taken
  | insert i => exact counted_insert counted taken
  | count i => exact counted_count counted taken
  | release i => exact counted_release counted taken
  | start => exact counted_start counted taken
  | acquire => exact counted_acquire counted taken
  | visit => exact counted_visit counted taken
  | releaseBucket => exact counted_releaseBucket counted taken
  | finish => exact counted_finish counted taken
  | change digest flow => exact counted_change counted taken

/-- **The count law and the limit**, in every interleaving: the counter less the
flows erased and not subtracted, plus those inserted and not counted, is the
size of the map, and the map exceeds the limit by less than the number of
capture threads. -/
theorem flow_count (reached : Reaches (FlowSystem.step maxFlows) Always {} t) :
    (t.flows : Int) - erasedNotSubtracted t + insertedNotCounted t = entries t ∧
      (0 < maxFlows → entries t ≤ maxFlows + (threads - 1)) := by
  have counted := counted_reached reached
  have law := counted.law
  refine ⟨by omega, fun some_limit => ?_⟩
  have limit := counted.limit some_limit
  have fewer : insertedNotCounted t ≤ total underWay t.capture := total_mono uncounted_le
  omega

/-- Two digests of different buckets. -/
def firstDigest : List UInt8 := List.replicate 20 0
def secondDigest : List UInt8 := List.replicate 20 1

/-- One thread inserts and counts its flow. -/
theorem flow_count_one : ∃ t : FlowSystem 1 2,
    Reaches (FlowSystem.step 1) Always {} t ∧ t.flows = 1 ∧
      (t.flows : Int) - erasedNotSubtracted t + insertedNotCounted t = entries t ∧
      (0 < 1 → entries t ≤ 1 + (1 - 1)) := by
  have found : (exec (FlowSystem.step 1) Always ({} : FlowSystem 1 2)
      [.lookup 0 firstDigest, .limit 0, .scan 0 false, .insert 0, .count 0, .release 0]).any
      (fun t => t.flows = 1) = true := by decide +kernel
  obtain ⟨t, reached, one⟩ := reached_of_exec found
  exact ⟨t, reached, of_decide_eq_true one, flow_count reached⟩

/-- After a flow was erased and before it is subtracted the counter is ahead of
the map, not behind it; and two threads that pass the test together leave two
flows under a limit of one. -/
theorem not_flow_count :
    (∃ t : FlowSystem 1 2, Reaches (FlowSystem.step 1) Always {} t ∧
      (t.flows : Int) + erasedNotSubtracted t - insertedNotCounted t ≠ entries t) ∧
    ∃ t : FlowSystem 2 2, Reaches (FlowSystem.step 1) Always {} t ∧ 1 < entries t := by
  constructor
  · have found : (exec (FlowSystem.step 1) Always ({} : FlowSystem 1 2)
        [.lookup 0 firstDigest, .limit 0, .scan 0 false, .insert 0, .count 0, .release 0,
          .change firstDigest ⟨true, 1⟩, .start, .acquire, .visit]).any
        (fun t => (t.flows : Int) + erasedNotSubtracted t - insertedNotCounted t ≠ entries t) =
        true := by decide +kernel
    obtain ⟨t, reached, wrong⟩ := reached_of_exec found
    exact ⟨t, reached, of_decide_eq_true wrong⟩
  · have found : (exec (FlowSystem.step 1) Always ({} : FlowSystem 2 2)
        [.lookup 0 firstDigest, .limit 0, .lookup 1 secondDigest, .limit 1, .scan 0 false,
          .insert 0, .scan 1 false, .insert 1]).any (fun t => 1 < entries t) = true := by
      decide +kernel
    obtain ⟨t, reached, beyond⟩ := reached_of_exec found
    exact ⟨t, reached, of_decide_eq_true beyond⟩

end NetifyAgent.FlowCount
