import NetifyAgent.CaptureReload

/-! Reaping the capture threads. The agent exits once no capture thread is left. What it
counts down is the number of interfaces, once for each thread that has terminated, so that
the count is that of the threads only where every interface has one thread. -/
namespace NetifyAgent.Reaping
open CaptureInstance

/-- `count--` on a `size_t`. -/
def decrement (count : Nat) : Nat := if count = 0 then 2 ^ 64 - 1 else count - 1

/-- The threads in the order in which they are visited. -/
def visited (threads : CaptureThreads) : List Nat := threads.entries.flatMap Prod.snd

/-- The loop of `ReapCaptureThreads`. -/
def countDown (terminated : Nat → Bool) : List Nat → Nat → Nat
  | [], count => count
  | i :: rest, count =>
    countDown terminated rest (if terminated i then decrement count else count)

/-- What `ReapCaptureThreads` returns and leaves. -/
structure Reaped where
  count : Nat
  threads : CaptureThreads
  /-- `Terminate` was called. -/
  exits : Bool

/-- `ReapCaptureThreads`. -/
def reapCaptureThreads (shouldTerminate runWithoutSources : Bool) (terminated : Nat → Bool)
    (threads : CaptureThreads) : Reaped :=
  let count := countDown terminated (visited threads) threads.entries.length
  if shouldTerminate = false ∧ count = 0 ∧ runWithoutSources = false then ⟨count, ∅, true⟩
  else ⟨count, threads, false⟩

/-! ## The law -/

/-- The counter is decremented at zero. -/
def Underflows (terminated : Nat → Bool) : List Nat → Nat → Prop
  | [], _ => False
  | i :: rest, count => (terminated i = true ∧ count = 0) ∨
      Underflows terminated rest (if terminated i then decrement count else count)

instance decidableUnderflows (terminated : Nat → Bool) :
    ∀ threads count, Decidable (Underflows terminated threads count)
  | [], _ => .isFalse id
  | i :: rest, count =>
    have := decidableUnderflows terminated rest (if terminated i then decrement count else count)
    inferInstanceAs (Decidable (_ ∨ _))

/-- Every thread of every interface has terminated. -/
def AllTerminated (terminated : Nat → Bool) (threads : CaptureThreads) : Prop :=
  ∀ e ∈ threads.entries, ∀ i ∈ e.2, terminated i = true

/-- The counter never underflows and says whether threads are left. -/
structure Reaps (terminated : Nat → Bool) (threads : CaptureThreads) : Prop where
  safe : ¬ Underflows terminated (visited threads) threads.entries.length
  zero : ∀ shouldTerminate runWithoutSources,
    (reapCaptureThreads shouldTerminate runWithoutSources terminated threads).count = 0 ↔
      AllTerminated terminated threads
  exits : (reapCaptureThreads false false terminated threads).exits = true ↔
    AllTerminated terminated threads

/-- Every interface has one thread. -/
def Single (threads : CaptureThreads) : Prop := ∀ e ∈ threads.entries, e.2.length = 1

section
variable {terminated : Nat → Bool} {threads : CaptureThreads} {list : List Nat} {count : Nat}

theorem count_reapCaptureThreads (shouldTerminate runWithoutSources : Bool) :
    (reapCaptureThreads shouldTerminate runWithoutSources terminated threads).count =
      countDown terminated (visited threads) threads.entries.length := by
  unfold reapCaptureThreads
  simp only
  split <;> rfl

theorem exits_iff : (reapCaptureThreads false false terminated threads).exits = true ↔
    countDown terminated (visited threads) threads.entries.length = 0 := by
  unfold reapCaptureThreads
  simp only [true_and, and_true]
  split
  · rename_i zero
    exact iff_of_true rfl zero
  · rename_i left
    exact iff_of_false (by simp) left

/-- The counter underflows where more threads have terminated than it started from. -/
theorem underflows_iff : Underflows terminated list count ↔ count < list.countP terminated := by
  induction list generalizing count with
  | nil => simp [Underflows]
  | cons i rest ih =>
    unfold Underflows
    rw [ih, List.countP_cons]
    by_cases done : terminated i = true
    · rw [if_pos done, if_pos done]
      unfold decrement
      split
      · simp [*]
      · simp only [*, and_false, false_or]
        omega
    · simp [done]

theorem countDown_eq (safe : list.countP terminated ≤ count) :
    countDown terminated list count = count - list.countP terminated := by
  induction list generalizing count with
  | nil => rfl
  | cons i rest ih =>
    rw [List.countP_cons] at safe ⊢
    unfold countDown
    by_cases done : terminated i = true
    · rw [if_pos done] at safe ⊢
      have positive : count ≠ 0 := by omega
      rw [if_pos done, decrement, if_neg positive, ih (by omega)]
      omega
    · rw [if_neg done] at safe ⊢
      rw [if_neg done, ih safe, Nat.add_zero]

theorem allTerminated_iff : AllTerminated terminated threads ↔
    (visited threads).countP terminated = (visited threads).length := by
  rw [List.countP_eq_length]
  unfold AllTerminated visited
  simp only [List.mem_flatMap]
  constructor
  · rintro all i ⟨e, member, inside⟩
    exact all e member i inside
  · exact fun all e member i inside => all i ⟨e, member, inside⟩

/-- Groups with a thread each have as many threads as there are groups only if none has more. -/
theorem groups_length {groups : List (List Char × List Nat)} (full : ∀ e ∈ groups, e.2 ≠ []) :
    groups.length ≤ (groups.flatMap Prod.snd).length ∧
      ((∀ e ∈ groups, e.2.length = 1) ↔ (groups.flatMap Prod.snd).length = groups.length) := by
  induction groups with
  | nil => simp
  | cons e rest ih =>
    obtain ⟨here, later⟩ := List.forall_mem_cons.mp full
    obtain ⟨least, single⟩ := ih later
    have some := List.length_pos_iff.mpr here
    rw [List.forall_mem_cons, single, List.flatMap_cons, List.length_append, List.length_cons]
    omega

/-- **The law for groups that all have a thread.** -/
theorem reaps_of_full (full : ∀ e ∈ threads.entries, e.2 ≠ []) : Reaps terminated threads ↔
    Single threads ∨ (visited threads).countP terminated < threads.entries.length := by
  obtain ⟨least, single⟩ := groups_length full
  have most := (visited threads).countP_le_length (p := terminated)
  change threads.entries.length ≤ (visited threads).length at least
  change Single threads ↔ (visited threads).length = threads.entries.length at single
  rw [single]
  constructor
  · intro reaps
    have safe := mt underflows_iff.mpr reaps.safe
    have zero := reaps.zero false false
    rw [count_reapCaptureThreads, countDown_eq (by omega), allTerminated_iff] at zero
    omega
  · intro holds
    have safe : (visited threads).countP terminated ≤ threads.entries.length := by omega
    have zero : countDown terminated (visited threads) threads.entries.length = 0 ↔
        AllTerminated terminated threads := by
      rw [countDown_eq safe, allTerminated_iff]
      omega
    refine ⟨fun under => ?_, fun shouldTerminate runWithoutSources => ?_, exits_iff.trans zero⟩
    · have := underflows_iff.mp under
      omega
    · rw [count_reapCaptureThreads]
      exact zero

end

/-! ## The threads that are created -/

/-- Every interface of the map has a thread. -/
theorem full_threadGroups {ifaces : NdInterfaces} {threads : CaptureThreads} {created : Nat}
    (full : ∀ e ∈ threads.entries, e.2 ≠ []) :
    ∀ e ∈ (threadGroups ifaces threads created).1.entries, e.2 ≠ [] := by
  unfold threadGroups
  induction ifaces.entries generalizing threads created with
  | nil => exact full
  | cons e rest ih =>
    obtain ⟨name, iface⟩ := e
    rw [List.foldl_cons]
    dsimp only
    split
    · exact ih full
    · rename_i some
      apply ih
      intro e member
      rcases OrderedMap.mem_put member with rfl | old
      · simpa [List.range'_eq_nil_iff] using some
      · exact full e old

/-- **The counter is right exactly where every interface has one thread, or fewer threads
have terminated than there are interfaces.** -/
theorem reaps_iff {throws : NdInterface → Bool} {ifaces : NdInterfaces} {threads : CaptureThreads}
    {before created : Nat}
    (built : createCaptureThreads throws ifaces ∅ before = ((threads, created), some true))
    (terminated : Nat → Bool) : Reaps terminated threads ↔
      Single threads ∨ (visited threads).countP terminated < threads.entries.length := by
  apply reaps_of_full
  unfold createCaptureThreads at built
  rw [if_neg (fun other => other rfl)] at built
  split at built
  · cases built
  · have same : threadGroups ifaces ∅ before = (threads, created) := (Prod.mk.inj built).1
    have all := @full_threadGroups ifaces ∅ before (by rintro e ⟨⟩)
    rw [same] at all
    exact all

/-! ## Two queues on one interface -/

/-- One netfilter queue interface with two threads. -/
def twoQueues : NdInterfaces := ⟨[("nfq0".toList,
  { ifname := "nfq0".toList
    ifnamePeer := "nfq0".toList
    captureType := CaptureType.nfq
    role := .lan
    configNfq := { instances := 2 } })], by simp⟩

/-- Its threads. -/
def twoThreads : CaptureThreads := ⟨[("nfq0".toList, [0, 1])], by simp⟩

theorem twoThreads_built :
    createCaptureThreads (fun _ => false) twoQueues ∅ 0 = ((twoThreads, 2), some true) := by
  decide

/-- The agent exits when one of two threads has terminated. -/
theorem half_terminated :
    createCaptureThreads (fun _ => false) twoQueues ∅ 0 = ((twoThreads, 2), some true) ∧
      ¬ Reaps (fun i => i = 0) twoThreads := by
  refine ⟨twoThreads_built, fun reaps => ?_⟩
  have all := reaps.exits.mp (by decide)
  exact absurd (all _ List.mem_cons_self 1 (by decide)) (by decide)

/-- While both run it counts one. -/
theorem none_terminated : Reaps (fun _ => false) twoThreads :=
  (reaps_iff twoThreads_built _).mpr (.inr (by decide))

end NetifyAgent.Reaping
