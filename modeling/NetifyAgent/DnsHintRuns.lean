import NetifyAgent.DnsHintCache
import NetifyAgent.Lib.Runs

/-! Runs of `ndDNSHintCache`. The cache is a function of its past: an address is
found as long as no purge came too late after its last use, under the name it
was given when it was last absent. -/
namespace NetifyAgent.DnsHintRuns
open NetifyAgent.Runs DnsHintCache RadixNetworks

/-! ## Runs -/

/-- A call of the cache. -/
inductive Call where
  | insert (addr : Addr) (hostname : List UInt8)
  | lookup (addr : Addr)
  | purge

/-- What a run remembers of its calls, by the bytes of the address: insertions,
lookups that found something and purges. -/
inductive Past where
  | inserted (now : Nat) (address hostname : List UInt8)
  | found (now : Nat) (address : List UInt8)
  | purged (now : Nat)
  deriving DecidableEq, Repr

/-- A cache, the time of its last call and its past, newest first. -/
structure Aged where
  cache : DnsHintCache := {}
  clock : Nat := 0
  past : List Past := []

/-- Makes a call at a time, which is not before the last call. -/
def step (s : Surroundings) (t : Aged) : Nat × Call → Option Aged
  | (now, call) =>
    if now < t.clock then none
    else match call with
      | .insert addr hostname =>
        some ⟨t.cache.insert s now addr hostname, now,
          if isHost addr ∧ s.classify addr = .atOther then
            .inserted now addr.getAddress hostname :: t.past
          else t.past⟩
      | .lookup addr =>
        let (cache, hostname) := t.cache.lookup s now addr
        some ⟨cache, now,
          if hostname.isSome then .found now addr.getAddress :: t.past else t.past⟩
      | .purge => some ⟨(t.cache.purge now).1, now, .purged now :: t.past⟩

/-! ## What a past says -/

/-- The time an address was last inserted or found. -/
def lastUse (address : List UInt8) : List Past → Option Nat
  | [] => none
  | .inserted now a _ :: past => if a = address then some now else lastUse address past
  | .found now a :: past => if a = address then some now else lastUse address past
  | .purged _ :: past => lastUse address past

/-- The address was inserted, and no purge came later than the time to live
after its last use. -/
def Present (ttl : Nat) (past : List Past) (address : List UInt8) : Prop :=
  ∃ used, lastUse address past = some used ∧ ∀ time, .purged time ∈ past → time ≤ used + ttl

/-- The name of the first insertion since the address was last absent. -/
def FirstName (ttl : Nat) (past : List Past) (address hostname : List UInt8) : Prop :=
  ∃ after now before, past = after ++ .inserted now address hostname :: before ∧
    ¬ Present ttl before address ∧
    ∀ since, since.IsSuffix after →
      Present ttl (since ++ .inserted now address hostname :: before) address

section
variable {ttl : Nat} {past : List Past} {address a hostname : List UInt8} {now : Nat} {e : Past}

theorem FirstName.cons (first : FirstName ttl past address hostname)
    (present : Present ttl (e :: past) address) : FirstName ttl (e :: past) address hostname := by
  obtain ⟨after, now, before, split, absent, held⟩ := first
  refine ⟨e :: after, now, before, by rw [split]; rfl, absent, fun since part => ?_⟩
  rcases List.suffix_cons_iff.mp part with rfl | part
  · rw [List.cons_append, ← split]
    exact present
  · exact held since part

theorem FirstName.new (absent : ¬ Present ttl past address)
    (present : Present ttl (.inserted now address hostname :: past) address) :
    FirstName ttl (.inserted now address hostname :: past) address hostname := by
  refine ⟨[], now, past, rfl, absent, fun since part => ?_⟩
  rw [List.suffix_nil.mp part]
  exact present

/-- An event that is no purge and concerns another address changes nothing. -/
theorem present_other (quiet : lastUse address (e :: past) = lastUse address past)
    (plain : ∀ time, e ≠ .purged time) :
    Present ttl (e :: past) address ↔ Present ttl past address := by
  unfold Present
  rw [quiet]
  constructor
  · rintro ⟨used, last, early⟩
    exact ⟨used, last, fun time here => early time (List.mem_cons_of_mem _ here)⟩
  · rintro ⟨used, last, early⟩
    refine ⟨used, last, fun time here => ?_⟩
    rcases List.mem_cons.mp here with same | here
    · exact absurd same.symm (plain time)
    · exact early time here

/-- An address that is used now is present if no purge is yet to come. -/
theorem present_used (used : lastUse address (e :: past) = some now)
    (plain : ∀ time, e ≠ .purged time) (early : ∀ time, .purged time ∈ past → time ≤ now) :
    Present ttl (e :: past) address := by
  refine ⟨now, used, fun time here => ?_⟩
  rcases List.mem_cons.mp here with same | here
  · exact absurd same.symm (plain time)
  · exact Nat.le_trans (early time here) (Nat.le_add_right _ _)

theorem present_purged : Present ttl (.purged now :: past) address ↔
    Present ttl past address ∧ ∀ used ∈ lastUse address past, now ≤ used + ttl := by
  constructor
  · rintro ⟨used, last, early⟩
    refine ⟨⟨used, last, fun time here => early time (List.mem_cons_of_mem _ here)⟩, ?_⟩
    intro used' last'
    cases (Option.mem_def.mp last').symm.trans last
    exact early now List.mem_cons_self
  · rintro ⟨⟨used, last, early⟩, late⟩
    refine ⟨used, last, fun time here => ?_⟩
    rcases List.mem_cons.mp here with same | here
    · cases same
      exact late used last
    · exact early time here

end

/-! ## The cache and its past -/

/-- SHA-1 tells addresses apart. -/
def CollisionFree (s : Surroundings) : Prop :=
  ∀ a b : Addr, Sized a → Sized b → isHost a = true → isHost b = true →
    s.sha1 a.getAddress = s.sha1 b.getAddress → a.getAddress = b.getAddress

instance (addr : Addr) : Decidable (Sized addr) := inferInstanceAs (Decidable (_ ∧ _))

/-- The address of a call has the width of its family. -/
def SizedCall (_ : Aged) (action : Nat × Call) : Prop :=
  match action.2 with
  | .insert addr _ => Sized addr
  | .lookup addr => Sized addr
  | .purge => True

instance : DecidableRel SizedCall
  | _, (_, .insert addr _) => inferInstanceAs (Decidable (Sized addr))
  | _, (_, .lookup addr) => inferInstanceAs (Decidable (Sized addr))
  | _, (_, .purge) => .isTrue trivial

/-- The cache holds exactly the addresses that are present, each with the
deadline of its last use and its first name. -/
structure Recorded (s : Surroundings) (t : Aged) : Prop where
  past : ∀ time, .purged time ∈ t.past → time ≤ t.clock
  absent : ∀ a, Sized a → isHost a = true → t.cache.mapAr.lookup (s.sha1 a.getAddress) = none →
    ¬ Present s.ttlDnsEntry t.past a.getAddress
  present : ∀ a ar, Sized a → isHost a = true →
    t.cache.mapAr.lookup (s.sha1 a.getAddress) = some ar →
    Present s.ttlDnsEntry t.past a.getAddress ∧
      (∀ used ∈ lastUse a.getAddress t.past, ar.deadline = used + s.ttlDnsEntry) ∧
      FirstName s.ttlDnsEntry t.past a.getAddress ar.hostname

theorem recorded_start (s : Surroundings) : Recorded s {} := by
  refine ⟨fun _ here => by simp at here, ?_, ?_⟩
  · rintro a _ _ _ ⟨used, last, _⟩
    cases last
  · intro a ar _ _ found
    simp at found

section
variable {s : Surroundings} {t t' : Aged} {now : Nat} {addr : Addr} {hostname : List UInt8}

/-- **A use.** An address that is inserted or found now is recorded with a new
deadline, under its old name if it has one. -/
theorem recorded_use (free : CollisionFree s) (recorded : Recorded s t) (sized : Sized addr)
    (host : isHost addr = true) (later : t.clock ≤ now) {e : Past} {c : DnsHintCache}
    {ar : DnsTuple} (plain : ∀ time, e ≠ .purged time)
    (mine : lastUse addr.getAddress (e :: t.past) = some now)
    (others : ∀ a, a ≠ addr.getAddress → lastUse a (e :: t.past) = lastUse a t.past)
    (became : ∀ k, c.mapAr.lookup k =
      if k = s.sha1 addr.getAddress then some ar else t.cache.mapAr.lookup k)
    (deadline : ar.deadline = now + s.ttlDnsEntry)
    (named : match t.cache.mapAr.lookup (s.sha1 addr.getAddress) with
      | none => e = .inserted now addr.getAddress ar.hostname
      | some old => ar.hostname = old.hostname) : Recorded s ⟨c, now, e :: t.past⟩ := by
  obtain ⟨past, absent, present⟩ := recorded
  have early : ∀ time, .purged time ∈ t.past → time ≤ now := fun time here =>
    Nat.le_trans (past time here) later
  have here : Present s.ttlDnsEntry (e :: t.past) addr.getAddress :=
    present_used mine plain early
  have apart : ∀ a : Addr, s.sha1 a.getAddress ≠ s.sha1 addr.getAddress →
      lastUse a.getAddress (e :: t.past) = lastUse a.getAddress t.past :=
    fun a differ => others _ fun same => differ (by rw [same])
  refine ⟨?_, ?_, ?_⟩
  · intro time mem
    rcases List.mem_cons.mp mem with same | mem
    · exact absurd same.symm (plain time)
    · exact early time mem
  · intro a wide ip none
    rw [became] at none
    split at none
    · cases none
    · rename_i differ
      rw [present_other (apart a differ) plain]
      exact absent a wide ip none
  · intro a found_ar wide ip found
    rw [became] at found
    split at found
    · rename_i same
      cases found
      rw [free a addr wide sized ip host same, mine]
      refine ⟨here, fun used last => ?_, ?_⟩
      · cases Option.mem_def.mp last
        exact deadline
      · cases old : t.cache.mapAr.lookup (s.sha1 addr.getAddress) with
        | none =>
          rw [old] at named
          subst named
          exact FirstName.new (absent addr sized host old) here
        | some before =>
          rw [old] at named
          rw [named]
          exact (present addr before sized host old).2.2.cons here
    · rename_i differ
      obtain ⟨still, kept, first⟩ := present a found_ar wide ip found
      have now_still := (present_other (apart a differ) plain).mpr still
      rw [apart a differ]
      exact ⟨now_still, kept, first.cons now_still⟩

/-- A call that uses nothing only moves the clock. -/
theorem recorded_idle (recorded : Recorded s t) (later : t.clock ≤ now) :
    Recorded s ⟨t.cache, now, t.past⟩ :=
  ⟨fun time here => Nat.le_trans (recorded.past time here) later, recorded.absent,
    recorded.present⟩

theorem recorded_insert (free : CollisionFree s) (recorded : Recorded s t) (sized : Sized addr)
    (taken : step s t (now, .insert addr hostname) = some t') : Recorded s t' := by
  simp only [step] at taken
  split at taken
  · cases taken
  · rename_i later
    cases taken
    by_cases accepted : isHost addr = true ∧ s.classify addr = .atOther
    · rw [if_pos accepted]
      refine recorded_use free recorded sized accepted.1 (Nat.le_of_not_lt later) (by simp)
        (if_pos rfl) (fun a differ => if_neg differ.symm)
        (fun k => lookup_insert accepted.1 accepted.2) ?_ ?_
      · unfold refreshed
        split <;> rfl
      · cases t.cache.mapAr.lookup (s.sha1 addr.getAddress) <;> rfl
    · have same : t.cache.insert s now addr hostname = t.cache := by
        unfold DnsHintCache.insert
        split
        · rfl
        · rename_i host
          rw [if_pos fun other => accepted ⟨by simpa using host, other⟩]
      rw [if_neg accepted, same]
      exact recorded_idle recorded (Nat.le_of_not_lt later)

theorem recorded_lookup (free : CollisionFree s) (recorded : Recorded s t) (sized : Sized addr)
    (taken : step s t (now, .lookup addr) = some t') : Recorded s t' := by
  simp only [step] at taken
  split at taken
  · cases taken
  · rename_i later
    cases taken
    have idle := recorded_idle recorded (Nat.le_of_not_lt later)
    unfold DnsHintCache.lookup
    by_cases host : isHost addr = true
    · rw [if_neg (by simp [host])]
      cases found : t.cache.mapAr.lookup (s.sha1 addr.getAddress) with
      | none =>
        simp only [lookupDigest, found]
        exact idle
      | some old =>
        have result : (t.cache.lookupDigest s now (s.sha1 addr.getAddress)).2 =
            some old.hostname := by simp only [lookupDigest, found]
        simp only [result, Option.isSome_some, if_true]
        refine recorded_use free recorded sized host (Nat.le_of_not_lt later) (by simp)
          (if_pos rfl) (fun a differ => if_neg differ.symm)
          (fun k => lookup_lookupDigest found) rfl ?_
        rw [found]
    · rw [if_pos (by simpa using host)]
      exact idle

theorem recorded_purge (recorded : Recorded s t) (taken : step s t (now, .purge) = some t') :
    Recorded s t' := by
  obtain ⟨past, absent, present⟩ := recorded
  simp only [step] at taken
  split at taken
  · cases taken
  · rename_i later
    cases taken
    refine ⟨?_, ?_, ?_⟩
    · intro time mem
      rcases List.mem_cons.mp mem with same | mem
      · cases same
        exact Nat.le_refl _
      · exact Nat.le_trans (past time mem) (Nat.le_of_not_lt later)
    · intro a wide ip none still
      obtain ⟨before, late⟩ := present_purged.mp still
      rw [lookup_purge] at none
      cases found : t.cache.mapAr.lookup (s.sha1 a.getAddress) with
      | none => exact absent a wide ip found before
      | some ar =>
        obtain ⟨⟨used, last, _⟩, deadline, _⟩ := present a ar wide ip found
        rw [found] at none
        have expired : ar.deadline < now := by simpa using none
        have := late used last
        have := deadline used last
        omega
    · intro a ar wide ip found
      rw [lookup_purge, Option.filter_eq_some_iff] at found
      obtain ⟨found, alive⟩ := found
      obtain ⟨before, deadline, first⟩ := present a ar wide ip found
      have alive : ¬ ar.deadline < now := by simpa using alive
      have still : Present s.ttlDnsEntry (.purged now :: t.past) a.getAddress := by
        refine present_purged.mpr ⟨before, fun used last => ?_⟩
        have := deadline used last
        omega
      exact ⟨still, deadline, first.cons still⟩

theorem recorded_reached (free : CollisionFree s) (reached : Reaches (step s) SizedCall {} t) :
    Recorded s t := by
  refine reached.invariant (recorded_start s) fun u action v recorded taken sized => ?_
  obtain ⟨now, call⟩ := action
  cases call with
  | insert addr hostname => exact recorded_insert free recorded sized taken
  | lookup addr => exact recorded_lookup free recorded sized taken
  | purge => exact recorded_purge recorded taken

/-- **What a lookup finds after any run.** It succeeds exactly for an address
that is present, with the name of its first insertion since it was absent. -/
theorem lookup_iff (free : CollisionFree s) (reached : Reaches (step s) SizedCall {} t)
    (addr : Addr) (sized : Sized addr) (now : Nat) :
    ((t.cache.lookup s now addr).2.isSome = true ↔
      isHost addr = true ∧ Present s.ttlDnsEntry t.past addr.getAddress) ∧
    ∀ hostname, (t.cache.lookup s now addr).2 = some hostname →
      FirstName s.ttlDnsEntry t.past addr.getAddress hostname := by
  obtain ⟨_, absent, present⟩ := recorded_reached free reached
  unfold DnsHintCache.lookup
  by_cases host : isHost addr = true
  · rw [if_neg (by simp [host])]
    unfold lookupDigest
    cases found : t.cache.mapAr.lookup (s.sha1 addr.getAddress) with
    | none =>
      refine ⟨?_, fun _ none => by cases none⟩
      simpa [host] using absent addr sized host found
    | some ar =>
      obtain ⟨here, _, first⟩ := present addr ar sized host found
      refine ⟨by simpa [host] using here, fun name named => ?_⟩
      cases named
      exact first
  · rw [if_pos (by simpa using host)]
    refine ⟨by simp [host], fun _ none => by cases none⟩

end

/-! ## A run with one address -/

/-- 8.8.8.8. -/
def resolver : Addr := Addr.createIn {} [8, 8, 8, 8]

/-- The digest of the address of `resolver`, and a padding of every other. -/
def paddedSha1 (bytes : List UInt8) : List UInt8 :=
  if bytes = [8, 8, 8, 8] then
    [43, 142, 161, 227, 39, 61, 4, 98, 128, 203, 197, 242, 76, 155, 97, 95, 189, 237, 148, 79]
  else bytes ++ UInt8.ofNat bytes.length :: List.replicate (19 - bytes.length) 0

def sampled : Surroundings := ⟨paddedSha1, fun _ => .atOther, 30⟩

theorem width_of_host {a : Addr} (sized : Sized a) (host : isHost a = true) :
    a.getAddress.length = 4 ∨ a.getAddress.length = 16 := by
  unfold isHost Addr.isIP at host
  unfold Addr.getAddress
  cases family : a.family with
  | inet => exact .inl (sized.1 family)
  | inet6 => exact .inr (sized.2 family)
  | unspec => simp [family] at host
  | packet => simp [family] at host

theorem collisionFree_sampled : CollisionFree sampled := by
  have ends : ∀ bytes : List UInt8, bytes.length = 4 ∨ bytes.length = 16 →
      bytes ≠ [8, 8, 8, 8] → (paddedSha1 bytes)[19]? = some 0 := by
    intro bytes width other
    unfold paddedSha1
    rw [if_neg other, List.getElem?_append_right (by omega)]
    rcases width with width | width
    · rw [width]
      rfl
    · rw [width]
      rfl
  have middle : ∀ bytes : List UInt8, bytes.length = 4 ∨ bytes.length = 16 →
      bytes ≠ [8, 8, 8, 8] → (paddedSha1 bytes)[16]? =
        some (if bytes.length = 4 then 0 else 16) := by
    intro bytes width other
    unfold paddedSha1
    rw [if_neg other, List.getElem?_append_right (by omega)]
    rcases width with width | width
    · rw [width]
      rfl
    · rw [width]
      rfl
  intro a b wide wide' host host' same
  have width := width_of_host wide host
  have width' := width_of_host wide' host'
  change paddedSha1 a.getAddress = paddedSha1 b.getAddress at same
  by_cases first : a.getAddress = [8, 8, 8, 8]
  · by_contra differ
    have other : b.getAddress ≠ [8, 8, 8, 8] := fun second => differ (first.trans second.symm)
    have last := ends _ width' other
    rw [← same, first] at last
    cases last
  · by_cases second : b.getAddress = [8, 8, 8, 8]
    · have last := ends _ width first
      rw [same, second] at last
      cases last
    · have at_ := (middle _ width first).symm.trans (same ▸ middle _ width' second)
      have lengths : a.getAddress.length = b.getAddress.length := by
        rcases width with width | width <;> rcases width' with width' | width' <;>
          simp [width, width'] at at_ ⊢
      unfold paddedSha1 at same
      rw [if_neg first, if_neg second] at same
      exact (List.append_inj same lengths).1

theorem lookup_resolver : ∃ t, Reaches (step sampled) SizedCall {} t ∧
    t.past = [.purged 12, .inserted 10 [8, 8, 8, 8] [100]] ∧
    ((t.cache.lookup sampled 13 resolver).2.isSome = true ↔
      isHost resolver = true ∧ Present sampled.ttlDnsEntry t.past resolver.getAddress) ∧
    ∀ hostname, (t.cache.lookup sampled 13 resolver).2 = some hostname →
      FirstName sampled.ttlDnsEntry t.past resolver.getAddress hostname := by
  have found : (exec (step sampled) SizedCall {}
      [(10, .insert resolver [100]), (12, .purge)]).any
      (fun t => t.past = [.purged 12, .inserted 10 [8, 8, 8, 8] [100]]) = true := by
    decide +kernel
  obtain ⟨t, reached, past⟩ := reached_of_exec found
  exact ⟨t, reached, of_decide_eq_true past,
    lookup_iff collisionFree_sampled reached resolver (by decide) 13⟩

end NetifyAgent.DnsHintRuns
