import NetifyAgent.DetectionStanding
import NetifyAgent.FlowHashRuns

/-! What `ProcessFlow` makes of the flow hash cache. Both comparisons of digests
have the wrong sense: a digest is stored only if it is the key it is stored
under, and a digest is restored only onto itself. -/
namespace NetifyAgent.FlowHashFlows
open NetifyAgent.Bytes NetifyAgent.Overlay NetifyAgent.Recency NetifyAgent.Runs
open FlowHashCache FlowHashRuns ProcessFlow

/-- The services of a detection thread with a flow hash cache. -/
def withCache (s : Services) (c : FlowHashCache) : Services :=
  { s with fhc := some fun digest => (c.pop digest).bind Prod.snd }

/-- The push an event stands for. -/
def pushOf : Event → Option Call
  | .fhcPush lower mdata => some (.push lower mdata)
  | _ => none

/-- Both ports are known. -/
def PortsSet (flow : Flow) : Prop :=
  flow.lowerAddr.getPortRaw ≠ 0 ∧ flow.upperAddr.getPortRaw ≠ 0

instance (flow : Flow) : Decidable (PortsSet flow) := inferInstanceAs (Decidable (_ ∧ _))

/-- The calls `ProcessFlow` makes on the cache: it looks for the flow's digest,
and pushes what it logs. -/
def cacheCalls (flow : Flow) (events : List Event) : List Call :=
  if PortsSet flow then .pop flow.digestLower :: events.filterMap pushOf else []

/-- `ProcessFlow` with a flow hash cache: the flow and the cache it leaves. -/
def processFlowWith (divisor : Nat) (s : Services) (t : Used) (d : Det) :
    Except Entered (Det × Option Used) := do
  let d' ← processFlow (withCache s t.cache) d
  return (d', (cacheCalls d.flow (d'.log.drop d.log.length)).foldlM (step divisor) t)

/-- The part of `ProcessFlow` before the hashing. -/
def beforeHash (s : Services) (d : Det) : Det :=
  metadata s (byNetwork s (byName s Flow.dnsHostName (byName s Flow.hostServerName
    (twin s (hostServerName (dnsHint s (classify s d)))))))

/-- The digests, the ports and the pushes. -/
def view (d : Det) : List UInt8 × List UInt8 × Addr × Addr × List Call :=
  (d.flow.digestLower, d.flow.digestMdata, d.flow.lowerAddr, d.flow.upperAddr,
    d.log.filterMap pushOf)

section
variable {s : Services} {d : Det}

theorem pushes_outward (log : List Event) :
    (log.filter Event.outward).filterMap pushOf = log.filterMap pushOf := by
  rw [List.filterMap_filter]
  apply List.filterMap_congr
  intro e _
  cases e <;> rfl

/-- What leaves the standing fields alone leaves the digests and the pushes alone. -/
theorem view_of_standing {e : Det} (same : e.standing = d.standing) : view e = view d := by
  obtain ⟨flow, log⟩ := Prod.mk.inj same
  have digests := congrArg Standing.digests flow
  have addrs := congrArg Standing.addrs flow
  simp only [Flow.standing, Prod.mk.injEq] at digests addrs
  simp only [view, digests, addrs, ← pushes_outward e.log, ← pushes_outward d.log, log]

theorem view_beforeHash : view (beforeHash s d) = view d := view_of_standing stands_hashed

/-- **What `ProcessFlow` makes of the digest and the log** is decided where it
hashes. -/
theorem processFlow_hashes {d' : Det} (done : processFlow s d = .ok d') :
    d'.flow.digestMdata = (hashes s (beforeHash s d)).flow.digestMdata ∧
      d'.log.filterMap pushOf = (hashes s (beforeHash s d)).log.filterMap pushOf := by
  unfold processFlow enter at done
  split at done
  · cases done
    have same : view (finish s (categories s (endpoints s (hashes s (beforeHash s d))))) =
        view (hashes s (beforeHash s d)) :=
      view_of_standing (stands_finish.trans (stands_categories.trans stands_endpoints))
    exact ⟨(congrArg (fun v => v.2.1) same :), (congrArg (fun v => v.2.2.2.2) same :)⟩
  · cases done

/-! ## One call -/

/-- The digest of the metadata as it is freshly computed. -/
def freshDigest (s : Services) (d : Det) : List UInt8 := s.hashMdata (beforeHash s d).flow

theorem freshDigest_withCache (c : FlowHashCache) :
    freshDigest (withCache s c) d = freshDigest s d := rfl

/-- **What one call does.** A digest that is found changes nothing, one that is
computed is pushed only if it is the flow's own. -/
theorem processFlow_cases {t : Used} {d' : Det} (coherent : Coherent t.cache)
    (ports : PortsSet d.flow) (done : processFlow (withCache s t.cache) d = .ok d') :
    ∃ events, d'.log = d.log ++ events ∧
      match fetch t.cache.entries d.flow.digestLower with
      | some _ => d'.flow.digestMdata = d.flow.digestMdata ∧ events.filterMap pushOf = []
      | none => d'.flow.digestMdata = freshDigest s d ∧
          events.filterMap pushOf = if d.flow.digestLower = freshDigest s d then
            [.push d.flow.digestLower (freshDigest s d)] else [] := by
  obtain ⟨events, logged⟩ : ∃ events, d'.log = d.log ++ events := by
    have alive : d.flow.ndpiFlow.isSome = true := by
      by_contra null
      unfold processFlow at done
      rw [enter_of_null _ (by simpa using null)] at done
      cases done
    obtain ⟨d'', ran, traced⟩ := runs_processFlow (withCache s t.cache) d alive
    cases ran.symm.trans done
    obtain ⟨events, logged, _⟩ := traced.logged
    exact ⟨events, logged⟩
  obtain ⟨mdata, pushes⟩ := processFlow_hashes done
  generalize before : beforeHash (withCache s t.cache) d = e at mdata pushes
  have same : view e = view d := before ▸ view_beforeHash
  have fresh : freshDigest s d = s.hashMdata e.flow := by
    rw [← freshDigest_withCache t.cache, ← before]
    rfl
  simp only [view, Prod.mk.injEq] at same
  obtain ⟨lower, old, below, above, quiet⟩ := same
  obtain ⟨c', found, _⟩ := pop_spec coherent d.flow.digestLower
  refine ⟨events, logged, ?_⟩
  rw [logged, List.filterMap_append] at pushes
  have set : e.flow.lowerAddr.getPortRaw ≠ 0 ∧ e.flow.upperAddr.getPortRaw ≠ 0 := by
    rw [below, above]
    exact ports
  unfold hashes withCache at mdata pushes
  simp only [if_pos set, lower, found, Option.bind_some] at mdata pushes
  cases cached : fetch t.cache.entries d.flow.digestLower with
  | some value =>
    simp only [cached] at mdata pushes ⊢
    have kept : ∀ x : Det, x = (if e.flow.digestMdata = value then
        e.edit fun flow => { flow with flags := { flow.flags with fhcHit := true } } else e) →
        x.flow.digestMdata = e.flow.digestMdata ∧ x.log = e.log := by
      rintro x rfl
      split <;> exact ⟨rfl, rfl⟩
    obtain ⟨keptMdata, keptLog⟩ := kept _ rfl
    rw [keptMdata, old] at mdata
    rw [keptLog, quiet] at pushes
    exact ⟨mdata, List.append_right_eq_self.mp pushes⟩
  | none =>
    simp only [cached, Det.edit_flow, lower] at mdata pushes ⊢
    rw [fresh]
    split at pushes
    · rename_i own
      rw [if_pos own] at mdata ⊢
      refine ⟨mdata, ?_⟩
      simp only [Det.note_log, Det.edit_log, List.filterMap_append, quiet] at pushes
      exact List.append_cancel_left pushes
    · rename_i other
      rw [if_neg other] at mdata ⊢
      refine ⟨mdata, ?_⟩
      simp only [Det.edit_log, quiet] at pushes
      exact List.append_right_eq_self.mp pushes

end

/-! ## Digests that are remembered -/

/-- What is asked of a call: a cached digest is restored, a fresh one that is not
the flow's own is stored. -/
def Remembers (s : Services) (t : Used) (d d' : Det) (t' : Used) : Prop :=
  match fetch t.cache.entries d.flow.digestLower with
  | some cached => d'.flow.digestMdata = cached
  | none => d'.flow.digestMdata = freshDigest s d ∧
      (freshDigest s d ≠ d.flow.digestLower →
        fetch t'.cache.entries d.flow.digestLower = some (freshDigest s d))

/-- The flow has the cached digest already, or its fresh digest is its own. -/
def Matching (s : Services) (t : Used) (d : Det) : Prop :=
  match fetch t.cache.entries d.flow.digestLower with
  | some cached => d.flow.digestMdata = cached
  | none => freshDigest s d = d.flow.digestLower

instance (s : Services) (t : Used) (d : Det) : Decidable (Matching s t d) := by
  unfold Matching
  split <;> infer_instance

section
variable {s : Services} {d d' : Det} {t t' : Used} {cacheSize divisor : Nat}

theorem kept_reached {ok : Used → Call → Prop} (positive : 0 < divisor)
    (reached : Reaches (step divisor) ok (start cacheSize) t) : FlowHashRuns.Kept cacheSize t :=
  reached.invariant (kept_start cacheSize) fun _ _ _ kept taken _ => kept_step kept positive taken

theorem nodup_keys {c : FlowHashCache} (coherent : Coherent c) :
    (Recency.keys c.entries).Nodup := by
  rw [entries_keys]
  exact coherent.keys

/-- A call whose flow matches leaves its digest in the cache. -/
theorem matching_stored (positive : 0 < divisor) (coherent : Coherent t.cache)
    (ports : PortsSet d.flow) (matching : Matching s t d)
    (done : processFlow (withCache s t.cache) d = .ok d')
    (left : (cacheCalls d.flow (d'.log.drop d.log.length)).foldlM (step divisor) t = some t') :
    fetch t'.cache.entries d.flow.digestLower = some d'.flow.digestMdata := by
  obtain ⟨events, logged, what⟩ := processFlow_cases coherent ports done
  rw [logged, List.drop_left, cacheCalls, if_pos ports, List.foldlM_cons] at left
  obtain ⟨u, popped, after, _, touched⟩ :=
    step_spec (t := t) coherent positive (.pop d.flow.digestLower)
  rw [popped] at left
  have same : fetch (touch t.cache.entries d.flow.digestLower) d.flow.digestLower =
      fetch t.cache.entries d.flow.digestLower := fetch_touch
  unfold Matching at matching
  cases found : fetch t.cache.entries d.flow.digestLower with
  | some cached =>
    simp only [found] at what matching same
    rw [what.2] at left
    cases left
    rw [touched.2, same, what.1, matching]
  | none =>
    simp only [found] at what matching same
    rw [what.2, if_pos matching.symm] at left
    obtain ⟨v, pushed, _, _, stored⟩ :=
      step_spec (t := u) after positive (.push d.flow.digestLower (freshDigest s d))
    simp only [Option.bind_eq_bind, Option.bind_some, List.foldlM_cons, pushed] at left
    cases left
    rw [stored.2, what.1]
    unfold Recency.push
    rw [touched.2, if_neg (fetch_eq_none.mp same)]
    simp [fetch]

/-- The value of a key stays while the key does. -/
theorem fetch_stays {k v : List UInt8} (positive : 0 < divisor) (coherent : Coherent t.cache)
    (found : fetch t.cache.entries k = some v)
    (reached : Reaches (step divisor) (fun s _ => k ∈ Recency.keys s.cache.entries) t t')
    (last : k ∈ Recency.keys t'.cache.entries) :
    Coherent t'.cache ∧ fetch t'.cache.entries k = some v := by
  have stays : Coherent t'.cache ∧
      (k ∈ Recency.keys t'.cache.entries → fetch t'.cache.entries k = some v) := by
    refine reached.invariant (I := fun s => Coherent s.cache ∧
      (k ∈ Recency.keys s.cache.entries → fetch s.cache.entries k = some v))
      ⟨coherent, fun _ => found⟩ ?_
    rintro s call u ⟨coherent, value⟩ taken here
    obtain ⟨next, done, after, _, what⟩ := step_spec (t := s) coherent positive call
    cases done.symm.trans taken
    refine ⟨after, fun still => ?_⟩
    cases call with
    | push l w =>
      rw [what.2] at still ⊢
      exact fetch_push (nodup_keys coherent) still (value here)
    | pop l =>
      rw [what.2, fetch_touch]
      exact value here
  exact ⟨stays.1, stays.2 last⟩

theorem calls_done (positive : 0 < divisor) (coherent : Coherent t.cache) (calls : List Call) :
    ∃ t', calls.foldlM (step divisor) t = some t' ∧ Coherent t'.cache := by
  induction calls generalizing t with
  | nil => exact ⟨t, rfl, coherent⟩
  | cons call rest ih =>
    obtain ⟨u, done, after, _⟩ := step_spec (t := t) coherent positive call
    obtain ⟨t', others, last⟩ := ih after
    refine ⟨t', ?_, last⟩
    rw [List.foldlM_cons, done]
    exact others

/-- A call of `ProcessFlow` that returns, in two steps. -/
theorem processFlowWith_ok {after : Option Used}
    (done : processFlowWith divisor s t d = .ok (d', after)) :
    processFlow (withCache s t.cache) d = .ok d' ∧
      after = (cacheCalls d.flow (d'.log.drop d.log.length)).foldlM (step divisor) t := by
  unfold processFlowWith at done
  cases ran : processFlow (withCache s t.cache) d with
  | error entered =>
    rw [ran] at done
    cases done
  | ok e =>
    rw [ran] at done
    cases done
    exact ⟨rfl, rfl⟩

/-- A call remembers exactly what matches. -/
theorem remembers_matching (positive : 0 < divisor) (coherent : Coherent t.cache)
    (ports : PortsSet d.flow) (done : processFlow (withCache s t.cache) d = .ok d')
    (left : (cacheCalls d.flow (d'.log.drop d.log.length)).foldlM (step divisor) t = some t') :
    Remembers s t d d' t' ↔ Matching s t d := by
  obtain ⟨events, logged, what⟩ := processFlow_cases coherent ports done
  unfold Remembers Matching
  cases found : fetch t.cache.entries d.flow.digestLower with
  | some cached =>
    simp only [found] at what ⊢
    rw [what.1]
  | none =>
    simp only [found] at what ⊢
    constructor
    · rintro ⟨_, kept⟩
      by_contra other
      have value := kept other
      rw [logged, List.drop_left, cacheCalls, if_pos ports, what.2,
        if_neg fun own => other own.symm] at left
      obtain ⟨u, popped, _, _, touched⟩ :=
        step_spec (t := t) coherent positive (.pop d.flow.digestLower)
      rw [List.foldlM_cons, popped] at left
      cases left
      rw [touched.2, fetch_touch, found] at value
      cases value
    · intro own
      exact ⟨what.1, fun other => absurd own other⟩

/-- **A digest is remembered exactly when the flow has it already or it is the
flow's own.** While the entry stays, another flow with its digest that matches
gets the same. -/
theorem remembers_iff (positive : 1 ≤ divisor)
    (reached : Reaches (step divisor) Always (start cacheSize) t) {after : Option Used}
    (done : processFlowWith divisor s t d = .ok (d', after)) (ports : PortsSet d.flow) :
    ∃ t', after = some t' ∧ (Remembers s t d d' t' ↔ Matching s t d) ∧
      (Matching s t d → ∀ s₂ t₂ d₂ d₂' after₂,
        Reaches (step divisor) (fun u _ => d.flow.digestLower ∈ Recency.keys u.cache.entries)
          t' t₂ →
        d.flow.digestLower ∈ Recency.keys t₂.cache.entries →
        processFlowWith divisor s₂ t₂ d₂ = .ok (d₂', after₂) → PortsSet d₂.flow →
        d₂.flow.digestLower = d.flow.digestLower → Matching s₂ t₂ d₂ →
        d₂'.flow.digestMdata = d'.flow.digestMdata) := by
  have coherent := (kept_reached positive reached).coherent
  obtain ⟨ran, calls⟩ := processFlowWith_ok done
  obtain ⟨t', left, coherent'⟩ := calls_done positive coherent
    (cacheCalls d.flow (d'.log.drop d.log.length))
  refine ⟨t', calls.trans left, remembers_matching positive coherent ports ran left, ?_⟩
  intro matching s₂ t₂ d₂ d₂' after₂ between last done₂ ports₂ same matching₂
  have stored := matching_stored positive coherent ports matching ran left
  obtain ⟨coherent₂, value⟩ := fetch_stays positive coherent' stored between last
  obtain ⟨ran₂, _⟩ := processFlowWith_ok done₂
  obtain ⟨_, _, what⟩ := processFlow_cases coherent₂ ports₂ ran₂
  unfold Matching at matching₂
  rw [same, value] at what matching₂
  exact what.1.trans matching₂

end

theorem exists_of_isOk {ε α : Type} {x : Except ε α} (ok : x.isOk = true) : ∃ a, x = .ok a := by
  cases x with
  | error => cases ok
  | ok a => exact ⟨a, rfl⟩

/-- A flow between two ports, with an nDPI flow. -/
def portedFlow (digestMdata : List UInt8) : Flow where
  ipVersion := 4
  ipProtocol := 6
  lowerAddr := { family := .inet, port := 80 }
  upperAddr := { family := .inet, port := 443 }
  digestLower := List.replicate 20 1
  digestMdata := digestMdata
  ndpiFlow := some {}

/-- A flow that has the digest the cache holds. -/
theorem remembers_own : ∃ (d' : Det) (after : Option Used) (t t' : Used),
    Reaches (step 2) Always (start 2) t ∧
      processFlowWith 2 .bare t ⟨portedFlow (List.replicate 20 7), []⟩ = .ok (d', after) ∧
      after = some t' ∧
      (Remembers .bare t ⟨portedFlow (List.replicate 20 7), []⟩ d' t' ↔
        Matching .bare t ⟨portedFlow (List.replicate 20 7), []⟩) := by
  have found : (exec (step 2) Always (start 2)
      [.push (List.replicate 20 1) (List.replicate 20 7)]).any (fun t =>
        (processFlowWith 2 .bare t ⟨portedFlow (List.replicate 20 7), []⟩).isOk) = true := by
    decide +kernel
  obtain ⟨t, reached, ran⟩ := reached_of_exec found
  obtain ⟨⟨d', after⟩, done⟩ := exists_of_isOk ran
  obtain ⟨t', left, same, _⟩ := remembers_iff (by decide) reached done (by decide)
  exact ⟨d', after, t, t', reached, done, left, same⟩

/-- The fresh digest of a flow is not stored, and when it changes the next flow
with the same addresses gets another one. -/
theorem not_remembered : ∃ (s : Services) (d d' : Det) (t' : Used),
    PortsSet d.flow ∧ processFlowWith 2 s (start 2) d = .ok (d', some t') ∧
      ¬ Remembers s (start 2) d d' t' := by
  let s : Services := { Services.bare with hashMdata := fun _ => List.replicate 20 7 }
  let d : Det := ⟨portedFlow (List.replicate 20 0), []⟩
  have found : ((processFlowWith 2 s (start 2) d).toOption.any fun r => r.2.any fun t' =>
      decide (fetch t'.cache.entries d.flow.digestLower = none)) = true := by decide +kernel
  cases done : processFlowWith 2 s (start 2) d with
  | error e =>
    rw [done] at found
    cases found
  | ok r =>
    obtain ⟨d', used⟩ := r
    rw [done] at found
    cases used with
    | none => cases found
    | some t' =>
      refine ⟨s, d, d', t', by decide, done, ?_⟩
      rintro ⟨_, kept⟩
      have stored := kept (by decide)
      rw [of_decide_eq_true found] at stored
      cases stored

end NetifyAgent.FlowHashFlows
