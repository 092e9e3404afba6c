import NetifyAgent.Conntrack
import NetifyAgent.Lib.Index
import NetifyAgent.Lib.Runs

/-! The two tables of the conntrack thread lead back to each other as long as no
event names a connection that the tables know otherwise. A digest that comes
back under another id, an id that comes back with another tuple, and an update
onto a digest that is taken each leave them torn. -/
namespace NetifyAgent.ConntrackTables
open NetifyAgent.Runs NetifyAgent.Index ConntrackFlow ConntrackThread

section
variable {sha1 : List UInt8 → List UInt8} {now : Nat} {raw : Raw} {ct : NfConntrack}

/-! ## What an update does to one object -/

/-- An update never changes the id, and the digest only if it goes through. -/
theorem update_spec {f g : ConntrackFlow} {thrown : Option String}
    (updated : f.update sha1 now ct = (g, thrown)) :
    g.id = f.id ∧ (thrown = none → g.digest = sha1 g.hashStream) ∧
      (thrown ≠ none → g.digest = f.digest ∧ g.replAddrValid = ⟨false, false⟩) := by
  unfold ConntrackFlow.update at updated
  simp only at updated
  split at updated
  · cases updated
    exact ⟨rfl, by simp, fun _ => ⟨rfl, rfl⟩⟩
  · split at updated
    · cases updated
      exact ⟨rfl, by simp, fun _ => ⟨rfl, rfl⟩⟩
    · split at updated
      · cases updated
        exact ⟨rfl, by simp, fun _ => ⟨rfl, rfl⟩⟩
      · split at updated
        · cases updated
          exact ⟨rfl, by simp, fun _ => ⟨rfl, rfl⟩⟩
        · cases updated
          exact ⟨rfl, fun _ => rfl, fun raised => absurd rfl raised⟩

theorem construct_id {f : ConntrackFlow} {thrown : Option String}
    (made : construct sha1 now raw ct = (f, thrown)) : f.id = ct.id.getD 0 :=
  (update_spec made).1

end

/-! ## Coherence -/

/-- The tables lead back to each other, every object is stored under its own
digest, and none is out of reach. -/
structure Coherent (t : ConntrackThread) : Prop where
  tables : Index.Coherent ConntrackFlow.id t.ctIdMap t.ctFlowMap
  digests : ∀ digest f, t.ctFlowMap.lookup digest = some f → f.digest = digest
  reachable : t.leaked = []

theorem coherent_start : Coherent {} := ⟨coherent_empty, fun _ _ found => by simp at found, rfl⟩

/-- The event does not name a connection that the tables know otherwise: a new
connection has an id without another digest and a digest without another id, and
an update that moves an object moves it to a free digest. -/
def Separate (sha1 : List UInt8 → List UInt8) (t : ConntrackThread) : ConntrackAction → Prop
  | .event now raw .new ct =>
    match construct sha1 now raw ct with
    | (_, some _) => True
    | (ctFlow, none) =>
      (∀ digest ∈ t.ctIdMap.lookup (ct.id.getD 0), digest = ctFlow.digest) ∧
        ∀ f ∈ t.ctFlowMap.lookup ctFlow.digest, f.id = ct.id.getD 0
  | .event now _ .update ct =>
    ∀ digest ∈ t.ctIdMap.lookup (ct.id.getD 0), ∀ old ∈ t.ctFlowMap.lookup digest,
      match old.update sha1 now ct with
      | (_, some _) => True
      | (ctFlow, none) => ctFlow.digest = digest ∨ t.ctFlowMap.lookup ctFlow.digest = none
  | _ => True

instance (sha1 : List UInt8 → List UInt8) : DecidableRel (Separate sha1) := by
  intro t action
  unfold Separate
  split
  · split <;> infer_instance
  · refine @Option.decidableForallMem _ _ (fun digest => ?_) _
    refine @Option.decidableForallMem _ _ (fun old => ?_) _
    split <;> infer_instance
  · infer_instance

section
variable {sha1 : List UInt8 → List UInt8} {t u : ConntrackThread}

theorem digests_insert {flows : CtFlowMap} {f : ConntrackFlow}
    (digests : ∀ digest f, flows.lookup digest = some f → f.digest = digest) {digest : List UInt8}
    (own : f.digest = digest) {d : List UInt8} {g : ConntrackFlow}
    (found : (flows.insert digest f).lookup d = some g) : g.digest = d := by
  rcases lookup_insert_cases.mp found with ⟨rfl, rfl⟩ | ⟨_, old⟩
  · exact own
  · exact digests d g old

theorem digests_erase {flows : CtFlowMap}
    (digests : ∀ digest f, flows.lookup digest = some f → f.digest = digest) {digest : List UInt8}
    {d : List UInt8} {g : ConntrackFlow} (found : (flows.erase digest).lookup d = some g) :
    g.digest = d :=
  digests d g (lookup_erase_cases.mp found).2

/-- The lock is no part of the tables. -/
theorem coherent_locked (locked : Bool) : Coherent { t with locked } ↔ Coherent t :=
  ⟨fun c => ⟨c.tables, c.digests, c.reachable⟩, fun c => ⟨c.tables, c.digests, c.reachable⟩⟩

theorem coherent_new (coherent : Coherent t) (now : Nat) (raw : Raw) (ct : NfConntrack) :
    Coherent (t.processNew sha1 now raw ct) ↔ Separate sha1 t (.event now raw .new ct) := by
  unfold processNew Separate
  simp only
  rcases made : construct sha1 now raw ct with ⟨f, _ | thrown⟩
  · have id := construct_id made
    have put := coherent_put (k := f.digest) coherent.tables id
    simp only [Option.mem_def]
    refine ⟨fun after => put.mp after.tables, fun free => ⟨put.mpr free, ?_, coherent.reachable⟩⟩
    exact fun _ _ found => digests_insert coherent.digests rfl found
  · exact ⟨fun _ => trivial, fun _ => coherent⟩

theorem coherent_update (coherent : Coherent t) (now : Nat) (raw : Raw) (ct : NfConntrack) :
    Coherent (t.processUpdate sha1 now ct).1 ↔ Separate sha1 t (.event now raw .update ct) := by
  unfold processUpdate Separate
  simp only
  cases known : t.ctIdMap.lookup (ct.id.getD 0) with
  | none => simp [coherent]
  | some digest =>
    obtain ⟨old, found, owner⟩ := coherent.tables.stored _ _ known
    simp only [found, Option.mem_def, Option.some.injEq, forall_eq']
    rcases updated : old.update sha1 now ct with ⟨f, _ | thrown⟩
    · have id : f.id = old.id := (update_spec updated).1
      simp only
      by_cases same : f.digest = digest
      · simp only [same, true_or, iff_true]
        exact ⟨coherent.tables.modify found id,
          fun _ _ found => digests_insert coherent.digests same found, coherent.reachable⟩
      · have moved := coherent_move coherent.tables found owner (id.trans owner) same
        simp only [same, false_or]
        refine ⟨fun after => moved.mp after.tables, fun free => ⟨moved.mpr free, ?_, ?_⟩⟩
        · exact fun _ _ found => digests_insert
            (fun _ _ found => digests_erase coherent.digests found) rfl found
        · rw [AList.lookup_erase_ne same, free, Option.toList_none, List.nil_append]
          exact coherent.reachable
    · obtain ⟨id, _, raised⟩ := update_spec updated
      simp only [iff_true]
      refine ⟨coherent.tables.modify found id, fun _ _ here => ?_, coherent.reachable⟩
      have own := (raised (by simp)).1.trans (coherent.digests _ _ found)
      exact digests_insert coherent.digests own here

theorem coherent_destroy (coherent : Coherent t) (ct : NfConntrack) :
    Coherent (t.processDestroy ct) := by
  unfold processDestroy
  simp only
  cases known : t.ctIdMap.lookup (ct.id.getD 0) with
  | none => exact coherent
  | some digest =>
    obtain ⟨old, found, owner⟩ := coherent.tables.stored _ _ known
    exact ⟨coherent.tables.remove found owner,
      fun _ _ found => digests_erase coherent.digests found, coherent.reachable⟩

/-- An event leaves coherent tables exactly when it names no connection that
they know otherwise. -/
theorem coherent_event (coherent : Coherent t) (now : Nat) (raw : Raw) (type : MsgType)
    (ct : NfConntrack) : Coherent (t.processConntrackEvent sha1 now raw type ct).1 ↔
      Separate sha1 t (.event now raw type ct) := by
  have locked : Coherent (t.processConntrackEvent sha1 now raw type ct).1 ↔
      Coherent (processEvent sha1 now raw type ct t).1 := by
    unfold processConntrackEvent
    split <;> rename_i ended <;> rw [ended] <;> exact coherent_locked _
  rw [locked]
  cases type with
  | new => exact coherent_new coherent now raw ct
  | update => exact coherent_update coherent now raw ct
  | destroy => exact ⟨fun _ => trivial, fun _ => coherent_destroy coherent ct⟩
  | other _ => exact ⟨fun _ => trivial, fun _ => coherent⟩

/-! ## Purging -/

/-- The entries that are still to come are those the table had: an entry is only
erased when it is visited. -/
theorem coherent_entries (clock : List UInt8 → Nat)
    (entries : List (Sigma fun _ : List UInt8 => ConntrackFlow)) (nodup : entries.NodupKeys)
    (coherent : Coherent t) (ahead : ∀ e ∈ entries, t.ctFlowMap.lookup e.1 = some e.2) :
    Coherent (entries.foldl (purgeEntry clock) t) := by
  induction entries generalizing t with
  | nil => exact coherent
  | cons e entries ih =>
    obtain ⟨fresh, nodup⟩ := List.nodupKeys_cons.mp nodup
    have found := ahead e (List.mem_cons_self ..)
    refine ih nodup ?_ fun e' member => ?_
    · unfold purgeEntry
      split
      · exact ⟨coherent.tables.remove found rfl,
          fun _ _ found => digests_erase coherent.digests found, coherent.reachable⟩
      · exact coherent
    · have here := ahead e' (List.mem_cons_of_mem e member)
      unfold purgeEntry
      split
      · refine lookup_erase_cases.mpr ⟨fun same => fresh ?_, here⟩
        rw [← same]
        exact List.mem_keys_of_mem member
      · exact here

theorem coherent_purge (coherent : Coherent t) (clock : List UInt8 → Nat) :
    Coherent (t.purgeFlows clock) :=
  coherent_entries clock _ t.ctFlowMap.nodupKeys coherent fun _ member =>
    AList.mem_lookup_iff.mpr member

theorem coherent_look (coherent : Coherent t) (now : Nat) (flow : Flow) :
    Coherent (t.updateFlow sha1 now flow).1 := by
  unfold updateFlow
  split
  · exact coherent
  · rename_i f found
    have stored := (Option.filter_eq_some_iff.mp found).1
    have own : f.digest = _ := coherent.digests _ f stored
    exact ⟨coherent.tables.modify stored rfl, fun _ _ here =>
      digests_insert (f := { f with updatedAt := now }) coherent.digests own here,
      coherent.reachable⟩

/-! ## Runs -/

/-- A step from coherent tables leaves coherent tables exactly when its event
names no connection that they know otherwise. -/
theorem coherent_step {action : ConntrackAction} (coherent : Coherent t)
    (taken : t.step sha1 action = some u) : Coherent u ↔ Separate sha1 t action := by
  unfold ConntrackThread.step at taken
  split at taken
  · cases taken
  · cases action with
    | event now raw type ct =>
      cases taken
      exact coherent_event coherent now raw type ct
    | purge clock =>
      cases taken
      exact ⟨fun _ => trivial, fun _ => coherent_purge coherent clock⟩
    | look now flow =>
      cases taken
      exact ⟨fun _ => trivial, fun _ => coherent_look coherent now flow⟩

theorem coherent_of_run (reached : Reaches (ConntrackThread.step sha1) (Separate sha1) {} t) :
    Coherent t :=
  reached.invariant (I := Coherent) coherent_start
    fun _ _ _ coherent taken separate => (coherent_step coherent taken).mpr separate

/-- The end of one connection removes no other. -/
theorem destroy_keeps (coherent : Coherent t) (ct : NfConntrack) {digest : List UInt8}
    {f : ConntrackFlow} (found : t.ctFlowMap.lookup digest = some f)
    (other : f.id ≠ ct.id.getD 0) : (t.processDestroy ct).ctFlowMap.lookup digest = some f := by
  unfold processDestroy
  simp only
  cases known : t.ctIdMap.lookup (ct.id.getD 0) with
  | none => exact found
  | some gone =>
    obtain ⟨g, here, owner⟩ := coherent.tables.stored _ _ known
    refine lookup_erase_cases.mpr ⟨?_, found⟩
    rintro rfl
    cases found.symm.trans here
    exact other owner

/-- **Table coherence.** While every event names only connections that the
tables do not know otherwise, the tables stay coherent and the end of a
connection removes no other; and the first event that does not tears them. -/
theorem tables_coherent (sha1 : List UInt8 → List UInt8) (t : ConntrackThread)
    (reached : Reaches (ConntrackThread.step sha1) (Separate sha1) {} t) :
    Coherent t ∧
      (∀ ct digest f, t.ctFlowMap.lookup digest = some f → f.id ≠ ct.id.getD 0 →
        (t.processDestroy ct).ctFlowMap.lookup digest = some f) ∧
      ∀ action u, t.step sha1 action = some u → (Coherent u ↔ Separate sha1 t action) := by
  have coherent := coherent_of_run reached
  refine ⟨coherent, fun ct digest f found other => ?_, fun action u taken => ?_⟩
  · exact destroy_keeps coherent ct found other
  · exact coherent_step coherent taken

end

/-! ## Two hosts -/

/-- The digests of the UDP connections from ports 4000 and 4001 of the first host
to port 53 of the second, and of the first without its addresses. -/
def sha1 (stream : List UInt8) : List UInt8 :=
  if stream = [2, 0, 17, 192, 168, 1, 1, 192, 168, 1, 2, 15, 160, 0, 53] then
    [0x71, 0xef, 0x2e, 0xfb, 0x5d, 0x3c, 0x59, 0xd0, 0x0e, 0x55, 0xa0, 0xd0, 0xf4, 0x0e, 0xf0, 0xdb,
      0x63, 0xac, 0x7a, 0x73]
  else if stream = [2, 0, 17, 192, 168, 1, 1, 192, 168, 1, 2, 15, 161, 0, 53] then
    [0xa7, 0x3f, 0xdf, 0xc2, 0xb3, 0x44, 0x36, 0x2b, 0x3f, 0x93, 0x22, 0x19, 0x22, 0xa0, 0xa4, 0x10,
      0xed, 0xfe, 0xbd, 0xee]
  else if stream = [2, 0, 17, 0, 53, 15, 160] then
    [0x11, 0x26, 0xbb, 0x7f, 0x61, 0x6a, 0x66, 0x9f, 0xe6, 0x70, 0x9d, 0x69, 0x81, 0x5a, 0x43, 0x62,
      0x9b, 0x39, 0x08, 0x18]
  else []

/-- One direction between the hosts, ports as they are stored. -/
def tuple (src dst : UInt8) (sport dport : UInt16) : NfTuple where
  ipv4 := ⟨some #v[192, 168, 1, src], some #v[192, 168, 1, dst]⟩
  port := ⟨some sport, some dport⟩

/-- The connection from a port of the first host. -/
def question (id : UInt32) (sport : UInt16) : NfConntrack where
  id := some id
  l3Proto := some 2
  l4Proto := some 17
  orig := tuple 1 2 sport 0x3500
  repl := tuple 2 1 0x3500 sport

/-- Storage that was zero. -/
def zeroed : Raw := (⟨{}, {}⟩, ⟨{}, {}⟩)

def event (type : MsgType) (ct : NfConntrack) : ConntrackAction := .event 0 zeroed type ct

/-- Two connections come, the first is updated, and the second goes. -/
theorem tables_coherent_two : ∃ t, Coherent t ∧ t.ctIdMap.lookup 1 = some (sha1 [2, 0, 17, 192, 168,
    1, 1, 192, 168, 1, 2, 15, 160, 0, 53]) := by
  have run : (exec (ConntrackThread.step sha1) (Separate sha1) {}
      [event .new (question 1 0xa00f), event .new (question 2 0xa10f),
        event .update (question 1 0xa00f), event .destroy (question 2 0xa10f)]).any (fun t =>
        t.ctIdMap.lookup 1 = some (sha1 [2, 0, 17, 192, 168, 1, 1, 192, 168, 1, 2, 15, 160, 0,
          53])) = true := by decide +kernel
  obtain ⟨t, reached, found⟩ := reached_of_exec run
  exact ⟨t, (tables_coherent sha1 t reached).1, of_decide_eq_true found⟩

/-- A connection whose tuple comes back under a new id before the old id goes
leaves the new id without its flow. -/
theorem tables_torn : ∃ t, Reaches (ConntrackThread.step sha1) Always {} t ∧
    ∃ digest, t.ctIdMap.lookup 2 = some digest ∧ t.ctFlowMap.lookup digest = none ∧
      ¬ Coherent t := by
  have run : (exec (ConntrackThread.step sha1) Always {}
      [event .new (question 1 0xa00f), event .new (question 2 0xa00f),
        event .destroy (question 1 0xa00f)]).any (fun t =>
        t.ctIdMap.lookup 2 = some (sha1 [2, 0, 17, 192, 168, 1, 1, 192, 168, 1, 2, 15, 160, 0,
          53]) ∧ t.ctFlowMap.lookup (sha1 [2, 0, 17, 192, 168, 1, 1, 192, 168, 1, 2, 15, 160, 0,
          53]) = none) = true := by decide +kernel
  obtain ⟨t, reached, found⟩ := reached_of_exec run
  obtain ⟨known, gone⟩ := of_decide_eq_true found
  refine ⟨t, reached, _, known, gone, fun coherent => ?_⟩
  obtain ⟨f, here, _⟩ := coherent.tables.stored _ _ known
  rw [gone] at here
  cases here

end NetifyAgent.ConntrackTables
