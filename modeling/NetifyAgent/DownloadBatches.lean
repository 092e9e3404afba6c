import Mathlib.Data.List.Nodup
import Mathlib.Data.List.Perm.Basic
import NetifyAgent.Downloads

/-! Batches of downloads. `Update` is called again and again: it takes up the requests whose
threads have ended, keeps their results until no download is left, tells then whether one
of them was successful, and starts the next batch. The threads end between two calls, in any
order and with any outcome. -/
namespace NetifyAgent.DownloadBatches
open Runs ApiManager

/-! ## The manager -/

/-- `Request`. -/
inductive Request where
  | bootstrap
  | download (type : DownloadType)
  deriving DecidableEq, Repr

/-- What `ProcessBootstrapRequest` finds in the content of a request it accepts. -/
structure Endpoints where
  token : List Char
  applications : List Char
  categories : List Char
  deriving DecidableEq, Repr

def Endpoints.url (e : Endpoints) : DownloadType → List Char
  | .config => e.applications
  | .categories => e.categories

/-- `ndNetifyApiBootstrap`. -/
structure Bootstrap where
  hasTerminated : Bool := false
  /-- What has been answered, if it is accepted. -/
  answer : Option Endpoints := none
  deriving DecidableEq, Repr

/-- The downloads that one call of `Update` has started. -/
structure Batch where
  /-- The requests whose threads could be created. -/
  started : List DownloadType := []
  /-- What `ProcessDownloadRequest` has returned for them, the last one first. -/
  results : List (DownloadType × Bool) := []
  /-- The calls of `Update` since then that have returned true. -/
  reloads : Nat := 0
  deriving DecidableEq, Repr

/-- The files that have been replaced, the last one first. -/
def Batch.replaced (b : Batch) : List DownloadType := (b.results.filter Prod.snd).map Prod.fst

/-- `ndNetifyApiManager`, what it has in flight, and its batches. -/
structure NetifyApi where
  manager : ApiManager
  /-- `requests[REQUEST_BOOTSTRAP]`. -/
  bootstrap : Option Bootstrap := none
  urls : DownloadType → Option (List Char) := fun _ => none
  /-- The requests whose threads were created, and that were not deleted since. -/
  inFlight : List Request := []
  /-- The batches so far, the last one first. -/
  batches : List Batch := []
  /-- The calls of `Update` that have returned true. The instance reloads after each. -/
  reloads : Nat := 0

/-- What a call of `Update` meets. -/
structure Environment where
  /-- `nd_time_monotonic`. -/
  now : Nat
  /-- The thread of a bootstrap request can be created. -/
  bootstrapCreated : Bool
  /-- Whether the thread of a download can be created, and the local file be read. -/
  created : DownloadType → Option Bool
  /-- The files of a copy can be opened. -/
  opened : DownloadType → Bool

namespace NetifyApi

/-! ## `Update` -/

/-- `ProcessBootstrapRequest`, as far as downloads depend on it. -/
def processBootstrapRequest (m : NetifyApi) (b : Bootstrap) : NetifyApi :=
  match b.answer with
  | none => m
  | some e =>
    { m with
      manager := { m.manager with token := e.token }
      urls := fun type => some (e.url type) }

/-- The first part of `Update`. -/
def updateBootstrap (m : NetifyApi) (created : Bool) : NetifyApi :=
  match m.bootstrap with
  | some b =>
    if b.hasTerminated then
      { m.processBootstrapRequest b with
        bootstrap := none
        inFlight := m.inFlight.erase .bootstrap }
    else m
  | none =>
    if created then { m with bootstrap := some {}, inFlight := .bootstrap :: m.inFlight } else m

/-- A request that has terminated is processed and deleted. -/
def process (m : NetifyApi) (opened : Bool) (type : DownloadType) (d : Download) : NetifyApi :=
  let (manager, result) := m.manager.processDownloadRequest d type opened
  { m with
    manager := { manager with
      requests := Function.update manager.requests type none
      downloadResults := Function.update manager.downloadResults type (some result) }
    inFlight := m.inFlight.erase (.download type)
    batches := m.batches.modifyHead fun b => { b with results := (type, result) :: b.results } }

/-- `types`. -/
def types : List DownloadType := [.config, .categories]

/-- The body of the loop over `types`, with `downloads`. It counts what it processes. -/
def takeUp (opened : DownloadType → Bool) (p : NetifyApi × Nat) (type : DownloadType) :
    NetifyApi × Nat :=
  match p.1.manager.requests type with
  | none => p
  | some d => (if d.hasTerminated then p.1.process (opened type) type d else p.1, p.2 + 1)

section
variable (sha1 : List UInt8 → List UInt8) (ttlNapiUpdate : Nat)

/-- The body of the loop over `urls`. An insertion fails where there is a request. -/
def startOne (created : DownloadType → Option Bool) (m : NetifyApi) (type : DownloadType) :
    NetifyApi :=
  match m.urls type, m.manager.requests type, created type with
  | some _, none, some readable =>
    { m with
      manager := { m.manager with
        requests := Function.update m.manager.requests type
          (some (m.manager.newDownload sha1 type readable)) }
      inFlight := .download type :: m.inFlight
      batches := m.batches.modifyHead fun b => { b with started := type :: b.started } }
  | _, _, _ => m

/-- The start of a batch. -/
def start (m : NetifyApi) (e : Environment) : NetifyApi :=
  types.foldl (startOne sha1 e.created)
    { m with manager := { m.manager with ttlLastUpdate := e.now }, batches := {} :: m.batches }

/-- `reload`, of the results that are there. -/
def reload (m : NetifyApi) : Bool :=
  types.any fun type => decide (m.manager.downloadResults type = some true)

/-- `Update` from the results on, with what it returns. -/
def conclude (m : NetifyApi) (downloads : Nat) (e : Environment) : NetifyApi × Bool :=
  if downloads = 0 ∧ ¬ m.manager.Taken then
    ({ m with manager := { m.manager with downloadResults := fun _ => none } }, m.reload)
  else if m.manager.token ≠ [] ∧ downloads = 0 ∧
      m.manager.ttlLastUpdate + ttlNapiUpdate < e.now then
    (m.start sha1 e, false)
  else (m, false)

/-- `ndNetifyApiManager::Update`. -/
def update (m : NetifyApi) (e : Environment) : NetifyApi × Bool :=
  let (m, downloads) := types.foldl (takeUp e.opened) (m.updateBootstrap e.bootstrapCreated, 0)
  m.conclude sha1 ttlNapiUpdate downloads e

/-! ## Steps -/

inductive Action where
  /-- The instance calls `Update`, and reloads if it returns true. -/
  | update (e : Environment)
  /-- The thread of the bootstrap request ends. -/
  | bootstrapEnds (answer : Option Endpoints)
  /-- The thread of a download ends, and leaves it so. -/
  | downloadEnds (type : DownloadType) (d : Download)

/-- What a call that returns true counts for. -/
def countReload (m : NetifyApi) : NetifyApi :=
  { m with
    reloads := m.reloads + 1
    batches := m.batches.modifyHead fun b => { b with reloads := b.reloads + 1 } }

def step (m : NetifyApi) : Action → Option NetifyApi
  | .update e =>
    let (next, reload) := m.update sha1 ttlNapiUpdate e
    some (if reload then next.countReload else next)
  | .bootstrapEnds answer =>
    match m.bootstrap with
    | none => none
    | some b => if b.hasTerminated then none else some { m with bootstrap := some ⟨true, answer⟩ }
  | .downloadEnds type d =>
    match m.manager.requests type with
    | none => none
    | some old =>
      if old.hasTerminated then none
      else some { m with manager := { m.manager with
        requests := Function.update m.manager.requests type
          (some { d with hasTerminated := true }) } }

end

/-! ## The law -/

/-- There is a request of this type. -/
def holds (m : NetifyApi) : Request → Bool
  | .bootstrap => m.bootstrap.isSome
  | .download type => (m.manager.requests type).isSome

end NetifyApi

open NetifyApi

/-- Every download of a batch has one result, and the batch one reload if a result was
true, and none otherwise. -/
structure Batch.Settled (b : Batch) : Prop where
  all : (b.results.map Prod.fst).Perm b.started
  once : b.started.Nodup
  reloads : b.reloads = if b.results.any Prod.snd then 1 else 0

structure Batched (m : NetifyApi) : Prop where
  /-- At most one request of each type is in flight. -/
  single : m.inFlight.Nodup
  known : ∀ request, request ∈ m.inFlight ↔ m.holds request = true
  /-- A batch is settled when the next one is started. -/
  earlier : ∀ b ∈ m.batches.tail, b.Settled
  /-- Until its results are taken there is no reload for the last batch. -/
  last : ∀ b ∈ m.batches.head?, b.Settled ∨
    b.reloads = 0 ∧ ¬ (m.manager.Quiet ∧ m.manager.Taken)
  /-- There are no other reloads. -/
  reloads : m.reloads = (m.batches.map Batch.reloads).sum
  /-- The files replaced are those for which a result is true. -/
  replaced : m.manager.copies.map Copy.type = m.batches.flatMap Batch.replaced

section
variable (sha1 : List UInt8 → List UInt8) (ttlNapiUpdate : Nat)

/-- What the next call of `Update` does. -/
structure Prompt (m : NetifyApi) : Prop where
  /-- Once all threads have ended it takes up every download. -/
  collects : ¬ m.manager.Quiet →
    (∀ type d, m.manager.requests type = some d → d.hasTerminated = true) →
    ∀ e, (m.update sha1 ttlNapiUpdate e).2 = false ∧
      (m.update sha1 ttlNapiUpdate e).1.manager.Quiet ∧
      ¬ (m.update sha1 ttlNapiUpdate e).1.manager.Taken
  /-- Where no download is left it tells whether one of the batch was successful. -/
  reports : m.manager.Quiet → ¬ m.manager.Taken → ∀ e, ∃ b ∈ m.batches.head?, b.reloads = 0 ∧
    (m.update sha1 ttlNapiUpdate e).2 = b.results.any Prod.snd ∧
      (m.update sha1 ttlNapiUpdate e).1.manager.Quiet ∧
      (m.update sha1 ttlNapiUpdate e).1.manager.Taken

end

/-! ## Phases -/

section
variable {m m' : NetifyApi} {b : Batch} {rest : List Batch} {type : DownloadType}

/-- A batch whose results have not been taken. -/
structure Underway (m : NetifyApi) (b : Batch) : Prop where
  reloads : b.reloads = 0
  results : ∀ type result, m.manager.downloadResults type = some result ↔
    (type, result) ∈ b.results
  processed : (b.results.map Prod.fst).Nodup
  once : b.started.Nodup
  started : ∀ type, type ∈ b.started ↔
    (m.manager.requests type).isSome = true ∨ type ∈ b.results.map Prod.fst
  apart : ∀ type, (m.manager.requests type).isSome = true → type ∉ b.results.map Prod.fst

/-- Either everything is settled, or all but the last batch. -/
inductive Phase (m : NetifyApi) : Prop where
  | rest (quiet : m.manager.Quiet) (taken : m.manager.Taken)
      (settled : ∀ b ∈ m.batches, b.Settled)
  | underway (b : Batch) (rest : List Batch) (batches : m.batches = b :: rest)
      (under : Underway m b) (settled : ∀ b ∈ rest, b.Settled)

/-- The account of what is in flight, of the reloads and of the files. -/
structure Kept (m : NetifyApi) : Prop where
  single : m.inFlight.Nodup
  known : ∀ request, request ∈ m.inFlight ↔ m.holds request = true
  reloads : m.reloads = (m.batches.map Batch.reloads).sum
  replaced : m.manager.copies.map Copy.type = m.batches.flatMap Batch.replaced
  phase : Phase m

theorem quiet_iff {m : ApiManager} : m.Quiet ↔ ∀ type, m.requests type = none := by
  refine ⟨fun quiet type => quiet type ?_, fun all type _ => all type⟩
  cases type <;> decide

theorem taken_iff {m : ApiManager} : m.Taken ↔ ∀ type, m.downloadResults type = none := by
  refine ⟨fun taken type => taken type ?_, fun all type _ => all type⟩
  cases type <;> decide

/-- A batch none of whose downloads is left is settled but for its reload. -/
theorem Underway.all (under : Underway m b) (quiet : m.manager.Quiet) :
    (b.results.map Prod.fst).Perm b.started := by
  apply (List.perm_ext_iff_of_nodup under.processed under.once).mpr
  intro type
  rw [under.started, quiet_iff.mp quiet type]
  simp

/-- Without results there was nothing in the batch. -/
theorem Underway.empty (under : Underway m b) (taken : m.manager.Taken) : b.results = [] := by
  apply List.eq_nil_iff_forall_not_mem.mpr
  intro result member
  have here := (under.results result.1 result.2).mpr member
  rw [taken_iff.mp taken] at here
  cases here

theorem Phase.settled (phase : Phase m) (quiet : m.manager.Quiet) (taken : m.manager.Taken) :
    ∀ b ∈ m.batches, b.Settled := by
  cases phase with
  | rest _ _ settled => exact settled
  | underway b rest batches under settled =>
    intro b' member
    rw [batches] at member
    rcases List.mem_cons.mp member with rfl | earlier
    · exact ⟨under.all quiet, under.once, by rw [under.reloads, under.empty taken]; rfl⟩
    · exact settled b' earlier

theorem Kept.batched (kept : Kept m) : Batched m := by
  refine ⟨kept.single, kept.known, ?_, ?_, kept.reloads, kept.replaced⟩
  · cases kept.phase with
    | rest _ _ settled => exact fun b member => settled b (List.mem_of_mem_tail member)
    | underway b rest batches _ settled =>
      rw [batches]
      exact settled
  · intro b head
    by_cases finished : m.manager.Quiet ∧ m.manager.Taken
    · exact .inl (kept.phase.settled finished.1 finished.2 b (List.mem_of_mem_head? head))
    · cases kept.phase with
      | rest quiet taken _ => exact absurd ⟨quiet, taken⟩ finished
      | underway b' rest batches under _ =>
        rw [batches] at head
        cases head
        exact .inr ⟨under.reloads, finished⟩

/-! ## What the parts of `Update` keep -/

/-- What the batches depend on. -/
structure Same (m m' : NetifyApi) : Prop where
  requests : m'.manager.requests = m.manager.requests
  results : m'.manager.downloadResults = m.manager.downloadResults
  batches : m'.batches = m.batches
  copies : m'.manager.copies = m.manager.copies
  reloads : m'.reloads = m.reloads

theorem Same.phase (same : Same m m') (phase : Phase m) : Phase m' := by
  cases phase with
  | rest quiet taken settled =>
    refine .rest ?_ ?_ ?_
    · rw [quiet_iff, same.requests]
      exact quiet_iff.mp quiet
    · rw [taken_iff, same.results]
      exact taken_iff.mp taken
    · rw [same.batches]
      exact settled
  | underway b rest batches under settled =>
    refine .underway b rest (same.batches.trans batches) ⟨under.reloads, ?_, under.processed,
      under.once, ?_, ?_⟩ settled
    · rw [same.results]
      exact under.results
    · rw [same.requests]
      exact under.started
    · rw [same.requests]
      exact under.apart

theorem Kept.of_same (kept : Kept m) (same : Same m m') (single : m'.inFlight.Nodup)
    (known : ∀ request, request ∈ m'.inFlight ↔ m'.holds request = true) : Kept m' where
  single := single
  known := known
  reloads := by rw [same.reloads, same.batches, kept.reloads]
  replaced := by rw [same.copies, same.batches, kept.replaced]
  phase := same.phase kept.phase

theorem same_bootstrap (created : Bool) : Same m (m.updateBootstrap created) := by
  unfold updateBootstrap processBootstrapRequest
  split
  · split
    · split <;> exact ⟨rfl, rfl, rfl, rfl, rfl⟩
    · exact ⟨rfl, rfl, rfl, rfl, rfl⟩
  · split <;> exact ⟨rfl, rfl, rfl, rfl, rfl⟩

/-- A request that is deleted leaves the others in flight. -/
theorem known_erase (single : m.inFlight.Nodup)
    (known : ∀ request, request ∈ m.inFlight ↔ m.holds request = true) {gone : Request}
    (left : ∀ request, m'.holds request = (decide (request ≠ gone) && m.holds request))
    (request : Request) : request ∈ m.inFlight.erase gone ↔ m'.holds request = true := by
  rw [single.mem_erase_iff, known, left, Bool.and_eq_true, decide_eq_true_eq]

/-- A request that is created is in flight with the others. -/
theorem known_cons (known : ∀ request, request ∈ m.inFlight ↔ m.holds request = true)
    {new : Request}
    (more : ∀ request, m'.holds request = (decide (request = new) || m.holds request))
    (request : Request) : request ∈ new :: m.inFlight ↔ m'.holds request = true := by
  rw [List.mem_cons, known, more, Bool.or_eq_true, decide_eq_true_eq]

theorem kept_bootstrap (kept : Kept m) (created : Bool) : Kept (m.updateBootstrap created) := by
  have same := same_bootstrap (m := m) created
  unfold updateBootstrap at same ⊢
  split
  case h_1 b present =>
    rw [present] at same
    dsimp only at same
    split
    case isTrue ended =>
      rw [if_pos ended] at same
      refine kept.of_same same (kept.single.erase _) (known_erase kept.single kept.known ?_)
      intro request
      cases request with
      | bootstrap => rfl
      | download type =>
        show ((processBootstrapRequest m b).manager.requests type).isSome = _
        unfold processBootstrapRequest
        split <;> simp [holds]
    · exact kept
  case h_2 missing =>
    rw [missing] at same
    dsimp only at same
    split
    case isTrue made =>
      rw [if_pos made] at same
      have absent : Request.bootstrap ∉ m.inFlight := by
        rw [kept.known, holds, missing]
        decide
      refine kept.of_same same (List.nodup_cons.mpr ⟨absent, kept.single⟩)
        (known_cons kept.known ?_)
      intro request
      cases request with
      | bootstrap => rfl
      | download type => simp [holds]
    · exact kept

/-- A file is replaced where the result is true, and nowhere else. -/
theorem processDownloadRequest_spec (m : ApiManager) (d : Download) (type : DownloadType)
    (opened : Bool) :
    (m.processDownloadRequest d type opened).1.requests = m.requests ∧
      (m.processDownloadRequest d type opened).1.downloadResults = m.downloadResults ∧
      (m.processDownloadRequest d type opened).1.copies.map Copy.type =
        if (m.processDownloadRequest d type opened).2 then type :: m.copies.map Copy.type
        else m.copies.map Copy.type := by
  unfold processDownloadRequest
  cases d.curlRc with
  | some error => exact ⟨rfl, rfl, rfl⟩
  | none =>
    dsimp only
    split
    · exact ⟨rfl, rfl, rfl⟩
    · split
      · split <;> exact ⟨rfl, rfl, rfl⟩
      · unfold copyFile
        split <;> exact ⟨rfl, rfl, rfl⟩

/-- While there is a request, a batch is under way. -/
theorem Phase.of_request (phase : Phase m) {d : Download}
    (present : m.manager.requests type = some d) : ∃ b rest, m.batches = b :: rest ∧
      Underway m b ∧ ∀ b ∈ rest, b.Settled := by
  cases phase with
  | rest quiet _ _ =>
    rw [quiet_iff.mp quiet type] at present
    cases present
  | underway b rest batches under settled => exact ⟨b, rest, batches, under, settled⟩

/-- **A request is taken up.** It moves from the requests of its batch to the results. -/
theorem kept_process (kept : Kept m) (opened : Bool) {d : Download}
    (present : m.manager.requests type = some d) : Kept (m.process opened type d) := by
  obtain ⟨b, rest, batches, under, settled⟩ := kept.phase.of_request present
  obtain ⟨requests, results, copies⟩ := processDownloadRequest_spec m.manager d type opened
  have waiting : (m.manager.requests type).isSome = true := by rw [present]; rfl
  have fresh := under.apart type waiting
  unfold process
  generalize m.manager.processDownloadRequest d type opened = done at requests results copies ⊢
  obtain ⟨manager, result⟩ := done
  dsimp only at requests results copies ⊢
  rw [requests, results, batches, List.modifyHead_cons]
  refine ⟨kept.single.erase _, known_erase kept.single kept.known ?_, ?_, ?_, ?_⟩
  · intro request
    cases request with
    | bootstrap => rfl
    | download other => by_cases same : other = type <;> simp [holds, same]
  · show m.reloads = _
    rw [kept.reloads, batches]
    rfl
  · show manager.copies.map Copy.type = _
    have before := kept.replaced
    rw [batches, List.flatMap_cons] at before
    rw [copies, before, List.flatMap_cons]
    cases result <;> rfl
  · refine .underway _ rest rfl ⟨under.reloads, ?_, ?_, under.once, ?_, ?_⟩ settled
    · intro other found
      by_cases same : other = type
      · subst same
        have none : (other, found) ∉ b.results := fun member =>
          fresh (List.mem_map_of_mem member)
        simp [none, eq_comm]
      · simp [same, under.results]
    · exact List.nodup_cons.mpr ⟨fresh, under.processed⟩
    · intro other
      by_cases same : other = type
      · subst same
        simp [under.started, waiting]
      · simp [under.started, same]
    · intro other there
      by_cases same : other = type
      · subst same
        simp at there
      · have there : (m.manager.requests other).isSome = true := by simpa [same] using there
        simpa [same] using under.apart other there

theorem kept_takeUp (opened : DownloadType → Bool) {p : NetifyApi × Nat} (kept : Kept p.1)
    (type : DownloadType) : Kept (takeUp opened p type).1 := by
  unfold takeUp
  split
  · exact kept
  case h_2 d present =>
    dsimp only
    split
    · exact kept_process kept (opened type) present
    · exact kept

/-- A download that is started joins the last batch. -/
theorem underway_startOne (sha1 : List UInt8 → List UInt8)
    (created : DownloadType → Option Bool) (kept : Kept m) (batches : m.batches = b :: rest)
    (under : Underway m b) (settled : ∀ b ∈ rest, b.Settled) (empty : b.results = [])
    (type : DownloadType) : Kept (m.startOne sha1 created type) ∧
      ∃ b, (m.startOne sha1 created type).batches = b :: rest ∧
        Underway (m.startOne sha1 created type) b ∧ b.results = [] := by
  unfold startOne
  split
  case h_1 readable _ missing _ =>
    have absent : Request.download type ∉ m.inFlight := by
      rw [kept.known, holds, missing]
      decide
    have unstarted : type ∉ b.started := by
      rw [under.started, missing, empty]
      simp
    rw [batches, List.modifyHead_cons]
    refine ⟨⟨List.nodup_cons.mpr ⟨absent, kept.single⟩, known_cons kept.known ?_, ?_, ?_, ?_⟩,
      _, rfl, ?_, empty⟩
    · intro request
      cases request with
      | bootstrap => simp [holds]
      | download other => by_cases same : other = type <;> simp [holds, same]
    · show m.reloads = _
      rw [kept.reloads, batches]
      rfl
    · show m.manager.copies.map Copy.type = _
      rw [kept.replaced, batches]
      rfl
    all_goals
      have joined : Underway { m with
          manager := { m.manager with
            requests := Function.update m.manager.requests type
              (some (m.manager.newDownload sha1 type readable)) }
          inFlight := .download type :: m.inFlight
          batches := { b with started := type :: b.started } :: rest }
          { b with started := type :: b.started } := by
        refine ⟨under.reloads, under.results, under.processed,
          List.nodup_cons.mpr ⟨unstarted, under.once⟩, ?_, ?_⟩
        · intro other
          by_cases same : other = type
          · subst same
            simp
          · simp [same, under.started]
        · simp [empty]
    · exact .underway _ rest rfl joined settled
    · exact joined
  · exact ⟨kept, b, batches, under, empty⟩

/-- **The start of a batch.** All others are settled. -/
theorem kept_start (sha1 : List UInt8 → List UInt8) (kept : Kept m)
    (quiet : m.manager.Quiet) (taken : m.manager.Taken) (e : Environment) :
    Kept (m.start sha1 e) := by
  have settled := kept.phase.settled quiet taken
  have under : Underway { m with
      manager := { m.manager with ttlLastUpdate := e.now }, batches := {} :: m.batches } {} := by
    refine ⟨rfl, fun type result => ?_, List.nodup_nil, List.nodup_nil, fun type => ?_,
      fun _ _ => List.not_mem_nil⟩
    · simp [taken_iff.mp taken type]
    · simp [quiet_iff.mp quiet type]
  have first : Kept { m with
      manager := { m.manager with ttlLastUpdate := e.now }, batches := {} :: m.batches } := by
    refine ⟨kept.single, kept.known, ?_, ?_, .underway _ _ rfl under settled⟩
    · simp [kept.reloads]
    · simp [kept.replaced, Batch.replaced]
  obtain ⟨second, b, batches, under, empty⟩ :=
    underway_startOne sha1 e.created first rfl under settled rfl .config
  exact (underway_startOne sha1 e.created second batches under settled empty .categories).1

/-! ## The loop over the downloads -/

variable {opened : DownloadType → Bool}

theorem takeUp_none {p : NetifyApi × Nat} (missing : p.1.manager.requests type = none) :
    takeUp opened p type = p := by
  unfold takeUp
  rw [missing]

/-- Nothing is counted where there is no download. -/
theorem collect_quiet (quiet : m.manager.Quiet) :
    types.foldl (takeUp opened) (m, 0) = (m, 0) := by
  have first := @takeUp_none .config opened (m, 0) (quiet_iff.mp quiet .config)
  have second := @takeUp_none .categories opened (m, 0) (quiet_iff.mp quiet .categories)
  rw [types, List.foldl_cons, first, List.foldl_cons, second, List.foldl_nil]

theorem takeUp_count (p : NetifyApi × Nat) (type : DownloadType) :
    p.2 ≤ (takeUp opened p type).2 := by
  unfold takeUp
  split
  · exact Nat.le_refl _
  · exact Nat.le_succ _

/-- A download is counted, also one that is taken up. -/
theorem takeUp_counts {p : NetifyApi × Nat} (present : p.1.manager.requests type ≠ none) :
    0 < (takeUp opened p type).2 := by
  unfold takeUp
  split
  · contradiction
  · exact Nat.succ_pos _

/-- Where a download is left, something is counted. -/
theorem collect_counts (opened : DownloadType → Bool) (busy : ¬ m.manager.Quiet) :
    0 < (types.foldl (takeUp opened) (m, 0)).2 := by
  rw [types, List.foldl_cons, List.foldl_cons, List.foldl_nil]
  by_cases first : m.manager.requests .config = none
  · have second : m.manager.requests .categories ≠ none := fun none => by
      refine busy (quiet_iff.mpr fun type => ?_)
      cases type
      · exact first
      · exact none
    rw [@takeUp_none .config opened (m, 0) first]
    exact takeUp_counts second
  · exact (takeUp_counts (p := (m, 0)) first).trans_le (takeUp_count _ _)

/-- A download that has terminated is taken up, and leaves a result. -/
theorem takeUp_ended (opened : DownloadType → Bool) {p : NetifyApi × Nat}
    (ended : ∀ d, p.1.manager.requests type = some d → d.hasTerminated = true) :
    (takeUp opened p type).1.manager.requests = Function.update p.1.manager.requests type none ∧
      (p.1.manager.requests type ≠ none →
        (takeUp opened p type).1.manager.downloadResults type ≠ none) := by
  unfold takeUp
  split
  case h_1 missing =>
    refine ⟨?_, fun present => absurd missing present⟩
    rw [← missing, Function.update_eq_self]
  case h_2 d present =>
    obtain ⟨requests, -, -⟩ := processDownloadRequest_spec p.1.manager d type (opened type)
    rw [if_pos (ended d present)]
    unfold process
    dsimp only
    rw [requests]
    exact ⟨rfl, fun _ => by simp⟩

/-- Results are kept. -/
theorem takeUp_results (p : NetifyApi × Nat) (type other : DownloadType)
    (known : p.1.manager.downloadResults other ≠ none) :
    (takeUp opened p type).1.manager.downloadResults other ≠ none := by
  unfold takeUp
  split
  · exact known
  case h_2 d present =>
    obtain ⟨-, results, -⟩ := processDownloadRequest_spec p.1.manager d type (opened type)
    dsimp only
    split
    · unfold process
      by_cases same : other = type
      · simp [same]
      · simpa [same, results] using known
    · exact known

/-- Once all threads have ended, every download leaves a result. -/
theorem collect_ended (opened : DownloadType → Bool) (busy : ¬ m.manager.Quiet)
    (ended : ∀ type d, m.manager.requests type = some d → d.hasTerminated = true) :
    (types.foldl (takeUp opened) (m, 0)).1.manager.Quiet ∧
      ¬ (types.foldl (takeUp opened) (m, 0)).1.manager.Taken := by
  rw [types, List.foldl_cons, List.foldl_cons, List.foldl_nil]
  obtain ⟨first, config⟩ := @takeUp_ended .config opened (m, 0) (ended .config)
  have others : ∀ d, (takeUp opened (m, 0) .config).1.manager.requests .categories = some d →
      d.hasTerminated = true := by
    intro d present
    rw [first] at present
    exact ended .categories d present
  obtain ⟨second, categories⟩ := takeUp_ended opened others
  constructor
  · rw [quiet_iff, second, first]
    intro type
    cases type <;> rfl
  · rw [taken_iff]
    intro none
    refine busy (quiet_iff.mpr fun type => ?_)
    cases type with
    | config =>
      by_contra present
      exact takeUp_results _ .categories .config (config present) (none .config)
    | categories =>
      by_contra present
      rw [first] at categories
      exact categories present (none .categories)

/-! ## `Update` -/

variable {sha1 : List UInt8 → List UInt8} {ttlNapiUpdate : Nat}

/-- The results that are there are those of the batch. -/
theorem Underway.reload (under : Underway m b) : m.reload = b.results.any Prod.snd := by
  unfold NetifyApi.reload
  rw [Bool.eq_iff_iff, List.any_eq_true, List.any_eq_true]
  constructor
  · rintro ⟨type, -, found⟩
    exact ⟨_, (under.results type true).mp (of_decide_eq_true found), rfl⟩
  · rintro ⟨⟨type, result⟩, member, success⟩
    cases success
    refine ⟨type, by cases type <;> decide, ?_⟩
    exact decide_eq_true ((under.results type true).mpr member)

/-- While results are left, a batch is under way. -/
theorem Phase.of_results (phase : Phase m) (left : ¬ m.manager.Taken) :
    ∃ b rest, m.batches = b :: rest ∧ Underway m b ∧ ∀ b ∈ rest, b.Settled := by
  cases phase with
  | rest _ taken _ => exact absurd taken left
  | underway b rest batches under settled => exact ⟨b, rest, batches, under, settled⟩

/-- What a call of `Update` makes of the state, its reload counted. -/
def counted (p : NetifyApi × Bool) : NetifyApi := if p.2 then p.1.countReload else p.1

/-- **The results are taken.** The batch is settled by the reload that follows, or by none. -/
theorem kept_take (kept : Kept m) (quiet : m.manager.Quiet) (left : ¬ m.manager.Taken) :
    Kept (counted ({ m with manager := { m.manager with downloadResults := fun _ => none } },
      m.reload)) := by
  obtain ⟨b, rest, batches, under, settled⟩ := kept.phase.of_results left
  have all := under.all quiet
  have taken : ApiManager.Taken { m.manager with downloadResults := fun _ => none } :=
    taken_iff.mpr fun _ => rfl
  unfold counted
  rw [under.reload]
  cases success : b.results.any Prod.snd with
  | false =>
    refine ⟨kept.single, kept.known, kept.reloads, kept.replaced, .rest quiet taken ?_⟩
    intro b' member
    rcases List.mem_cons.mp (batches ▸ member) with rfl | earlier
    · exact ⟨all, under.once, by rw [under.reloads, success]; rfl⟩
    · exact settled b' earlier
  | true =>
    unfold countReload
    dsimp only
    rw [if_pos rfl, batches, List.modifyHead_cons]
    refine ⟨kept.single, kept.known, ?_, ?_, .rest quiet taken ?_⟩
    · show m.reloads + 1 = _
      rw [kept.reloads, batches]
      simp only [List.map_cons, List.sum_cons]
      omega
    · show m.manager.copies.map Copy.type = _
      rw [kept.replaced, batches]
      rfl
    · intro b' member
      rcases List.mem_cons.mp member with rfl | earlier
      · exact ⟨all, under.once, by rw [under.reloads, success]; rfl⟩
      · exact settled b' earlier

theorem kept_conclude (kept : Kept m) {downloads : Nat} (counts : downloads = 0 → m.manager.Quiet)
    (e : Environment) : Kept (counted (m.conclude sha1 ttlNapiUpdate downloads e)) := by
  unfold conclude
  split
  case isTrue finished => exact kept_take kept (counts finished.1) finished.2
  case isFalse more =>
    split
    case isTrue due =>
      have taken : m.manager.Taken := by
        by_contra left
        exact more ⟨due.2.1, left⟩
      exact kept_start sha1 kept (counts due.2.1) taken e
    · exact kept

/-- **`Update`** keeps the account, whatever it meets. -/
theorem kept_update (kept : Kept m) (e : Environment) :
    Kept (counted (m.update sha1 ttlNapiUpdate e)) := by
  have first := kept_bootstrap kept e.bootstrapCreated
  unfold update
  dsimp only
  by_cases quiet : (m.updateBootstrap e.bootstrapCreated).manager.Quiet
  · rw [collect_quiet quiet]
    exact kept_conclude first (fun _ => quiet) e
  · have counts := collect_counts e.opened quiet
    refine kept_conclude ?_ (fun none => absurd none (by omega)) e
    exact kept_takeUp e.opened (kept_takeUp e.opened (p := (_, 0)) first .config) .categories

/-- A thread that ends leaves the same requests behind. -/
theorem kept_downloadEnds (kept : Kept m) {old : Download}
    (present : m.manager.requests type = some old) (d : Download) :
    Kept { m with
      manager := { m.manager with
        requests := Function.update m.manager.requests type
          (some { d with hasTerminated := true }) } } := by
  obtain ⟨b, rest, batches, under, settled⟩ := kept.phase.of_request present
  have same : ∀ other, (Function.update m.manager.requests type
      (some { d with hasTerminated := true }) other).isSome =
        (m.manager.requests other).isSome := by
    intro other
    by_cases here : other = type
    · subst here
      simp [present]
    · simp [here]
  refine ⟨kept.single, fun request => ?_, kept.reloads, kept.replaced, ?_⟩
  · rw [kept.known]
    cases request with
    | bootstrap => rfl
    | download other => simp [holds, same]
  · refine .underway b rest batches ⟨under.reloads, under.results, under.processed,
      under.once, ?_, ?_⟩ settled
    · intro other
      rw [same]
      exact under.started other
    · intro other there
      rw [same] at there
      exact under.apart other there

theorem kept_step {action : NetifyApi.Action} (kept : Kept m)
    (taken : m.step sha1 ttlNapiUpdate action = some m') : Kept m' := by
  cases action with
  | update e =>
    cases taken
    exact kept_update kept e
  | bootstrapEnds answer =>
    simp only [NetifyApi.step] at taken
    split at taken
    · cases taken
    case h_2 b present =>
      split at taken
      · cases taken
      · cases taken
        refine kept.of_same ⟨rfl, rfl, rfl, rfl, rfl⟩ kept.single fun request => ?_
        rw [kept.known]
        cases request with
        | bootstrap => simp [holds, present]
        | download type => rfl
  | downloadEnds type d =>
    simp only [NetifyApi.step] at taken
    split at taken
    · cases taken
    case h_2 old present =>
      split at taken
      · cases taken
      · cases taken
        exact kept_downloadEnds kept present d

/-- What the next call does, where the account is kept. -/
theorem Kept.prompt (kept : Kept m) : Prompt sha1 ttlNapiUpdate m := by
  constructor
  · intro busy ended e
    have same := same_bootstrap (m := m) e.bootstrapCreated
    have busy : ¬ (m.updateBootstrap e.bootstrapCreated).manager.Quiet := by
      rw [quiet_iff, same.requests, ← quiet_iff]
      exact busy
    have counts := collect_counts e.opened busy
    obtain ⟨quiet, left⟩ := collect_ended e.opened busy (by
      rw [same.requests]
      exact ended)
    unfold update conclude
    dsimp only
    rw [if_neg (by omega), if_neg (by omega)]
    exact ⟨rfl, quiet, left⟩
  · intro quiet left e
    have same := same_bootstrap (m := m) e.bootstrapCreated
    have first := kept_bootstrap kept e.bootstrapCreated
    have quiet : (m.updateBootstrap e.bootstrapCreated).manager.Quiet := by
      rw [quiet_iff, same.requests, ← quiet_iff]
      exact quiet
    have left : ¬ (m.updateBootstrap e.bootstrapCreated).manager.Taken := by
      rw [taken_iff, same.results, ← taken_iff]
      exact left
    obtain ⟨b, rest, batches, under, -⟩ := first.phase.of_results left
    refine ⟨b, by rw [← same.batches, batches]; rfl, under.reloads, ?_⟩
    unfold update conclude
    dsimp only
    rw [collect_quiet quiet, if_pos ⟨rfl, left⟩]
    exact ⟨under.reload, quiet, taken_iff.mpr fun _ => rfl⟩

end

/-! ## Runs -/

section
variable (sha1 : List UInt8 → List UInt8) (ttlNapiUpdate : Nat)

/-- **Batches of downloads.** However calls of `Update` alternate with the ends of the
threads, every batch is settled before the next one, and the reloads are those of the batches
in which a file was replaced. -/
theorem batched_reached (initial : DownloadType → Option (List UInt8)) (m : NetifyApi)
    (reached : Reaches (NetifyApi.step sha1 ttlNapiUpdate) Always
      { manager := { configs := initial } } m) :
    Batched m ∧ Prompt sha1 ttlNapiUpdate m := by
  have start : Kept { manager := { configs := initial } } := by
    refine ⟨List.nodup_nil, fun request => ?_, rfl, rfl, .rest ?_ ?_ ?_⟩
    · cases request <;> simp [holds]
    · exact quiet_iff.mpr fun _ => rfl
    · exact taken_iff.mpr fun _ => rfl
    · exact fun _ member => absurd member List.not_mem_nil
  have kept : Kept m := reached.invariant start fun m _ m' kept taken _ => kept_step kept taken
  exact ⟨kept.batched, kept.prompt⟩

/-- A call at which every thread can be created and every file be opened. -/
def callAt (now : Nat) : NetifyApi.Action :=
  .update ⟨now, true, fun _ => some true, fun _ => true⟩

/-- One file of a batch is replaced and the other is up to date; the threads end apart from
each other, and the call after the last result returns true. -/
theorem batched_two : ∃ m, Reaches (NetifyApi.step firstBytes 86400) Always
    { manager := { configs := fun _ => some [48] } } m ∧
      (m.reloads = 1 ∧ m.manager.configs .config = some [97] ∧
        m.batches.map Batch.replaced = [[.config]]) ∧
      Batched m ∧ Prompt firstBytes 86400 m := by
  have found : (exec (NetifyApi.step firstBytes 86400) Always
      { manager := { configs := fun _ => some [48] } }
      [callAt 1, .bootstrapEnds (some ⟨['t'], ['a'], ['c']⟩), callAt 86401,
        .downloadEnds .config { digest := none, httpRc := 200, contentFile := [97] },
        callAt 86402, .downloadEnds .categories { digest := none, httpRc := 304 },
        callAt 86403, callAt 86404]).any (fun m => m.reloads = 1 ∧
          m.manager.configs .config = some [97] ∧
          m.batches.map Batch.replaced = [[.config]]) = true := by
    decide +kernel
  obtain ⟨m, reached, ends⟩ := reached_of_exec found
  exact ⟨m, reached, of_decide_eq_true ends, batched_reached firstBytes 86400 _ m reached⟩

end

/-! ## The manager alone -/

/-- The thread of a download ends as `Entry` leaves it, and a download without a local file is
not told status 200 for its first request. -/
def Entered (m : NetifyApi) : NetifyApi.Action → Prop
  | .downloadEnds type d => ∃ onHead onGet, Compared m.manager (.run type onHead onGet) ∧
      ∀ old ∈ m.manager.requests type, { d with hasTerminated := true } = old.entry onHead onGet
  | _ => True

section
variable {sha1 : List UInt8 → List UInt8} {ttlNapiUpdate : Nat} {m m' : NetifyApi}

theorem manager_bootstrap (created : Bool) :
    Reaches (ApiManager.step sha1 ttlNapiUpdate) Compared m.manager
      (m.updateBootstrap created).manager := by
  unfold updateBootstrap processBootstrapRequest
  split
  · split
    · split
      · exact .start
      case h_2 e _ => exact .next (a := .bootstrap e.token) .start rfl trivial
    · exact .start
  · split <;> exact .start

theorem manager_takeUp (opened : DownloadType → Bool) (p : NetifyApi × Nat)
    (type : DownloadType) : Reaches (ApiManager.step sha1 ttlNapiUpdate) Compared p.1.manager
      (takeUp opened p type).1.manager := by
  unfold takeUp
  split
  · exact .start
  case h_2 d present =>
    dsimp only
    split
    case isTrue ended =>
      refine .next (a := .process type (opened type)) .start ?_ trivial
      simp only [ApiManager.step, present, ended, process, if_true]
    · exact .start

/-- A download is started where there is a URL and its thread can be created. -/
theorem startOne_manager (created : DownloadType → Option Bool) {type : DownloadType}
    (missing : m.manager.requests type = none) :
    (m.startOne sha1 created type).manager =
        { m.manager with
          requests := Function.update m.manager.requests type
            (((m.urls type).bind fun _ => created type).map
              (m.manager.newDownload sha1 type)) } ∧
      (m.startOne sha1 created type).urls = m.urls := by
  have same : Function.update m.manager.requests type none = m.manager.requests := by
    rw [← missing, Function.update_eq_self]
  unfold startOne
  rw [missing]
  cases m.urls type with
  | none => exact ⟨by simp [same], rfl⟩
  | some url =>
    cases created type with
    | none => exact ⟨by simp [same], rfl⟩
    | some readable => exact ⟨rfl, rfl⟩

theorem manager_start (quiet : m.manager.Quiet) (e : Environment) :
    (m.start sha1 e).manager =
      { m.manager with
        ttlLastUpdate := e.now
        requests := fun type => ((m.urls type).bind fun _ => e.created type).map
          (m.manager.newDownload sha1 type) } := by
  have missing := quiet_iff.mp quiet
  unfold NetifyApi.start types
  rw [List.foldl_cons, List.foldl_cons, List.foldl_nil]
  obtain ⟨first, urls⟩ := @startOne_manager sha1
    { m with manager := { m.manager with ttlLastUpdate := e.now }, batches := {} :: m.batches }
    e.created .config (missing .config)
  obtain ⟨second, -⟩ := @startOne_manager sha1 (NetifyApi.startOne sha1 e.created
    { m with manager := { m.manager with ttlLastUpdate := e.now }, batches := {} :: m.batches }
    .config) e.created .categories (by rw [first]; exact missing .categories)
  rw [second, first, urls]
  refine congrArg (fun requests =>
    { m.manager with ttlLastUpdate := e.now, requests := requests }) (funext fun type => ?_)
  cases type <;> rfl

theorem manager_conclude {downloads : Nat} (counts : downloads = 0 → m.manager.Quiet)
    (e : Environment) : Reaches (ApiManager.step sha1 ttlNapiUpdate) Compared m.manager
      (m.conclude sha1 ttlNapiUpdate downloads e).1.manager := by
  unfold conclude
  split
  case isTrue finished =>
    refine .next (a := .finish) .start ?_ trivial
    rw [ApiManager.step, if_pos ⟨counts finished.1, finished.2⟩]
  case isFalse more =>
    split
    case isTrue due =>
      have quiet := counts due.2.1
      have taken : m.manager.Taken := by
        by_contra left
        exact more ⟨due.2.1, left⟩
      refine .next (a := .start e.now fun type => (m.urls type).bind fun _ => e.created type)
        .start ?_ trivial
      rw [ApiManager.step, if_pos ⟨quiet, taken, due.1, due.2.2⟩, manager_start quiet]
    · exact .start

/-- **`Update`** takes steps of the manager: requests that have ended, and then the results or
the start of a batch. -/
theorem manager_update (e : Environment) :
    Reaches (ApiManager.step sha1 ttlNapiUpdate) Compared m.manager
      (m.update sha1 ttlNapiUpdate e).1.manager := by
  have first := @manager_bootstrap sha1 ttlNapiUpdate m e.bootstrapCreated
  refine first.trans ?_
  unfold update
  dsimp only
  by_cases quiet : (m.updateBootstrap e.bootstrapCreated).manager.Quiet
  · rw [collect_quiet quiet]
    exact manager_conclude (fun _ => quiet) e
  · have counts := collect_counts e.opened quiet
    have config := @manager_takeUp sha1 ttlNapiUpdate e.opened
      (m.updateBootstrap e.bootstrapCreated, 0) .config
    refine config.trans ((manager_takeUp e.opened _ .categories).trans ?_)
    exact manager_conclude (fun none => absurd none (by rw [types] at counts; exact counts.ne')) e

theorem manager_step {action : NetifyApi.Action} (entered : Entered m action)
    (taken : m.step sha1 ttlNapiUpdate action = some m') :
    Reaches (ApiManager.step sha1 ttlNapiUpdate) Compared m.manager m'.manager := by
  cases action with
  | update e =>
    have run := @manager_update sha1 ttlNapiUpdate m e
    have same : m' = counted (m.update sha1 ttlNapiUpdate e) := (Option.some.inj taken).symm
    rw [same]
    unfold counted
    split <;> exact run
  | bootstrapEnds answer =>
    simp only [NetifyApi.step] at taken
    split at taken
    · cases taken
    · split at taken
      · cases taken
      · cases taken
        exact .start
  | downloadEnds type d =>
    obtain ⟨onHead, onGet, compared, left⟩ := entered
    simp only [NetifyApi.step] at taken
    split at taken
    · cases taken
    case h_2 old present =>
      split at taken
      · cases taken
      case isFalse running =>
        cases taken
        refine .next (a := .run type onHead onGet) .start ?_ compared
        simp only [ApiManager.step, present]
        rw [if_neg running, left old present]

/-- **The configuration files** are replaced by downloaded bodies alone, also when `Update`
goes about it in its own order. -/
theorem downloaded_reached (initial : DownloadType → Option (List UInt8))
    (reached : Reaches (NetifyApi.step sha1 ttlNapiUpdate) Entered
      { manager := { configs := initial } } m) : OnlyDownloaded initial m.manager := by
  apply only_downloaded sha1 ttlNapiUpdate
  induction reached with
  | start => exact .start
  | next _ taken entered ih => exact ih.trans (manager_step entered taken)

end

end NetifyAgent.DownloadBatches
