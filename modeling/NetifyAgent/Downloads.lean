import NetifyAgent.CategoryDirectory
import NetifyAgent.DnsHintFile

/-! Downloads of the two configuration files. A download asks for the headers first
and gets the body only if there is a local file to compare with; whether the body is
copied over the local file is decided by the status code alone, which is that of the
first request where there was no second. -/
namespace NetifyAgent
open Lines Runs

/-- `Request`, as far as it names a file. -/
inductive DownloadType where
  | config
  | categories
  deriving DecidableEq, Repr

/-- How `curl_easy_perform` ends: with an error and the part of the body received
until then, or with a status, the header lines and the body. A request for headers
has no body. -/
inductive Response where
  | error (message : String) (received : List UInt8)
  | done (status : Int) (headers : List (List Char)) (body : List UInt8)
  deriving DecidableEq, Repr

/-- `ndNetifyApiDownload`. -/
structure Download where
  /-- `digest`, of a local file that could be read. -/
  digest : Option (List UInt8)
  /-- The error of `curl_rc`, none for `CURLE_OK`. -/
  curlRc : Option String := none
  httpRc : Int := -1
  headersRx : OrderedMap (List Char) (List Char) := ∅
  /-- What the file at `content_filename` holds. -/
  contentFile : List UInt8 := []
  hasTerminated : Bool := false
  /-- The body of a `GET` that completed with status 200. -/
  got : Option (List UInt8) := none
  deriving DecidableEq

namespace Download

/-- `ParseHeader`. -/
def parseHeader (headersRx : OrderedMap (List Char) (List Char)) (headerRaw : List Char) :
    OrderedMap (List Char) (List Char) :=
  match cutFirst ':' headerRaw with
  | none => headersRx
  | some (key, value) =>
    if key = [] ∨ value = [] then headersRx
    else
      let strip (s : List Char) := ((s.dropWhile isSpace).reverse.dropWhile isSpace).reverse
      headersRx.emplace (strip (key.map Char.toLower)) (strip value)

/-- `Perform(METHOD_HEAD)`. The flag is false for a throw. -/
def head (d : Download) : Response → Download × Bool
  | .error message _ => ({ d with curlRc := some message, httpRc := -1, headersRx := ∅ }, false)
  | .done status headers _ =>
    ({ d with curlRc := none, httpRc := status, headersRx := headers.foldl parseHeader ∅ }, true)

/-- `Perform(METHOD_GET)`. What is received is appended to the content file. -/
def get (d : Download) : Response → Download
  | .error message received =>
    { d with
      curlRc := some message
      httpRc := -1
      headersRx := ∅
      contentFile := d.contentFile ++ received }
  | .done status headers body =>
    { d with
      curlRc := none
      httpRc := status
      headersRx := headers.foldl parseHeader ∅
      contentFile := d.contentFile ++ body
      got := if status = 200 then some body else d.got }

/-- `nd_sha1_to_string`. -/
def sha1String (digest : List UInt8) : List Char :=
  (DnsHintCache.sha1ToString digest).map fun b => Char.ofNat b.toNat

/-- What `Entry` does once the headers are there. -/
def follow (d : Download) (onGet : Response) : Download :=
  match d.digest with
  | none => d
  | some digest =>
    if d.httpRc ≠ 200 then d
    else
      match d.headersRx.get "x-sha1-hash".toList with
      | none => d.get onGet
      | some hash => if sha1String digest = hash then { d with httpRc := 304 } else d.get onGet

/-- `ndNetifyApiDownload::Entry`, with what the server answers to the two requests. -/
def entry (d : Download) (onHead onGet : Response) : Download :=
  let (d, completed) := head { d with contentFile := [] } onHead
  { (if completed then d.follow onGet else d) with hasTerminated := true }

end Download

/-- What `ProcessDownloadRequest` writes to `jstatus`. -/
structure DownloadStatus where
  code : Int
  message : String
  deriving DecidableEq, Repr

/-- A copy over a configuration file. -/
structure Copy where
  type : DownloadType
  content : List UInt8
  /-- The body of the download's `GET` that completed with status 200. -/
  got : Option (List UInt8)
  deriving DecidableEq, Repr

/-- `ndNetifyApiManager` and the configuration files. -/
structure ApiManager where
  /-- `path_app_config` and `path_cat_config`. -/
  configs : DownloadType → Option (List UInt8)
  requests : DownloadType → Option Download := fun _ => none
  downloadResults : DownloadType → Option Bool := fun _ => none
  token : List Char := []
  ttlLastUpdate : Nat := 0
  jstatus : DownloadType → Option DownloadStatus := fun _ => none
  /-- The copies made so far, the last one first. -/
  copies : List Copy := []

/-- The steps of the manager and of the threads of its requests. -/
inductive ApiAction where
  /-- A bootstrap request ends with a token and the two URLs. -/
  | bootstrap (token : List Char)
  /-- `Update` starts the downloads: none where the thread cannot be created, else
  whether the local file can be read. -/
  | start (now : Nat) (readable : DownloadType → Option Bool)
  /-- The thread of a download runs. -/
  | run (type : DownloadType) (onHead onGet : Response)
  /-- `Update` finds the thread terminated. The files of a copy can be opened or
  not. -/
  | process (type : DownloadType) (opened : Bool)
  /-- `Update` takes the results. -/
  | finish

namespace ApiManager

/-- The message for a status code. -/
def statusMessage (httpRc : Int) : String :=
  if httpRc = 200 then "Updated"
  else if httpRc = 304 then "Up-to-date (not modified)"
  else if httpRc = 401 then "Authorization failure"
  else if httpRc = 403 then "Forbidden request"
  else "Request failure"

/-- `nd_copy_file` over a configuration file. -/
def copyFile (m : ApiManager) (type : DownloadType) (d : Download) (opened : Bool) :
    ApiManager × Bool :=
  if opened then
    ({ m with
      configs := Function.update m.configs type (some d.contentFile)
      copies := ⟨type, d.contentFile, d.got⟩ :: m.copies }, true)
  else (m, false)

/-- `ndNetifyApiManager::ProcessDownloadRequest` and what it returns. -/
def processDownloadRequest (m : ApiManager) (d : Download) (type : DownloadType)
    (opened : Bool) : ApiManager × Bool :=
  match d.curlRc with
  | some error =>
    ({ m with jstatus := Function.update m.jstatus type (some ⟨d.httpRc, error⟩) }, false)
  | none =>
    let m := { m with
      jstatus := Function.update m.jstatus type (some ⟨d.httpRc, statusMessage d.httpRc⟩) }
    if d.httpRc = 304 then (m, false)
    else if d.httpRc ≠ 200 then
      if d.httpRc = 401 ∨ d.httpRc = 403 then ({ m with token := [], ttlLastUpdate := 0 }, false)
      else (m, false)
    else m.copyFile type d opened

/-- No download is under way. -/
def Quiet (m : ApiManager) : Prop := ∀ type ∈ [DownloadType.config, .categories],
  m.requests type = none

/-- There are no results to take. -/
def Taken (m : ApiManager) : Prop := ∀ type ∈ [DownloadType.config, .categories],
  m.downloadResults type = none

instance (m : ApiManager) : Decidable m.Quiet := inferInstanceAs (Decidable (∀ _ ∈ _, _))

instance (m : ApiManager) : Decidable m.Taken := inferInstanceAs (Decidable (∀ _ ∈ _, _))

variable (sha1 : List UInt8 → List UInt8) (ttlNapiUpdate : Nat)

/-- A new `ndNetifyApiDownload`, given how files are hashed. -/
def newDownload (m : ApiManager) (type : DownloadType) (readable : Bool) : Download :=
  { digest := if readable then (m.configs type).map sha1 else none }

def step (m : ApiManager) : ApiAction → Option ApiManager
  | .bootstrap token => some { m with token }
  | .start now readable =>
    if m.Quiet ∧ m.Taken ∧ m.token ≠ [] ∧ m.ttlLastUpdate + ttlNapiUpdate < now then
      some { m with
        ttlLastUpdate := now
        requests := fun type => (readable type).map (m.newDownload sha1 type) }
    else none
  | .run type onHead onGet =>
    match m.requests type with
    | none => none
    | some d =>
      if d.hasTerminated then none
      else some { m with requests := Function.update m.requests type (some (d.entry onHead onGet)) }
  | .process type opened =>
    match m.requests type with
    | none => none
    | some d =>
      if d.hasTerminated then
        let (m, result) := m.processDownloadRequest d type opened
        some { m with
          requests := Function.update m.requests type none
          downloadResults := Function.update m.downloadResults type (some result) }
      else none
  | .finish =>
    if m.Quiet ∧ ¬ m.Taken then some { m with downloadResults := fun _ => none } else none

/-! ## Copies -/

/-- What the copies made so far leave in a configuration file. -/
def written (copies : List Copy) (type : DownloadType) (initial : Option (List UInt8)) :
    Option (List UInt8) :=
  match copies.find? fun copy => copy.type = type with
  | some copy => some copy.content
  | none => initial

/-- Every copy is of the body of a completed `GET` with status 200, and nothing but
copies changes a configuration file. -/
structure OnlyDownloaded (initial : DownloadType → Option (List UInt8)) (m : ApiManager) :
    Prop where
  downloaded : ∀ copy ∈ m.copies, copy.got = some copy.content
  unchanged : ∀ type, m.configs type = written m.copies type (initial type)

/-- A download without a local file to compare with is not told status 200 for its
first request. -/
def Compared (m : ApiManager) : ApiAction → Prop
  | .run type (.done status _ _) _ => status = 200 → ∀ d ∈ m.requests type, d.digest ≠ none
  | _ => True

instance : DecidableRel Compared
  | m, .run type (.done status _ _) _ =>
    inferInstanceAs (Decidable (status = 200 → ∀ d ∈ m.requests type, d.digest ≠ none))
  | _, .run _ (.error _ _) _ => .isTrue trivial
  | _, .bootstrap _ => .isTrue trivial
  | _, .start _ _ => .isTrue trivial
  | _, .process _ _ => .isTrue trivial
  | _, .finish => .isTrue trivial

/-- A download whose content file is copied. -/
def Accepted (d : Download) : Prop := d.curlRc = none ∧ d.httpRc = 200

/-- What is copied of a `GET` is its body. -/
theorem get_accepted {d : Download} (empty : d.contentFile = []) {onGet : Response}
    (accepted : Accepted (d.get onGet)) : (d.get onGet).got = some (d.get onGet).contentFile := by
  cases onGet with
  | error message received =>
    obtain ⟨failed, -⟩ := accepted
    cases failed
  | done status headers body =>
    have ok : status = 200 := accepted.2
    simp [Download.get, ok, empty]

/-- The second request is made where the local file differs or cannot be compared by
its hash. -/
theorem follow_cases (d : Download) (onGet : Response) :
    (d.follow onGet = d ∧ (d.digest = none ∨ d.httpRc ≠ 200)) ∨
      (d.digest ≠ none ∧ (d.follow onGet).httpRc = 304) ∨
      (d.digest ≠ none ∧ d.follow onGet = d.get onGet) := by
  unfold Download.follow
  split
  case h_1 missing => exact .inl ⟨rfl, .inl missing⟩
  case h_2 digest known =>
    have present : d.digest ≠ none := by simp [known]
    split
    case isTrue other => exact .inl ⟨rfl, .inr other⟩
    case isFalse =>
      split
      · exact .inr (.inr ⟨present, rfl⟩)
      · split
        · exact .inr (.inl ⟨present, rfl⟩)
        · exact .inr (.inr ⟨present, rfl⟩)

/-- **One download.** What is copied of a new download is the body of its `GET`, unless it
had nothing to compare with and its first request was told status 200. -/
theorem entry_accepted_iff {d : Download} (new : d.got = none) (onHead onGet : Response) :
    (Accepted (d.entry onHead onGet) →
        (d.entry onHead onGet).got = some (d.entry onHead onGet).contentFile) ↔
      ¬ (d.digest = none ∧ ∃ headers body, onHead = .done 200 headers body) := by
  cases onHead with
  | error message received =>
    have failed : ¬ Accepted (d.entry (.error message received) onGet) := by
      rintro ⟨none, -⟩
      cases none
    simp [failed]
  | done status headers body =>
    -- What the first request leaves.
    let answered : Download := { d with
      contentFile := []
      curlRc := none
      httpRc := status
      headersRx := headers.foldl Download.parseHeader ∅ }
    have told : d.entry (.done status headers body) onGet =
        { answered.follow onGet with hasTerminated := true } := rfl
    have first : (∃ headers' body', Response.done status headers body = .done 200 headers' body') ↔
        status = 200 := by simp
    rw [told, first]
    rcases follow_cases answered onGet with ⟨same, why⟩ | ⟨present, unchanged⟩ | ⟨present, asked⟩
    · rw [same]
      rcases why with missing | other
      · have missing : d.digest = none := missing
        simp [Accepted, answered, missing, new]
      · have other : status ≠ 200 := other
        simp [Accepted, answered, other]
    · have present : d.digest ≠ none := present
      simp [Accepted, unchanged, present]
    · have present : d.digest ≠ none := present
      refine ⟨fun _ both => present both.1, fun _ accepted => ?_⟩
      simp only [asked] at accepted ⊢
      exact get_accepted rfl accepted

/-- The copies are of bodies, and so will those be of the downloads under way. -/
structure Kept (initial : DownloadType → Option (List UInt8)) (m : ApiManager) : Prop where
  only : OnlyDownloaded initial m
  new : ∀ type d, m.requests type = some d → d.hasTerminated = false → d.got = none
  ended : ∀ type d, m.requests type = some d → d.hasTerminated = true → Accepted d →
    d.got = some d.contentFile

section
variable {sha1 : List UInt8 → List UInt8} {ttlNapiUpdate : Nat}
  {initial : DownloadType → Option (List UInt8)} {m m' : ApiManager}

/-- What holds of the other requests and of a new one holds of all. -/
theorem forall_update {P : Download → Prop} {requests : DownloadType → Option Download}
    {type : DownloadType} {new : Option Download}
    (old : ∀ other d, requests other = some d → P d) (here : ∀ d, new = some d → P d) :
    ∀ other d, Function.update requests type new other = some d → P d := by
  intro other d present
  by_cases same : other = type
  · subst same
    rw [Function.update_self] at present
    exact here d present
  · rw [Function.update_of_ne same] at present
    exact old other d present

theorem kept_start (kept : Kept initial m) {now : Nat} {readable : DownloadType → Option Bool}
    (taken : step sha1 ttlNapiUpdate m (.start now readable) = some m') : Kept initial m' := by
  simp only [step] at taken
  split at taken
  · cases taken
    have new (type : DownloadType) (d : Download)
        (here : (readable type).map (m.newDownload sha1 type) = some d) :
        d.got = none ∧ d.hasTerminated = false := by
      obtain ⟨known, -, rfl⟩ := Option.map_eq_some_iff.mp here
      exact ⟨rfl, rfl⟩
    refine ⟨⟨kept.only.downloaded, kept.only.unchanged⟩, fun type d here _ => (new type d here).1,
      fun type d here ended => ?_⟩
    rw [(new type d here).2] at ended
    cases ended
  · cases taken

theorem kept_run (kept : Kept initial m) {type : DownloadType} {onHead onGet : Response}
    (compared : Compared m (.run type onHead onGet))
    (taken : step sha1 ttlNapiUpdate m (.run type onHead onGet) = some m') : Kept initial m' := by
  simp only [step] at taken
  split at taken
  · cases taken
  · rename_i d present
    split at taken
    · cases taken
    case isFalse running =>
      cases taken
      have fresh := kept.new type d present (by simpa using running)
      have ended : (d.entry onHead onGet).hasTerminated = true := rfl
      refine ⟨⟨kept.only.downloaded, kept.only.unchanged⟩, ?_, ?_⟩
      · refine forall_update kept.new fun e here open_ => ?_
        cases here
        rw [ended] at open_
        cases open_
      · refine forall_update kept.ended fun e here _ => ?_
        cases here
        apply (entry_accepted_iff fresh onHead onGet).mpr
        rintro ⟨missing, headers, body, rfl⟩
        exact compared rfl d present missing

/-- What a request that is taken up changes. -/
theorem processDownloadRequest_cases (m : ApiManager) (d : Download) (type : DownloadType)
    (opened : Bool) :
    (m.processDownloadRequest d type opened).1.requests = m.requests ∧
      (((m.processDownloadRequest d type opened).1.configs = m.configs ∧
          (m.processDownloadRequest d type opened).1.copies = m.copies) ∨
        (Accepted d ∧ (m.processDownloadRequest d type opened).1.configs =
            Function.update m.configs type (some d.contentFile) ∧
          (m.processDownloadRequest d type opened).1.copies =
            ⟨type, d.contentFile, d.got⟩ :: m.copies)) := by
  unfold processDownloadRequest
  cases failed : d.curlRc with
  | some error => exact ⟨rfl, .inl ⟨rfl, rfl⟩⟩
  | none =>
    simp only
    split
    · exact ⟨rfl, .inl ⟨rfl, rfl⟩⟩
    · split
      · split <;> exact ⟨rfl, .inl ⟨rfl, rfl⟩⟩
      case isFalse ok =>
        unfold copyFile
        split
        · exact ⟨rfl, .inr ⟨⟨failed, not_not.mp ok⟩, rfl, rfl⟩⟩
        · exact ⟨rfl, .inl ⟨rfl, rfl⟩⟩

theorem only_process (only : OnlyDownloaded initial m) {d : Download} {type : DownloadType}
    (ended : Accepted d → d.got = some d.contentFile) (opened : Bool) :
    OnlyDownloaded initial (m.processDownloadRequest d type opened).1 := by
  obtain ⟨-, ⟨configs, copies⟩ | ⟨accepted, configs, copies⟩⟩ :=
    processDownloadRequest_cases m d type opened
  · refine ⟨fun copy member => ?_, fun other => ?_⟩
    · rw [copies] at member
      exact only.downloaded copy member
    · rw [configs, copies]
      exact only.unchanged other
  · refine ⟨fun copy member => ?_, fun other => ?_⟩
    · rw [copies] at member
      rcases List.mem_cons.mp member with rfl | old
      · exact ended accepted
      · exact only.downloaded copy old
    · rw [configs, copies, written]
      by_cases same : other = type
      · subst same
        simp
      · rw [Function.update_of_ne same, List.find?_cons_of_neg (by simpa using Ne.symm same)]
        exact only.unchanged other

theorem kept_process (kept : Kept initial m) {type : DownloadType} {opened : Bool}
    (taken : step sha1 ttlNapiUpdate m (.process type opened) = some m') : Kept initial m' := by
  simp only [step] at taken
  split at taken
  · cases taken
  · rename_i d present
    split at taken
    case isTrue terminated =>
      cases taken
      have only : OnlyDownloaded initial (m.processDownloadRequest d type opened).1 :=
        only_process kept.only (kept.ended type d present terminated) opened
      have requests := (processDownloadRequest_cases m d type opened).1
      refine ⟨⟨only.downloaded, only.unchanged⟩, ?_, ?_⟩
      · refine forall_update (requests ▸ kept.new) fun e here => ?_
        cases here
      · refine forall_update (requests ▸ kept.ended) fun e here => ?_
        cases here
    case isFalse => cases taken

theorem kept_step (kept : Kept initial m) {a : ApiAction}
    (taken : step sha1 ttlNapiUpdate m a = some m') (compared : Compared m a) :
    Kept initial m' := by
  cases a with
  | bootstrap token =>
    cases taken
    exact ⟨⟨kept.only.downloaded, kept.only.unchanged⟩, kept.new, kept.ended⟩
  | start now readable => exact kept_start kept taken
  | run type onHead onGet => exact kept_run kept compared taken
  | process type opened => exact kept_process kept taken
  | finish =>
    simp only [step] at taken
    split at taken
    · cases taken
      exact ⟨⟨kept.only.downloaded, kept.only.unchanged⟩, kept.new, kept.ended⟩
    · cases taken

end

/-- **Configuration files.** Where no download without a local file is told status 200 for
its first request, only downloaded bodies are copied. -/
theorem only_downloaded (initial : DownloadType → Option (List UInt8)) (m : ApiManager)
    (reached : Reaches (step sha1 ttlNapiUpdate) Compared { configs := initial } m) :
    OnlyDownloaded initial m := by
  have start : Kept initial { configs := initial } := by
    refine ⟨⟨fun copy member => ?_, fun type => rfl⟩, fun type d here => ?_, fun type d here => ?_⟩
    · cases member
    · cases here
    · cases here
  have kept : Kept initial m :=
    reached.invariant start fun m a m' kept taken compared => kept_step kept taken compared
  exact kept.only

/-! ## A missing local file -/

/-- The first bytes of a file for its hash. -/
def firstBytes (content : List UInt8) : List UInt8 := content.take 4

/-- A run in which both files are downloaded. -/
def bothDownloaded (readable : Bool) : List ApiAction :=
  [.bootstrap ['t'], .start 86401 fun _ => some readable,
    .run .config (.done 200 [] []) (.done 200 [] [97, 112, 112]),
    .run .categories (.done 200 [] []) (.done 200 [] [99, 97, 116]),
    .process .config true, .process .categories true, .finish]

/-- Both local files are replaced by what was downloaded. -/
theorem both_replaced :
    ∃ m, Reaches (step firstBytes 86400) Compared { configs := fun _ => some [48] } m ∧
      m.configs .config = some [97, 112, 112] ∧ m.configs .categories = some [99, 97, 116] ∧
      OnlyDownloaded (fun _ => some [48]) m := by
  have found : (exec (step firstBytes 86400) Compared { configs := fun _ => some [48] }
      (bothDownloaded true)).any (fun m => decide (m.configs .config = some [97, 112, 112] ∧
        m.configs .categories = some [99, 97, 116])) = true := by decide +kernel
  obtain ⟨m, reached, all⟩ := reached_of_exec found
  obtain ⟨config, categories⟩ := of_decide_eq_true all
  exact ⟨m, reached, config, categories, only_downloaded firstBytes 86400 _ m reached⟩

/-- Without local files, empty files are put in their place. -/
theorem empty_copied :
    ∃ m, Reaches (step firstBytes 86400) Always { configs := fun _ => none } m ∧
      m.configs .config = some [] ∧ ¬ OnlyDownloaded (fun _ => none) m := by
  have found : (exec (step firstBytes 86400) Always { configs := fun _ => none }
      (bothDownloaded false)).any (fun m => decide (m.configs .config = some [] ∧
        ⟨.config, [], none⟩ ∈ m.copies)) = true := by decide +kernel
  obtain ⟨m, reached, all⟩ := reached_of_exec found
  obtain ⟨config, copied⟩ := of_decide_eq_true all
  refine ⟨m, reached, config, fun only => ?_⟩
  have got := only.downloaded _ copied
  cases got

end ApiManager
end NetifyAgent
