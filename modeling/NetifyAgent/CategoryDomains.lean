import NetifyAgent.CategoryDirectory
import NetifyAgent.Lib.Suffixes

/-! Domains of category files. The files are read as a list of categories with
their domains; a category holds those of its first file that has any. The query
is right in every order of the table exactly where each listed domain lies in a
held one whose holders all list it. -/
namespace NetifyAgent.CategoryDomains
open Lines Suffixes Categories RadixNetworkEntry

/-! ## Files and lines -/

/-- The domain of a line. -/
def domainLine (line : List Char) : Option (List Char) :=
  match splitLine line with
  | some (type, rest) => if type = "dom".toList then some rest else none
  | none => none

/-- The domains of a file. -/
def domainsOf (text : List Char) : Finset (List Char) :=
  ((lines text).filterMap domainLine).toFinset

/-- A line of unknown kind with an address that a table would store. -/
def strayLine (pton : Pton) (line : List Char) : Bool :=
  match splitLine line with
  | some (type, rest) =>
    let addr := Addr.ofText pton rest
    type ≠ "dom".toList && type ≠ "net".toList &&
      (addr.isIPv4 && (create read4 addr).isSome || addr.isIPv6 && (create read6 addr).isSome)
  | none => false

/-- The accepted files of a directory: their categories and texts. -/
def acceptedFiles (cs : Categories) (dir : Directory) : List (Nat × List Char) :=
  ((dir.getD []).filter DirEntry.taken).filterMap cs.accepted

/-- A file of a category lists a domain. -/
def Listed (cs : Categories) (dir : Directory) (catId : Nat) (domain : List Char) : Prop :=
  ∃ text, (catId, text) ∈ acceptedFiles cs dir ∧ domain ∈ domainsOf text

/-- The first file of a category that has domains lists the domain. -/
def Held (cs : Categories) (dir : Directory) (catId : Nat) (domain : List Char) : Prop :=
  ∃ text, ((acceptedFiles cs dir).find? fun file => file.1 = catId ∧ domainsOf file.2 ≠ ∅) =
    some (catId, text) ∧ domain ∈ domainsOf text

/-- A line of some file has an address for a table that is not there. -/
def Stray (pton : Pton) (cs : Categories) (dir : Directory) : Prop :=
  ∃ file ∈ acceptedFiles cs dir, ∃ line ∈ lines file.2, strayLine pton line = true

/-! ## The load -/

/-- The tables are not there. -/
def NoTables (file : CategoryEntries) : Prop := file.networks4 = none ∧ file.networks6 = none

theorem loadLine_spec {pton : Pton} {catId : Nat} {file : CategoryEntries} (absent : NoTables file)
    (line : List Char) : loadLine pton catId file line =
      if strayLine pton line then none
      else some { file with entries := (domainLine line).toList.toFinset ∪ file.entries } := by
  obtain ⟨entries, networks4, networks6⟩ := file
  obtain ⟨rfl, rfl⟩ := absent
  unfold loadLine strayLine domainLine
  cases splitLine line with
  | none => simp
  | some cut =>
    obtain ⟨type, rest⟩ := cut
    have apart : "net".toList ≠ "dom".toList := by decide
    generalize "dom".toList = domType at apart ⊢
    generalize "net".toList = netType at apart ⊢
    by_cases dom : type = domType
    · simp [dom]
    · by_cases net : type = netType
      · simp [net, apart]
      · cases kind : (Addr.ofText pton rest).family <;>
          cases found4 : create read4 (Addr.ofText pton rest) <;>
          cases found6 : create read6 (Addr.ofText pton rest) <;>
          simp [dom, net, Addr.isValid, Addr.isIP, Addr.isIPv4, Addr.isIPv6, kind, found4, found6,
            assignNetwork]

theorem loadLines_spec {pton : Pton} {catId : Nat} {file : CategoryEntries} (absent : NoTables file)
    (ls : List (List Char)) : ls.foldlM (loadLine pton catId) file =
      if ls.any (strayLine pton) then none
      else some { file with entries := (ls.filterMap domainLine).toFinset ∪ file.entries } := by
  induction ls generalizing file with
  | nil => simp
  | cons line ls ih =>
    rw [List.foldlM_cons, loadLine_spec absent, List.any_cons]
    cases stray : strayLine pton line with
    | true => rfl
    | false =>
      have later :=
        @ih { file with entries := (domainLine line).toList.toFinset ∪ file.entries } absent
      simp only [Bool.false_eq_true, ↓reduceIte, Option.bind_eq_bind, Option.bind_some, later,
        Bool.false_or]
      split
      · rfl
      · congr 2
        ext domain
        cases kind : domainLine line with
        | none => simp [kind]
        | some found =>
          simp only [List.filterMap_cons, kind, Option.toList_some, List.toFinset_cons]
          simp only [Finset.mem_union, Finset.mem_insert, List.toFinset_nil]
          tauto

/-- What a file adds to the table. -/
def addFile (arrange : List (Nat × Finset (List Char)) → List (Nat × Finset (List Char)))
    (domains : List (Nat × Finset (List Char))) (file : Nat × List Char) :
    List (Nat × Finset (List Char)) :=
  if domainsOf file.2 = ∅ then domains
  else insertDomains arrange file.1 (domainsOf file.2) domains

section
variable {pton : Pton}
  {arrange : List (Nat × Finset (List Char)) → List (Nat × Finset (List Char))}

theorem loadFile_spec {cs : Categories} (absent : cs.networks4 = none ∧ cs.networks6 = none)
    (entry : DirEntry) : loadFile pton arrange cs entry =
      match cs.accepted entry with
      | none => some cs
      | some file =>
        if (lines file.2).any (strayLine pton) then none
        else some { cs with domains := addFile arrange cs.domains file } := by
  unfold loadFile
  cases cs.accepted entry with
  | none => rfl
  | some file =>
    obtain ⟨catId, text⟩ := file
    simp only
    rw [@loadLines_spec pton catId ⟨∅, cs.networks4, cs.networks6⟩ absent]
    split
    · rfl
    · obtain ⟨absent4, absent6⟩ := absent
      have same : ((lines text).filterMap domainLine).toFinset ∪ (∅ : Finset (List Char)) =
          domainsOf text := Finset.union_empty _
      simp only [Option.map_some, same, absent4, absent6, addFile]

theorem loadFiles_spec {cs : Categories} (absent : cs.networks4 = none ∧ cs.networks6 = none)
    (files : List DirEntry) : files.foldlM (loadFile pton arrange) cs =
      if (files.filterMap cs.accepted).any fun file => (lines file.2).any (strayLine pton) then none
      else some { cs with
        domains := (files.filterMap cs.accepted).foldl (addFile arrange) cs.domains } := by
  induction files generalizing cs with
  | nil => rfl
  | cons entry files ih =>
    rw [List.foldlM_cons, loadFile_spec absent]
    cases found : cs.accepted entry with
    | none =>
      rw [List.filterMap_cons_none found]
      exact ih absent
    | some file =>
      rw [List.filterMap_cons_some found, List.any_cons, List.foldl_cons]
      simp only
      by_cases stray : (lines file.2).any (strayLine pton) = true
      · rw [if_pos stray, stray, Bool.true_or, if_pos rfl]
        rfl
      · have later := @ih { cs with domains := addFile arrange cs.domains file } absent
        rw [if_neg stray, Bool.eq_false_iff.mpr stray, Bool.false_or]
        exact later

/-- A directory that is scanned, with its accepted files. -/
theorem loadDotDirectory_spec (cs : Categories) (dir : Directory) :
    loadDotDirectory pton arrange cs dir =
      if scanDotd dir = none then some (cs, true)
      else if (acceptedFiles cs dir).any fun file => (lines file.2).any (strayLine pton) then none
      else some ({ cs.resetDomains.resetNetworks true with
        domains := (acceptedFiles cs dir).foldl (addFile arrange) [] }, true) := by
  unfold loadDotDirectory
  cases scanned : scanDotd dir with
  | none => rfl
  | some files =>
    have same : acceptedFiles cs dir = files.filterMap cs.accepted := by
      unfold scanDotd at scanned
      cases dir with
      | none => cases scanned
      | some entries =>
        simp only at scanned
        split at scanned
        · cases scanned
        · rw [← Option.some.inj scanned]
          rfl
    have spec := @loadFiles_spec pton arrange (cs.resetDomains.resetNetworks true) ⟨rfl, rfl⟩ files
    simp only [spec, same, reduceCtorEq, ↓reduceIte]
    split
    next stray =>
      have here : (files.filterMap cs.accepted).any
          (fun file => (lines file.2).any (strayLine pton)) = true := stray
      rw [if_pos here]
      rfl
    next clean =>
      have here : ¬ (files.filterMap cs.accepted).any
          (fun file => (lines file.2).any (strayLine pton)) = true := clean
      rw [if_neg here]
      rfl

end

/-! ## The table -/

/-- The table has every category of a list of files with its first file that has
domains. -/
def Tables (files : List (Nat × List Char)) (domains : List (Nat × Finset (List Char))) : Prop :=
  ∀ catId entries, (catId, entries) ∈ domains ↔ ∃ text,
    (files.find? fun file => file.1 = catId ∧ domainsOf file.2 ≠ ∅) = some (catId, text) ∧
      entries = domainsOf text

theorem tables_addFile {arrange : List (Nat × Finset (List Char)) → List (Nat × Finset (List Char))}
    (perm : ∀ l, (arrange l).Perm l) {files : List (Nat × List Char)}
    {domains : List (Nat × Finset (List Char))} (tables : Tables files domains)
    (file : Nat × List Char) : Tables (files ++ [file]) (addFile arrange domains file) := by
  obtain ⟨catId, text⟩ := file
  intro other entries
  rw [List.find?_append]
  have none_of : (¬ ∃ entries, (other, entries) ∈ domains) →
      (files.find? fun file => file.1 = other ∧ domainsOf file.2 ≠ ∅) = none := by
    intro absent
    cases found : files.find? fun file => file.1 = other ∧ domainsOf file.2 ≠ ∅ with
    | none => rfl
    | some first =>
      have kind := List.find?_some found
      simp only [decide_eq_true_eq] at kind
      obtain ⟨id, text'⟩ := first
      obtain rfl : id = other := kind.1
      exact absurd ⟨_, (tables id _).mpr ⟨text', found, rfl⟩⟩ absent
  by_cases empty : domainsOf text = ∅
  · have same : addFile arrange domains (catId, text) = domains := if_pos empty
    rw [same, tables other entries]
    simp [empty]
  · have added : addFile arrange domains (catId, text) =
        insertDomains arrange catId (domainsOf text) domains := if_neg empty
    rw [added]
    unfold insertDomains
    by_cases present : domains.any (fun it => it.1 = catId) = true
    · rw [if_pos present, tables other entries]
      by_cases same : other = catId
      · subst same
        obtain ⟨⟨id, held⟩, member, kind⟩ := List.any_eq_true.mp present
        obtain rfl : id = other := by simpa using kind
        obtain ⟨text', found, -⟩ := (tables id held).mp member
        rw [found]
        simp
      · simp [Ne.symm same]
    · rw [if_neg present, (perm _).mem_iff, List.mem_cons, tables other entries]
      by_cases same : other = catId
      · subst same
        have absent : ¬ ∃ entries, (other, entries) ∈ domains := by
          rintro ⟨held, member⟩
          exact present (List.any_eq_true.mpr ⟨_, member, by simp⟩)
        rw [none_of absent]
        simp [empty]
      · simp [same, Ne.symm same]

theorem tables_files {arrange : List (Nat × Finset (List Char)) → List (Nat × Finset (List Char))}
    (perm : ∀ l, (arrange l).Perm l) (files : List (Nat × List Char)) :
    Tables files (files.foldl (addFile arrange) []) := by
  induction files using List.reverseRecOn with
  | nil =>
    intro catId entries
    simp
  | append_singleton files file ih =>
    rw [List.foldl_append]
    exact tables_addFile perm ih file

theorem categoryOf_some {domains : List (Nat × Finset (List Char))} {search : List Char}
    {catId : Nat} (found : categoryOf domains search = some catId) :
    ∃ entries, (catId, entries) ∈ domains ∧ search ∈ entries := by
  obtain ⟨it, first, rfl⟩ := Option.map_eq_some_iff.mp found
  exact ⟨it.2, List.mem_of_find?_eq_some first, by simpa using List.find?_some first⟩

theorem categoryOf_none {domains : List (Nat × Finset (List Char))} {search : List Char} :
    categoryOf domains search = none ↔ ∀ it ∈ domains, search ∉ it.2 := by
  unfold categoryOf
  simp

/-! ## The search -/

/-- The search answers with the category of the longest part that has one. -/
theorem searchDomains_spec {domains : List (Nat × Finset (List Char))} {rounds : Nat}
    {search : List Char} (enough : search.length < rounds) :
    (∃ part catId, Longest '.' (fun part => categoryOf domains part ≠ none) search part ∧
        categoryOf domains part = some catId ∧ searchDomains domains rounds search = catId) ∨
      ((∀ part, Tail '.' search part → categoryOf domains part = none) ∧
        searchDomains domains rounds search = ndCatUnknown) := by
  induction rounds generalizing search with
  | zero => omega
  | succ rounds ih =>
    unfold searchDomains
    cases here : categoryOf domains search with
    | some catId =>
      exact .inl ⟨search, catId, longest_self (by rw [here]; simp), here, rfl⟩
    | none =>
      cases cut : cutFirst '.' search with
      | none =>
        refine .inr ⟨fun part tail => ?_, rfl⟩
        rwa [(tail_uncut cut).mp tail]
      | some parts =>
        obtain ⟨start, rest⟩ := parts
        simp only
        split
        case isTrue ended =>
          subst ended
          refine .inr ⟨fun part tail => ?_, rfl⟩
          rwa [(tail_ended cut).mp tail]
        case isFalse nonempty =>
          have shorter : rest.length < rounds := by
            obtain ⟨-, rfl⟩ := cutFirst_eq_some.mp cut
            rw [List.length_append, List.length_cons] at enough
            omega
          rcases ih shorter with ⟨part, catId, ⟨tail, kind, longest⟩, found, answer⟩ | ⟨free, answer⟩
          · refine .inl ⟨part, catId, ⟨(tail_cut cut nonempty).mpr (.inr tail), kind, ?_⟩, found,
              answer⟩
            intro other tail' kind'
            rcases (tail_cut cut nonempty).mp tail' with rfl | later
            · exact absurd here kind'
            · exact longest other later kind'
          · refine .inr ⟨fun part tail => ?_, answer⟩
            rcases (tail_cut cut nonempty).mp tail with rfl | later
            · exact here
            · exact free part later

theorem lookupDotDirectory_spec (cs : Categories) (domain : List Char) :
    (∃ part catId, Longest '.' (fun part => categoryOf cs.domains part ≠ none) domain part ∧
        categoryOf cs.domains part = some catId ∧ cs.lookupDotDirectory domain = catId) ∨
      ((∀ part, Tail '.' domain part → categoryOf cs.domains part = none) ∧
        cs.lookupDotDirectory domain = ndCatUnknown) :=
  searchDomains_spec (Nat.lt_succ_self _)

/-- What is in the table is answered for itself. -/
theorem lookupDotDirectory_self {cs : Categories} {domain : List Char} {catId : Nat}
    (found : categoryOf cs.domains domain = some catId) :
    cs.lookupDotDirectory domain = catId := by
  unfold lookupDotDirectory searchDomains
  rw [found]

/-! ## Right answers -/

/-- The queries find the domains that are listed, with a category that lists the
longest of them. -/
def Right (cs : Categories) (listed : Nat → List Char → Prop) : Prop :=
  ∀ domain, (cs.lookupDotDirectory domain ≠ ndCatUnknown ↔
      ∃ part catId, Tail '.' domain part ∧ listed catId part) ∧
    (cs.lookupDotDirectory domain ≠ ndCatUnknown → ∃ part,
      Longest '.' (fun part => ∃ catId, listed catId part) domain part ∧
        listed (cs.lookupDotDirectory domain) part)

/-- After a load that returns true the queries are right, in whatever order the
table is visited. -/
def LoadsRight (pton : Pton) (cs : Categories) (dir : Directory) : Prop :=
  ∀ arrange, (∀ l, (arrange l).Perm l) → ∀ cs',
    loadDotDirectory pton arrange cs dir = some (cs', true) → Right cs' (Listed cs dir)

/-- Every listed domain has a part that is held, and all that hold the longest such
part are categories that list the domain. -/
def Covered (cs : Categories) (dir : Directory) : Prop :=
  ∀ catId domain, Listed cs dir catId domain → ∃ part,
    Longest '.' (fun part => ∃ holder, Held cs dir holder part) domain part ∧
      ∀ holder, Held cs dir holder part → holder ≠ ndCatUnknown ∧ Listed cs dir holder domain

/-- If the directory has no file, nothing but the unknown category is left from
before. Otherwise the load stops at a stray line, or the listed domains are
covered. -/
def Faithful (pton : Pton) (cs : Categories) (dir : Directory) : Prop :=
  if scanDotd dir = none then
    ∀ domain catId, categoryOf cs.domains domain = some catId → catId = ndCatUnknown
  else Stray pton cs dir ∨ Covered cs dir

theorem held_listed {cs : Categories} {dir : Directory} {catId : Nat} {domain : List Char}
    (held : Held cs dir catId domain) : Listed cs dir catId domain := by
  obtain ⟨text, found, member⟩ := held
  exact ⟨text, List.mem_of_find?_eq_some found, member⟩

section
variable {cs : Categories} {dir : Directory}
  {arrange : List (Nat × Finset (List Char)) → List (Nat × Finset (List Char))}

/-- The table after a load. -/
def loaded (arrange : List (Nat × Finset (List Char)) → List (Nat × Finset (List Char)))
    (cs : Categories) (dir : Directory) : List (Nat × Finset (List Char)) :=
  (acceptedFiles cs dir).foldl (addFile arrange) []

theorem held_of_categoryOf (perm : ∀ l, (arrange l).Perm l) {search : List Char} {catId : Nat}
    (found : categoryOf (loaded arrange cs dir) search = some catId) :
    Held cs dir catId search := by
  obtain ⟨entries, member, inside⟩ := categoryOf_some found
  obtain ⟨text, first, rfl⟩ := (tables_files perm _ catId entries).mp member
  exact ⟨text, first, inside⟩

theorem categoryOf_of_held (perm : ∀ l, (arrange l).Perm l) {search : List Char} {catId : Nat}
    (held : Held cs dir catId search) : categoryOf (loaded arrange cs dir) search ≠ none := by
  obtain ⟨text, first, inside⟩ := held
  intro none
  have member := (tables_files perm _ catId _).mpr ⟨text, first, rfl⟩
  exact categoryOf_none.mp none _ member inside

theorem categoryOf_iff_held (perm : ∀ l, (arrange l).Perm l) (search : List Char) :
    categoryOf (loaded arrange cs dir) search ≠ none ↔ ∃ catId, Held cs dir catId search := by
  constructor
  · intro some
    obtain ⟨catId, found⟩ := Option.ne_none_iff_exists'.mp some
    exact ⟨catId, held_of_categoryOf perm found⟩
  · rintro ⟨catId, held⟩
    exact categoryOf_of_held perm held

end

/-- An arrangement with one category in front. -/
def inFront (catId : Nat) (l : List (Nat × Finset (List Char))) :
    List (Nat × Finset (List Char)) :=
  l.filter (fun it => it.1 = catId) ++ l.filter (fun it => ¬ it.1 = catId)

theorem inFront_perm (catId : Nat) (l : List (Nat × Finset (List Char))) :
    (inFront catId l).Perm l := by
  have perm := List.filter_append_perm (fun it : Nat × Finset (List Char) => it.1 = catId) l
  simpa [inFront] using perm

/-- A category that is in the table comes first. -/
def Front (catId : Nat) (domains : List (Nat × Finset (List Char))) : Prop :=
  ∀ it ∈ domains, it.1 = catId → domains.head? = some it

theorem front_inFront {catId : Nat} {domains : List (Nat × Finset (List Char))}
    (one : ∀ it ∈ domains, ∀ it' ∈ domains, it.1 = catId → it'.1 = catId → it = it') :
    Front catId (inFront catId domains) := by
  intro it member kind
  have inside := (inFront_perm catId domains).mem_iff.mp member
  have first : it ∈ domains.filter fun it => it.1 = catId :=
    List.mem_filter.mpr ⟨inside, decide_eq_true kind⟩
  unfold inFront
  cases heads : domains.filter fun it => it.1 = catId with
  | nil =>
    rw [heads] at first
    cases first
  | cons head rest =>
    have headed : head ∈ domains.filter fun it => it.1 = catId := heads ▸ List.mem_cons_self ..
    obtain ⟨there, kind'⟩ := List.mem_filter.mp headed
    rw [List.cons_append, List.head?_cons, one it inside head there kind (of_decide_eq_true kind')]

theorem front_addFile {catId : Nat} {domains : List (Nat × Finset (List Char))}
    (front : Front catId domains) (file : Nat × List Char) :
    Front catId (addFile (inFront catId) domains file) := by
  unfold addFile insertDomains
  split
  · exact front
  · split
    · exact front
    case isFalse absent =>
      have new (it : Nat × Finset (List Char)) (member : it ∈ domains) : it.1 ≠ file.1 :=
        fun same => absent (List.any_eq_true.mpr ⟨it, member, decide_eq_true same⟩)
      apply front_inFront
      intro it member it' member' kind kind'
      rcases List.mem_cons.mp member with rfl | old <;>
        rcases List.mem_cons.mp member' with rfl | old'
      · rfl
      · exact absurd (kind'.trans kind.symm) (new it' old')
      · exact absurd (kind.trans kind'.symm) (new it old)
      · exact Option.some.inj ((front it old kind).symm.trans (front it' old' kind'))

/-- Every holder can come first. -/
theorem categoryOf_inFront {cs : Categories} {dir : Directory} {search : List Char} {catId : Nat}
    (held : Held cs dir catId search) :
    categoryOf (loaded (inFront catId) cs dir) search = some catId := by
  have front : Front catId (loaded (inFront catId) cs dir) := by
    unfold loaded
    induction acceptedFiles cs dir using List.reverseRecOn with
    | nil =>
      intro it member
      cases member
    | append_singleton files file ih =>
      rw [List.foldl_append]
      exact front_addFile ih file
  obtain ⟨text, first, inside⟩ := held
  have member := (tables_files (inFront_perm catId) _ catId _).mpr ⟨text, first, rfl⟩
  have head := front _ member rfl
  unfold categoryOf
  cases domains : loaded (inFront catId) cs dir with
  | nil =>
    rw [domains] at head
    cases head
  | cons it rest =>
    rw [domains, List.head?_cons] at head
    cases head
    rw [List.find?_cons_of_pos (by simpa using inside)]
    rfl

/-- An answer comes from a file. -/
theorem listed_of_known {cs : Categories} {dir : Directory}
    {arrange : List (Nat × Finset (List Char)) → List (Nat × Finset (List Char))}
    (perm : ∀ l, (arrange l).Perm l) {cs' : Categories}
    (table : cs'.domains = loaded arrange cs dir) {domain : List Char}
    (known : cs'.lookupDotDirectory domain ≠ ndCatUnknown) :
    ∃ part catId, Tail '.' domain part ∧ Listed cs dir catId part := by
  rcases lookupDotDirectory_spec cs' domain with ⟨part, catId, longest, found, -⟩ | ⟨-, unknown⟩
  · rw [table] at found
    exact ⟨part, catId, longest.1, held_listed (held_of_categoryOf perm found)⟩
  · exact absurd unknown known

theorem right_of_covered {cs : Categories} {dir : Directory} (covered : Covered cs dir)
    {arrange : List (Nat × Finset (List Char)) → List (Nat × Finset (List Char))}
    (perm : ∀ l, (arrange l).Perm l) {cs' : Categories}
    (table : cs'.domains = loaded arrange cs dir) : Right cs' (Listed cs dir) := by
  -- What is said of a listed domain holds of the longest listed part of any domain.
  have answer (domain part : List Char)
      (longest : Longest '.' (fun part => ∃ catId, Listed cs dir catId part) domain part) :
      cs'.lookupDotDirectory domain ≠ ndCatUnknown ∧
        Listed cs dir (cs'.lookupDotDirectory domain) part := by
    obtain ⟨tail, ⟨catId, listed⟩, longest⟩ := longest
    obtain ⟨inner, ⟨within, ⟨holder, held⟩, nearest⟩, holders⟩ := covered catId part listed
    rcases lookupDotDirectory_spec cs' domain with ⟨found, id, first, known, same⟩ | ⟨free, -⟩
    · have kind (text : List Char) : categoryOf cs'.domains text ≠ none ↔
          ∃ catId, Held cs dir catId text := by
        rw [table]
        exact categoryOf_iff_held perm text
      have inPart : Tail '.' part found := by
        obtain ⟨other, heldFound⟩ := (kind found).mp first.2.1
        exact tail.nested first.1 (longest found first.1 ⟨other, held_listed heldFound⟩)
      obtain rfl : inner = found := by
        refine first.unique ⟨tail.trans within, (kind inner).mpr ⟨holder, held⟩, ?_⟩
        intro other tail' kind'
        obtain ⟨id', held'⟩ := (kind other).mp kind'
        have shorter := longest other tail' ⟨id', held_listed held'⟩
        exact nearest other (tail.nested tail' shorter) ⟨id', held'⟩
      rw [table] at known
      have holds := holders id (held_of_categoryOf perm known)
      rw [same]
      exact holds
    · have absent := free inner (tail.trans within)
      rw [table] at absent
      exact absurd absent (categoryOf_of_held perm held)
  intro domain
  refine ⟨⟨listed_of_known perm table, ?_⟩, fun known => ?_⟩
  · rintro ⟨part, catId, tail, listed⟩
    obtain ⟨longest, is⟩ :=
      @exists_longest _ (fun part => ∃ catId, Listed cs dir catId part) _ _ tail ⟨catId, listed⟩
    exact (answer domain longest is).1
  · obtain ⟨part, catId, tail, listed⟩ := listed_of_known perm table known
    obtain ⟨longest, is⟩ :=
      @exists_longest _ (fun part => ∃ catId, Listed cs dir catId part) _ _ tail ⟨catId, listed⟩
    exact ⟨longest, is, (answer domain longest is).2⟩

theorem covered_of_right {cs : Categories} {dir : Directory}
    (right : ∀ arrange, (∀ l, (arrange l).Perm l) → ∀ cs' : Categories,
      cs'.domains = loaded arrange cs dir → Right cs' (Listed cs dir)) : Covered cs dir := by
  intro catId domain listed
  have self : Longest '.' (fun part => ∃ catId, Listed cs dir catId part) domain domain :=
    longest_self ⟨catId, listed⟩
  have sure (arrange) (perm : ∀ l, (arrange l).Perm l) (cs' : Categories)
      (table : cs'.domains = loaded arrange cs dir) :
      cs'.lookupDotDirectory domain ≠ ndCatUnknown ∧
        Listed cs dir (cs'.lookupDotDirectory domain) domain := by
    obtain ⟨known, which⟩ := right arrange perm cs' table domain
    have found := known.mpr ⟨domain, catId, tail_self domain, listed⟩
    obtain ⟨part, longest, listed'⟩ := which found
    rw [self.unique longest] at listed'
    exact ⟨found, listed'⟩
  -- Some order shows the longest held part, and every holder is first in another one.
  let cs₀ : Categories := { domains := loaded id cs dir }
  have plain : ∀ l : List (Nat × Finset (List Char)), (id l).Perm l := fun l => .refl l
  rcases lookupDotDirectory_spec cs₀ domain with ⟨part, -, ⟨tail, some, longest⟩, -, -⟩ | ⟨-, unknown⟩
  · have held (text : List Char) : categoryOf cs₀.domains text ≠ none ↔
        ∃ holder, Held cs dir holder text := categoryOf_iff_held plain text
    have is : Longest '.' (fun part => ∃ holder, Held cs dir holder part) domain part :=
      ⟨tail, (held part).mp some, fun other tail' kind => longest other tail' ((held other).mpr kind)⟩
    refine ⟨part, is, fun holder holds => ?_⟩
    let cs₁ : Categories := { domains := loaded (inFront holder) cs dir }
    have first : cs₁.lookupDotDirectory domain = holder := by
      have front := categoryOf_inFront holds
      rcases lookupDotDirectory_spec cs₁ domain with ⟨found, id', longest', known, same⟩ | ⟨free, -⟩
      · have kind (text : List Char) : categoryOf cs₁.domains text ≠ none ↔
            ∃ holder, Held cs dir holder text := categoryOf_iff_held (inFront_perm holder) text
        obtain rfl : part = found := by
          refine longest'.unique ⟨tail, (kind part).mpr ⟨holder, holds⟩, fun other tail' some' => ?_⟩
          exact is.2.2 other tail' ((kind other).mp some')
        rw [same]
        exact Option.some.inj (known.symm.trans front)
      · exact absurd (front.symm.trans (free part tail)) (by simp)
    have answer := sure (inFront holder) (inFront_perm holder) cs₁ rfl
    rwa [first] at answer
  · exact absurd unknown (sure id plain cs₀ rfl).1

theorem acceptedFiles_none {cs : Categories} {dir : Directory} (scanned : scanDotd dir = none) :
    acceptedFiles cs dir = [] := by
  unfold scanDotd at scanned
  unfold acceptedFiles
  cases dir with
  | none => rfl
  | some entries =>
    simp only at scanned
    split at scanned
    case isTrue empty =>
      rw [Option.getD_some, empty]
      rfl
    case isFalse => cases scanned

/-- What is left of a directory without files is right if nothing is known. -/
theorem right_stale_iff {cs : Categories} {listed : Nat → List Char → Prop}
    (empty : ∀ catId domain, ¬ listed catId domain) :
    Right cs listed ↔
      ∀ domain catId, categoryOf cs.domains domain = some catId → catId = ndCatUnknown := by
  constructor
  · intro right domain catId found
    by_contra known
    rw [← lookupDotDirectory_self found] at known
    obtain ⟨part, id, -, listed'⟩ := (right domain).1.mp known
    exact empty id part listed'
  · intro unknown domain
    have none : cs.lookupDotDirectory domain = ndCatUnknown := by
      rcases lookupDotDirectory_spec cs domain with ⟨part, catId, -, found, same⟩ | ⟨-, same⟩
      · rw [same, unknown part catId found]
      · exact same
    refine ⟨⟨fun known => absurd none known, ?_⟩, fun known => absurd none known⟩
    rintro ⟨part, catId, -, listed'⟩
    exact absurd listed' (empty catId part)

/-- **Domain categories.** -/
theorem loadsRight_iff (pton : Pton) (cs : Categories) (dir : Directory) :
    LoadsRight pton cs dir ↔ Faithful pton cs dir := by
  have plain : ∀ l : List (Nat × Finset (List Char)), (id l).Perm l := fun l => .refl l
  unfold LoadsRight Faithful
  by_cases scanned : scanDotd dir = none
  · have empty : ∀ catId domain, ¬ Listed cs dir catId domain := by
      rintro catId domain ⟨text, member, -⟩
      rw [acceptedFiles_none scanned] at member
      cases member
    rw [if_pos scanned, ← right_stale_iff empty]
    constructor
    · intro right
      exact right id plain cs (by rw [loadDotDirectory_spec, if_pos scanned])
    · intro right arrange perm cs' done
      rw [loadDotDirectory_spec, if_pos scanned] at done
      cases done
      exact right
  · rw [if_neg scanned]
    by_cases stray : Stray pton cs dir
    · refine ⟨fun _ => .inl stray, fun _ arrange perm cs' done => ?_⟩
      obtain ⟨file, member, line, inside, kind⟩ := stray
      rw [loadDotDirectory_spec, if_neg scanned, if_pos] at done
      · cases done
      · exact List.any_eq_true.mpr ⟨file, member, List.any_eq_true.mpr ⟨line, inside, kind⟩⟩
    · have done (arrange) : loadDotDirectory pton arrange cs dir =
          some ({ cs.resetDomains.resetNetworks true with domains := loaded arrange cs dir },
            true) := by
        rw [loadDotDirectory_spec, if_neg scanned, if_neg]
        · rfl
        · intro some
          obtain ⟨file, member, lines⟩ := List.any_eq_true.mp some
          obtain ⟨line, inside, kind⟩ := List.any_eq_true.mp lines
          exact stray ⟨file, member, line, inside, kind⟩
      constructor
      · intro right
        refine .inr (covered_of_right fun arrange perm cs' table => ?_)
        have answers := right arrange perm _ (done arrange)
        intro domain
        have same : cs'.lookupDotDirectory domain = { cs.resetDomains.resetNetworks true with
            domains := loaded arrange cs dir : Categories }.lookupDotDirectory domain := by
          unfold lookupDotDirectory
          rw [table]
        rw [same]
        exact answers domain
      · rintro (isStray | covered) arrange perm cs' loads
        · exact absurd isStray stray
        · rw [done arrange] at loads
          cases loads
          exact right_of_covered covered perm rfl

/-! ## Two files of one category, and none -/

/-- Tables with one application category. -/
def adult : Categories := { app := { tag := (∅ : OrderedMap (List Char) Nat).set "adult".toList 1 } }

/-- `inet_pton` that reads nothing. -/
def noPton : Pton := ⟨fun _ => none, fun _ => none⟩

/-- Two files of the category, with a domain each. -/
def twoFiles : Directory := some [
  { name := "10-adult.conf".toList, text := some "dom:a.com\n".toList },
  { name := "20-adult.conf".toList, text := some "dom:b.com\n".toList }]

/-- The tables with the domain of a directory that was there before. -/
def staleDomains : Categories := { adult with domains := [(1, {"a.com".toList})] }

/-- The second file is passed over, and a directory without files leaves what was
loaded before. -/
theorem second_file_ignored :
    ¬ LoadsRight noPton adult twoFiles ∧ ¬ LoadsRight noPton staleDomains (some []) := by
  have plain : ∀ l : List (Nat × Finset (List Char)), (id l).Perm l := fun l => .refl l
  constructor
  · intro right
    have done : loadDotDirectory noPton id adult twoFiles =
        some ({ adult with domains := [(1, {"a.com".toList})] }, true) := by decide +kernel
    have listed : Listed adult twoFiles 1 "b.com".toList :=
      ⟨"dom:b.com\n".toList, by decide +kernel, by decide +kernel⟩
    have known := (right id plain _ done "b.com".toList).1.mpr ⟨_, 1, tail_self _, listed⟩
    exact known (by decide +kernel)
  · intro right
    have done : loadDotDirectory noPton id staleDomains (some []) = some (staleDomains, true) := rfl
    have known : staleDomains.lookupDotDirectory "a.com".toList ≠ ndCatUnknown := by decide +kernel
    obtain ⟨part, catId, -, text, member, -⟩ := (right id plain _ done _).1.mp known
    cases member

end NetifyAgent.CategoryDomains
