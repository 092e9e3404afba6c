import NetifyAgent.Applications
import NetifyAgent.CategoryDomains

/-! Networks of category files. No line of a network is stored and the query never
finds one, so that it is right only where nothing but the unknown category could
be found; and a line of unknown kind with an address ends the load. -/
namespace NetifyAgent.CategoryNetworks
open Lines Categories CategoryDomains RadixNetworks ApplicationNetworks

/-- The network of a line. -/
def networkLine (line : List Char) : Option (List Char) :=
  match splitLine line with
  | some (type, rest) => if type = "net".toList then some rest else none
  | none => none

/-- A line that is passed over, or of a domain or a network. -/
def knownLine (line : List Char) : Bool :=
  match splitLine line with
  | some (type, _) => type = "dom".toList || type = "net".toList
  | none => true

/-- A file without its lines of unknown kinds. -/
def knownText (text : List Char) : List Char := unlines ((lines text).filter knownLine)

/-- A directory without the lines of unknown kinds. -/
def withoutOthers (dir : Directory) : Directory :=
  dir.map (List.map fun entry => { entry with text := entry.text.map knownText })

/-- A file of a category has a line that names a network. -/
def ListedNetwork (pton : Pton) (cs : Categories) (dir : Directory) (catId : Nat)
    (network : Network) : Prop :=
  ∃ text, (catId, text) ∈ acceptedFiles cs dir ∧
    ∃ line ∈ lines text, ∃ rest, networkLine line = some rest ∧ Names pton rest network

/-- An address lies in a network. -/
def Contains (network : Network) (addr : Addr) : Prop :=
  network.1 = addr.family ∧ network.2 <+: bitsOf addr.getAddress

/-- A network is the longest of the listed ones in which an address lies. -/
def LongestListed (pton : Pton) (cs : Categories) (dir : Directory) (network : Network)
    (addr : Addr) : Prop :=
  Contains network addr ∧ ∀ catId other, ListedNetwork pton cs dir catId other →
    Contains other addr → other.2.length ≤ network.2.length

/-- Lines of unknown kinds change nothing, and after the load an address is of the
category of its longest listed network. -/
def NetworksRight (pton : Pton) (cs : Categories) (dir : Directory) : Prop :=
  ∀ arrange, (∀ l, (arrange l).Perm l) →
    loadDotDirectory pton arrange cs dir = loadDotDirectory pton arrange cs (withoutOthers dir) ∧
      ∀ cs', loadDotDirectory pton arrange cs dir = some (cs', true) →
        ∀ catId network addr, ListedNetwork pton cs dir catId network → Sized addr →
          LongestListed pton cs dir network addr → cs'.lookupDotDirectoryAddr addr = catId

/-! ## Lines of unknown kinds -/

theorem lines_knownText (text : List Char) :
    lines (knownText text) = (lines text).filter knownLine :=
  lines_unlines fun _ member => mem_lines (List.mem_filter.mp member).1

theorem domainLine_known {line : List Char} (unknown : ¬ knownLine line = true) :
    domainLine line = none := by
  unfold knownLine at unknown
  unfold domainLine
  cases cut : splitLine line with
  | none => rfl
  | some parts =>
    obtain ⟨type, rest⟩ := parts
    rw [cut] at unknown
    have other : type ≠ "dom".toList := by
      intro dom
      exact unknown (by simp [dom])
    exact if_neg other

theorem strayLine_known {pton : Pton} {line : List Char} (known : knownLine line = true) :
    strayLine pton line = false := by
  unfold knownLine at known
  unfold strayLine
  cases cut : splitLine line with
  | none => rfl
  | some parts =>
    obtain ⟨type, rest⟩ := parts
    rw [cut] at known
    simp only [Bool.or_eq_true, decide_eq_true_eq] at known
    rcases known with dom | net
    · simp only [dom, ne_eq, not_true_eq_false, decide_false, Bool.false_and]
    · simp only [net, ne_eq, not_true_eq_false, decide_false, Bool.false_and, Bool.and_false]

theorem domainsOf_knownText (text : List Char) : domainsOf (knownText text) = domainsOf text := by
  unfold domainsOf
  rw [lines_knownText]
  ext domain
  simp only [List.mem_toFinset, List.mem_filterMap, List.mem_filter]
  constructor
  · rintro ⟨line, ⟨member, -⟩, found⟩
    exact ⟨line, member, found⟩
  · rintro ⟨line, member, found⟩
    refine ⟨line, ⟨member, ?_⟩, found⟩
    by_contra unknown
    rw [domainLine_known unknown] at found
    cases found

theorem stray_knownText (pton : Pton) (text : List Char) :
    (lines (knownText text)).any (strayLine pton) = false := by
  rw [lines_knownText, List.any_eq_false]
  intro line member stray
  rw [strayLine_known (List.mem_filter.mp member).2] at stray
  cases stray

section
variable {pton : Pton} {cs : Categories} {dir : Directory}
  {arrange : List (Nat × Finset (List Char)) → List (Nat × Finset (List Char))}

theorem scanDotd_withoutOthers : scanDotd (withoutOthers dir) = none ↔ scanDotd dir = none := by
  cases dir with
  | none => exact Iff.rfl
  | some entries =>
    have filtered : (entries.map fun entry => { entry with text := entry.text.map knownText }).filter
        DirEntry.taken = (entries.filter DirEntry.taken).map
          fun entry => { entry with text := entry.text.map knownText } := by
      rw [List.filter_map]
      rfl
    simp only [withoutOthers, Option.map_some, scanDotd, filtered, List.map_eq_nil_iff]
    by_cases empty : entries.filter DirEntry.taken = []
    · simp [empty]
    · simp [empty]

theorem acceptedFiles_withoutOthers : acceptedFiles cs (withoutOthers dir) =
    (acceptedFiles cs dir).map fun file => (file.1, knownText file.2) := by
  cases dir with
  | none => rfl
  | some entries =>
    simp only [acceptedFiles, withoutOthers, Option.map_some, Option.getD_some]
    induction entries with
    | nil => rfl
    | cons entry entries ih =>
      have same : ({ entry with text := entry.text.map knownText } : DirEntry).taken =
        entry.taken := rfl
      rw [List.map_cons, List.filter_cons, List.filter_cons, same]
      split
      · have found : cs.accepted { entry with text := entry.text.map knownText } =
            (cs.accepted entry).map fun file => (file.1, knownText file.2) := by
          unfold accepted
          cases categoryTag entry.name with
          | none => rfl
          | some catTag =>
            cases known : cs.app.tag.get catTag with
            | none => simp [known]
            | some catId => cases entry.text <;> simp [known]
        cases accept : cs.accepted entry with
        | none =>
          rw [accept] at found
          rw [List.filterMap_cons_none found, List.filterMap_cons_none accept]
          exact ih
        | some file =>
          rw [accept] at found
          rw [List.filterMap_cons_some found, List.filterMap_cons_some accept, List.map_cons, ih]
      · exact ih

/-- Without the lines of unknown kinds the load ends, with the same table. -/
theorem load_withoutOthers : loadDotDirectory pton arrange cs (withoutOthers dir) =
    if scanDotd dir = none then some (cs, true)
    else some ({ cs.resetDomains.resetNetworks true with domains := loaded arrange cs dir },
      true) := by
  have clean : ((acceptedFiles cs (withoutOthers dir)).any fun file =>
      (lines file.2).any (strayLine pton)) = false := by
    rw [acceptedFiles_withoutOthers, List.any_map, List.any_eq_false]
    intro file _ stray
    exact absurd stray (by simp [stray_knownText])
  have table : (acceptedFiles cs (withoutOthers dir)).foldl (addFile arrange) [] =
      loaded arrange cs dir := by
    have step : ∀ domains file, addFile arrange domains (file.1, knownText file.2) =
        addFile arrange domains file := by
      intro domains file
      unfold addFile
      rw [domainsOf_knownText]
    rw [acceptedFiles_withoutOthers, List.foldl_map]
    simp only [step]
    rfl
  rw [loadDotDirectory_spec, clean, table]
  by_cases scanned : scanDotd dir = none
  · rw [if_pos scanned, if_pos (scanDotd_withoutOthers.mpr scanned)]
  · rw [if_neg scanned, if_neg fun none => scanned (scanDotd_withoutOthers.mp none)]
    rfl

theorem load_eq_iff : loadDotDirectory pton arrange cs dir =
    loadDotDirectory pton arrange cs (withoutOthers dir) ↔ ¬ Stray pton cs dir := by
  rw [load_withoutOthers, loadDotDirectory_spec]
  by_cases scanned : scanDotd dir = none
  · rw [if_pos scanned, if_pos scanned]
    refine ⟨fun _ => ?_, fun _ => rfl⟩
    rintro ⟨file, member, -⟩
    rw [acceptedFiles_none scanned] at member
    cases member
  · rw [if_neg scanned, if_neg scanned]
    have any : ((acceptedFiles cs dir).any fun file => (lines file.2).any (strayLine pton)) = true ↔
        Stray pton cs dir := by
      simp only [List.any_eq_true, Stray]
    by_cases stray : Stray pton cs dir
    · rw [if_pos (any.mpr stray)]
      simp [stray]
    · rw [if_neg fun some => stray (any.mp some)]
      exact ⟨fun _ => stray, fun _ => rfl⟩

end

/-- **Network categories.** -/
theorem networksRight_iff (pton : Pton) (cs : Categories) (dir : Directory) :
    NetworksRight pton cs dir ↔ ¬ Stray pton cs dir ∧
      ∀ catId network addr, ListedNetwork pton cs dir catId network → Sized addr →
        LongestListed pton cs dir network addr → catId = ndCatUnknown := by
  constructor
  · intro right
    have plain : ∀ l : List (Nat × Finset (List Char)), (id l).Perm l := fun l => .refl l
    obtain ⟨same, answers⟩ := right id plain
    refine ⟨load_eq_iff.mp same, fun catId network addr listed sized longest => ?_⟩
    rw [load_withoutOthers] at same
    split at same
    · exact (answers _ same catId network addr listed sized longest).symm
    · exact (answers _ same catId network addr listed sized longest).symm
  · rintro ⟨clean, unknown⟩ arrange -
    refine ⟨load_eq_iff.mpr clean, fun cs' _ catId network addr listed sized longest => ?_⟩
    exact (unknown catId network addr listed sized longest).symm

/-! ## A network and a line of another kind -/

/-- A file with one line. -/
def oneLine (line : String) : Directory :=
  some [{ name := "10-adult.conf".toList, text := some line.toList }]

/-- A text names networks of one length. -/
theorem names_length {text : List Char} {network : Network} (names : Names tenPton text network)
    {entry : RadixNetworkEntry 32} (family : (Addr.ofText tenPton text).family = .inet)
    (read : RadixNetworkEntry.create RadixNetworkEntry.read4 (Addr.ofText tenPton text) = some entry) :
    network.2.length = entry.prefixLen := by
  have stands := stands_names names
  rcases stands.ip with inet | inet6
  · have same := (stands.inet inet).2.2
    rw [read] at same
    rw [Option.some.inj same]
    rfl
  · have other := (stands.inet6 inet6).1
    rw [family] at other
    cases other

/-- A listed network is not found, and a line of another kind ends the load. -/
theorem network_not_found : ¬ NetworksRight tenPton adult (oneLine "net:10.0.0.0/8") ∧
    ¬ NetworksRight tenPton adult (oneLine "ip:10.0.0.0/8") := by
  have plain : ∀ l : List (Nat × Finset (List Char)), (id l).Perm l := fun l => .refl l
  constructor
  · intro right
    have files : acceptedFiles adult (oneLine "net:10.0.0.0/8") =
        [(1, "net:10.0.0.0/8".toList)] := by decide +kernel
    have listed : ListedNetwork tenPton adult (oneLine "net:10.0.0.0/8") 1 wide.network :=
      ⟨"net:10.0.0.0/8".toList, by rw [files]; exact List.mem_singleton.mpr rfl,
        "net:10.0.0.0/8".toList, by decide +kernel, wide.text, by decide +kernel, wide_names⟩
    have longest : LongestListed tenPton adult (oneLine "net:10.0.0.0/8") wide.network
        { family := .inet, sinAddr := [10, 1, 0, 1] } := by
      refine ⟨⟨rfl, by decide +kernel⟩, ?_⟩
      rintro catId other ⟨text, member, line, inside, rest, found, names⟩ -
      rw [files, List.mem_singleton] at member
      cases member
      have only : lines "net:10.0.0.0/8".toList = ["net:10.0.0.0/8".toList] := by decide +kernel
      rw [only, List.mem_singleton] at inside
      cases inside
      have text : networkLine "net:10.0.0.0/8".toList = some wide.text := by decide +kernel
      rw [text] at found
      cases found
      exact Nat.le_of_eq (names_length names (by decide +kernel) rfl)
    have done : loadDotDirectory tenPton id adult (oneLine "net:10.0.0.0/8") =
        some (adult, true) := by decide +kernel
    have answer := (right id plain).2 _ done 1 wide.network _ listed
      ⟨fun _ => rfl, fun other => by cases other⟩ longest
    cases answer
  · intro right
    apply load_eq_iff.mp (right id plain).1
    exact ⟨(1, "ip:10.0.0.0/8".toList), by decide +kernel, "ip:10.0.0.0/8".toList,
      by decide +kernel, by decide +kernel⟩

end NetifyAgent.CategoryNetworks
