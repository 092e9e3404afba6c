import NetifyAgent.SignatureExport
import NetifyAgent.Lib.Suffixes

/-! `Find` of a domain in tables that were loaded. The loop gives up on a name without a dot
that is in no list of top level names. The list is filled with the domains and outlives them:
every domain without a dot is in it, and what else is in it is no domain. -/
namespace NetifyAgent.DomainLookup
open Lines Suffixes NdApplications SignatureExport NetworkTexts FailedLoads.SignatureFiles

/-- The answer that a table of domains gives: the application of the longest part of the
domain that is in the table. -/
structure Answers (domains : AList fun _ : List Char => Nat) (domain : List Char) (id : Nat) :
    Prop where
  found : ∀ part, Longest '.' (fun part => part ≠ [] ∧ domains.lookup part ≠ none) domain part →
    domains.lookup part = some id
  unknown : (∀ part, Tail '.' domain part → part ≠ [] → domains.lookup part = none) →
    id = ndAppUnknown

variable {pton : Pton} {regex : Regex} {self : NdApplications}
  {visit : List ((_ : List Char) × List Char) → List ((_ : List Char) × List Char)}

/-- Every domain without a dot is a top level name. -/
def Known (self : NdApplications) : Prop :=
  ∀ domain, '.' ∉ domain → self.domains.lookup domain ≠ none → domain ∈ self.tlds

theorem known_of_alike {fresh : NdApplications} (alike : Alike self fresh) : Known self := by
  intro domain plain present
  exact (alike.known domain plain (Option.isSome_iff_ne_none.mpr present)).1

theorem alike_load (self : NdApplications) (text : List Char) :
    Alike (self.load pton regex (some text)).1 (load pton regex {} (some text)).1 :=
  alike_loadLines (alike_reset self) 0 (lines text)

theorem alike_loadLegacy (self : NdApplications) (text : List Char) :
    Alike (self.loadLegacy pton (some text)).1 (loadLegacy pton {} (some text)).1 :=
  alike_loadLegacyLines (alike_reset self) 0 (lines text)

/-- Loading fills the tables as if there had been none before. -/
theorem known_reached (reached : Reachable pton regex self) : Known self := by
  induction reached with
  | fresh =>
    intro domain _ present
    exact absurd (AList.lookup_empty domain) present
  | @load self _ file ih =>
    cases file with
    | none => exact ih
    | some text =>
      exact known_of_alike (alike_load self text)
  | @loadLegacy self _ file ih =>
    cases file with
    | none => exact ih
    | some text =>
      exact known_of_alike (alike_loadLegacy self text)

/-- The answer of a table does not depend on anything else. -/
theorem Answers.unique {domains : AList fun _ : List Char => Nat} {domain : List Char}
    {id id' : Nat} (here : Answers domains domain id) (there : Answers domains domain id') : id' = id := by
  by_cases stored : ∃ part, Tail '.' domain part ∧ part ≠ [] ∧ domains.lookup part ≠ none
  · obtain ⟨part, tail, member⟩ := stored
    obtain ⟨longest, first⟩ : ∃ longest, Longest '.'
        (fun part => part ≠ [] ∧ domains.lookup part ≠ none) domain longest :=
      exists_longest tail member
    have same := (here.found longest first).symm.trans (there.found longest first)
    exact (Option.some.inj same).symm
  · have free : ∀ part, Tail '.' domain part → part ≠ [] → domains.lookup part = none := by
      intro part tail nonempty
      by_contra present
      exact stored ⟨part, tail, nonempty, present⟩
    rw [here.unknown free, there.unknown free]

/-- **The loop** finds the longest part that is in the table. -/
theorem findParts_answers (known : Known self) {rounds : Nat} {it : List Char}
    (enough : it.length < rounds) :
    Answers self.domains it ((self.findParts rounds it).getD ndAppUnknown) := by
  induction rounds generalizing it with
  | zero => omega
  | succ rounds ih =>
    unfold findParts
    by_cases empty : it = []
    · rw [if_pos empty]
      subst empty
      refine ⟨fun part longest => ?_, fun _ => rfl⟩
      have short := longest.1.length_le
      exact absurd (List.length_eq_zero_iff.mp (by simpa using short)) longest.2.1.1
    rw [if_neg empty]
    -- a part that is in the table is the longest one of itself
    have whole {id : Nat} (here : self.domains.lookup it = some id) :
        Answers self.domains it ((some id).getD ndAppUnknown) := by
      refine ⟨fun part longest => ?_, fun free => ?_⟩
      · have alone : Longest '.' (fun part => part ≠ [] ∧ self.domains.lookup part ≠ none) it it :=
          longest_self ⟨empty, by rw [here]; simp⟩
        rw [alone.unique longest, here]
        rfl
      · rw [free it (tail_self it) empty] at here
        cases here
    cases cut : cutFirst '.' it with
    | none =>
      have only (part : List Char) : Tail '.' it part ↔ part = it := tail_uncut cut
      cases here : self.domains.lookup it with
      | none =>
        simp only [ite_self]
        refine ⟨fun part longest => ?_, fun _ => rfl⟩
        rw [(only part).mp longest.1] at longest
        exact absurd here longest.2.1.2
      | some id =>
        have top := known it (cutFirst_eq_none.mp cut) (by rw [here]; simp)
        simp only [if_pos top]
        exact whole here
    | some parts =>
      obtain ⟨start, rest⟩ := parts
      cases here : self.domains.lookup it with
      | some id => exact whole here
      | none =>
        have shorter : rest.length < rounds := by
          obtain ⟨-, rfl⟩ := cutFirst_eq_some.mp cut
          rw [List.length_append, List.length_cons] at enough
          omega
        have later := ih shorter
        by_cases ended : rest = []
        · subst ended
          have only (part : List Char) : Tail '.' it part ↔ part = it := tail_ended cut
          refine ⟨fun part longest => ?_, fun _ => ?_⟩
          · rw [(only part).mp longest.1] at longest
            exact absurd here longest.2.1.2
          · apply later.unknown
            intro part tail nonempty
            have short := tail.length_le
            exact absurd (List.length_eq_zero_iff.mp (by simpa using short)) nonempty
        · have split (part : List Char) : Tail '.' it part ↔ part = it ∨ Tail '.' rest part :=
            tail_cut cut ended
          refine ⟨fun part longest => later.found part ⟨?_, longest.2.1, fun other tail kind => ?_⟩,
            fun free => later.unknown fun part tail nonempty =>
              free part ((split part).mpr (.inr tail)) nonempty⟩
          · rcases (split part).mp longest.1 with rfl | tail
            · exact absurd here longest.2.1.2
            · exact tail
          · exact longest.2.2 other ((split other).mpr (.inr tail)) kind

/-- **`Find` of a domain** answers with the longest part that is in the table, whatever was
loaded before. -/
theorem findDomain_longest (permutes : ∀ entries, (visit entries).Perm entries)
    (reached : Reachable pton regex self) (plain : self.domainXforms = ∅) (domain : List Char) :
    Answers self.domains domain (self.findDomain regex visit domain) ∧
      (∀ other, Reachable pton regex other → other.domainXforms = ∅ →
        other.domains = self.domains →
        other.findDomain regex visit domain = self.findDomain regex visit domain) ∧
      ∀ text, (self.load pton regex (some text)).1.findDomain regex visit domain =
          (load pton regex {} (some text)).1.findDomain regex visit domain ∧
        (self.loadLegacy pton (some text)).1.findDomain regex visit domain =
          (loadLegacy pton {} (some text)).1.findDomain regex visit domain := by
  have answers {self : NdApplications} (reached : Reachable pton regex self)
      (plain : self.domainXforms = ∅) :
      Answers self.domains domain (self.findDomain regex visit domain) := by
    have none : visit self.domainXforms.entries = [] := by
      rw [plain]
      exact List.perm_nil.mp (permutes [])
    by_cases empty : domain = []
    · subst empty
      have found : Answers self.domains [] _ :=
        findParts_answers (known_reached reached) Nat.zero_lt_one
      exact found
    · have search : searches regex visit self domain = [domain] := by
        unfold searches
        rw [if_neg empty, none]
        rfl
      have parts := findParts_answers (known_reached reached) (Nat.lt_succ_self domain.length)
      unfold findDomain
      rw [search]
      cases found : self.findParts (domain.length + 1) domain with
      | none =>
        rw [found] at parts
        simpa [found] using parts
      | some id =>
        rw [found] at parts
        simpa [found] using parts
  refine ⟨answers reached plain, fun other reached' plain' same => ?_, fun text => ⟨?_, ?_⟩⟩
  · have there := answers reached' plain'
    rw [same] at there
    exact (answers reached plain).unique there
  · exact (sameAnswers_alike (alike_load self text)).findDomain domain
  · exact (sameAnswers_alike (alike_loadLegacy self text)).findDomain domain

/-! ## A table that is replaced -/

/-- Tables with a top level name. -/
def topLevel : NdApplications := ofLines ["app:1:first", "dom:1:com"]

/-- A second table without it. -/
def replaced : NdApplications :=
  (load plainPton wordRegex topLevel
    (some (unlines (["app:2:second", "dom:2:example.com"].map String.toList)))).1

example : "com".toList ∈ replaced.tlds ∧
    replaced.findDomain wordRegex id "www..example.com".toList = 2 ∧
    replaced.findDomain wordRegex id "com".toList = ndAppUnknown := by decide +kernel

/-- The second table answers, and the first one has no say in it. -/
theorem replaced_longest : Answers replaced.domains "www..example.com".toList
    (replaced.findDomain wordRegex id "www..example.com".toList) := by
  have plain : replaced.domainXforms = ∅ := AList.ext (by decide +kernel)
  exact (findDomain_longest (fun _ => .refl _) (.load (ofLines_reachable _) _) plain _).1

end NetifyAgent.DomainLookup
