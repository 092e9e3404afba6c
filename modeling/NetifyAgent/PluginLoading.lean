import NetifyAgent.Plugins

/-! What is configured is loaded. `AddPlugin` tries every library that it accepts, so that
`Load` throws for none of them, and the names of the types are no tags. -/
namespace NetifyAgent.PluginLoading
open Substrings PluginManager

/-! ## Tags -/

/-- The tags that `AddPlugin` takes for a type: a sink is passed by where `proc-` stands
anywhere in its tag. -/
def Kind (tag : PluginTag) : PluginType → Prop
  | .typeBase => False
  | .typeProc => procWord <+: tag
  | .typeSink => sinkWord <+: tag ∧ ¬ procWord <:+: tag

theorem find_eq_zero {word tag : List Char} : find word tag = some 0 ↔ word <+: tag := by
  rw [find_eq_some_iff]
  exact ⟨fun found => found.1, fun here => ⟨here, fun _ early => absurd early (Nat.not_lt_zero _)⟩⟩

theorem pluginKind_eq_some {tag : PluginTag} {type : PluginType} :
    pluginKind tag = some type ↔ Kind tag type := by
  unfold pluginKind
  cases proc : find procWord tag with
  | some p =>
    have inside : procWord <:+: tag := by
      by_contra absent
      rw [find_eq_none.mpr absent] at proc
      cases proc
    by_cases first : p = 0
    · have here := find_eq_zero.mp (first ▸ proc)
      cases type <;> simp [first, Kind, here, inside]
    · have elsewhere : ¬ procWord <+: tag := fun here =>
        first (Option.some.inj (proc.symm.trans (find_eq_zero.mpr here)))
      cases type <;> simp [first, Kind, elsewhere, inside]
  | none =>
    have absent := find_eq_none.mp proc
    have elsewhere : ¬ procWord <+: tag := fun here => absent here.isInfix
    cases sink : find sinkWord tag with
    | some p =>
      by_cases first : p = 0
      · have here := find_eq_zero.mp (first ▸ sink)
        cases type <;> simp [first, Kind, here, absent, elsewhere]
      · have not : ¬ sinkWord <+: tag := fun here =>
          first (Option.some.inj (sink.symm.trans (find_eq_zero.mpr here)))
        cases type <;> simp [first, Kind, not, elsewhere]
    | none =>
      have not : ¬ sinkWord <+: tag := fun here => find_eq_none.mp sink here.isInfix
      cases type <;> simp [Kind, not, elsewhere]

/-- The name of a type is none of its tags. -/
theorem not_kind_name (type : PluginType) : ¬ Kind type.name type := by
  cases type with
  | typeBase => exact not_false
  | typeProc =>
    have fifth : procWord[4]? = some '-' ∧ PluginType.typeProc.name[4]? = some 'e' := by decide
    intro here
    have same := here.getElem (by decide : 4 < procWord.length)
    rw [List.getElem?_eq_some_iff, List.getElem?_eq_some_iff] at fifth
    obtain ⟨⟨_, word⟩, ⟨_, name⟩⟩ := fifth
    exact absurd (word.symm.trans (same.trans name)) (by decide)
  | typeSink => exact fun here => absurd here.1.length_le (by decide)

/-! ## Configuration -/

variable {host : PluginHost} {tables tables' : PluginTables}

/-- What a table holds was tried. -/
def Tried (host : PluginHost) (tables : PluginTables) : Prop :=
  ∀ type tag plugin, (tables.get type).get tag = some plugin →
    Kind tag type ∧ host.loader tag plugin.1 plugin.2 = some type

theorem get_insert {type : PluginType} {tag : PluginTag} {plugin : List Char × PluginParams}
    (inserted : tables.insert type tag plugin = some tables') (type' : PluginType) :
    tables'.get type' =
      if type' = type then (tables.get type).set tag plugin else tables.get type' := by
  unfold PluginTables.insert at inserted
  split at inserted
  · cases inserted
  · cases type with
    | typeBase => cases inserted
    | typeProc => cases inserted; cases type' <;> rfl
    | typeSink => cases inserted; cases type' <;> rfl

/-- A section: the tables keep what they have, and get what it configures. -/
theorem addSection_spec {e : PluginTag × PluginSection}
    (added : addSection host tables e = some tables') (tried : Tried host tables) :
    Tried host tables' ∧ ∀ type tag, ((tables'.get type).get tag).isSome ↔
      ((tables.get type).get tag).isSome ∨ tag = e.1 ∧ e.2.enable = true ∧ Kind tag type := by
  have other (none : ∀ type, e.2.enable = true → ¬ Kind e.1 type) (same : tables' = tables) :
      Tried host tables' ∧ ∀ type tag, ((tables'.get type).get tag).isSome ↔
        ((tables.get type).get tag).isSome ∨ tag = e.1 ∧ e.2.enable = true ∧ Kind tag type := by
    subst same
    refine ⟨tried, fun type tag => ⟨.inl, ?_⟩⟩
    rintro (old | ⟨rfl, enabled, kind⟩)
    · exact old
    · exact absurd kind (none type enabled)
  unfold addSection at added
  cases kind : pluginKind e.1 with
  | none =>
    simp only [kind] at added
    cases added
    refine other (fun type _ here => ?_) rfl
    rw [pluginKind_eq_some.mpr here] at kind
    cases kind
  | some type =>
    simp only [kind] at added
    split at added
    · next disabled =>
      cases added
      exact other (fun _ enabled => absurd enabled disabled) rfl
    · next enabled =>
      split at added
      · cases added
      · split at added
        · cases added
        · next loads =>
          rw [not_not] at enabled loads
          have here := pluginKind_eq_some.mp kind
          have got := get_insert added
          constructor
          · intro type' tag plugin stored
            rw [got] at stored
            split at stored
            · next same =>
              subst same
              rw [OrderedMap.get_set] at stored
              split at stored
              · next at_ =>
                cases stored
                exact at_ ▸ ⟨here, loads⟩
              · exact tried _ _ _ stored
            · exact tried _ _ _ stored
          · intro type' tag
            rw [got]
            by_cases same : type' = type
            · subst same
              rw [if_pos rfl, OrderedMap.get_set]
              by_cases at_ : tag = e.1
              · subst at_
                simp [enabled, here]
              · simp [at_]
            · rw [if_neg same]
              refine ⟨.inl, ?_⟩
              rintro (old | ⟨rfl, -, there⟩)
              · exact old
              · have both := kind.symm.trans (pluginKind_eq_some.mpr there)
                exact absurd (Option.some.inj both).symm same

theorem tried_empty : Tried host {} := by
  intro type tag plugin stored
  cases type <;> cases stored

/-- A file says that a plugin is enabled. -/
def PluginFile.Enables (file : PluginFile) (tag : PluginTag) : Prop :=
  ∃ s, file.sections.get tag = some s ∧ s.enable = true

theorem addPlugin_spec {file : PluginFile} (added : addPlugin host tables file = some tables')
    (tried : Tried host tables) :
    Tried host tables' ∧ ∀ type tag, ((tables'.get type).get tag).isSome ↔
      ((tables.get type).get tag).isSome ∨ PluginFile.Enables file tag ∧ Kind tag type := by
  have all (entries : List (PluginTag × PluginSection)) {tables : PluginTables}
      (added : entries.foldlM (addSection host) tables = some tables') (tried : Tried host tables) :
      Tried host tables' ∧ ∀ type tag, ((tables'.get type).get tag).isSome ↔
        ((tables.get type).get tag).isSome ∨
          (∃ e ∈ entries, tag = e.1 ∧ e.2.enable = true) ∧ Kind tag type := by
    induction entries generalizing tables with
    | nil =>
      cases added
      exact ⟨tried, fun type tag => by simp⟩
    | cons e rest ih =>
      rw [List.foldlM_cons] at added
      obtain ⟨next, here, later⟩ := Option.bind_eq_some_iff.mp added
      obtain ⟨triedNext, gets⟩ := addSection_spec here tried
      obtain ⟨triedLast, gets'⟩ := ih later triedNext
      refine ⟨triedLast, fun type tag => ?_⟩
      rw [gets', gets]
      simp only [List.mem_cons, exists_eq_or_imp]
      tauto
  unfold addPlugin at added
  split at added
  · cases added
  · obtain ⟨triedLast, gets⟩ := all _ added tried
    refine ⟨triedLast, fun type tag => (gets type tag).trans (or_congr_right (and_congr_left' ?_))⟩
    constructor
    · rintro ⟨e, member, rfl, enabled⟩
      exact ⟨e.2, OrderedMap.mem_entries.mp member, enabled⟩
    · rintro ⟨s, stored, enabled⟩
      exact ⟨(tag, s), OrderedMap.mem_entries.mpr stored, rfl, enabled⟩

/-- The plugins that some files configure. -/
def Configured (files : List PluginFile) (type : PluginType) (tag : PluginTag) : Prop :=
  (∃ file ∈ files, PluginFile.Enables file tag) ∧ Kind tag type

theorem addPlugins_spec {files : List PluginFile}
    (added : files.foldlM (addPlugin host) tables = some tables') (tried : Tried host tables) :
    Tried host tables' ∧ ∀ type tag, ((tables'.get type).get tag).isSome ↔
      ((tables.get type).get tag).isSome ∨ Configured files type tag := by
  induction files generalizing tables with
  | nil =>
    cases added
    exact ⟨tried, fun type tag => by simp [Configured]⟩
  | cons file rest ih =>
    rw [List.foldlM_cons] at added
    obtain ⟨next, here, later⟩ := Option.bind_eq_some_iff.mp added
    obtain ⟨triedNext, gets⟩ := addPlugin_spec here tried
    obtain ⟨triedLast, gets'⟩ := ih later triedNext
    refine ⟨triedLast, fun type tag => ?_⟩
    rw [gets', gets]
    simp only [Configured, List.mem_cons, exists_eq_or_imp]
    tauto

/-! ## Loading -/

/-- The plugins of a table, numbered in the order of their tags. -/
def loaded (t : PluginType) (create : Bool) :
    Nat → List (PluginTag × List Char × PluginParams) → List (PluginTag × Plugin)
  | _, [] => []
  | made, e :: rest =>
    (e.1, { made, type := t, created := create }) :: loaded t create (made + 1) rest

theorem loaded_tags (t : PluginType) (create : Bool) (made : Nat)
    (entries : List (PluginTag × List Char × PluginParams)) :
    (loaded t create made entries).map Prod.fst = entries.map Prod.fst := by
  induction entries generalizing made with
  | nil => rfl
  | cons e rest ih => rw [loaded, List.map_cons, List.map_cons, ih]

theorem mem_loaded {t : PluginType} {create : Bool} {made : Nat}
    {entries : List (PluginTag × List Char × PluginParams)} {e : PluginTag × Plugin}
    (member : e ∈ loaded t create made entries) :
    ∃ i < entries.length, e.2 = { made := made + i, type := t, created := create } := by
  induction entries generalizing made with
  | nil => cases member
  | cons first rest ih =>
    rcases List.mem_cons.mp member with rfl | later
    · exact ⟨0, Nat.zero_lt_succ _, rfl⟩
    · obtain ⟨i, inside, same⟩ := ih later
      refine ⟨i + 1, Nat.succ_lt_succ inside, same.trans ?_⟩
      rw [Nat.add_assoc, Nat.add_comm 1 i]

theorem loaded_made (t : PluginType) (create : Bool) (made : Nat)
    (entries : List (PluginTag × List Char × PluginParams)) :
    (loaded t create made entries).map (fun e => e.2.made) = List.range' made entries.length := by
  induction entries generalizing made with
  | nil => rfl
  | cons e rest ih => rw [loaded, List.map_cons, ih, List.length_cons, List.range'_succ]

theorem put_last {ν : Type} {entries : List (PluginTag × ν)} {k : PluginTag} (v : ν)
    (last : ∀ e ∈ entries, e.1 < k) : OrderedMap.put k v entries = entries ++ [(k, v)] := by
  induction entries with
  | nil => rfl
  | cons e rest ih =>
    have less := last e List.mem_cons_self
    rw [OrderedMap.put, if_neg (lt_asymm less), if_neg (ne_of_gt less),
      ih fun e' member => last e' (List.mem_cons_of_mem _ member)]
    rfl

theorem get_eq_none {ν : Type} {m : OrderedMap PluginTag ν} {k : PluginTag}
    (absent : ∀ e ∈ m.entries, e.1 ≠ k) : m.get k = none := by
  rw [OrderedMap.get, Option.map_eq_none_iff, List.find?_eq_none]
  exact fun e member => by simpa using absent e member

/-- A round of the loop for a library that was tried. -/
theorem loadPlugin_eq (create : Bool) {t : PluginType} {m : PluginManager}
    {e : PluginTag × List Char × PluginParams} (kind : Kind e.1 t)
    (loads : host.loader e.1 e.2.1 e.2.2 = some t)
    (before : ∀ e' ∈ (m.table t).entries, Kind e'.1 t ∧ e'.1 < e.1) :
    loadPlugin host t create m e = .ok (PluginManager.setTable { m with made := m.made + 1 } t
      ((m.table t).set e.1 { made := m.made, type := t, created := create })) := by
  have table : PluginManager.table { m with made := m.made + 1 } t = m.table t := by
    cases t <;> rfl
  have named : (m.table t).get t.name = none := get_eq_none fun e' member same =>
    not_kind_name t (same ▸ (before e' member).1)
  have fresh : (m.table t).get e.1 = none := get_eq_none fun e' member =>
    ne_of_lt (before e' member).2
  have known : t ≠ .typeBase := by
    rintro rfl
    exact kind
  unfold loadPlugin
  simp only [loads, ne_eq, not_true_eq_false, if_false, table, named, fresh, known,
    Option.isSome_none, Bool.false_eq_true]

theorem setTable_table {m : PluginManager} {t : PluginType} (known : t ≠ .typeBase)
    (plugins : OrderedMap PluginTag Plugin) (t' : PluginType) :
    (m.setTable t plugins).table t' = if t' = t then plugins else m.table t' := by
  cases t with
  | typeBase => exact absurd rfl known
  | typeProc => cases t' <;> rfl
  | typeSink => cases t' <;> rfl

/-- **The loop over the plugins of a type** puts them all behind what its table has. -/
theorem loadPlugins_eq (create : Bool) {t : PluginType}
    {entries : List (PluginTag × List Char × PluginParams)} (known : t ≠ .typeBase)
    (fits : ∀ e ∈ entries, Kind e.1 t ∧ host.loader e.1 e.2.1 e.2.2 = some t)
    (sorted : entries.Pairwise fun a b => a.1 < b.1) {m : PluginManager}
    (before : ∀ e' ∈ (m.table t).entries, Kind e'.1 t ∧ ∀ e ∈ entries, e'.1 < e.1) :
    ∃ m', entries.foldlM (loadPlugin host t create) m = .ok m' ∧
      (m'.table t).entries = (m.table t).entries ++ loaded t create m.made entries ∧
      (∀ t' ≠ t, m'.table t' = m.table t') ∧ m'.made = m.made + entries.length ∧
      m'.stray = m.stray := by
  induction entries generalizing m with
  | nil => exact ⟨m, rfl, (List.append_nil _).symm, fun _ _ => rfl, rfl, rfl⟩
  | cons e rest ih =>
    obtain ⟨kind, loads⟩ := fits e List.mem_cons_self
    have here := loadPlugin_eq create kind loads fun e' member =>
      ⟨(before e' member).1, (before e' member).2 e List.mem_cons_self⟩
    obtain ⟨next, made⟩ : ∃ next, next = PluginManager.setTable { m with made := m.made + 1 } t
      ((m.table t).set e.1 { made := m.made, type := t, created := create }) := ⟨_, rfl⟩
    rw [← made] at here
    have table : (next.table t).entries = (m.table t).entries ++
        [(e.1, { made := m.made, type := t, created := create })] := by
      rw [made, setTable_table known, if_pos rfl]
      exact put_last _ fun e' member => (before e' member).2 e List.mem_cons_self
    have others (t' : PluginType) (other : t' ≠ t) : next.table t' = m.table t' := by
      rw [made, setTable_table known, if_neg other]
      cases t' <;> rfl
    have count : next.made = m.made + 1 ∧ next.stray = m.stray := by
      rw [made]
      cases t <;> exact ⟨rfl, rfl⟩
    obtain ⟨m', done, tables, others', made', stray⟩ :=
      ih (fun e' member => fits e' (List.mem_cons_of_mem _ member)) sorted.of_cons (m := next)
        (by
          intro e' member
          rw [table, List.mem_append, List.mem_singleton] at member
          rcases member with old | rfl
          · exact ⟨(before e' old).1, fun e'' later =>
              (before e' old).2 e'' (List.mem_cons_of_mem _ later)⟩
          · exact ⟨kind, fun e'' later => List.rel_of_pairwise_cons sorted later⟩)
    refine ⟨m', ?_, ?_, fun t' other => (others' t' other).trans (others t' other), ?_,
      stray.trans count.2⟩
    · rw [List.foldlM_cons, here]
      exact done
    · rw [tables, table, count.1, List.append_assoc]
      rfl
    · rw [made', count.1, List.length_cons]
      omega

/-- **What is configured is loaded.** If every plugin configuration file is accepted, `Load`
throws nothing and leaves no plugin behind; its tables hold a plugin for each section that is
enabled and no other, and each is an object of its own, of the type of its table, whose
thread was created. -/
theorem load_configured {files : List PluginFile}
    (added : files.foldlM (addPlugin host) {} = some tables) :
    ∃ m, load host tables .typeBase true {} = .ok m ∧ m.stray = [] ∧
      (∀ type tag, ((m.table type).get tag).isSome ↔ Configured files type tag) ∧
      (∀ type, ∀ e ∈ (m.table type).entries, e.2.type = type ∧ e.2.created = true) ∧
      ((m.processors.entries ++ m.sinks.entries).map fun e => e.2.made) = List.range m.made := by
  obtain ⟨tried, gets⟩ := addPlugins_spec added tried_empty
  have fits (type : PluginType) : ∀ e ∈ (tables.get type).entries,
      Kind e.1 type ∧ host.loader e.1 e.2.1 e.2.2 = some type :=
    fun e member => tried type e.1 e.2 (OrderedMap.mem_entries.mp member)
  obtain ⟨m₁, first, table₁, others₁, made₁, stray₁⟩ := loadPlugins_eq true
    (t := .typeProc) nofun (fits _) (tables.get .typeProc).sorted (m := {}) (by
      intro e member
      cases member)
  have noSinks : m₁.table .typeSink = ∅ := others₁ _ nofun
  obtain ⟨m₂, second, table₂, others₂, made₂, stray₂⟩ := loadPlugins_eq true
    (t := .typeSink) nofun (fits _) (tables.get .typeSink).sorted (m := m₁) (by
      intro e member
      rw [noSinks] at member
      cases member)
  have processors : (m₂.table .typeProc).entries =
      loaded .typeProc true 0 (tables.get .typeProc).entries :=
    (congrArg OrderedMap.entries (others₂ .typeProc nofun)).trans table₁
  have sinks : (m₂.table .typeSink).entries =
      loaded .typeSink true m₁.made (tables.get .typeSink).entries := by
    rw [table₂, noSinks]
    rfl
  refine ⟨m₂, ?_, stray₂.trans stray₁, fun type tag => ?_, fun type e member => ?_, ?_⟩
  · show (tables.get .typeProc).entries.foldlM (loadPlugin host .typeProc true) {} >>= _ = _
    rw [first]
    show (tables.get .typeSink).entries.foldlM (loadPlugin host .typeSink true) m₁ >>= _ = _
    rw [second]
    rfl
  · have tags : (m₂.table type).keys = (tables.get type).keys := by
      cases type with
      | typeBase => rfl
      | typeProc => rw [OrderedMap.keys, processors, loaded_tags]; rfl
      | typeSink => rw [OrderedMap.keys, sinks, loaded_tags]; rfl
    have none : ((PluginTables.get {} type).get tag).isSome = false := by cases type <;> rfl
    rw [← OrderedMap.mem_keys, tags, OrderedMap.mem_keys, gets, none]
    exact or_iff_right Bool.false_ne_true
  · cases type with
    | typeBase => cases member
    | typeProc =>
      rw [processors] at member
      obtain ⟨i, -, same⟩ := mem_loaded member
      rw [same]
      exact ⟨rfl, rfl⟩
    | typeSink =>
      rw [sinks] at member
      obtain ⟨i, -, same⟩ := mem_loaded member
      rw [same]
      exact ⟨rfl, rfl⟩
  · have first : (m₂.processors.entries).map (fun e => e.2.made) = _ :=
      (congrArg _ processors).trans (loaded_made ..)
    have second : (m₂.sinks.entries).map (fun e => e.2.made) = _ :=
      (congrArg _ sinks).trans (loaded_made ..)
    have from_ : m₁.made = 0 + (tables.get .typeProc).entries.length := made₁
    rw [List.map_append, first, second, made₂, from_, List.range'_append_1, List.range_eq_range',
      Nat.zero_add]

/-- A library `p` with a processor, and a library `s` with a sink. -/
def twoLibraries : PluginHost where
  expand := id
  loader := fun _ library _ =>
    if library = ['p'] then some .typeProc else if library = ['s'] then some .typeSink else none

def oneFile : PluginFile where
  sections := ⟨[("proc-core".toList, ⟨true, ['p'], []⟩), ("sink-log".toList, ⟨true, ['s'], []⟩),
    ("sink-proc-core".toList, ⟨true, ['s'], []⟩)], by decide +kernel⟩

/-- The sink with the name of the processor is passed by. -/
theorem oneFile_loaded : ∃ tables m, addPlugin twoLibraries {} oneFile = some tables ∧
    load twoLibraries tables .typeBase true {} = .ok m ∧ m.stray = [] ∧
      (m.sinks.get "sink-log".toList).isSome ∧ ¬ (m.sinks.get "sink-proc-core".toList).isSome := by
  obtain ⟨tables, added⟩ : ∃ tables, [oneFile].foldlM (addPlugin twoLibraries) {} = some tables :=
    Option.isSome_iff_exists.mp (by decide +kernel)
  obtain ⟨m, done, stray, tags, -⟩ := load_configured added
  have log : PluginFile.Enables oneFile "sink-log".toList :=
    ⟨⟨true, ['s'], []⟩, by decide +kernel, rfl⟩
  refine ⟨tables, m, ?_, done, stray, (tags .typeSink _).mpr
    ⟨⟨oneFile, List.mem_singleton_self _, log⟩, by decide +kernel, by decide +kernel⟩, fun held => ?_⟩
  · simpa using added
  · exact absurd ((tags .typeSink _).mp held).2.2 (by decide +kernel)

end NetifyAgent.PluginLoading
