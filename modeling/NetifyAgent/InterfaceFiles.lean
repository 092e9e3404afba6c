import NetifyAgent.Interfaces
import NetifyAgent.Lib.Runs

/-! What the files configure for an interface. The tables of the interfaces are filled by
routines that keep an entry that is there, and a reload clears them first; an interface is
known by what stands behind the last `-` of its section. What a table holds for a name is
looked at for one name at a time: a section changes that of one name, and a reload starts
from that of every name. -/
namespace NetifyAgent.InterfaceFiles
open Lines Runs

/-! ## One name -/

/-- What the tables hold for a name. -/
structure Held where
  entries : InterfaceRole → Option (Nat × InterfaceConfig) := fun _ => none
  addrs : Option StringSet := none
  peer : Option (List Char) := none
  filter : Option (List Char) := none

def held (gc : GlobalConfig) (n : List Char) : Held where
  entries role := (gc.interfaces role).get n
  addrs := gc.interfaceAddrs.get n
  peer := gc.interfacePeers.get n
  filter := gc.interfaceFilters.get n

namespace Held

/-- It is an interface of some role. -/
def Known (h : Held) : Prop := ∃ role, (h.entries role).isSome

/-- It is an interface that was not given on the command line. -/
def Cleared (h : Held) : Prop :=
  ∃ role, ∃ entry ∈ h.entries role, entry.1 &&& CaptureType.cmdline = 0

end Held

/-! ## Sections -/

/-- A section of a file that was read. -/
structure IniSection where
  reader : IniReader
  title : List Char

/-- What the title of an interface's section starts with. -/
def sectionKey : List Char := "capture-interface-".toList

/-- The section is that of an interface. -/
def isInterface (title : List Char) : Bool := sameCase (title.take sectionKey.length) sectionKey

namespace IniSection

/-- `<name>` in `capture-interface-<name>`. -/
def iface (q : IniSection) : List Char := q.title.drop sectionKey.length

def role (q : IniSection) : InterfaceRole :=
  GlobalConfig.interfaceRole (q.reader.get q.title "role".toList "none".toList)

/-- What stands behind the last `-` of the title. -/
def cut (q : IniSection) : List Char := ((cutLast '-' q.title).map Prod.snd).getD []

/-- The role is set and valid. -/
def Valid (q : IniSection) : Prop := q.role ≠ .none

instance (q : IniSection) : Decidable q.Valid := inferInstanceAs (Decidable (_ ≠ _))

/-- The capture type and the settings of an interface of this name. -/
def settings (fileExists : List Char → Bool) (gc : GlobalConfig) (q : IniSection)
    (iface : List Char) : Option (Nat × InterfaceConfig) :=
  (GlobalConfig.loadCaptureType q.reader q.title).bind fun type =>
    if type = CaptureType.pcap then GlobalConfig.loadPcapSettings fileExists q.reader q.title
    else if type = CaptureType.tpv3 then
      (gc.loadTpv3Settings q.reader q.title).map fun config => (type, config)
    else (GlobalConfig.loadNfqSettings q.reader q.title iface).map fun config => (type, config)

/-- A value that is set. -/
def value (q : IniSection) (name : String) : Option (List Char) :=
  let text := q.reader.get q.title name.toList []
  if text ≠ [] then some text else none

/-- `address[i]` for every index up to the first that is missing. -/
def Lists (q : IniSection) (a : List Char) : Prop :=
  ∃ i, q.reader.get q.title (GlobalConfig.addressName i) [] = a ∧
    ∀ j ≤ i, q.reader.get q.title (GlobalConfig.addressName j) [] ≠ []

end IniSection

/-- The sections of interfaces in the files. -/
def interfaceSections (readers : List IniReader) : List IniSection :=
  readers.flatMap fun r => (r.sections.filter isInterface).map fun s => ⟨r, s⟩

/-- The addresses of a list in a set. -/
def addAll (addrs : List (List Char)) (held : Option StringSet) : Option StringSet :=
  addrs.foldl (fun held a => some ((held.getD ∅).set a ())) held

/-- A name that is no interface becomes one. -/
def Held.enter (h : Held) (role : InterfaceRole) (entry : Nat × InterfaceConfig) : Held :=
  if InterfaceRole.all.any fun r => (h.entries r).isSome then h
  else { h with entries := Function.update h.entries role (some entry) }

/-- What a section makes of what its name holds. -/
def Held.add (h : Held) (q : IniSection) (entry : Nat × InterfaceConfig) : Held :=
  let h := h.enter q.role entry
  { h with
    addrs := addAll (GlobalConfig.addresses q.reader q.title) h.addrs
    peer := h.peer.or (q.value "peer")
    filter := h.filter.or (q.value "filter") }

/-! ## What a section does -/

variable {gc gc' : GlobalConfig} {n iface : List Char}

theorem held_addInterface {role : InterfaceRole} {type : Nat} {config : InterfaceConfig}
    (typed : CaptureType.type type ≠ CaptureType.none) (given : config ≠ .null) :
    held (gc.addInterface iface role type config).1 n =
      if n = iface then (held gc n).enter role (type, config) else held gc n := by
  unfold GlobalConfig.addInterface
  by_cases there : (InterfaceRole.all.any fun r => ((gc.interfaces r).get iface).isSome) = true
  · rw [if_pos there]
    split
    · rename_i same
      subst same
      exact (if_pos there).symm
    · rfl
  · rw [if_neg there, if_neg fun both => typed both.1]
    simp only [if_neg typed, if_pos given]
    have entries (role' : InterfaceRole) :
        (Function.update gc.interfaces role ((gc.interfaces role).set iface (type, config))
          role').get n =
        if n = iface ∧ role' = role then some (type, config) else (gc.interfaces role').get n := by
      by_cases same : role' = role
      · subst same
        rw [Function.update_self, OrderedMap.get_set]
        simp
      · rw [Function.update_of_ne same, if_neg fun both => same both.2]
    split
    · rename_i same
      subst same
      unfold Held.enter held
      rw [if_neg there]
      simp only [entries]
      congr 1
      funext role'
      by_cases same : role' = role
      · subst same
        simp
      · rw [Function.update_of_ne same, if_neg fun both => same both.2]
    · rename_i other
      unfold held
      simp [entries, other]

theorem held_addInterfaceAddress {a : List Char} : held (gc.addInterfaceAddress iface a) n =
    if n = iface then
      { held gc n with addrs := some (((held gc n).addrs.getD ∅).set a ()) }
    else held gc n := by
  unfold held GlobalConfig.addInterfaceAddress
  simp only [OrderedMap.get_set]
  split
  · rename_i same
    rw [same]
  · rfl

theorem held_addresses {addrs : List (List Char)} :
    held (addrs.foldl (fun gc a => gc.addInterfaceAddress iface a) gc) n =
      if n = iface then { held gc n with addrs := addAll addrs (held gc n).addrs }
      else held gc n := by
  induction addrs generalizing gc with
  | nil =>
    unfold addAll
    split <;> rfl
  | cons a rest ih =>
    rw [List.foldl_cons, ih, held_addInterfaceAddress]
    split <;> rfl

/-- A peer that is set. -/
theorem held_peer {q : IniSection} :
    held (if q.reader.get q.title "peer".toList [] ≠ [] then
        gc.addInterfacePeer iface (q.reader.get q.title "peer".toList []) else gc) n =
      if n = iface then { held gc n with peer := (held gc n).peer.or (q.value "peer") }
      else held gc n := by
  unfold IniSection.value
  by_cases set : q.reader.get q.title "peer".toList [] ≠ []
  · rw [if_pos set, if_pos set]
    unfold held GlobalConfig.addInterfacePeer
    simp only [OrderedMap.get_emplace]
    split
    · rfl
    · rw [Option.or_none]
  · rw [if_neg set, if_neg set, Option.or_none]
    split <;> rfl

/-- A filter that is set. -/
theorem held_filter {q : IniSection} :
    held (if q.reader.get q.title "filter".toList [] ≠ [] then
        gc.addInterfaceFilter iface (q.reader.get q.title "filter".toList []) else gc) n =
      if n = iface then { held gc n with filter := (held gc n).filter.or (q.value "filter") }
      else held gc n := by
  unfold IniSection.value
  by_cases set : q.reader.get q.title "filter".toList [] ≠ []
  · rw [if_pos set, if_pos set]
    unfold held GlobalConfig.addInterfaceFilter
    simp only [OrderedMap.get_emplace]
    split
    · rfl
    · rw [Option.or_none]
  · rw [if_neg set, if_neg set, Option.or_none]
    split <;> rfl

/-- The settings that no section changes. -/
structure SameDefaults (gc gc' : GlobalConfig) : Prop where
  ignoreIfaceConfigs : gc'.ignoreIfaceConfigs = gc.ignoreIfaceConfigs
  tpv3Defaults : gc'.tpv3Defaults = gc.tpv3Defaults

theorem SameDefaults.refl (gc : GlobalConfig) : SameDefaults gc gc := ⟨rfl, rfl⟩

theorem SameDefaults.trans {gc'' : GlobalConfig} (first : SameDefaults gc gc')
    (second : SameDefaults gc' gc'') : SameDefaults gc gc'' :=
  ⟨second.1.trans first.1, second.2.trans first.2⟩

theorem same_addInterface {role : InterfaceRole} {type : Nat} {config : InterfaceConfig} :
    SameDefaults gc (gc.addInterface iface role type config).1 := by
  unfold GlobalConfig.addInterface
  split
  · exact .refl gc
  · split
    · exact .refl gc
    · exact ⟨rfl, rfl⟩

theorem same_addresses {addrs : List (List Char)} :
    SameDefaults gc (addrs.foldl (fun gc a => gc.addInterfaceAddress iface a) gc) :=
  List.foldlRecOn (motive := SameDefaults gc) _ _ (.refl gc) fun _ same _ _ => ⟨same.1, same.2⟩

/-- The types that a section can set. -/
theorem types_capture : ∀ type ∈ [CaptureType.pcap, CaptureType.pcapOffline, CaptureType.tpv3,
      CaptureType.nfq],
    CaptureType.type type ≠ CaptureType.none ∧ type &&& CaptureType.cmdline = 0 := by
  decide

/-- Settings that were loaded are those of a type that captures. -/
theorem settings_typed {fileExists : List Char → Bool} {q : IniSection}
    {entry : Nat × InterfaceConfig} (set : q.settings fileExists gc iface = some entry) :
    entry.2 ≠ .null ∧ CaptureType.type entry.1 ≠ CaptureType.none ∧
      entry.1 &&& CaptureType.cmdline = 0 := by
  obtain ⟨type, known, set⟩ := Option.bind_eq_some_iff.mp set
  split at set
  · unfold GlobalConfig.loadPcapSettings at set
    simp only at set
    split at set
    · cases set
      exact ⟨nofun, types_capture _ (by simp)⟩
    · split at set
      · cases set
      · cases set
        exact ⟨nofun, types_capture _ (by simp)⟩
  · split at set
    · rename_i tpv3
      obtain ⟨config, loaded, rfl⟩ := Option.map_eq_some_iff.mp set
      obtain ⟨flags, -, rfl⟩ := Option.map_eq_some_iff.mp loaded
      exact ⟨nofun, types_capture _ (by simp [tpv3])⟩
    · rename_i pcap tpv3
      obtain ⟨config, loaded, rfl⟩ := Option.map_eq_some_iff.mp set
      have nfq : type = CaptureType.nfq := by
        unfold GlobalConfig.loadCaptureType at known
        simp only at known
        split at known
        · exact absurd (Option.some.inj known).symm pcap
        · split at known
          · exact absurd (Option.some.inj known).symm tpv3
          · split at known
            · exact (Option.some.inj known).symm
            · cases known
      unfold GlobalConfig.loadNfqSettings at loaded
      simp only at loaded
      split at loaded
      · cases loaded
      · cases loaded
        exact ⟨nofun, types_capture _ (by simp [nfq])⟩

theorem same_peer {set : Prop} [Decidable set] {peer : List Char} :
    SameDefaults gc (if set then gc.addInterfacePeer iface peer else gc) := by
  split
  · exact ⟨rfl, rfl⟩
  · exact .refl gc

theorem same_filter {set : Prop} [Decidable set] {filter : List Char} :
    SameDefaults gc (if set then gc.addInterfaceFilter iface filter else gc) := by
  split
  · exact ⟨rfl, rfl⟩
  · exact .refl gc

theorem eq_of_toLower {c : Char} (lower : c.toLower = '-') : c = '-' := by
  unfold Char.toLower at lower
  split at lower
  · rename_i upper
    have value := congrArg (fun d => d.val.toNat) lower
    have least := UInt32.le_iff_toNat_le.mp upper.1
    have most := UInt32.le_iff_toNat_le.mp upper.2
    simp only [UInt32.toNat_add] at value
    have shift : ('a'.val - 'A'.val).toNat = 32 := rfl
    have bound : 'Z'.val.toNat = 90 := rfl
    have dash : '-'.val.toNat = 45 := rfl
    have first : 'A'.val.toNat = 65 := rfl
    rw [shift, dash] at value
    omega
  · exact lower

theorem title_eq {title : List Char} (interface : isInterface title = true) :
    ∃ start, title = start ++ '-' :: title.drop sectionKey.length := by
  have lower : (title.take sectionKey.length).map Char.toLower =
      "capture-interface".toList ++ ['-'] := eq_of_beq interface
  obtain ⟨start, last, split, -, dash⟩ := List.map_eq_append_iff.mp lower
  obtain ⟨c, rest, rfl, same, none⟩ := List.map_eq_cons_iff.mp dash
  obtain rfl := List.map_eq_nil_iff.mp none
  obtain rfl := eq_of_toLower same
  refine ⟨start, ?_⟩
  have whole := List.take_append_drop sectionKey.length title
  rw [split, List.append_assoc] at whole
  exact whole.symm

/-- A name without `-` is what the title is cut to. -/
theorem cut_eq {q : IniSection} (interface : isInterface q.title = true)
    (plain : '-' ∉ q.iface) : q.cut = q.iface := by
  obtain ⟨start, split⟩ := title_eq interface
  have cut : cutLast '-' q.title = some (start, q.iface) := by
    rw [split]
    exact cutLast_append plain start
  rw [IniSection.cut, cut]
  rfl

theorem cut_plain (q : IniSection) : '-' ∉ q.cut := by
  unfold IniSection.cut
  cases cut : cutLast '-' q.title with
  | none => exact List.not_mem_nil
  | some parts => exact cutLast_free cut

/-- What a section can do. -/
inductive Effect (fileExists : List Char → Bool) (q : IniSection) (gc gc' : GlobalConfig) :
    Option Bool → Prop where
  /-- It is passed over. -/
  | passed : gc' = gc → isInterface q.title = false ∨ ¬ q.Valid ∨
      ((held gc q.cut).entries q.role).isSome → Effect fileExists q gc gc' (some true)
  | stopped {result : Option Bool} : gc' = gc → result ≠ some true →
      Effect fileExists q gc gc' result
  /-- It is taken up. -/
  | added (entry : Nat × InterfaceConfig) : isInterface q.title = true → q.Valid →
      q.settings fileExists gc q.cut = some entry →
      (∀ n, held gc' n = if n = q.cut then (held gc n).add q entry else held gc n) →
      SameDefaults gc gc' →
      Effect fileExists q gc gc' (some true)

theorem loadSection_effect (fileExists : List Char → Bool) (q : IniSection) (gc : GlobalConfig) :
    Effect fileExists q gc (gc.loadSection fileExists q.reader q.title).1
      (gc.loadSection fileExists q.reader q.title).2 := by
  unfold GlobalConfig.loadSection
  dsimp only
  split
  · rename_i other
    exact .passed rfl (.inl ((Bool.not_eq_true _).mp other))
  · rename_i interface
    have interface : isInterface q.title = true := not_not.mp interface
    split
    · rename_i uncut
      obtain ⟨start, split⟩ := title_eq interface
      rw [split] at uncut
      exact absurd (by simp) (cutLast_eq_none.mp uncut)
    · rename_i start iface cut
      have known : q.cut = iface := by
        rw [IniSection.cut, cut]
        rfl
      subst known
      split
      · rename_i invalid
        exact .passed rfl (.inr (.inl (not_not_intro invalid)))
      · rename_i valid
        split
        · rename_i there
          exact .passed rfl (.inr (.inr there))
        · rename_i free
          split
          · exact .stopped rfl nofun
          · rename_i type typed
            have settings : q.settings fileExists gc q.cut =
                if type = CaptureType.pcap then
                  GlobalConfig.loadPcapSettings fileExists q.reader q.title
                else if type = CaptureType.tpv3 then
                  (gc.loadTpv3Settings q.reader q.title).map fun config => (type, config)
                else (GlobalConfig.loadNfqSettings q.reader q.title q.cut).map fun config =>
                  (type, config) := by
              rw [IniSection.settings, typed, Option.bind_some]
            split
            · exact .stopped rfl nofun
            · rename_i type' config set
              have set := settings.trans set
              obtain ⟨given, typed', -⟩ := settings_typed set
              refine .added (type', config) interface valid set (fun n => ?_) ?_
              · rw [held_filter, held_peer, held_addresses, held_addInterface typed' given]
                split
                · rfl
                · rfl
              · exact ((same_addInterface.trans same_addresses).trans same_peer).trans same_filter

/-! ## What a reload does -/

/-- Names that are cleared lose everything but their filters. -/
theorem held_erased (names : List (List Char)) :
    held (names.foldl (fun gc iface => { gc with
      interfaces := fun role => (gc.interfaces role).erase iface
      interfacePeers := gc.interfacePeers.erase iface
      interfaceAddrs := gc.interfaceAddrs.erase iface }) gc) n =
      if n ∈ names then { filter := (held gc n).filter } else held gc n := by
  induction names generalizing gc with
  | nil => rfl
  | cons iface rest ih =>
    rw [List.foldl_cons, ih]
    unfold held
    simp only [OrderedMap.get_erase, List.mem_cons]
    by_cases same : n = iface
    · simp [same]
    · simp [same]

theorem same_clear : SameDefaults gc (gc.clearInterfaces false) :=
  List.foldlRecOn (motive := SameDefaults gc) _ _ (.refl gc) fun _ same _ _ => ⟨same.1, same.2⟩

theorem mem_clearList : (n ∈ InterfaceRole.all.flatMap fun role =>
    ((gc.interfaces role).entries.filter fun i =>
      i.2.1 &&& CaptureType.cmdline = 0 ∨ false).map Prod.fst) ↔ (held gc n).Cleared := by
  simp only [List.mem_flatMap, List.mem_map, List.mem_filter]
  constructor
  · rintro ⟨role, -, ⟨_, entry⟩, ⟨there, plain⟩, rfl⟩
    exact ⟨role, entry, OrderedMap.mem_entries.mp there, by simpa using plain⟩
  · rintro ⟨role, entry, there, plain⟩
    exact ⟨role, by cases role <;> simp [InterfaceRole.all], (n, entry),
      ⟨OrderedMap.mem_entries.mpr there, by simpa using plain⟩, rfl⟩

/-- What is left for a name when the interfaces are cleared. -/
theorem held_clear (gc : GlobalConfig) (n : List Char) :
    (held gc n).Cleared ∧
        held (gc.clearInterfaces false) n = { filter := (held gc n).filter } ∨
      ¬ (held gc n).Cleared ∧ held (gc.clearInterfaces false) n = held gc n := by
  unfold GlobalConfig.clearInterfaces
  by_cases cleared : (held gc n).Cleared
  · refine .inl ⟨cleared, ?_⟩
    rw [held_erased, if_pos (mem_clearList.mpr cleared)]
  · refine .inr ⟨cleared, ?_⟩
    rw [held_erased, if_neg (mt mem_clearList.mp cleared)]

/-- Sections that are taken up or passed over, one after the other. -/
inductive Loads (fileExists : List Char → Bool) :
    List IniSection → GlobalConfig → GlobalConfig → Prop where
  | nil (gc : GlobalConfig) : Loads fileExists [] gc gc
  | cons {q : IniSection} {rest : List IniSection} {gc gc₁ gc' : GlobalConfig} :
      Effect fileExists q gc gc₁ (some true) → Loads fileExists rest gc₁ gc' →
      Loads fileExists (q :: rest) gc gc'

variable {fileExists : List Char → Bool} {sections first second : List IniSection}

theorem Loads.append {gc₁ : GlobalConfig} (before : Loads fileExists first gc gc₁)
    (after : Loads fileExists second gc₁ gc') : Loads fileExists (first ++ second) gc gc' := by
  induction before with
  | nil => exact after
  | cons effect _ ih => exact .cons effect (ih after)

theorem Loads.split (loads : Loads fileExists (first ++ second) gc gc') :
    ∃ gc₁, Loads fileExists first gc gc₁ ∧ Loads fileExists second gc₁ gc' := by
  induction first generalizing gc with
  | nil => exact ⟨gc, .nil gc, loads⟩
  | cons q rest ih =>
    cases loads with
    | cons effect later =>
      obtain ⟨gc₁, before, after⟩ := ih later
      exact ⟨gc₁, .cons effect before, after⟩

theorem loads_sections {r : IniReader} {titles : List (List Char)}
    (loaded : GlobalConfig.loadSections fileExists r titles gc = (gc', some true)) :
    Loads fileExists ((titles.filter isInterface).map fun s => ⟨r, s⟩) gc gc' := by
  induction titles generalizing gc with
  | nil =>
    cases loaded
    exact .nil _
  | cons s rest ih =>
    unfold GlobalConfig.loadSections at loaded
    have effect := loadSection_effect fileExists ⟨r, s⟩ gc
    split at loaded
    · rename_i gc₁ taken
      simp only at effect
      rw [taken] at effect
      by_cases interface : isInterface s = true
      · rw [List.filter_cons_of_pos interface]
        exact .cons effect (ih loaded)
      · rw [List.filter_cons_of_neg interface]
        cases effect with
        | passed same _ =>
          cases same
          exact ih loaded
        | stopped _ other => exact absurd rfl other
        | added _ here => exact absurd here interface
    · rename_i stops
      exact absurd loaded (stops gc')

theorem loads_files {files : List IniReader}
    (loaded : gc.loadFiles fileExists files = (gc', some true)) :
    Loads fileExists (interfaceSections files) gc gc' := by
  induction files generalizing gc with
  | nil =>
    cases loaded
    exact .nil _
  | cons r rest ih =>
    unfold GlobalConfig.loadFiles at loaded
    split at loaded
    · cases loaded
    · split at loaded
      · rename_i gc₁ taken
        exact (loads_sections taken).append (ih loaded)
      · rename_i stops
        exact absurd loaded (stops gc')

/-- Files that are not ignored are loaded into what the command line has left. -/
theorem loads_interfaces {reader : IniReader} {files : List IniReader}
    (loaded : gc.loadInterfaces fileExists reader files = (gc', some true)) :
    gc.ignoreIfaceConfigs = true ∧ gc' = gc ∨ gc.ignoreIfaceConfigs = false ∧
      Loads fileExists (interfaceSections (reader :: files)) (gc.clearInterfaces false) gc' := by
  unfold GlobalConfig.loadInterfaces at loaded
  split at loaded
  · rename_i ignored
    cases loaded
    exact .inl ⟨ignored, rfl⟩
  · rename_i enabled
    refine .inr ⟨(Bool.not_eq_true _).mp enabled, ?_⟩
    split at loaded
    · rename_i gc₁ taken
      exact (loads_sections taken).append (loads_files loaded)
    · rename_i stops
      exact absurd loaded (stops gc')

/-- What a name holds is changed by the sections of this name alone. -/
theorem Loads.frame (loads : Loads fileExists sections gc gc')
    (other : ∀ q ∈ sections, q.Valid → q.cut ≠ n) : held gc' n = held gc n := by
  induction loads with
  | nil => rfl
  | cons effect _ ih =>
    rw [ih fun q member => other q (List.mem_cons_of_mem _ member)]
    cases effect with
    | passed same _ => rw [same]
    | stopped same _ => rw [same]
    | added entry _ valid _ changed _ =>
      rw [changed, if_neg (Ne.symm (other _ (List.mem_cons_self ..) valid))]

theorem same_effect {q : IniSection} {result : Option Bool}
    (effect : Effect fileExists q gc gc' result) : SameDefaults gc gc' := by
  cases effect with
  | passed same _ => exact same ▸ .refl _
  | stopped same _ => exact same ▸ .refl _
  | added _ _ _ _ _ same => exact same

theorem Loads.same (loads : Loads fileExists sections gc gc') : SameDefaults gc gc' := by
  induction loads with
  | nil gc => exact .refl gc
  | cons effect _ ih =>
    exact (same_effect effect).trans ih

/-! ## Earlier configurations -/

/-- The command line as it is parsed. -/
structure CommandLine where
  gc : GlobalConfig
  lastIface : List Char := []
  pcapId : Nat := 0

/-- The options that are about interfaces. -/
inductive Argument where
  /-- `-I` -/
  | internal (optarg : List Char)
  /-- `-E` -/
  | external (optarg : List Char)
  /-- `-A` -/
  | address (optarg : List Char)
  /-- `-N` -/
  | peer (optarg : List Char)
  /-- `-F` -/
  | filter (optarg : List Char)

/-- `ndInstance::AddInterface`, of an interface or of a file. `none` where the agent exits. -/
def CommandLine.addInterface (fileExists : List Char → Bool) (c : CommandLine)
    (optarg : List Char) (role : InterfaceRole) : Option CommandLine :=
  if fileExists optarg then
    let added := c.gc.addInterface ("offline".toList ++ Nat.toDigits 10 c.pcapId) role
      (CaptureType.pcapOffline ||| CaptureType.cmdline) (.pcap { captureFilename := optarg })
    if added.2 then some { gc := added.1, lastIface := optarg, pcapId := c.pcapId + 1 } else none
  else
    let added := c.gc.addInterface optarg role (CaptureType.pcap ||| CaptureType.cmdline) .null
    if added.2 then some { c with gc := added.1, lastIface := optarg } else none

/-- One option of the command line. -/
def parseArgument (fileExists : List Char → Bool) (c : CommandLine) :
    Argument → Option CommandLine
  | .internal optarg => c.addInterface fileExists optarg .lan
  | .external optarg => c.addInterface fileExists optarg .wan
  | .address optarg =>
    if c.lastIface = [] then none
    else some { c with gc := c.gc.addInterfaceAddress c.lastIface optarg }
  | .peer optarg =>
    if c.lastIface = [] then none
    else some { c with gc := c.gc.addInterfacePeer c.lastIface optarg }
  | .filter optarg =>
    if c.lastIface = [] then none
    else some { c with gc := c.gc.addInterfaceFilter c.lastIface optarg }

/-- What happens to the tables later. -/
inductive Change where
  /-- `LoadInterfaces(filename)`, whatever it returns. -/
  | load (fileExists : List Char → Bool) (reader : IniReader) (files : List IniReader)
  /-- A reload of the capture threads deletes an interface. -/
  | stop (iface : List Char)

def change (gc : GlobalConfig) : Change → Option GlobalConfig
  | .load fileExists reader files => some (gc.loadInterfaces fileExists reader files).1
  | .stop iface => some { gc with interfaceAddrs := gc.interfaceAddrs.erase iface }

/-- What a name holds is what it held after the command line. -/
structure Within (c h : Held) : Prop where
  entries : ∀ role entry, h.entries role = some entry → c.entries role = some entry
  addrs : ∀ set, h.addrs = some set → c.addrs = some set
  peer : ∀ peer, h.peer = some peer → c.peer = some peer
  filter : ∀ filter, h.filter = some filter → c.filter = some filter

/-- What a name holds later, when it held `c` after the command line. -/
structure Later (c h : Held) : Prop where
  one : ∀ role role', (h.entries role).isSome → (h.entries role').isSome → role = role'
  kept : ∀ role entry, c.entries role = some entry ↔
    h.entries role = some entry ∧ entry.1 &&& CaptureType.cmdline ≠ 0
  addrs : ∀ set, h.addrs = some set → h.Known ∨ c.addrs = some set
  peer : ∀ peer, h.peer = some peer → h.Known ∨ c.peer = some peer

theorem Within.refl (h : Held) : Within h h :=
  ⟨fun _ _ => id, fun _ => id, fun _ => id, fun _ => id⟩

variable {c h : Held}

/-- An interface of the command line is not cleared. -/
theorem Later.not_cleared (later : Later c h) (known : c.Known) : ¬ h.Cleared := by
  rintro ⟨role, entry, there, plain⟩
  obtain ⟨role', given⟩ := known
  obtain ⟨entry', given⟩ := Option.isSome_iff_exists.mp given
  obtain ⟨there', flagged⟩ := (later.kept role' entry').mp given
  obtain rfl := later.one role role' (Option.isSome_of_mem there) (Option.isSome_of_mem there')
  cases Option.mem_unique there there'
  exact flagged plain

/-- What is not cleared was given on the command line. -/
theorem Later.given (later : Later c h) (uncleared : ¬ h.Cleared) {role : InterfaceRole}
    {entry : Nat × InterfaceConfig} (there : h.entries role = some entry) :
    c.entries role = some entry :=
  (later.kept role entry).mpr ⟨there, fun plain => uncleared ⟨role, entry, there, plain⟩⟩

theorem Later.cleared (later : Later c h) (cleared : h.Cleared) :
    Later c { filter := h.filter } := by
  refine ⟨nofun, fun role entry => ⟨fun given => ?_, nofun⟩, nofun, nofun⟩
  have known : c.Known := ⟨role, Option.isSome_of_mem given⟩
  exact absurd cleared (later.not_cleared known)

@[simp] theorem enter_addrs {role : InterfaceRole} {entry : Nat × InterfaceConfig} :
    (h.enter role entry).addrs = h.addrs := by
  unfold Held.enter
  split <;> rfl

@[simp] theorem enter_peer {role : InterfaceRole} {entry : Nat × InterfaceConfig} :
    (h.enter role entry).peer = h.peer := by
  unfold Held.enter
  split <;> rfl

@[simp] theorem enter_filter {role : InterfaceRole} {entry : Nat × InterfaceConfig} :
    (h.enter role entry).filter = h.filter := by
  unfold Held.enter
  split <;> rfl

/-- An interface is entered once. -/
theorem enter_entries (h : Held) (role : InterfaceRole) (entry : Nat × InterfaceConfig) :
    h.Known ∧ (h.enter role entry).entries = h.entries ∨
      (∀ role, h.entries role = none) ∧
        (h.enter role entry).entries = fun role' => if role' = role then some entry else none := by
  unfold Held.enter
  split
  · rename_i known
    obtain ⟨role', -, there⟩ := List.any_eq_true.mp known
    exact .inl ⟨⟨role', there⟩, rfl⟩
  · rename_i unknown
    have none (role' : InterfaceRole) : h.entries role' = none := by
      refine Option.not_isSome_iff_eq_none.mp fun there => unknown ?_
      exact List.any_eq_true.mpr ⟨role', by cases role' <;> simp [InterfaceRole.all], there⟩
    refine .inr ⟨none, funext fun role' => ?_⟩
    dsimp only
    by_cases same : role' = role
    · rw [same, Function.update_self, if_pos rfl]
    · rw [Function.update_of_ne same, if_neg same, none]

/-- What a file enters is not of the command line. -/
theorem Later.entered (later : Later c h) {role : InterfaceRole} {entry : Nat × InterfaceConfig}
    (plain : entry.1 &&& CaptureType.cmdline = 0) {h' : Held}
    (entered : h'.entries = (h.enter role entry).entries) : Later c h' := by
  rcases enter_entries h role entry with ⟨known, same⟩ | ⟨none, same⟩
  · have same : h'.entries = h.entries := entered.trans same
    have known' : h'.Known := by
      rw [Held.Known, same]
      exact known
    exact ⟨same ▸ later.one, same ▸ later.kept, fun _ _ => .inl known', fun _ _ => .inl known'⟩
  · have entries (role' : InterfaceRole) : h'.entries role' =
        if role' = role then some entry else Option.none := congrFun (entered.trans same) role'
    have known' : h'.Known := ⟨role, by rw [entries, if_pos rfl]; rfl⟩
    refine ⟨fun role₁ role₂ there there' => ?_, fun role' entry' => ⟨fun given => ?_, ?_⟩,
      fun _ _ => .inl known', fun _ _ => .inl known'⟩
    · rw [entries] at there there'
      by_cases first : role₁ = role
      · by_cases second : role₂ = role
        · rw [first, second]
        · simp [second] at there'
      · simp [first] at there
    · have there := ((later.kept role' entry').mp given).1
      rw [none] at there
      cases there
    · rintro ⟨there, flagged⟩
      rw [entries] at there
      by_cases same : role' = role
      · rw [if_pos same] at there
        cases there
        exact absurd plain flagged
      · simp [same] at there

/-- What holds of every configuration after the command line left `cmd`. -/
structure Earlier (cmd gc : GlobalConfig) : Prop where
  same : SameDefaults cmd gc
  later : ∀ n, Later (held cmd n) (held gc n)
  ignored : gc.ignoreIfaceConfigs = true → ∀ n, Within (held cmd n) (held gc n)

variable {cmd : GlobalConfig}

theorem later_effect {q : IniSection} {result : Option Bool}
    (later : ∀ n, Later (held cmd n) (held gc n)) (effect : Effect fileExists q gc gc' result) :
    ∀ n, Later (held cmd n) (held gc' n) := by
  cases effect with
  | passed same _ => exact same ▸ later
  | stopped same _ => exact same ▸ later
  | added entry _ _ set changed _ =>
    intro n
    rw [changed]
    split
    · exact (later n).entered (settings_typed set).2.2 rfl
    · exact later n

/-- What every section keeps is kept by the files. -/
theorem keep_sections {I : GlobalConfig → Prop} {r : IniReader} {titles : List (List Char)}
    (keep : ∀ (q : IniSection) (gc : GlobalConfig), I gc →
      I (gc.loadSection fileExists q.reader q.title).1) (init : I gc) :
    I (GlobalConfig.loadSections fileExists r titles gc).1 := by
  induction titles generalizing gc with
  | nil => exact init
  | cons s rest ih =>
    have kept := keep ⟨r, s⟩ gc init
    unfold GlobalConfig.loadSections
    split
    · rename_i gc₁ taken
      simp only [taken] at kept
      exact ih kept
    · exact kept

theorem keep_files {I : GlobalConfig → Prop} {files : List IniReader}
    (keep : ∀ (q : IniSection) (gc : GlobalConfig), I gc →
      I (gc.loadSection fileExists q.reader q.title).1) (init : I gc) :
    I (gc.loadFiles fileExists files).1 := by
  induction files generalizing gc with
  | nil => exact init
  | cons r rest ih =>
    have kept : I (gc.loadReader fileExists r).1 := keep_sections keep init
    unfold GlobalConfig.loadFiles
    split
    · exact init
    · split
      · rename_i gc₁ taken
        rw [taken] at kept
        exact ih kept
      · exact kept

/-- **One reload**, whatever it returns. -/
theorem Earlier.load (earlier : Earlier cmd gc) (reader : IniReader) (files : List IniReader) :
    Earlier cmd (gc.loadInterfaces fileExists reader files).1 := by
  unfold GlobalConfig.loadInterfaces
  split
  · exact earlier
  · rename_i enabled
    let Kept (gc : GlobalConfig) : Prop :=
      SameDefaults cmd gc ∧ ∀ n, Later (held cmd n) (held gc n)
    have keep (q : IniSection) (gc : GlobalConfig) (kept : Kept gc) :
        Kept (gc.loadSection fileExists q.reader q.title).1 := by
      have effect := loadSection_effect fileExists q gc
      exact ⟨kept.1.trans (same_effect effect), later_effect kept.2 effect⟩
    have cleared : Kept (gc.clearInterfaces false) := by
      refine ⟨earlier.same.trans same_clear, fun n => ?_⟩
      rcases held_clear gc n with ⟨cleared, left⟩ | ⟨-, left⟩
      · rw [left]
        exact (earlier.later n).cleared cleared
      · rw [left]
        exact earlier.later n
    have first : Kept ((gc.clearInterfaces false).loadReader fileExists reader).1 :=
      keep_sections keep cleared
    have enough {gc' : GlobalConfig} (kept : Kept gc') : Earlier cmd gc' := by
      refine ⟨kept.1, kept.2, fun ignored => ?_⟩
      have same := earlier.same.ignoreIfaceConfigs.trans kept.1.ignoreIfaceConfigs.symm
      exact absurd (same.trans ignored) enabled
    split
    · rename_i gc₁ taken
      rw [taken] at first
      exact enough (keep_files keep first)
    · exact enough first

theorem Earlier.stop (earlier : Earlier cmd gc) (iface : List Char) :
    Earlier cmd { gc with interfaceAddrs := gc.interfaceAddrs.erase iface } := by
  have addrs (n : List Char) (set : StringSet)
      (there : (gc.interfaceAddrs.erase iface).get n = some set) :
      gc.interfaceAddrs.get n = some set := by
    rw [OrderedMap.get_erase] at there
    split at there
    · cases there
    · exact there
  refine ⟨⟨earlier.same.1, earlier.same.2⟩, fun n => ?_, fun ignored n => ?_⟩
  · have later := earlier.later n
    exact ⟨later.one, later.kept, fun set there => later.addrs set (addrs n set there), later.peer⟩
  · have within := earlier.ignored ignored n
    exact ⟨within.entries, fun set there => within.addrs set (addrs n set there), within.peer,
      within.filter⟩

/-- What the command line enters has the flag. -/
structure Given (h : Held) : Prop where
  one : ∀ role role', (h.entries role).isSome → (h.entries role').isSome → role = role'
  flagged : ∀ role entry, h.entries role = some entry → entry.1 &&& CaptureType.cmdline ≠ 0

theorem Given.enter (given : Given h) {role : InterfaceRole} {entry : Nat × InterfaceConfig}
    (flag : entry.1 &&& CaptureType.cmdline ≠ 0) : Given (h.enter role entry) := by
  rcases enter_entries h role entry with ⟨-, same⟩ | ⟨-, same⟩
  · exact ⟨same ▸ given.one, same ▸ given.flagged⟩
  · have entries (role' : InterfaceRole) : (h.enter role entry).entries role' =
        if role' = role then some entry else none := congrFun same role'
    refine ⟨fun role₁ role₂ there there' => ?_, fun role' entry' there => ?_⟩
    · rw [entries] at there there'
      by_cases first : role₁ = role
      · by_cases second : role₂ = role
        · rw [first, second]
        · simp [second] at there'
      · simp [first] at there
    · rw [entries] at there
      split at there
      · cases there
        exact flag
      · cases there

/-- An interface without settings is given those of its type. -/
theorem addInterface_pcap {optarg : List Char} {role : InterfaceRole} :
    gc.addInterface optarg role (CaptureType.pcap ||| CaptureType.cmdline) .null =
      gc.addInterface optarg role (CaptureType.pcap ||| CaptureType.cmdline) (.pcap {}) := by
  unfold GlobalConfig.addInterface
  have type : CaptureType.type (CaptureType.pcap ||| CaptureType.cmdline) = CaptureType.pcap := rfl
  have some : CaptureType.pcap ≠ CaptureType.none := by decide
  simp [type, some]

theorem given_addInterface {optarg : List Char} {role : InterfaceRole} {type : Nat}
    {config : InterfaceConfig} (given : ∀ n, Given (held gc n))
    (typed : CaptureType.type type ≠ CaptureType.none) (set : config ≠ .null)
    (flag : type &&& CaptureType.cmdline ≠ 0) (n : List Char) :
    Given (held (gc.addInterface optarg role type config).1 n) := by
  rw [held_addInterface typed set]
  split
  · exact (given n).enter flag
  · exact given n

/-- **One option** of the command line. -/
theorem given_argument {exists' : List Char → Bool} {line line' : CommandLine}
    {argument : Argument} (given : ∀ n, Given (held line.gc n))
    (taken : parseArgument exists' line argument = some line') (n : List Char) :
    Given (held line'.gc n) := by
  have entered {optarg : List Char} {role : InterfaceRole}
      (taken : line.addInterface exists' optarg role = some line') : Given (held line'.gc n) := by
    unfold CommandLine.addInterface at taken
    split at taken
    · dsimp only at taken
      split at taken
      · cases taken
        refine given_addInterface given ?_ ?_ ?_ n
        · decide
        · exact nofun
        · decide
      · cases taken
    · dsimp only at taken
      split at taken
      · cases taken
        dsimp only
        rw [addInterface_pcap]
        refine given_addInterface given ?_ ?_ ?_ n
        · decide
        · exact nofun
        · decide
      · cases taken
  cases argument with
  | internal optarg => exact entered taken
  | external optarg => exact entered taken
  | address optarg =>
    unfold parseArgument at taken
    dsimp only at taken
    split at taken
    · cases taken
    · cases taken
      exact ⟨(given n).one, (given n).flagged⟩
  | peer optarg =>
    unfold parseArgument at taken
    dsimp only at taken
    split at taken
    · cases taken
    · cases taken
      exact ⟨(given n).one, (given n).flagged⟩
  | filter optarg =>
    unfold parseArgument at taken
    dsimp only at taken
    split at taken
    · cases taken
    · cases taken
      exact ⟨(given n).one, (given n).flagged⟩

theorem Given.later (given : Given h) : Later h h :=
  ⟨given.one, fun role entry => ⟨fun there => ⟨there, given.flagged role entry there⟩, And.left⟩,
    fun _ => .inr, fun _ => .inr⟩

/-- What was configured before any file is read: whether the files of the interfaces are
ignored, and the defaults of the main file. -/
def bare (ignoreIfaceConfigs : Bool) (captureType : Nat) (tpv3Defaults : ConfigTpv3) :
    GlobalConfig :=
  { ignoreIfaceConfigs, captureType, tpv3Defaults }

/-- **Every earlier configuration.** -/
theorem earlier_reached {exists' : List Char → Bool} {ignore : Bool} {captureType : Nat}
    {tpv3Defaults : ConfigTpv3} {line : CommandLine}
    (given : Reaches (parseArgument exists') Always
      { gc := bare ignore captureType tpv3Defaults } line)
    (reached : Reaches change Always line.gc gc) : Earlier line.gc gc := by
  have flagged : ∀ n, Given (held line.gc n) := by
    refine given.invariant (I := fun line => ∀ n, Given (held line.gc n)) ?_
      fun _ _ _ before taken _ => given_argument before taken
    exact fun n => ⟨nofun, nofun⟩
  refine reached.invariant (I := Earlier line.gc) ?_ fun gc change gc' before taken _ => ?_
  · exact ⟨.refl _, fun n => (flagged n).later, fun _ n => .refl _⟩
  · cases change with
    | load fileExists reader files =>
      cases taken
      exact before.load reader files
    | stop iface =>
      cases taken
      exact before.stop iface

/-! ## The files -/

/-- The interface of a section is there once, under its role and with its settings, and the
tables hold what the section lists. -/
structure Exactly (fileExists : List Char → Bool) (cmd : GlobalConfig) (q : IniSection)
    (h : Held) : Prop where
  entry : ∃ entry, q.settings fileExists cmd q.iface = some entry ∧
    ∀ role, h.entries role = if role = q.role then some entry else none
  addrs : ∀ a, (∃ set ∈ h.addrs, set.get a = some ()) ↔ q.Lists a
  peer : h.peer = q.value "peer"
  filter : h.filter = q.value "filter"

/-- Every section with a name and a valid role is configured as it says, and what else is
left was given on the command line. -/
structure Configured (fileExists : List Char → Bool) (cmd : GlobalConfig)
    (sections : List IniSection) (gc : GlobalConfig) : Prop where
  named : ∀ q ∈ sections, q.Valid → q.iface ≠ [] → Exactly fileExists cmd q (held gc q.iface)
  rest : ∀ n, (∀ q ∈ sections, q.Valid → q.iface ≠ n) → Within (held cmd n) (held gc n)

/-- What does not hinder the files. -/
structure Unhindered (cmd : GlobalConfig) (sections : List IniSection) (gc : GlobalConfig) :
    Prop where
  /-- The files are not ignored, or name no interface. -/
  enabled : gc.ignoreIfaceConfigs = true → ∀ q ∈ sections, q.Valid → q.iface = []
  /-- No interface has a `-` in its name. -/
  plain : ∀ q ∈ sections, q.Valid → '-' ∉ q.iface
  /-- A filter that an interface has already is the one that is configured. -/
  filter : ∀ q ∈ sections, q.Valid → q.iface ≠ [] → ∀ filter,
    gc.interfaceFilters.get q.iface = some filter → q.value "filter" = some filter
  /-- Other filters are those of the command line. -/
  stale : ∀ n, (∀ q ∈ sections, q.Valid → q.iface ≠ n) → ∀ filter,
    gc.interfaceFilters.get n = some filter → cmd.interfaceFilters.get n = some filter
  /-- Interfaces of the command line have got no addresses and no peer from a file. -/
  given : ∀ n, (held cmd n).Known →
    (∀ set, gc.interfaceAddrs.get n = some set → cmd.interfaceAddrs.get n = some set) ∧
      ∀ peer, gc.interfacePeers.get n = some peer → cmd.interfacePeers.get n = some peer

theorem mem_addAll {a : List Char} (addrs : List (List Char)) (held : Option StringSet) :
    (∃ set ∈ addAll addrs held, set.get a = some ()) ↔
      (∃ set ∈ held, set.get a = some ()) ∨ a ∈ addrs := by
  induction addrs generalizing held with
  | nil => simp [addAll]
  | cons first rest ih =>
    have next := ih (some ((held.getD ∅).set first ()))
    rw [List.mem_cons]
    refine next.trans ?_
    simp only [Option.mem_def, Option.some.injEq, exists_eq_left', OrderedMap.get_set]
    by_cases same : a = first
    · simp [same]
    · cases held with
      | none => simp [same]
      | some set => simp [same]

/-- The loop takes the addresses up to the first that is missing. -/
theorem mem_addresses {q : IniSection} {a : List Char} :
    a ∈ GlobalConfig.addresses q.reader q.title ↔ q.Lists a := by
  let address (i : Nat) := q.reader.get q.title (GlobalConfig.addressName i) []
  let all := (List.range (q.reader.values.length + 1)).map address
  have start : GlobalConfig.addresses q.reader q.title <+: all := List.takeWhile_prefix _
  have taken (i : Nat) (inside : i < (GlobalConfig.addresses q.reader q.title).length) :
      (GlobalConfig.addresses q.reader q.title)[i] = address i := by
    rw [start.getElem inside]
    simp [all]
  constructor
  · intro member
    obtain ⟨i, inside, rfl⟩ := List.getElem_of_mem member
    refine ⟨i, (taken i inside).symm, fun j le => ?_⟩
    have passed := List.mem_takeWhile_imp
      (List.getElem_mem (Nat.lt_of_le_of_lt le inside))
    rw [taken j (Nat.lt_of_le_of_lt le inside)] at passed
    exact of_decide_eq_true passed
  · rintro ⟨i, rfl, present⟩
    have inside : i < (GlobalConfig.addresses q.reader q.title).length := by
      by_contra outside
      exact present _ (Nat.not_lt.mp outside) (GlobalConfig.addresses_end q.reader q.title)
    exact List.mem_of_getElem (taken i inside)

/-- The settings of a section depend on nothing but the defaults. -/
theorem settings_same (same : SameDefaults gc gc') (q : IniSection) (iface : List Char) :
    q.settings fileExists gc' iface = q.settings fileExists gc iface := by
  unfold IniSection.settings GlobalConfig.loadTpv3Settings
  rw [same.tpv3Defaults]

/-- Nothing but a filter is left of a name that was not given on the command line. -/
theorem held_clear_free (later : Later {} (held gc n)) :
    held (gc.clearInterfaces false) n = { filter := (held gc n).filter } := by
  rcases held_clear gc n with ⟨-, left⟩ | ⟨uncleared, left⟩
  · exact left
  · have none (role : InterfaceRole) : (held gc n).entries role = Option.none := by
      cases there : (held gc n).entries role with
      | none => rfl
      | some entry => cases later.given uncleared there
    have unknown : ¬ (held gc n).Known := by
      rintro ⟨role, there⟩
      rw [none] at there
      cases there
    have addrs : (held gc n).addrs = Option.none := by
      cases there : (held gc n).addrs with
      | none => rfl
      | some set => exact ((later.addrs set there).resolve_left unknown).symm
    have peer : (held gc n).peer = Option.none := by
      cases there : (held gc n).peer with
      | none => rfl
      | some peer => exact ((later.peer peer there).resolve_left unknown).symm
    rw [left, ← addrs, ← peer, ← funext none]

/-- **A section** whose name is held by nothing but a filter. -/
theorem Loads.exactly {q : IniSection} (loads : Loads fileExists sections gc gc')
    (interfaces : ∀ q ∈ sections, isInterface q.title = true)
    (plain : ∀ q ∈ sections, q.Valid → '-' ∉ q.iface)
    (distinct : (sections.map IniSection.iface).Nodup) (member : q ∈ sections) (valid : q.Valid)
    {filter : Option (List Char)} (free : held gc q.iface = { filter }) :
    ∃ entry, q.settings fileExists gc q.iface = some entry ∧
      held gc' q.iface = Held.add { filter } q entry := by
  obtain ⟨before, after, rfl⟩ := List.append_of_mem member
  have cuts (q' : IniSection) (there : q' ∈ before ++ q :: after) (valid' : q'.Valid) :
      q'.cut = q'.iface := cut_eq (interfaces q' there) (plain q' there valid')
  rw [List.map_append, List.map_cons, List.nodup_middle, List.nodup_cons] at distinct
  have apart (q' : IniSection) (there : q' ∈ before ++ after) : q'.iface ≠ q.iface := by
    intro same
    refine distinct.1 ?_
    rw [← List.map_append, ← same]
    exact List.mem_map_of_mem there
  have inside {q' : IniSection} (there : q' ∈ before ++ after) : q' ∈ before ++ q :: after := by
    rcases List.mem_append.mp there with left | right
    · exact List.mem_append_left _ left
    · exact List.mem_append_right _ (List.mem_cons_of_mem _ right)
  have other (q' : IniSection) (there : q' ∈ before ++ after) (valid' : q'.Valid) :
      q'.cut ≠ q.iface := by
    rw [cuts q' (inside there) valid']
    exact apart q' there
  obtain ⟨gc₁, first, rest⟩ := loads.split
  have held₁ : held gc₁ q.iface = { filter } := by
    rw [← free]
    exact first.frame fun q' there => other q' (List.mem_append_left _ there)
  cases rest with
  | cons effect last =>
    have own := cuts q member valid
    have later := last.frame fun q' there => other q' (List.mem_append_right _ there)
    rw [later]
    cases effect with
    | passed _ reason =>
      rw [own, held₁] at reason
      rcases reason with other | invalid | there
      · rw [interfaces q member] at other
        cases other
      · exact absurd valid invalid
      · cases there
    | stopped _ other => exact absurd rfl other
    | added entry _ _ set changed _ =>
      rw [own] at set
      refine ⟨entry, (settings_same first.same q q.iface).symm.trans set, ?_⟩
      rw [changed, if_pos own.symm, held₁]

/-- A new interface holds what its section says if the filter that was there is the same. -/
theorem exactly_add {q : IniSection} {entry : Nat × InterfaceConfig}
    {filter : Option (List Char)} (set : q.settings fileExists cmd q.iface = some entry)
    (same : ∀ f, filter = some f → q.value "filter" = some f) :
    Exactly fileExists cmd q (Held.add { filter } q entry) := by
  refine ⟨⟨entry, set, fun role => ?_⟩, fun a => ?_, ?_, ?_⟩
  · rcases enter_entries { filter } q.role entry with ⟨⟨role', there⟩, -⟩ | ⟨-, entries⟩
    · cases there
    · exact congrFun entries role
  · refine Iff.trans ?_ mem_addresses
    refine (mem_addAll _ _).trans ?_
    simp
  · simp [Held.add]
  · cases filter with
    | none => simp [Held.add]
    | some f =>
      rw [same f rfl]
      simp [Held.add]

theorem isInterface_of_mem {readers : List IniReader} {q : IniSection}
    (member : q ∈ interfaceSections readers) : isInterface q.title = true := by
  obtain ⟨r, -, inner⟩ := List.mem_flatMap.mp member
  obtain ⟨s, inside, rfl⟩ := List.mem_map.mp inner
  exact List.of_mem_filter inside

variable {reader : IniReader} {files : List IniReader}

/-- Without a hindrance the files alone decide. -/
theorem configured_of_unhindered (earlier : Earlier cmd gc)
    (loaded : gc.loadInterfaces fileExists reader files = (gc', some true))
    (distinct : ((interfaceSections (reader :: files)).map IniSection.iface).Nodup)
    (apart : ∀ q ∈ interfaceSections (reader :: files), held cmd q.iface = {})
    (unhindered : Unhindered cmd (interfaceSections (reader :: files)) gc) :
    Configured fileExists cmd (interfaceSections (reader :: files)) gc' := by
  have interfaces : ∀ q ∈ interfaceSections (reader :: files), isInterface q.title = true :=
    fun q => isInterface_of_mem
  rcases loads_interfaces loaded with ⟨ignored, rfl⟩ | ⟨-, loads⟩
  · refine ⟨fun q member valid named => ?_, fun n _ => earlier.ignored ignored n⟩
    exact absurd (unhindered.enabled ignored q member valid) named
  · constructor
    · intro q member valid named
      have later := earlier.later q.iface
      rw [apart q member] at later
      obtain ⟨entry, set, holds⟩ := loads.exactly interfaces unhindered.plain distinct member valid
        (held_clear_free later)
      rw [holds]
      refine exactly_add ?_ (unhindered.filter q member valid named)
      rw [← set, settings_same (earlier.same.trans same_clear)]
    · intro n other
      have frame := loads.frame fun q member valid => by
        rw [cut_eq (interfaces q member) (unhindered.plain q member valid)]
        exact other q member valid
      rw [frame]
      have filters : ∀ f, (held gc n).filter = some f → (held cmd n).filter = some f :=
        unhindered.stale n other
      rcases held_clear gc n with ⟨-, left⟩ | ⟨uncleared, left⟩
      · rw [left]
        exact ⟨nofun, nofun, nofun, filters⟩
      · rw [left]
        have later := earlier.later n
        have known (known : (held gc n).Known) : (held cmd n).Known := by
          obtain ⟨role, there⟩ := known
          obtain ⟨entry, there⟩ := Option.isSome_iff_exists.mp there
          exact ⟨role, Option.isSome_of_mem (later.given uncleared there)⟩
        refine ⟨fun role entry => later.given uncleared, fun set there => ?_, fun peer there => ?_,
          filters⟩
        · rcases later.addrs set there with here | same
          · exact (unhindered.given n (known here)).1 set there
          · exact same
        · rcases later.peer peer there with here | same
          · exact (unhindered.given n (known here)).2 peer there
          · exact same

/-- What hinders the files shows in what they leave. -/
theorem unhindered_of_configured (earlier : Earlier cmd gc)
    (loaded : gc.loadInterfaces fileExists reader files = (gc', some true))
    (distinct : ((interfaceSections (reader :: files)).map IniSection.iface).Nodup)
    (apart : ∀ q ∈ interfaceSections (reader :: files), held cmd q.iface = {})
    (configured : Configured fileExists cmd (interfaceSections (reader :: files)) gc') :
    Unhindered cmd (interfaceSections (reader :: files)) gc := by
  have free {q : IniSection} (member : q ∈ interfaceSections (reader :: files)) :
      Later {} (held gc q.iface) := by
    rw [← apart q member]
    exact earlier.later q.iface
  -- an interface of the command line has no section
  have other {n : List Char} (known : (held cmd n).Known) :
      ∀ q ∈ interfaceSections (reader :: files), q.Valid → q.iface ≠ n := by
    rintro q member - rfl
    rw [apart q member] at known
    obtain ⟨role, there⟩ := known
    cases there
  rcases loads_interfaces loaded with ⟨ignored, rfl⟩ | ⟨enabled, loads⟩
  · have within (n : List Char) := earlier.ignored ignored n
    have nameless : ∀ q ∈ interfaceSections (reader :: files), q.Valid → q.iface = [] := by
      intro q member valid
      by_contra named
      obtain ⟨entry, -, entries⟩ := (configured.named q member valid named).entry
      have given := (within q.iface).entries q.role entry ((entries q.role).trans (if_pos rfl))
      rw [apart q member] at given
      cases given
    refine ⟨fun _ => nameless, fun q member valid => ?_, fun q member valid named => ?_,
      fun n _ => (within n).filter, fun n _ => ⟨(within n).addrs, (within n).peer⟩⟩
    · rw [nameless q member valid]
      exact List.not_mem_nil
    · exact absurd (nameless q member valid) named
  · have plain : ∀ q ∈ interfaceSections (reader :: files), q.Valid → '-' ∉ q.iface := by
      intro q member valid dash
      have named : q.iface ≠ [] := List.ne_nil_of_mem dash
      obtain ⟨entry, -, entries⟩ := (configured.named q member valid named).entry
      have untouched := loads.frame (n := q.iface) fun q' _ _ same =>
        cut_plain q' (same ▸ dash)
      have there : (held gc' q.iface).entries q.role = some entry :=
        (entries q.role).trans (if_pos rfl)
      rw [untouched, held_clear_free (free member)] at there
      cases there
    have left {n : List Char}
        (unnamed : ∀ q ∈ interfaceSections (reader :: files), q.Valid → q.iface ≠ n) :
        Within (held cmd n) (held (gc.clearInterfaces false) n) := by
      have within := configured.rest n unnamed
      rw [loads.frame fun q member valid => by
        rw [cut_eq (isInterface_of_mem member) (plain q member valid)]
        exact unnamed q member valid] at within
      exact within
    refine ⟨fun ignored => ?_, plain, fun q member valid named filter there => ?_,
      fun n unnamed filter there => ?_, fun n known => ?_⟩
    · rw [enabled] at ignored
      cases ignored
    · obtain ⟨entry, -, holds⟩ := loads.exactly (fun q => isInterface_of_mem) plain distinct member
        valid (held_clear_free (free member))
      have own := (configured.named q member valid named).filter
      have there : (held gc q.iface).filter = some filter := there
      rw [holds, there] at own
      simpa [Held.add] using own.symm
    · refine (left unnamed).filter filter ?_
      rcases held_clear gc n with ⟨-, same⟩ | ⟨-, same⟩
      · rw [same]
        exact there
      · rw [same]
        exact there
    · have within := left (other known)
      rcases held_clear gc n with ⟨cleared, -⟩ | ⟨-, same⟩
      · exact absurd cleared ((earlier.later n).not_cleared known)
      · rw [same] at within
        exact ⟨within.addrs, within.peer⟩

/-- **The files alone decide** what is configured, exactly where nothing hinders them. -/
theorem configured_iff {exists' : List Char → Bool} {ignore : Bool} {captureType : Nat}
    {tpv3Defaults : ConfigTpv3} {line : CommandLine}
    (given : Reaches (parseArgument exists') Always
      { gc := bare ignore captureType tpv3Defaults } line)
    (reached : Reaches change Always line.gc gc)
    (loaded : gc.loadInterfaces fileExists reader files = (gc', some true))
    (distinct : ((interfaceSections (reader :: files)).map IniSection.iface).Nodup)
    (apart : ∀ q ∈ interfaceSections (reader :: files), held line.gc q.iface = {}) :
    Configured fileExists line.gc (interfaceSections (reader :: files)) gc' ↔
      Unhindered line.gc (interfaceSections (reader :: files)) gc :=
  have earlier := earlier_reached given reached
  ⟨unhindered_of_configured earlier loaded distinct apart,
    configured_of_unhindered earlier loaded distinct apart⟩

/-! ## Files with one section -/

/-- The title of an interface's section. -/
def titleOf (name : String) : List Char := sectionKey ++ name.toList

/-- A file with one interface and one more setting of it. -/
def oneInterface (name setting value : String) : IniReader where
  sections := [titleOf name]
  values := [((titleOf name, "role".toList), "LAN".toList),
    ((titleOf name, setting.toList), value.toList)]

/-- What such a file leaves when it is read with no others. -/
def reload (gc : GlobalConfig) (r : IniReader) : GlobalConfig :=
  (gc.loadInterfaces (fun _ => false) r []).1

/-- No options about interfaces. -/
def noOptions : CommandLine where
  gc := bare false CaptureType.pcap {}

/-- What it captured on before. -/
def onEth0 : GlobalConfig := reload noOptions.gc (oneInterface "eth0" "address[0]" "10.0.0.1")

/-- The agent captured on another interface before. -/
theorem eth1_configured : Configured (fun _ => false) noOptions.gc
    (interfaceSections [oneInterface "eth1" "peer" "ppp0"])
    (reload onEth0 (oneInterface "eth1" "peer" "ppp0")) := by
  have given : Reaches (parseArgument fun _ => false) Always noOptions noOptions := .start
  have reached : Reaches change Always noOptions.gc onEth0 :=
    .next (a := .load (fun _ => false) (oneInterface "eth0" "address[0]" "10.0.0.1") []) .start rfl
      trivial
  have loaded : onEth0.loadInterfaces (fun _ => false) (oneInterface "eth1" "peer" "ppp0") [] =
      (reload onEth0 (oneInterface "eth1" "peer" "ppp0"), some true) := by
    refine Prod.ext rfl ?_
    decide +kernel
  have alone : interfaceSections [oneInterface "eth1" "peer" "ppp0"] =
      [⟨oneInterface "eth1" "peer" "ppp0", titleOf "eth1"⟩] := rfl
  have filters (n : List Char) : onEth0.interfaceFilters.get n = none := by
    have empty : onEth0.interfaceFilters = ∅ := by decide +kernel
    rw [empty]
    rfl
  refine (configured_iff given reached loaded ?_ fun _ _ => rfl).mpr ⟨nofun, ?_, ?_, ?_, ?_⟩
  · rw [alone]
    exact List.nodup_singleton _
  · rw [alone]
    rintro q member -
    have name : q.iface = "eth1".toList := by rw [List.mem_singleton.mp member]; rfl
    rw [name]
    decide
  · intro q _ _ _ filter there
    rw [filters] at there
    cases there
  · intro n _ filter there
    rw [filters] at there
    cases there
  · rintro n ⟨role, there⟩
    cases there

/-- An interface with a `-` in its name is known by another, and a filter outlasts the file
that set it. -/
theorem files_not_alone :
    (∃ gc', noOptions.gc.loadInterfaces (fun _ => false) (oneInterface "br-lan" "peer" "ppp0") [] =
        (gc', some true) ∧
      ¬ Configured (fun _ => false) noOptions.gc
        (interfaceSections [oneInterface "br-lan" "peer" "ppp0"]) gc') ∧
    ∃ gc', (reload noOptions.gc (oneInterface "eth0" "filter" "tcp")).loadInterfaces
        (fun _ => false) (oneInterface "eth0" "filter" "udp") [] = (gc', some true) ∧
      ¬ Configured (fun _ => false) noOptions.gc
        (interfaceSections [oneInterface "eth0" "filter" "udp"]) gc' := by
  constructor
  · refine ⟨reload noOptions.gc (oneInterface "br-lan" "peer" "ppp0"),
      Prod.ext rfl (by decide +kernel), ?_⟩
    intro configured
    have own := configured.named ⟨oneInterface "br-lan" "peer" "ppp0", titleOf "br-lan"⟩
      (List.mem_singleton_self _) (by decide +kernel) (by decide +kernel)
    obtain ⟨entry, -, entries⟩ := own.entry
    have missing : (held (reload noOptions.gc (oneInterface "br-lan" "peer" "ppp0"))
        "br-lan".toList).entries .lan = none := by decide +kernel
    cases missing.symm.trans (entries .lan)
  · refine ⟨reload (reload noOptions.gc (oneInterface "eth0" "filter" "tcp"))
      (oneInterface "eth0" "filter" "udp"), Prod.ext rfl (by decide +kernel), ?_⟩
    intro configured
    have own := configured.named ⟨oneInterface "eth0" "filter" "udp", titleOf "eth0"⟩
      (List.mem_singleton_self _) (by decide +kernel) (by decide +kernel)
    have kept : (held (reload (reload noOptions.gc (oneInterface "eth0" "filter" "tcp"))
        (oneInterface "eth0" "filter" "udp")) "eth0".toList).filter = some "tcp".toList := by
      decide +kernel
    have set : IniSection.value ⟨oneInterface "eth0" "filter" "udp", titleOf "eth0"⟩ "filter" =
        some "udp".toList := by decide +kernel
    cases kept.symm.trans (own.filter.trans set)

end NetifyAgent.InterfaceFiles
