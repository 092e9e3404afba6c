import NetifyAgent.Interfaces
import NetifyAgent.NdAddrType

/-! Reloading the capture threads. The interfaces that are configured now are compared
with those that run: an interface that is no longer configured or whose settings have
changed is torn down, and threads are created for those that are new or have changed.
Whether the configuration could be loaded is not looked at. -/
namespace NetifyAgent

/-- `ndInterface`, without its addresses and endpoints. -/
structure NdInterface where
  ifname : List Char
  ifnamePeer : List Char
  captureType : Nat
  role : InterfaceRole
  configPcap : ConfigPcap := {}
  configTpv3 : ConfigTpv3 := {}
  configNfq : ConfigNfq := {}
  deriving DecidableEq, Repr

namespace NdInterface

/-- `SetConfig`, of settings that are those of the interface's type. -/
def setConfig (iface : NdInterface) : InterfaceConfig → NdInterface
  | .null => iface
  | .pcap configPcap => { iface with configPcap }
  | .tpv3 configTpv3 => { iface with configTpv3 }
  | .nfq configNfq => { iface with configNfq }

/-- `operator==`. -/
def same (a b : NdInterface) : Bool :=
  let type := CaptureType.type a.captureType
  a.ifname == b.ifname && a.ifnamePeer == b.ifnamePeer && a.captureType == b.captureType &&
    a.role == b.role &&
    if type = CaptureType.pcap ∨ type = CaptureType.pcapOffline then a.configPcap == b.configPcap
    else if type = CaptureType.tpv3 then a.configTpv3 == b.configTpv3
    else if type = CaptureType.nfq then a.configNfq == b.configNfq
    else true

/-- The threads that capture on an interface: none for a type that is not
supported. -/
def instances (iface : NdInterface) : Nat :=
  let type := CaptureType.type iface.captureType
  if type = CaptureType.pcap ∨ type = CaptureType.pcapOffline then 1
  else if type = CaptureType.tpv3 then
    if iface.configTpv3.fanoutMode = .disabled ∨ iface.configTpv3.fanoutInstances < 2 then 1
    else iface.configTpv3.fanoutInstances
  else if type = CaptureType.nfq then
    if iface.configNfq.instances = 0 then 1 else iface.configNfq.instances
  else 0

end NdInterface

/-- `ndInterfaces`. -/
abbrev NdInterfaces := OrderedMap (List Char) NdInterface

/-- `nd_capture_threads`. Threads are told apart by numbers. -/
abbrev CaptureThreads := OrderedMap (List Char) (List Nat)

/-- What a reload finds: the files and the world around. -/
structure ReloadInput where
  /-- The reader of `conf_filename`. -/
  reader : IniReader := {}
  /-- Those of the files in `path_interfaces`. -/
  files : List IniReader := []
  fileExists : List Char → Bool := fun _ => false
  /-- Whether creating a capture thread on an interface throws. -/
  throws : NdInterface → Bool := fun _ => false
  pton : Pton
  /-- How the interfaces are traversed when an address belongs to a new one. -/
  arrange : NdAddrType → Addr → List Char → List (List Char) := fun types addr ifname =>
    ifname :: if addr.isIPv4 then types.ipv4Iface.names else types.ipv6Iface.names

/-- `ndInstance`, as far as it captures, and `ndGC`. -/
structure CaptureInstance where
  gc : GlobalConfig := {}
  interfaces : NdInterfaces := ∅
  threads : CaptureThreads := ∅
  addrTypes : NdAddrType := {}
  /-- The number of threads created so far. -/
  created : Nat := 0

namespace CaptureInstance

/-- `CreateCaptureInterfaces`. -/
def createCaptureInterfaces (gc : GlobalConfig) : NdInterfaces :=
  let all := InterfaceRole.all.flatMap fun role => (gc.interfaces role).entries.map (role, ·)
  all.foldl (fun ifaces (role, name, type, config) =>
    let iface := (ifaces.get name).getD
      (NdInterface.setConfig
        { ifname := name, ifnamePeer := name, captureType := type, role } config)
    ifaces.set name { iface with
      ifnamePeer := (gc.interfacePeers.get name).getD iface.ifnamePeer }) ∅

/-- The loop of `CreateCaptureThreads` over the interfaces. -/
def threadGroups (ifaces : NdInterfaces) (threads : CaptureThreads) (created : Nat) :
    CaptureThreads × Nat :=
  ifaces.entries.foldl (fun (threads, created) (name, iface) =>
    if iface.instances = 0 then (threads, created)
    else (threads.set name (List.range' created iface.instances), created + iface.instances))
    (threads, created)

/-- `CreateCaptureThreads`. `none` is thrown. -/
def createCaptureThreads (throws : NdInterface → Bool) (ifaces : NdInterfaces)
    (threads : CaptureThreads) (created : Nat) : (CaptureThreads × Nat) × Option Bool :=
  if threads.entries ≠ [] then ((threads, created), some false)
  else if ifaces.entries.any fun e => e.2.instances ≠ 0 ∧ throws e.2 then
    ((threads, created), none)
  else (threadGroups ifaces threads created, some true)

variable (env : ReloadInput)

/-- `addr_types.AddAddress(ndAddr::atLOCAL, a, ifname)`. -/
def addLocal (types : NdAddrType) (ifname a : List Char) : NdAddrType :=
  let addr := Addr.ofText env.pton a
  (types.addAddress (env.arrange types addr ifname) .atLocal addr ifname).1

/-- `addr_types.RemoveAddress(a, ifname)`. -/
def remove (types : NdAddrType) (ifname a : List Char) : NdAddrType :=
  (types.removeAddress (Addr.ofText env.pton a) ifname).1

/-- An interface whose settings are the same: addresses that it did not have are
added, and those that it no longer has removed. -/
def keepInterface (old new : GlobalConfig) (types : NdAddrType) (ifname : List Char) :
    NdAddrType :=
  let types := ((new.listed ifname).filter fun a => !(old.listed ifname).contains a).foldl
    (fun types a => addLocal env types ifname a) types
  ((old.listed ifname).filter fun a => !(new.listed ifname).contains a).foldl
    (fun types a => remove env types ifname a) types

/-- The loop over `ifaces_common`: the address tables, `ifaces_new` and
`ifaces_delete`. It is given up at an interface that does not run. -/
def commonLoop (old new : GlobalConfig) (interfaces : NdInterfaces) :
    List (List Char × NdInterface) → NdAddrType × NdInterfaces × NdInterfaces →
      (NdAddrType × NdInterfaces × NdInterfaces) × Bool
  | [], s => (s, true)
  | (name, iface) :: rest, (types, ifacesNew, ifacesDelete) =>
    match interfaces.get name with
    | none => ((types, ifacesNew, ifacesDelete), false)
    | some running =>
      if running.same iface then
        commonLoop old new interfaces rest
          (keepInterface env old new types name, ifacesNew, ifacesDelete)
      else
        commonLoop old new interfaces rest
          (types, ifacesNew.emplace name iface, ifacesDelete.emplace name iface)

/-- The body of the loop over `ifaces_delete`. -/
def deleteInterface (self : CaptureInstance) (name : List Char) : CaptureInstance :=
  { self with
    addrTypes := (self.gc.listed name).foldl (fun types a => remove env types name a) self.addrTypes
    gc := { self.gc with interfaceAddrs := self.gc.interfaceAddrs.erase name }
    threads := self.threads.erase name
    interfaces := self.interfaces.erase name }

/-- The body of the loop over `ifaces_new`. -/
def startInterface (self : CaptureInstance) (name : List Char) (iface : NdInterface) :
    CaptureInstance :=
  { self with
    interfaces := self.interfaces.emplace name iface
    addrTypes := (self.gc.listed name).foldl (fun types a => addLocal env types name a)
      self.addrTypes }

/-- The end of `ReloadCaptureThreads`, once the interfaces are compared. -/
def replaceThreads (self : CaptureInstance) (ifacesNew ifacesDelete : NdInterfaces) :
    CaptureInstance × Option Bool :=
  let self := ifacesDelete.entries.foldl (fun self e => self.deleteInterface env e.1) self
  match createCaptureThreads env.throws ifacesNew ∅ self.created with
  | ((threadsNew, created), some true) =>
    let self := ifacesNew.entries.foldl (fun self e => self.startInterface env e.1 e.2)
      { self with created }
    ({ self with
      threads := threadsNew.entries.foldl (fun threads e => threads.emplace e.1 e.2)
        self.threads }, some true)
  | _ => (self, some false)

/-- `ReloadCaptureThreads`. `none` is thrown. -/
def reloadCaptureThreads (self : CaptureInstance) : CaptureInstance × Option Bool :=
  let old := self.gc
  match self.gc.loadInterfaces env.fileExists env.reader env.files with
  | (gc, none) => ({ self with gc }, none)
  -- Whether `true` or `false` was returned makes no difference.
  | (gc, some _) =>
    let ifaces := createCaptureInterfaces gc
    let ifacesNew := ifaces.filter fun e => (self.interfaces.get e.1).isNone
    let ifacesCommon := ifaces.filter fun e => (self.interfaces.get e.1).isSome
    let ifacesDelete := self.interfaces.filter fun e => (ifaces.get e.1).isNone
    match commonLoop env old gc self.interfaces ifacesCommon.entries
      (self.addrTypes, ifacesNew, ifacesDelete) with
    | ((addrTypes, _, _), false) => ({ self with gc, addrTypes }, some false)
    | ((addrTypes, ifacesNew, ifacesDelete), true) =>
      replaceThreads env { self with gc, addrTypes } ifacesNew ifacesDelete

/-! ## What a reload does -/

variable (self : CaptureInstance)

/-- The configuration after loading and what `LoadInterfaces` returns. -/
def loaded : GlobalConfig × Option Bool :=
  self.gc.loadInterfaces env.fileExists env.reader env.files

/-- The interfaces that are configured then. -/
def configured : NdInterfaces := createCaptureInterfaces (self.loaded env).1

/-- An interface that runs and is configured with the same settings. -/
def kept (interfaces ifaces : NdInterfaces) (name : List Char) : Bool :=
  ((interfaces.get name).bind fun running => (ifaces.get name).map running.same).getD false

/-- The interfaces that are configured and to be kept. -/
def remaining : NdInterfaces :=
  (self.configured env).filter fun e => kept self.interfaces (self.configured env) e.1

/-- Those that are new or have changed. -/
def started : NdInterfaces :=
  (self.configured env).filter fun e => !kept self.interfaces (self.configured env) e.1

/-- Those that run and are deleted or have changed. -/
def stopped : NdInterfaces :=
  self.interfaces.filter fun e => !kept self.interfaces (self.configured env) e.1

/-- The address tables after the loop over `ifaces_common`. -/
def keptTypes : NdAddrType :=
  (self.remaining env).keys.foldl (keepInterface env self.gc (self.loaded env).1) self.addrTypes

variable {env} {self}

theorem kept_eq {interfaces ifaces : NdInterfaces} {name : List Char} {running iface : NdInterface}
    (here : interfaces.get name = some running) (there : ifaces.get name = some iface) :
    kept interfaces ifaces name = running.same iface := by
  simp [kept, here, there]

theorem kept_true {interfaces ifaces : NdInterfaces} {name : List Char}
    (holds : kept interfaces ifaces name = true) : ∃ running iface,
      interfaces.get name = some running ∧ ifaces.get name = some iface ∧ running.same iface := by
  unfold kept at holds
  cases here : interfaces.get name with
  | none => simp [here] at holds
  | some running =>
    cases there : ifaces.get name with
    | none => simp [here, there] at holds
    | some iface => exact ⟨running, iface, rfl, rfl, by simpa [here, there] using holds⟩

/-- **The loop over `ifaces_common`**, where all of them run. -/
theorem commonLoop_eq {old new : GlobalConfig} {interfaces ifaces : NdInterfaces}
    {entries : List (List Char × NdInterface)}
    (run : ∀ e ∈ entries, (interfaces.get e.1).isSome ∧ ifaces.get e.1 = some e.2)
    (types : NdAddrType) (ifacesNew ifacesDelete : NdInterfaces) :
    commonLoop env old new interfaces entries (types, ifacesNew, ifacesDelete) =
      (((entries.filter fun e => kept interfaces ifaces e.1).foldl
          (fun types e => keepInterface env old new types e.1) types,
        (entries.filter fun e => !kept interfaces ifaces e.1).foldl
          (fun ifaces e => ifaces.emplace e.1 e.2) ifacesNew,
        (entries.filter fun e => !kept interfaces ifaces e.1).foldl
          (fun ifaces e => ifaces.emplace e.1 e.2) ifacesDelete), true) := by
  induction entries generalizing types ifacesNew ifacesDelete with
  | nil => rfl
  | cons e rest ih =>
    obtain ⟨name, iface⟩ := e
    have later := ih fun e member => run e (List.mem_cons_of_mem _ member)
    obtain ⟨running, there⟩ := run (name, iface) (List.mem_cons_self ..)
    obtain ⟨running, here⟩ := Option.isSome_iff_exists.mp running
    have settings : kept interfaces ifaces name = running.same iface := kept_eq here there
    rw [commonLoop, here]
    cases same : running.same iface with
    | true =>
      simp [same, later, settings]
    | false =>
      simp [same, later, settings]

/-- Of the interfaces to delete only the names count. -/
theorem replaceThreads_keys {ifacesDelete ifacesDelete' : NdInterfaces}
    (same : ifacesDelete.keys = ifacesDelete'.keys) (ifacesNew : NdInterfaces) :
    replaceThreads env self ifacesNew ifacesDelete =
      replaceThreads env self ifacesNew ifacesDelete' := by
  have loop (ifaces : NdInterfaces) :
      ifaces.entries.foldl (fun self e => self.deleteInterface env e.1) self =
        ifaces.keys.foldl (deleteInterface env) self := (List.foldl_map ..).symm
  unfold replaceThreads
  rw [loop, loop, same]

/-- **A reload**: the interfaces that are kept have their addresses brought up to date,
the others that run are stopped, and the others that are configured are started. -/
theorem reload_eq {b : Bool} (returned : (self.loaded env).2 = some b) :
    reloadCaptureThreads env self = replaceThreads env { self with
      gc := (self.loaded env).1
      addrTypes := self.keptTypes env } (self.started env) (self.stopped env) := by
  let common := (self.configured env).filter fun e => (self.interfaces.get e.1).isSome
  let changed := common.filter fun e => !kept self.interfaces (self.configured env) e.1
  have run (e : List Char × NdInterface) (member : e ∈ common.entries) :
      (self.interfaces.get e.1).isSome ∧ (self.configured env).get e.1 = some e.2 := by
    obtain ⟨held, runs⟩ := OrderedMap.get_filter_eq_some.mp (OrderedMap.mem_entries.mp member)
    exact ⟨runs, held⟩
  have loop := @commonLoop_eq env self.gc (self.loaded env).1 _ _ _ run self.addrTypes
    ((self.configured env).filter fun e => (self.interfaces.get e.1).isNone)
    (self.interfaces.filter fun e => ((self.configured env).get e.1).isNone)
  have types : (common.entries.filter fun e => kept self.interfaces (self.configured env) e.1).foldl
      (fun types e => keepInterface env self.gc (self.loaded env).1 types e.1) self.addrTypes =
        self.keptTypes env := by
    unfold keptTypes OrderedMap.keys
    rw [List.foldl_map]
    congr 1
    refine (List.filter_filter ..).trans (List.filter_congr fun e _ => ?_)
    cases same : kept self.interfaces (self.configured env) e.1 with
    | false => rfl
    | true =>
      obtain ⟨running, -, here, -⟩ := kept_true same
      simp [here]
  have changed_get (name : List Char) : changed.get name =
      if kept self.interfaces (self.configured env) name then none
      else if (self.interfaces.get name).isSome then (self.configured env).get name else none := by
    rw [OrderedMap.get_filter_key common fun name =>
      !kept self.interfaces (self.configured env) name, OrderedMap.get_filter_key _ fun name =>
      (self.interfaces.get name).isSome]
    cases kept self.interfaces (self.configured env) name <;> rfl
  have new : changed.entries.foldl (fun all e => all.emplace e.1 e.2)
      ((self.configured env).filter fun e => (self.interfaces.get e.1).isNone) =
        self.started env := by
    apply OrderedMap.ext_get
    intro name
    rw [OrderedMap.get_foldl_emplace, changed_get, started,
      OrderedMap.get_filter_key _ fun name => !kept self.interfaces (self.configured env) name,
      OrderedMap.get_filter_key _ fun name => (self.interfaces.get name).isNone]
    cases here : self.interfaces.get name with
    | none => simp [kept, here]
    | some running => cases kept self.interfaces (self.configured env) name <;> simp
  have delete : (changed.entries.foldl (fun all e => all.emplace e.1 e.2)
      (self.interfaces.filter fun e => ((self.configured env).get e.1).isNone)).keys =
        (self.stopped env).keys := by
    apply OrderedMap.keys_eq
    intro name
    rw [OrderedMap.get_foldl_emplace, changed_get, stopped,
      OrderedMap.get_filter_key _ fun name => !kept self.interfaces (self.configured env) name,
      OrderedMap.get_filter_key _ fun name => ((self.configured env).get name).isNone]
    cases here : self.interfaces.get name with
    | none => simp
    | some running =>
      cases there : (self.configured env).get name with
      | none => simp [kept, here, there]
      | some iface => cases kept self.interfaces (self.configured env) name <;> simp
  have split : self.gc.loadInterfaces env.fileExists env.reader env.files =
      ((self.loaded env).1, some b) := Prod.ext rfl returned
  have present : createCaptureInterfaces (self.loaded env).1 = self.configured env := rfl
  unfold reloadCaptureThreads
  simp only [split, present]
  rw [loop, types]
  exact (replaceThreads_keys delete _).trans (congrArg (replaceThreads env _ · _) new)

/-- What is left when interfaces are deleted. -/
structure Deleted (env : ReloadInput) (names : List (List Char))
    (before after : CaptureInstance) : Prop where
  interfaces : ∀ name, after.interfaces.get name =
    if name ∈ names then none else before.interfaces.get name
  threads : ∀ name, after.threads.get name =
    if name ∈ names then none else before.threads.get name
  listed : ∀ name, after.gc.listed name = if name ∈ names then [] else before.gc.listed name
  addrTypes : after.addrTypes = names.foldl (fun types name =>
    (before.gc.listed name).foldl (fun types a => remove env types name a) types) before.addrTypes
  created : after.created = before.created

theorem get_erased {T : Type} (map : OrderedMap (List Char) T) (name name' : List Char) :
    (map.erase name).get name' = if name' = name then none else map.get name' := by
  rw [OrderedMap.get_erase]
  by_cases same : name' = name
  · rw [if_pos same, if_pos same]
  · rw [if_neg same, if_neg same]

theorem listed_erase (gc : GlobalConfig) (name name' : List Char) :
    ({ gc with interfaceAddrs := gc.interfaceAddrs.erase name } : GlobalConfig).listed name' =
      if name' = name then [] else gc.listed name' := by
  unfold GlobalConfig.listed
  rw [get_erased]
  by_cases same : name' = name
  · rw [if_pos same, if_pos same]
  · rw [if_neg same, if_neg same]

theorem if_mem_cons {T : Type} (name first : List Char) (names : List (List Char)) (x y : T) :
    (if name ∈ names then x else if name = first then x else y) =
      if name ∈ first :: names then x else y := by
  by_cases later : name ∈ names <;> by_cases same : name = first <;> simp [later, same]

/-- The loop over `ifaces_delete`. -/
theorem deleted_names {names : List (List Char)} (distinct : names.Nodup)
    (self : CaptureInstance) :
    Deleted env names self (names.foldl (deleteInterface env) self) := by
  induction names generalizing self with
  | nil => exact ⟨fun _ => rfl, fun _ => rfl, fun _ => rfl, rfl, rfl⟩
  | cons first names ih =>
    obtain ⟨new, distinct⟩ := List.nodup_cons.mp distinct
    obtain ⟨interfaces, threads, listed, addrTypes, created⟩ :=
      ih distinct (self.deleteInterface env first)
    refine ⟨fun name => ?_, fun name => ?_, fun name => ?_, ?_, created⟩
    · rw [List.foldl_cons, interfaces, ← if_mem_cons]
      exact congrArg _ (get_erased ..)
    · rw [List.foldl_cons, threads, ← if_mem_cons]
      exact congrArg _ (get_erased ..)
    · rw [List.foldl_cons, listed, ← if_mem_cons]
      exact congrArg _ (listed_erase ..)
    · rw [List.foldl_cons, addrTypes, List.foldl_cons]
      refine List.foldl_ext _ _ _ fun types name member => ?_
      have other : name ≠ first := fun same => new (same ▸ member)
      have lists : (self.deleteInterface env first).gc.listed name = self.gc.listed name := by
        rw [deleteInterface, listed_erase, if_neg other]
      rw [lists]

/-- Creating the threads of an interface throws. -/
def Uncreated (env : ReloadInput) (ifaces : NdInterfaces) : Prop :=
  ∃ e ∈ ifaces.entries, e.2.instances ≠ 0 ∧ env.throws e.2 = true

instance (env : ReloadInput) (ifaces : NdInterfaces) : Decidable (Uncreated env ifaces) :=
  inferInstanceAs (Decidable (∃ e ∈ ifaces.entries, e.2.instances ≠ 0 ∧ env.throws e.2 = true))

/-- `CreateCaptureThreads` for the new threads. -/
theorem createCaptureThreads_eq (ifaces : NdInterfaces) (created : Nat) :
    createCaptureThreads env.throws ifaces ∅ created =
      if Uncreated env ifaces then ((∅, created), none)
      else (threadGroups ifaces ∅ created, some true) := by
  have same : (ifaces.entries.any fun e => e.2.instances ≠ 0 ∧ env.throws e.2) = true ↔
      Uncreated env ifaces := by
    simp [Uncreated]
  unfold createCaptureThreads
  rw [if_neg (fun other => other rfl)]
  by_cases thrown : Uncreated env ifaces
  · rw [if_pos thrown, if_pos (same.mpr thrown)]
  · rw [if_neg thrown, if_neg (fun any => thrown (same.mp any))]

/-- The interfaces that are to be stopped are gone, and then threads are created for those to
be started, or not. -/
theorem replaceThreads_eq (self : CaptureInstance) (ifacesNew ifacesDelete : NdInterfaces) :
    let after := ifacesDelete.keys.foldl (deleteInterface env) self
    replaceThreads env self ifacesNew ifacesDelete =
      if Uncreated env ifacesNew then (after, some false)
      else
        let groups := threadGroups ifacesNew ∅ self.created
        let all := ifacesNew.entries.foldl (fun self e => self.startInterface env e.1 e.2)
          { after with created := groups.2 }
        ({ all with
          threads := groups.1.entries.foldl (fun threads e => threads.emplace e.1 e.2)
            all.threads }, some true) := by
  intro after
  have created : after.created = self.created :=
    (deleted_names ifacesDelete.keys_nodup self).created
  have loop : ifacesDelete.entries.foldl (fun self e => self.deleteInterface env e.1) self =
      after := (List.foldl_map ..).symm
  unfold replaceThreads
  simp only [loop, created, createCaptureThreads_eq]
  by_cases thrown : Uncreated env ifacesNew
  · rw [if_pos thrown, if_pos thrown]
  · rw [if_neg thrown, if_neg thrown]

/-! ## A reload that fails -/

/-- `false` is returned, and everything is as it was. -/
structure Undone (env : ReloadInput) (before : CaptureInstance) : Prop where
  returned : (reloadCaptureThreads env before).2 = some false
  interfaces : (reloadCaptureThreads env before).1.interfaces = before.interfaces
  threads : (reloadCaptureThreads env before).1.threads = before.threads
  addrTypes : (reloadCaptureThreads env before).1.addrTypes = before.addrTypes

/-- Either part of a reload fails: loading, or creating threads. -/
def Fails (env : ReloadInput) (self : CaptureInstance) : Prop :=
  (self.loaded env).2 = some false ∨
    (self.loaded env).2 = some true ∧ Uncreated env (self.started env)

instance (env : ReloadInput) (self : CaptureInstance) : Decidable (Fails env self) :=
  inferInstanceAs (Decidable (_ ∨ _))

/-- Where the interfaces that are kept have the same addresses as before, there is
nothing to bring up to date. -/
theorem keptTypes_same
    (same : ∀ name ∈ (self.remaining env).keys,
      (self.loaded env).1.listed name = self.gc.listed name) :
    self.keptTypes env = self.addrTypes := by
  unfold keptTypes
  refine List.foldlRecOn (motive := fun types => types = self.addrTypes) _ _ rfl ?_
  intro types unchanged name member
  have none : ((self.gc.listed name).filter fun a => !(self.gc.listed name).contains a) = [] := by
    simp
  rw [keepInterface, same name member, none]
  exact unchanged

/-! ## Bad files and threads that are not created -/

/-- `inet_pton` is not asked. -/
def noAddresses : Pton := ⟨fun _ => none, fun _ => none⟩

/-- A configuration file with a section for each of these interfaces, with their role and
addresses. -/
def confFile (ifaces : List (String × String × List String)) : IniReader :=
  let key (iface : String) := ("capture-interface-" ++ iface).toList
  { sections := ifaces.map fun e => key e.1
    values := ifaces.flatMap fun e =>
      ((key e.1, "role".toList), e.2.1.toList) ::
        e.2.2.zipIdx.map fun a => ((key e.1, GlobalConfig.addressName a.2), a.1.toList) }

/-- A reload that reads this configuration file. -/
def reading (ifaces : List (String × String × List String)) : ReloadInput where
  reader := confFile ifaces
  pton := noAddresses

/-- It captures on `eth0`. -/
def onEth0 : CaptureInstance := (reloadCaptureThreads (reading [("eth0", "LAN", [])]) {}).1

/-- A reload with one more interface, whose thread cannot be created. -/
def withoutThread : ReloadInput :=
  { reading [("eth0", "LAN", []), ("eth1", "WAN", [])] with throws := fun _ => true }

/-- A reload in which a file of the directory cannot be parsed. -/
def malformed : ReloadInput :=
  { reading [("eth0", "LAN", []), ("eth1", "WAN", [])] with files := [{ parseError := 3 }] }

/-- A reload with another role, for which the thread cannot be created. -/
def otherRole : ReloadInput := { reading [("eth0", "WAN", [])] with throws := fun _ => true }

end CaptureInstance
end NetifyAgent
